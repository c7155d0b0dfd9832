import AnvilRing.Link.Network
import AnvilRing.Link.Upload
import AnvilRing.Hub.Control

/-!
# What is received for a stream reaches that stream only

* `Session.Passed`              a frame was taken up for a stream that is gone;
* `Session.passed_changes_nothing`   then the loop changes no stream before its next frame;
* `Session.Reachable.delivered`      heads and data reach the stream that they name;
* `no_cross_delivery`           all of it in every run of the hub with its tethers.
-/

namespace AnvilRing
open Wire

/-- where the loop may be behind a frame for stream `i` that it did not find -/
def LoopPc.Passing (i : UInt16) : LoopPc → Prop
  | .respHead _ _ => False
  | .data _ _ => False
  | .terminate _ _ _ _ => False
  | .remove j _ => j = i
  | _ => True

namespace Session
variable {lib : HttpLib} {s t u v : Session} {a : SessionAction} {i : UInt16} {n : Nat}

/-- only a registration puts an id into the map -/
theorem Move.streams (hm : Move lib s a t) : t.streams ⊆ s.streams ∨
    ∃ req j, s.forward = .allocated req j ∧ t.streams = insert j s.streams := by
  cases hm with
  | ownDrain | registryDrain => exact .inl (Finset.empty_subset _)
  | remove | guardRemove => exact .inl (Finset.erase_subset _ _)
  | register hf => exact .inr ⟨_, _, hf, rfl⟩
  | _ => exact .inl subset_rfl

/-- a stream that was registered once and is gone does not come back -/
theorem Move.notMem (hm : Move lib s a t) (hid : s.IdInv) (hr : (s.state i).registered = true)
    (hi : i ∉ s.streams) : i ∉ t.streams := by
  intro ht
  obtain hsub | ⟨req, j, hf, heq⟩ := hm.streams
  · exact hi (hsub ht)
  · rw [heq] at ht
    obtain rfl | ht := Finset.mem_insert.mp ht
    · have hfalse := hid.allocated req i hf
      rw [hr] at hfalse
      cases hfalse
    · exact hi ht

/-- the `n`th frame was for stream `i`, which was gone when it was taken up -/
structure Passed (i : UInt16) (n : Nat) (s : Session) : Prop where
  registered : (s.state i).registered = true
  gone : i ∉ s.streams
  later : n ≤ s.received.length
  passing : s.received.length = n → s.loop.Passing i

theorem Passed.move (h : Passed i n s) (hid : s.IdInv) (hm : Move lib s a t) : Passed i n t := by
  refine ⟨hm.registered h.registered, hm.notMem hid h.registered h.gone, ?_, ?_⟩
  · obtain heq | ⟨f, -, heq⟩ := Link.received_of_move hm
    · rw [heq]
      exact h.later
    · rw [heq, List.length_append]
      exact h.later.trans (Nat.le_add_right _ _)
  · intro hn
    cases hm with
    | takeUp hl =>
      change (s.received ++ [_]).length = n at hn
      rw [List.length_append, List.length_singleton] at hn
      have hlater := h.later
      omega
    | headOk hl | headBad hl | dataOk hl | dataBad hl | terminate hl =>
      have hp := h.passing hn
      rw [hl] at hp
      exact hp.elim
    | remove hl =>
      rename_i reply
      cases reply <;> trivial
    | control | frame | leave | reply | noReply | ownReturned | detached => trivial
    | _ => exact h.passing hn

theorem Passed.run {as : List SessionAction} (h : Passed i n s) (hr : Reachable lib s)
    (hrun : Machine.run (step lib) s as = some t) : Passed i n t := by
  have hboth : Passed i n t ∧ Reachable lib t := by
    refine Machine.run_invariant (P := fun s => Passed i n s ∧ Reachable lib s) ?_ ⟨h, hr⟩ hrun
    intro s a t hs hstep
    exact ⟨hs.1.move hs.2.idInv (move_of_step hstep), hs.2.step hstep⟩
  exact hboth.1

theorem takeUp_passing {f : Frame} (hf : concerns i f = true) (hi : i ∉ s.streams) :
    (s.takeUp f).Passing i := by
  cases f <;> simp only [concerns, beq_iff_eq, Bool.false_eq_true] at hf
  case respHead id raw =>
    subst hf
    rw [show s.takeUp (.respHead id raw) = .select from if_neg hi]
    trivial
  case data id b =>
    subst hf
    rw [show s.takeUp (.data id b) = .remove id (some callerUnavailable) from if_neg hi]
    exact rfl
  case «end» id r =>
    subst hf
    rw [show s.takeUp (.end id r) = .select from if_neg hi]
    trivial

/-- a frame for a stream that is gone is taken up -/
theorem passed_takeUp {f : Frame} (hl : s.loop = .frame f) (hf : concerns i f = true)
    (hreg : (s.state i).registered = true) (hi : i ∉ s.streams) (h : s.loopStep lib = some t) :
    Passed i t.received.length t ∧ t.state = s.state ∧ t.streams = s.streams := by
  unfold loopStep at h
  rw [hl] at h
  obtain rfl := Option.some.inj h
  exact ⟨⟨hreg, hi, le_rfl, fun _ => takeUp_passing hf hi⟩, rfl, rfl⟩

/-- until its next frame the loop changes no stream -/
theorem Passed.loopStep (h : Passed i s.received.length s) (ht : s.loopStep lib = some t) :
    t.state = s.state ∧ t.streams = s.streams := by
  have hp := h.passing rfl
  unfold Session.loopStep at ht
  split at ht
  · obtain rfl := Option.some.inj ht
    exact ⟨rfl, rfl⟩
  · next hl =>
    rw [hl] at hp
    exact hp.elim
  · next hl =>
    rw [hl] at hp
    exact hp.elim
  · next hl =>
    rw [hl] at hp
    exact hp.elim
  · next hl =>
    rw [hl] at hp
    obtain rfl := hp
    obtain rfl := Option.some.inj ht
    exact ⟨rfl, Finset.erase_eq_of_notMem h.gone⟩
  · obtain rfl := Option.some.inj ht
    unfold loopSend
    split <;> exact ⟨rfl, rfl⟩
  · cases ht

/-- a frame for a stream that is gone changes no stream, up to the frame behind it -/
theorem passed_changes_nothing {f : Frame} {as : List SessionAction} (hr : Reachable lib s)
    (hl : s.loop = .frame f) (hf : concerns i f = true) (hreg : (s.state i).registered = true)
    (hi : i ∉ s.streams) (ht : s.loopStep lib = some t)
    (hrun : Machine.run (step lib) t as = some u) (hu : u.received = t.received)
    (hv : u.loopStep lib = some v) : v.state = u.state ∧ v.streams = u.streams := by
  obtain ⟨hpassed, -, -⟩ := passed_takeUp hl hf hreg hi ht
  have hlater := hpassed.run (hr.step (a := .loop) ht) hrun
  rw [← hu] at hlater
  exact hlater.loopStep hv

/-- what was given to a stream came in for it, after its registration -/
theorem Reachable.delivered (h : Reachable lib s) (i : UInt16) :
    (∀ res, (s.state i).head = some res →
      ∃ raw, .respHead i raw ∈ s.since i ∧ parseHead lib raw = some (res, [])) ∧
    ∀ b, .chunk b ∈ (s.state i).chunks.log → .data i b ∈ s.since i := by
  obtain ⟨rest, l, hl, hacc⟩ := (h.responses i).split
  obtain ⟨hnone, hlog, -⟩ | ⟨raw, res, datas, hparse, -, hhead, hlog, rfl⟩ := hacc
  · constructor
    · intro res hres
      rw [hnone] at hres
      cases hres
    · intro b hb
      rw [hlog] at hb
      cases hb
  · constructor
    · intro res' hres
      obtain rfl := Option.some.inj (hhead.symm.trans hres)
      refine ⟨raw, ?_, hparse⟩
      rw [hl]
      exact List.mem_append_left _ List.mem_cons_self
    · intro b hb
      rw [hlog] at hb
      obtain ⟨b', hb', heq⟩ := List.mem_map.mp hb
      obtain rfl := ChunkOrEnd.chunk.inj heq
      rw [hl]
      exact List.mem_append_left _ (List.mem_cons_of_mem _ (List.mem_map.mpr ⟨b', hb', rfl⟩))

/-- an exhausted counter refuses the forward, and stays where it is -/
theorem allocate_exhausted {req : Request} (hf : s.forward = .reserved req) (hn : 65535 < s.nextId)
    (ht : s.forwardStep = some t) :
    t.forward = .returned (.error .idhausted) ∧ t.nextId = s.nextId ∧ t.streams = s.streams := by
  unfold forwardStep allocate at ht
  rw [hf] at ht
  simp only [if_pos hn, Option.some.injEq] at ht
  subst ht
  exact ⟨rfl, rfl, rfl⟩

end Session

/-! ## the tether's handles -/

namespace Link
variable {lib : HttpLib} {limit : Nat} {l : Link} {i : UInt16}

/-- the handle of a stream is that of its only pump -/
theorem Reachable.one_pump (hlimit : limit < 2 ^ 32) (h : Reachable lib limit l) {k : Nat}
    (hk : l.tether.streams.get i = some k) : (l.tether.pump k).id = i ∧
      ∀ m, m < l.tether.spawned → (l.tether.pump m).id = i → m = k := by
  have hinv := h.inv hlimit
  have hnodup := (hinv.proper.of_initial hinv.handled_isPrefix).nodup
  obtain ⟨hspawned, hid⟩ := h.tether.inv.handle i k hk
  refine ⟨hid, fun m hm hmi => ?_⟩
  exact h.tether.inv.pump_unique hnodup hm hspawned (hmi.trans hid.symm)

/-- a removal takes the handle of its id -/
theorem removed_handle {t : Tunnel} {j : UInt16} {k : Nat} (hk : t.streams.get j = some k)
    (hr : (t.remove i).streams.get j ≠ some k) : j = i := by
  rw [Tunnel.get_remove] at hr
  by_cases hj : j = i
  · exact hj
  · rw [if_neg hj] at hr
    exact absurd hk hr

/-- a completion takes the handle of the pump that completed -/
theorem Reachable.complete_own (hlimit : limit < 2 ^ 32) (h : Reachable lib limit l) {t : Tunnel}
    (ht : l.tether.complete = some t) {j : UInt16} {k : Nat}
    (hk : l.tether.streams.get j = some k) (hr : t.streams.get j ≠ some k) :
    ∃ rest, l.tether.completions = (j, k) :: rest := by
  unfold Tunnel.complete at ht
  split at ht
  · next id m rest _ hcompletions =>
    obtain rfl := Option.some.inj ht
    obtain rfl := removed_handle hk hr
    obtain ⟨-, hone⟩ := h.one_pump hlimit hk
    obtain ⟨hm, hid⟩ := h.tether.inv.completions j m (hcompletions ▸ List.mem_cons_self)
    obtain rfl := hone m hm hid
    exact ⟨rest, hcompletions⟩
  · cases ht

/-- END takes the handle of the one request with its id -/
theorem Reachable.end_own (hlimit : limit < 2 ^ 32) (h : Reachable lib limit l) {t : Tunnel}
    {m : Message} {r : Bytes} (hm : tetherDecode m = .ok (some (.end i r)))
    (ht : l.tether.recv m = some t) {j : UInt16} {k : Nat}
    (hk : l.tether.streams.get j = some k) (hr : t.streams.get j ≠ some k) :
    j = i ∧ (l.tether.pump k).id = i ∧
      ∀ m, m < l.tether.spawned → (l.tether.pump m).id = i → m = k := by
  unfold Tunnel.recv at ht
  split at ht
  · rw [hm] at ht
    obtain rfl := Option.some.inj ht
    obtain rfl := removed_handle hk hr
    exact ⟨rfl, h.one_pump hlimit hk⟩
  · cases ht

end Link

/-! ## the network -/

namespace Network
variable {digest : Bytes → String} {lib : HttpLib} {limit : Nat} {n n₁ n₂ n₃ : Network} {g : Nat}

theorem step_loop (h : step digest lib limit n (.hub (.session g .loop)) = some n₁) :
    g < n.hub.reg.nextGeneration ∧ n₁.hub.reg.nextGeneration = n.hub.reg.nextGeneration ∧
      (n.hub.sess g).loopStep lib = some (n₁.hub.sess g) := by
  obtain ⟨w, hw, rfl⟩ := Option.map_eq_some_iff.mp h
  obtain ⟨hg, hnext, hs, -⟩ := World.step_session hw
  exact ⟨hg, hnext, hs⟩

/-- a tether speaks of streams that were opened: a frame for one that is not registered changes
none, neither when it is taken up nor up to the next frame -/
theorem Reachable.unregistered (hlimit : limit < 2 ^ 32) (h : Reachable digest lib limit n)
    {f : Frame} {i : UInt16} {as : List NetworkAction} (hl : (n.hub.sess g).loop = .frame f)
    (hf : concerns i f = true) (hi : i ∉ (n.hub.sess g).streams)
    (h₁ : step digest lib limit n (.hub (.session g .loop)) = some n₁)
    (h₂ : Machine.run (step digest lib limit) n₁ as = some n₂)
    (hrec : (n₂.hub.sess g).received = (n₁.hub.sess g).received)
    (h₃ : step digest lib limit n₂ (.hub (.session g .loop)) = some n₃) :
    ((n₁.hub.sess g).state = (n.hub.sess g).state ∧
      (n₁.hub.sess g).streams = (n.hub.sess g).streams) ∧
    (n₃.hub.sess g).state = (n₂.hub.sess g).state ∧
      (n₃.hub.sess g).streams = (n₂.hub.sess g).streams := by
  have hr := h.hub.session g
  obtain ⟨hg, hnext, hloop₁⟩ := step_loop h₁
  obtain ⟨-, -, hloop₃⟩ := step_loop h₃
  have hreg : ((n.hub.sess g).state i).registered = true := by
    have hinv := (h.link g).inv hlimit
    refine hr.idInv.opened i (hinv.about i ?_)
    show (n.hub.sess g).loop.about = some i
    rw [hl]
    cases f <;> simp only [concerns, beq_iff_eq, Bool.false_eq_true] at hf
    all_goals exact congrArg some hf
  obtain ⟨bs, hbs⟩ := run_hub h₂
  obtain ⟨cs, hcs⟩ := World.run_session hbs (hnext.symm ▸ hg)
  obtain ⟨-, hstate, hstreams⟩ := Session.passed_takeUp hl hf hreg hi hloop₁
  exact ⟨⟨hstate, hstreams⟩,
    Session.passed_changes_nothing hr hl hf hreg hi hloop₁ hcs hrec hloop₃⟩

end Network

/-- **No cross-delivery.**  In every state of a hub with its tethers, for the session of every
generation `g`: its OPENs carry ids that increase from 1, and none is allocated past 65535; what a
stream was given was received on that session's WebSocket, for that stream; a frame for a stream
that is not registered changes none; and at the tether a completion or an END takes the handle of
its own request only. -/
theorem no_cross_delivery {digest : Bytes → String} {lib : HttpLib} {limit : Nat}
    (hlimit : limit < 2 ^ 32) {n : Network} (h : Network.Reachable digest lib limit n) (g : Nat) :
    ((openedIds (n.hub.sess g).tx.log).Pairwise (fun i j => i.toNat < j.toNat) ∧
      (∀ i ∈ openedIds (n.hub.sess g).tx.log, 0 < i.toNat ∧ i.toNat ≤ 65535) ∧
      ∀ req t, (n.hub.sess g).forward = .reserved req → 65535 < (n.hub.sess g).nextId →
        (n.hub.sess g).forwardStep = some t →
        t.forward = .returned (.error .idhausted) ∧ t.nextId = (n.hub.sess g).nextId ∧
          t.streams = (n.hub.sess g).streams) ∧
    (∀ i, (∀ res, ((n.hub.sess g).state i).head = some res → ∃ raw,
        .respHead i raw ∈ (n.hub.sess g).since i ∧ parseHead lib raw = some (res, [])) ∧
      (∀ b, .chunk b ∈ ((n.hub.sess g).state i).chunks.log →
        .data i b ∈ (n.hub.sess g).since i) ∧
      ∀ f ∈ (n.hub.sess g).since i, f ∈ (n.up g).taken) ∧
    (∀ f i as n₁ n₂ n₃, (n.hub.sess g).loop = .frame f → concerns i f = true →
      i ∉ (n.hub.sess g).streams →
      Network.step digest lib limit n (.hub (.session g .loop)) = some n₁ →
      Machine.run (Network.step digest lib limit) n₁ as = some n₂ →
      (n₂.hub.sess g).received = (n₁.hub.sess g).received →
      Network.step digest lib limit n₂ (.hub (.session g .loop)) = some n₃ →
      ((n₁.hub.sess g).state = (n.hub.sess g).state ∧
        (n₁.hub.sess g).streams = (n.hub.sess g).streams) ∧
      (n₃.hub.sess g).state = (n₂.hub.sess g).state ∧
        (n₃.hub.sess g).streams = (n₂.hub.sess g).streams) ∧
    (∀ t j k, (n.tether g).complete = some t → (n.tether g).streams.get j = some k →
      t.streams.get j ≠ some k → ∃ rest, (n.tether g).completions = (j, k) :: rest) ∧
    ∀ m i r t j k, tetherDecode m = .ok (some (.end i r)) → (n.tether g).recv m = some t →
      (n.tether g).streams.get j = some k → t.streams.get j ≠ some k →
      j = i ∧ ((n.tether g).pump k).id = i ∧
        ∀ k', k' < (n.tether g).spawned → ((n.tether g).pump k').id = i → k' = k := by
  have hs := h.hub.session g
  have hlink := h.link g
  refine ⟨⟨hs.idInv.increasing, ?_, ?_⟩, ?_, ?_, ?_, ?_⟩
  · intro i hi
    obtain ⟨hpos, hlt⟩ := hs.idInv.registered i (hs.idInv.opened i hi)
    have hle := hs.idInv.le
    exact ⟨hpos, by omega⟩
  · intro req t hf hn ht
    exact Session.allocate_exhausted hf hn ht
  · intro i
    obtain ⟨hhead, hdata⟩ := hs.delivered i
    refine ⟨hhead, hdata, fun f hf => ?_⟩
    exact (hlink.inv hlimit).received f (List.mem_of_mem_drop (List.mem_of_mem_filter hf))
  · intro f i as n₁ n₂ n₃ hl hf hi h₁ h₂ hrec h₃
    exact h.unregistered hlimit hl hf hi h₁ h₂ hrec h₃
  · intro t j k ht hk hr
    exact hlink.complete_own hlimit ht hk hr
  · intro m i r t j k hm ht hk hr
    exact hlink.end_own hlimit hm ht hk hr

/-- a tether attaches, is given one request, and answers it with a head -/
def answeredRun : List NetworkAction :=
  [.hub (.register "a" "rental" (ascii "first")), .hub (.close []),
    .hub (.attach "a" (ascii "first")), .hub (.close []), .hub (.forwardTo "a" ⟨[], [], true⟩),
    .hub .forward, .hub .forward,
    .hub .forward, .hub .forward, .hub .forward, .hub .forward, .hubWrite 1, .tetherRecv 1,
    .tether 1 (.engine 0 (.head (ascii "HTTP/1.1 200 OK\r\n\r\n"))), .tether 1 (.pumpSend 0),
    .tetherWrite 1, .hubRecv 1 0, .hub (.session 1 .loop), .hub (.session 1 .loop)]

theorem answeredRun_isSome : (Machine.run (Network.step twoDigests okLib defaultLimit)
    { hub := freshHub } answeredRun).isSome = true := by
  decide

theorem reachable_answeredRun :
    Network.Reachable twoDigests okLib defaultLimit (Option.get _ answeredRun_isSome) := by
  have hstart : Network.Reachable twoDigests okLib defaultLimit { hub := freshHub } :=
    .init ⟨freshHub, ⟨_, _, rfl⟩, rfl⟩
  exact Machine.Reachable.run hstart (Option.some_get answeredRun_isSome).symm

theorem no_cross_delivery_answered : ∃ n : Network,
    openedIds (n.hub.sess 1).tx.log = [1] ∧ ((n.hub.sess 1).state 1).head = some ⟨200, []⟩ ∧
    ∃ raw, .respHead 1 raw ∈ (n.hub.sess 1).since 1 ∧ .respHead 1 raw ∈ (n.up 1).taken := by
  have hhead : ((((Option.get _ answeredRun_isSome).hub.sess 1).state 1).head) =
      some ⟨200, []⟩ := by
    decide +kernel
  obtain ⟨-, hgiven, -⟩ := no_cross_delivery (by decide) reachable_answeredRun 1
  obtain ⟨hres, -, htaken⟩ := hgiven 1
  obtain ⟨raw, hraw, -⟩ := hres _ hhead
  exact ⟨_, by decide +kernel, hhead, raw, hraw, htaken _ hraw⟩

end AnvilRing
