import AnvilRing.Link.Upload
import AnvilRing.Tether.Ends

/-!
# The budget of 64 streams on both sides

The hub admits a stream when its map has room; the tether refuses one when its own map is full.
When the OPEN of a stream is taken up, the hub has at most 63 of the streams before it left, so a
full tether has the handle of a stream that the hub has forgotten.

* `Session.Budget`        no stream has 64 registered streams before it;
* `Tunnel.Refuses`        the tether has refused a stream, or is about to;
* `Link.InStep`           a full tether that takes up an OPEN has handles of registered streams
                          only;
* `refusal_condition`     a run whose steps meet that refuses no stream, and a step that does not
                          meet it refuses one;
* `refused_at_capacity`   a run in which the hub's 64th stream is refused.
-/

namespace AnvilRing
open Wire

/-! ## the hub's side -/

namespace Session
variable {lib : HttpLib} {s t : Session} {a : SessionAction}

/-- no stream has as many registered streams before it as a session may have -/
def Budget (s : Session) : Prop := ∀ i, (s.state i).registered = true →
  (s.streams.filter fun j => j.toNat < i.toNat).card < maxConcurrentStreams

theorem Budget.move (h : s.Budget) (hr : Reachable lib s) (hm : Move lib s a t) : t.Budget := by
  intro i hi
  rcases hm.registers with ⟨hreg, hsub⟩ | ⟨req, id, _, hf, hn, hins, hreg⟩
  · rw [hreg] at hi
    exact (Finset.card_le_card (Finset.filter_subset_filter _ hsub)).trans_lt (h i hi)
  · rw [hins]
    rcases (hreg i).mp hi with rfl | hi
    · -- the new stream: the others were counted when it was admitted
      have hsub : (insert i s.streams).filter (fun j => j.toNat < i.toNat) ⊆ s.streams := by
        intro j hj
        obtain ⟨hj, hlt⟩ := Finset.mem_filter.mp hj
        rcases Finset.mem_insert.mp hj with rfl | hj
        · exact absurd hlt (Nat.lt_irrefl _)
        · exact hj
      exact (Finset.card_le_card hsub).trans_lt hn
    · -- an older stream: the new one comes after it
      have hlt : i.toNat < id.toNat := by
        have h1 := (hr.idInv.registered i hi).2
        have h2 := (hr.idInv.pending id (by rw [hf]; rfl)).2
        have h3 : i ≠ id := by
          rintro rfl
          exact hr.idInv.not_allocated hi req hf
        have h4 : i.toNat ≠ id.toNat := fun hx => h3 (UInt16.toNat_inj.mp hx)
        omega
      rw [Finset.filter_insert, if_neg (Nat.not_lt_of_lt hlt)]
      exact h i hi

theorem Reachable.budget (h : Reachable lib s) : s.Budget :=
  h.move (P := Budget) (fun _ _ _ _ hi => (nomatch hi)) fun _ _ _ hr hb hm => hb.move hr hm

end Session

/-! ## the tether's side -/

namespace Tunnel
variable {t u : Tunnel} {a : TunnelAction} {k : Nat}

/-- the tether has refused a stream, or is about to -/
def Refuses (t : Tunnel) : Prop :=
  (∃ i, t.loop = .reply i overloaded) ∨ ∃ i, .end i overloaded ∈ t.tx.log

/-- the pump is not about to send the END of a refusal -/
def Fair (pc : PumpPc) : Prop :=
  (∀ r, pc = .ending r → r ≠ overloaded) ∧ ∀ f, pc = .sending f → ∀ i, f ≠ .end i overloaded

/-- the tether has refused no stream, and its pumps do not say so -/
structure Accepts (t : Tunnel) : Prop where
  loop : ∀ i, t.loop ≠ .reply i overloaded
  log : ∀ i, .end i overloaded ∉ t.tx.log
  pump : ∀ k, Fair (t.pump k).pc

theorem Accepts.not_refuses (h : t.Accepts) : ¬ t.Refuses := by
  intro hx
  rcases hx with ⟨i, hx⟩ | ⟨i, hx⟩
  · exact h.loop i hx
  · exact h.log i hx

theorem Accepts.setPump (h : t.Accepts) {p : Pump} (hp : Fair p.pc) : (t.setPump k p).Accepts where
  loop := h.loop
  log := h.log
  pump := forall_setPump (P := fun _ q => Fair q.pc) h.pump hp

theorem Accepts.push (h : t.Accepts) {f : Frame} (hf : ∀ i, f ≠ .end i overloaded) :
    Accepts { t with tx := t.tx.push f } where
  loop := h.loop
  log i hx := by
    rw [Chan.log_push, List.mem_append, List.mem_singleton] at hx
    rcases hx with hx | hx
    · exact h.log i hx
    · exact hf i hx.symm
  pump := h.pump

/-- the loop goes on, and no pump changes its mind -/
theorem Accepts.frame (h : t.Accepts) (hl : ∀ i, u.loop ≠ .reply i overloaded)
    (htx : u.tx.log = t.tx.log) (hp : ∀ k, (u.pump k).pc = (t.pump k).pc) : u.Accepts where
  loop := hl
  log i := by
    rw [htx]
    exact h.log i
  pump k := by
    rw [hp]
    exact h.pump k

theorem Accepts.remove (h : t.Accepts) (i : UInt16) : (t.remove i).Accepts := by
  refine h.frame ?_ ?_ (remove_pc t i)
  · intro j
    rw [remove_loop]
    exact h.loop j
  · rw [remove_tx]

theorem fair_of_engine {p q : Pump} {e : EngineEvent} (h : p.forwardEngine e = some q) :
    Fair q.pc := by
  refine ⟨?_, fun f hf i => (forwardEngine_past h).2 f hf i overloaded⟩
  intro r hr
  unfold Pump.forwardEngine at h
  split at h
  · cases h
    cases hr
  · next bytes hp =>
    cases h
    by_cases hb : bytes = []
    · simp [hb] at hr
    · simp [hb] at hr
  · cases h
    cases hr
    decide
  · cases h
    cases hr
    decide
  · cases h

theorem Accepts.move (h : t.Accepts) (hm : Move t a u)
    (hroom : ∀ m i head, a = .recv m → tetherDecode m = .ok (some (.open i head)) →
      t.streams.size < maxConcurrentStreams) : u.Accepts := by
  have hsel : ∀ i, TunnelPc.select ≠ .reply i overloaded := fun _ => nofun
  cases hm with
  | leave | leaveOn => exact h.frame (fun _ => nofun) rfl fun _ => rfl
  | goAway =>
    have hx : t.leave.Accepts := h.frame (fun _ => nofun) rfl fun _ => rfl
    exact hx.push fun _ => nofun
  | quiet => exact h
  | pong =>
    have hx := h.push (f := .pong) fun _ => nofun
    exact hx.frame hsel rfl fun _ => rfl
  | ignore => exact h.frame h.loop rfl fun _ => rfl
  | refuse _ hd hn => exact absurd (hroom _ _ _ rfl hd) (Nat.not_lt_of_le hn)
  | @spawn m i head =>
    constructor
    · intro j
      show (t.spawn i head).loop ≠ _
      rw [spawn_loop]
      exact h.loop j
    · intro j
      show _ ∉ (t.spawn i head).tx.log
      rw [spawn_tx]
      exact h.log j
    · intro k
      show Fair ((t.spawn i head).pump k).pc
      rw [spawn_eq]
      have hnew : Fair (.engine false) := ⟨nofun, nofun⟩
      exact forall_setPump (P := fun _ q => Fair q.pc) (h.remove i).pump hnew k
  | @queue m f i b k =>
    have hx := h.setPump (k := k) (p := { t.pump k with input := (t.pump k).input.push b })
      (h.pump k)
    exact hx.frame hx.loop rfl fun _ => rfl
  | @exceed m f i b k =>
    have hx := h.remove i
    refine hx.frame ?_ rfl fun _ => rfl
    intro j hj
    exact absurd (TunnelPc.reply.inj hj).2 (by decide)
  | @«end» m i r =>
    have hx := h.remove i
    exact hx.frame hx.loop rfl fun _ => rfl
  | @reply i r hl =>
    have hx := h.push (f := .end i r) fun j hj => by
      cases hj
      exact h.loop i hl
    exact hx.frame hsel rfl fun _ => rfl
  | @complete i k rest =>
    have hx := h.remove i
    exact hx.frame hx.loop rfl fun _ => rfl
  | ping =>
    have hx := h.push (f := .ping) fun _ => nofun
    exact hx.frame hsel rfl fun _ => rfl
  | engine hp => exact h.setPump (fair_of_engine hp)
  | @sent k f hp =>
    have hx := h.setPump (k := k) (p := { t.pump k with pc := .engine true }) ⟨nofun, nofun⟩
    exact hx.push ((h.pump k).2 f hp)
  | sendFailed =>
    refine h.setPump ⟨?_, nofun⟩
    intro r hr
    cases hr
    decide
  | @endSent k r hp =>
    have hx := h.setPump (k := k) (p := { t.pump k with pc := .completing }) ⟨nofun, nofun⟩
    refine hx.push fun i hi => ?_
    cases hi
    exact (h.pump k).1 _ hp rfl
  | endFailed => exact h.setPump ⟨nofun, nofun⟩
  | @completed k hp =>
    have hx := h.setPump (k := k) (p := { t.pump k with pc := .done }) ⟨nofun, nofun⟩
    exact hx.frame hx.loop rfl fun _ => rfl
  | cancel hp =>
    obtain ⟨rfl, _⟩ := cancel_some hp
    exact h.setPump ⟨nofun, nofun⟩
  | @poll k p hp =>
    refine h.setPump ?_
    rw [pollInput_eq hp]
    exact h.pump k
  | dropInput => exact h.setPump (h.pump _)
  | write hr => exact h.frame h.loop (Chan.log_recv hr) fun _ => rfl
  | writerEnd => exact h.frame h.loop rfl fun _ => rfl

theorem accepts_new : new.Accepts where
  loop _ := nofun
  log _ hx := nomatch hx
  pump _ := ⟨nofun, nofun⟩

end Tunnel

/-! ## both -/

namespace Link

section
variable {lib : HttpLib} {limit : Nat} {l m : Link} {a : LinkAction} {i : UInt16} {head : Bytes}

/-- a full tether that is given an OPEN has handles of streams that the hub still has only -/
def InStep (l : Link) : LinkAction → Prop
  | .tetherRecv => ∀ i head rest, l.down.queue = .open i head :: rest →
      maxConcurrentStreams ≤ l.tether.streams.size → l.tether.streams.keySet ⊆ l.hub.streams
  | _ => True

/-- the streams with a handle were opened before one whose OPEN is on its way -/
theorem Reachable.handles_lt (hlimit : limit < 2 ^ 32) (h : Reachable lib limit l)
    {rest : List Frame} (hq : l.down.queue = .open i head :: rest) {j : UInt16}
    (hj : j ∈ l.tether.streams.keySet) : j.toNat < i.toNat := by
  have hinv := h.inv hlimit
  obtain ⟨k, hk⟩ := KeyMap.mem_keySet.mp hj
  obtain ⟨h1, h2⟩ := h.tether.inv.handle j k hk
  have hbefore : j ∈ openedIds l.down.taken :=
    openedIds_mono hinv.received_isPrefix (h2 ▸ h.tether.inv.opened h1)
  have hafter : i ∈ openedIds l.path := by
    unfold path
    rw [hq]
    exact List.mem_cons_self
  have hinc := h.hub.idInv.increasing
  rw [hinv.log, openedIds_append] at hinc
  exact (List.pairwise_append.mp hinc).2.2 j hbefore i hafter

/-- a tether whose streams are all registered at the hub has room for the next one -/
theorem Reachable.room (hlimit : limit < 2 ^ 32) (h : Reachable lib limit l)
    {rest : List Frame} (hq : l.down.queue = .open i head :: rest) (hs : l.InStep .tetherRecv) :
    l.tether.streams.size < maxConcurrentStreams := by
  by_contra hn
  have hsub := hs i head rest hq (Nat.le_of_not_lt hn)
  have hopen : i ∈ openedIds l.hub.tx.log := by
    rw [(h.inv hlimit).log, openedIds_append]
    refine List.mem_append_right _ ?_
    unfold path
    rw [hq]
    exact List.mem_cons_self
  have hfilter : l.tether.streams.keySet ⊆
      l.hub.streams.filter fun j => j.toNat < i.toNat := fun j hj =>
    Finset.mem_filter.mpr ⟨hsub hj, h.handles_lt hlimit hq hj⟩
  have hcard := (Finset.card_le_card hfilter).trans_lt
    (h.hub.budget i (h.hub.idInv.opened i hopen))
  rw [KeyMap.card_keySet] at hcard
  exact hn hcard

/-- **In step, no stream is refused.** -/
theorem accepts_of_inStep (hlimit : limit < 2 ^ 32)
    (h : Machine.ReachableWhen (step lib limit) Initial InStep l) : l.tether.Accepts := by
  refine h.invariant_of (P := fun l => l.tether.Accepts) ?_ ?_
  · intro l hl
    obtain ⟨id, cred, now, rfl⟩ := hl
    exact Tunnel.accepts_new
  · intro l a m hl hok ha hstep
    cases move_of_step hlimit hstep with
    | hub | hubWrite | hubRecv => exact ha
    | tether hm _ hf => exact ha.move hm fun m i head hx hd => absurd hd (hf m _ hx)
    | tetherWrite _ hm => exact ha.move hm nofun
    | @tetherRecv f down b t hr hm _ hf =>
      refine ha.move hm fun m i head hx hd => ?_
      obtain rfl := hf m _ hx hd
      exact Reachable.room hlimit hl (Chan.recv_some hr).1 hok

/-- out of step, the stream whose OPEN is taken up is refused -/
theorem refuses_of_not_inStep (hlimit : limit < 2 ^ 32)
    (hstep : step lib limit l .tetherRecv = some m) (hgo : m.tether.loop ≠ .finished)
    (hn : ¬ l.InStep .tetherRecv) : m.tether.Refuses := by
  obtain ⟨i, head, rest, hq, hfull, _⟩ : ∃ i head rest, l.down.queue = .open i head :: rest ∧
      maxConcurrentStreams ≤ l.tether.streams.size ∧
      ¬ l.tether.streams.keySet ⊆ l.hub.streams := by
    simpa only [InStep, not_forall, exists_prop] using hn
  cases move_of_step hlimit hstep with
  | @tetherRecv f down b t hr hm _ hf ht =>
    have hcons := (Chan.recv_some hr).1
    rw [hq] at hcons
    obtain ⟨rfl, _⟩ := List.cons.inj hcons
    have hrec : t.received = l.tether.received ++ [.open i head] :=
      ht.resolve_right fun hx => hgo hx.2
    have hne : l.tether.received ≠ l.tether.received ++ [.open i head] := by simp
    left
    cases hm with
    | leaveOn => exact absurd rfl hgo
    | pong _ hd => cases hf _ _ rfl hd
    | ignore _ hd ho =>
      obtain rfl := hf _ _ rfl hd
      cases ho
    | refuse => exact ⟨_, rfl⟩
    | spawn _ _ hlt => exact absurd hlt (Nat.not_lt_of_le hfull)
    | queue _ hd hup | exceed _ hd hup =>
      obtain rfl := hf _ _ rfl hd
      cases hup
    | «end» _ hd => cases hf _ _ rfl hd
    | complete =>
      change (l.tether.remove _).received = _ at hrec
      rw [Tunnel.remove_received] at hrec
      exact absurd hrec hne
    | _ => exact absurd (show l.tether.received = l.tether.received ++ [_] from hrec) hne

end

end Link

/-- **When a stream that the hub admitted is refused.**  In a run whose steps are all in step the
tether refuses none; and a step that is not refuses the stream whose OPEN it takes up, unless the
message ends the tether's session. -/
theorem refusal_condition {lib : HttpLib} {limit : Nat} (hlimit : limit < 2 ^ 32) :
    (∀ l, Machine.ReachableWhen (Link.step lib limit) Link.Initial Link.InStep l →
      ¬ l.tether.Refuses) ∧
    (∀ l a m, Link.step lib limit l a = some m → m.tether.loop ≠ .finished → ¬ l.InStep a →
      m.tether.Refuses) := by
  refine ⟨fun l h => (Link.accepts_of_inStep hlimit h).not_refuses, ?_⟩
  intro l a m hstep hgo hn
  cases a with
  | tetherRecv => exact Link.refuses_of_not_inStep hlimit hstep hgo hn
  | _ => exact absurd trivial hn

/-- one caller is admitted, and the tether takes its OPEN up -/
def admitRun : List LinkAction :=
  [.hub (.reserve ⟨[], [], true⟩), .hub .forward, .hub .forward, .hub .forward, .hub .forward,
    .hub .forward, .hub .forward, .hubWrite, .tetherRecv]

theorem admitRun_isSome :
    (Machine.run (Link.step okLib defaultLimit) freshLink admitRun).isSome = true := by
  decide +kernel

theorem refusal_condition_one : ∃ l, Link.Reachable okLib defaultLimit l ∧
    l.tether.streams.size = 1 ∧ ¬ l.tether.Refuses := by
  obtain ⟨n, hn, hlast⟩ := Machine.run_append_some.mp
    (show Machine.run _ _ (admitRun.dropLast ++ [.tetherRecv]) = some _ from
      (Option.some_get admitRun_isSome).symm)
  have hempty : n.tether.streams.size = 0 := by
    have hx : (Machine.run (Link.step okLib defaultLimit) freshLink admitRun.dropLast).map
      (fun n => n.tether.streams.size) = some 0 := by decide +kernel
    rw [hn] at hx
    exact Option.some.inj hx
  have hfree : ∀ a ∈ admitRun.dropLast, ∀ l : Link, l.InStep a := by
    intro a ha l
    have hne : a ≠ .tetherRecv := by
      rintro rfl
      exact absurd ha (by decide)
    cases a with
    | tetherRecv => exact absurd rfl hne
    | _ => trivial
  have hinit : Machine.ReachableWhen (Link.step okLib defaultLimit) Link.Initial Link.InStep
      freshLink := .init ⟨_, _, _, rfl⟩
  have hreach := hinit.run hfree hn
  obtain ⟨m, hm, hnil⟩ := Machine.run_cons_some.mp hlast
  obtain rfl := Option.some.inj hnil
  refine ⟨_, (hreach.step ?_ hm).reachable, by decide +kernel,
    (refusal_condition (by decide)).1 _ (hreach.step ?_ hm)⟩
  all_goals
    intro i head rest _ hfull
    rw [hempty] at hfull
    exact absurd hfull (by decide)

/-- 64 streams are open; the engine fails the first one, its pump sends END and the hub forgets the
stream before the tether's loop has consumed the completion; then the next caller is admitted. -/
def refusedRun : List LinkAction :=
  (List.replicate 64 admitRun).flatten ++
    [.tether (.engine 0 .fail), .tether (.pumpSend 0), .tether (.pumpSend 0), .tetherWrite,
      .hubRecv 0, .hub .loop, .hub .loop, .hub .loop, .hub .loop, .hub .loop] ++
    admitRun ++ [.tether .reply]

theorem refusedRun_refuses : ((Machine.run (Link.step okLib defaultLimit) freshLink
    refusedRun).any fun l => (l.hub.state 65).registered &&
      decide (.end 65 Tunnel.overloaded ∈ l.tether.tx.log)) = true := by
  decide +kernel

theorem refused_at_capacity : ∃ l, Link.Reachable okLib defaultLimit l ∧
    (l.hub.state 65).registered = true ∧ .end 65 Tunnel.overloaded ∈ l.tether.tx.log := by
  obtain ⟨l, hl, hx⟩ := (Option.any_eq_true _ _).mp refusedRun_refuses
  rw [Bool.and_eq_true, decide_eq_true_eq] at hx
  have hinit : Link.Reachable okLib defaultLimit freshLink := .init ⟨_, _, _, rfl⟩
  exact ⟨l, hinit.run hl, hx⟩

end AnvilRing
