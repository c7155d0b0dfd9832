import AnvilRing.Tether.Streams

/-!
# The request body at the tether

* `PumpInput`                what the engine's request body yields, of what was queued for it;
* `Tunnel.Reachable.input`   a tether queues for each pump what came for its stream, in order, and
                             stops at the first thing that it cannot queue.
-/

namespace AnvilRing
open Wire

/-- The request body of a pump: `script` is everything that came for its stream. -/
structure PumpInput (p : Pump) (script : List Bytes) : Prop where
  log : p.input.log <+: script
  yielded : yields p.polls = p.input.taken.filter fun b => b ≠ []
  receiving : p.inputPc = .receiving → ¬ EndsCleanly p.polls
  failed : p.inputPc = .failed → .err ∈ p.polls
  ended : EndsCleanly p.polls → [] ∈ p.input.taken

namespace PumpInput
variable {p q : Pump} {script script' : List Bytes}

theorem mono (h : PumpInput p script) (hs : script <+: script') : PumpInput p script' :=
  { h with log := h.log.trans hs }

/-- the tasks of the pump leave its request body alone -/
theorem congr (h : PumpInput p script) (hi : q.input = p.input) (hc : q.inputPc = p.inputPc)
    (hp : q.polls = p.polls) : PumpInput q script where
  log := by rw [hi]; exact h.log
  yielded := by rw [hi, hp]; exact h.yielded
  receiving := by rw [hc, hp]; exact h.receiving
  failed := by rw [hc, hp]; exact h.failed
  ended := by rw [hi, hp]; exact h.ended

/-- a poll of the request body -/
theorem poll (h : PumpInput p script) (hq : p.pollInput = some q) : PumpInput q script := by
  unfold Pump.pollInput at hq
  split at hq
  · next hr =>
    split at hq
    · next bytes input hi =>
      obtain ⟨_, hd⟩ := Chan.recv_some hi
      have htaken : input.taken = p.input.taken ++ [bytes] := by rw [hd]
      have hlog : input.log = p.input.log := Chan.log_recv hi
      split at hq
      · -- HALF_END: the body ends
        next hb =>
        subst hb
        cases hq
        constructor
        · show input.close.log <+: script
          rw [Chan.log_close, hlog]
          exact h.log
        · show yields (p.polls ++ [.eof]) = input.taken.filter _
          rw [yields_snoc, h.yielded, htaken, List.filter_append]
          simp [PollEvent.item]
        · exact nofun
        · exact nofun
        · intro _
          show [] ∈ input.taken
          rw [htaken]
          exact List.mem_append_right _ (List.mem_singleton_self _)
      · next hb =>
        cases hq
        have hends : ¬ EndsCleanly (p.polls ++ [.chunk bytes]) := by
          intro he
          rcases he.of_snoc with he | ⟨he, _⟩
          · exact h.receiving hr he
          · cases he
        constructor
        · show input.log <+: script
          rw [hlog]
          exact h.log
        · show yields (p.polls ++ [.chunk bytes]) = input.taken.filter _
          rw [yields_snoc, h.yielded, htaken, List.filter_append]
          simp [PollEvent.item, hb]
        · exact fun _ => hends
        · intro hf
          rw [hr] at hf
          cases hf
        · exact fun he => absurd he hends
    · split at hq
      · cases hq
        have hends : ¬ EndsCleanly (p.polls ++ [.err]) := by
          intro he
          rcases he.of_snoc with he | ⟨he, _⟩
          · exact h.receiving hr he
          · cases he
        constructor
        · exact h.log
        · show yields (p.polls ++ [.err]) = p.input.taken.filter _
          rw [yields_snoc, h.yielded]
          simp [PollEvent.item]
        · exact nofun
        · exact fun _ => List.mem_append_right _ (List.mem_singleton_self _)
        · exact fun he => absurd he hends
      · cases hq
  · next hf =>
    cases hq
    constructor
    · exact h.log
    · show yields (p.polls ++ [.eof]) = p.input.taken.filter _
      rw [yields_snoc, h.yielded]
      simp [PollEvent.item]
    · exact nofun
    · exact nofun
    · -- an end behind an error is no clean end
      intro he
      rcases he.of_snoc with he | ⟨_, he⟩
      · exact h.ended he
      · exact absurd (h.failed hf) he
  · cases hq

/-- a poll takes from the queue, or closes it -/
theorem poll_log (hq : p.pollInput = some q) : q.input.rxClosed = true ∨
    q.input.log = p.input.log ∧ q.input.rxClosed = p.input.rxClosed := by
  unfold Pump.pollInput at hq
  split at hq
  · split at hq
    · next bytes input hi =>
      obtain ⟨_, hd⟩ := Chan.recv_some hi
      split at hq
      · cases hq
        exact .inl rfl
      · cases hq
        refine .inr ⟨Chan.log_recv hi, ?_⟩
        show input.rxClosed = p.input.rxClosed
        rw [hd]
    · split at hq
      · cases hq
        exact .inl rfl
      · cases hq
  · cases hq
    exact .inr ⟨rfl, rfl⟩
  · cases hq

theorem drop (h : PumpInput p script) :
    PumpInput { p with input := p.input.close, inputPc := .finished } script where
  log := h.log
  yielded := h.yielded
  receiving := nofun
  failed := nofun
  ended := h.ended

theorem push (h : PumpInput p script) {b : Bytes} (hb : p.input.log ++ [b] <+: script') :
    PumpInput { p with input := p.input.push b } script' where
  log := by
    show (p.input.push b).log <+: script'
    rw [Chan.log_push]
    exact hb
  yielded := h.yielded
  receiving := h.receiving
  failed := h.failed
  ended := h.ended

end PumpInput

namespace Tunnel
variable {t u : Tunnel} {a : TunnelAction} {i j : UInt16} {k : Nat}

structure Input (t : Tunnel) : Prop where
  pump : ∀ k, PumpInput (t.pump k) (uploads (t.pump k).id t.received)
  handle : ∀ i k, t.streams.get i = some k →
    (t.pump k).input.rxClosed = true ∨ (t.pump k).input.log = uploads i t.received

/-- what a step that moves no request body keeps of a pump -/
def SameInput (p q : Pump) : Prop :=
  q.id = p.id ∧ q.input = p.input ∧ q.inputPc = p.inputPc ∧ q.polls = p.polls

theorem uploads_grow (i : UInt16) (fs gs : List Frame) : uploads i fs <+: uploads i (fs ++ gs) := by
  rw [uploads_append]
  exact List.prefix_append _ _

theorem uploads_snoc_of_none {fs : List Frame} {f : Frame} (h : f.upload i = none) :
    uploads i (fs ++ [f]) = uploads i fs := by
  rw [uploads_snoc, h]
  exact List.append_nil _

theorem uploads_snoc_of_some {fs : List Frame} {f : Frame} {b : Bytes} (h : f.upload i = some b) :
    uploads i (fs ++ [f]) = uploads i fs ++ [b] := by
  rw [uploads_snoc, h]
  rfl

/-- a move that neither queues nor polls a request body -/
theorem Input.frame (h : t.Input) (hp : ∀ k, SameInput (t.pump k) (u.pump k))
    (hr : ∀ i, uploads i t.received <+: uploads i u.received)
    (hs : ∀ i k, u.streams.get i = some k → t.streams.get i = some k ∧
      ((t.pump k).input.rxClosed = true ∨ uploads i u.received = uploads i t.received)) :
    u.Input where
  pump k := by
    obtain ⟨h1, h2, h3, h4⟩ := hp k
    have hk := ((h.pump k).mono (hr _)).congr h2 h3 h4
    rwa [← h1] at hk
  handle i k hk := by
    obtain ⟨hk, hc⟩ := hs i k hk
    rw [(hp k).2.1]
    rcases hc with hc | hc
    · exact .inl hc
    · rw [hc]
      exact h.handle i k hk

/-- nothing came in -/
theorem Input.still (h : t.Input) (hp : ∀ k, SameInput (t.pump k) (u.pump k))
    (hr : u.received = t.received)
    (hs : ∀ i k, u.streams.get i = some k → t.streams.get i = some k) : u.Input := by
  refine h.frame hp ?_ fun i k hk => ⟨hs i k hk, .inr (by rw [hr])⟩
  intro i
  rw [hr]

theorem sameInput_refl (p : Pump) : SameInput p p := ⟨rfl, rfl, rfl, rfl⟩

theorem sameInput_remove (t : Tunnel) (i : UInt16) (k : Nat) :
    SameInput (t.pump k) ((t.remove i).pump k) := by
  obtain ⟨d, hd⟩ := pump_remove t i k
  rw [hd]
  exact ⟨rfl, rfl, rfl, rfl⟩

/-- a task of pump `k` moves, its request body does not -/
theorem Input.task (h : t.Input) {p : Pump} (hu : u.pump = (t.setPump k p).pump)
    (hr : u.received = t.received) (hs : u.streams = t.streams) (hp : SameInput (t.pump k) p) :
    u.Input := by
  refine h.still ?_ hr fun i m hm => ?_
  · rw [hu]
    exact forall_setPump (P := fun m q => SameInput (t.pump m) q) (fun _ => sameInput_refl _) hp
  · rwa [hs] at hm

/-- the request body of pump `k` moves -/
theorem Input.body (h : t.Input) {p : Pump} (hid : p.id = (t.pump k).id)
    (hp : PumpInput p (uploads (t.pump k).id t.received))
    (hc : p.input.rxClosed = true ∨ p.input.log = (t.pump k).input.log ∧
      p.input.rxClosed = (t.pump k).input.rxClosed) : (t.setPump k p).Input where
  pump := by
    refine forall_setPump (P := fun m q => PumpInput q (uploads q.id t.received)) h.pump ?_
    rw [hid]
    exact hp
  handle i m hm := by
    change t.streams.get i = some m at hm
    refine forall_setPump (t := t) (k := k) (P := fun m q => t.streams.get i = some m →
      q.input.rxClosed = true ∨ q.input.log = uploads i t.received) (h.handle i) ?_ m hm
    intro hk
    rcases hc with hc | ⟨h1, h2⟩
    · exact .inl hc
    · rw [h1, h2]
      exact h.handle i k hk

/-- a chunk is queued: it is the next one that came -/
theorem Input.queue (h : t.Input) (hi : t.Inv) {f : Frame} {b : Bytes} (hf : f.upload i = some b)
    (hk : t.streams.get i = some k) (hc : (t.pump k).input.rxClosed = false) :
    Input { t.setPump k { t.pump k with input := (t.pump k).input.push b } with
      received := t.received ++ [f] } := by
  have hid := (hi.handle i k hk).2
  have hlog : (t.pump k).input.log = uploads i t.received := by
    rcases h.handle i k hk with hx | hx
    · rw [hc] at hx
      cases hx
    · exact hx
  have hother : ∀ j, j ≠ i → f.upload j = none := by
    intro j hj
    cases hx : f.upload j with
    | none => rfl
    | some c =>
      exact absurd (Option.some.inj ((upload_follows hx).symm.trans (upload_follows hf))) hj
  constructor
  · intro m
    refine forall_setPump (t := t) (k := k) (P := fun m q => PumpInput q
      (uploads q.id (t.received ++ [f]))) (fun m => (h.pump m).mono (uploads_grow _ _ _)) ?_ m
    refine (h.pump k).push ?_
    show (t.pump k).input.log ++ [b] <+: uploads (t.pump k).id (t.received ++ [f])
    rw [hid, hlog, uploads_snoc_of_some hf]
  · intro j m hm
    change t.streams.get j = some m at hm
    show ((t.setPump k _).pump m).input.rxClosed = true ∨
      ((t.setPump k _).pump m).input.log = uploads j (t.received ++ [f])
    by_cases hmk : m = k
    · subst hmk
      have hj : j = i := (hi.handle j m hm).2.symm.trans hid
      right
      rw [setPump_self, hj, uploads_snoc_of_some hf, ← hlog]
      exact Chan.log_push _ _
    · have hj : j ≠ i := by
        rintro rfl
        exact hmk (Option.some.inj (hm.symm.trans hk))
      rw [setPump_of_ne t _ hmk, uploads_snoc_of_none (hother j hj)]
      exact h.handle j m hm

/-- a new pump: nothing of its request body came before its OPEN -/
theorem Input.spawn (h : t.Input) (hi : t.Inv) (head : Bytes)
    (hprop : Proper (t.received ++ [.open i head])) :
    Input { t.spawn i head with received := t.received ++ [.open i head] } := by
  have hnew : uploads i t.received = [] :=
    hprop.last.1.uploads_eq_nil (hprop.last.2.1 i rfl)
  have hsame : ∀ j, uploads j (t.received ++ [.open i head]) = uploads j t.received :=
    fun j => uploads_snoc_of_none rfl
  have hpump : ∀ m, (t.spawn i head).pump m =
      ((t.remove i).setPump t.spawned { id := i, head := head }).pump m := by
    intro m
    rw [spawn_eq]
  constructor
  · intro m
    show PumpInput ((t.spawn i head).pump m) (uploads ((t.spawn i head).pump m).id _)
    rw [hpump]
    refine forall_setPump (t := t.remove i) (P := fun _ q => PumpInput q
      (uploads q.id (t.received ++ [.open i head]))) ?_ ?_ m
    · intro m
      obtain ⟨h1, h2, h3, h4⟩ := sameInput_remove t i m
      rw [h1, hsame]
      exact (h.pump m).congr h2 h3 h4
    · exact {
        log := List.nil_prefix
        yielded := rfl
        receiving := fun _ he => absurd he.mem List.not_mem_nil
        failed := nofun
        ended := fun he => absurd he.mem List.not_mem_nil }
  · intro j m hm
    change (t.spawn i head).streams.get j = some m at hm
    rw [get_spawn] at hm
    show ((t.spawn i head).pump m).input.rxClosed = true ∨
      ((t.spawn i head).pump m).input.log = uploads j (t.received ++ [.open i head])
    rw [hpump, hsame]
    split at hm
    · next hj =>
      obtain rfl := Option.some.inj hm
      right
      rw [setPump_self, hj, hnew]
      rfl
    · have hlt := (hi.handle j m hm).1
      rw [setPump_of_ne _ _ hlt.ne, remove_input]
      exact h.handle j m hm

theorem Input.move (h : t.Input) (hi : t.Inv) (hm : Move t a u) (hprop : Proper u.received) :
    u.Input := by
  cases hm with
  | leave =>
    refine h.still (fun _ => ⟨rfl, rfl, rfl, rfl⟩) rfl fun i k hk => ?_
    rw [get_leave] at hk
    cases hk
  | quiet => exact h
  | leaveOn =>
    refine h.frame (fun _ => ⟨rfl, rfl, rfl, rfl⟩) (fun i => uploads_grow i _ _) fun i k hk => ?_
    change t.leave.streams.get i = some k at hk
    rw [get_leave] at hk
    cases hk
  | pong =>
    exact h.frame (fun _ => sameInput_refl _) (fun i => uploads_grow i _ _)
      fun i k hk => ⟨hk, .inr (uploads_snoc_of_none rfl)⟩
  | @ignore m f hl hm ho he hu =>
    refine h.frame (fun _ => sameInput_refl _) (fun i => uploads_grow i _ _) fun i k hk => ⟨hk, ?_⟩
    cases hf : f.upload i with
    | none => exact .inr (uploads_snoc_of_none hf)
    | some b => exact .inl (hu i b k hf hk)
  | refuse =>
    exact h.frame (fun _ => sameInput_refl _) (fun i => uploads_grow i _ _)
      fun i k hk => ⟨hk, .inr (uploads_snoc_of_none rfl)⟩
  | spawn => exact h.spawn hi _ hprop
  | queue hl hm hf hk hc => exact h.queue hi hf hk hc
  | @exceed m f i b k hl hm hf hk =>
    refine h.frame (sameInput_remove t i) (fun i => uploads_grow i _ _) fun j k' hk' => ?_
    obtain ⟨hj, hk'⟩ := get_of_remove hk'
    refine ⟨hk', .inr (uploads_snoc_of_none ?_)⟩
    cases hx : f.upload j with
    | none => rfl
    | some c =>
      exact absurd (Option.some.inj ((upload_follows hx).symm.trans (upload_follows hf))) hj
  | @«end» m i r hl hm =>
    exact h.frame (sameInput_remove t i) (fun i => uploads_grow i _ _)
      fun j k hk => ⟨(get_of_remove hk).2, .inr (uploads_snoc_of_none rfl)⟩
  | reply | ping => exact h.still (fun _ => sameInput_refl _) rfl fun _ _ hk => hk
  | @complete i k rest hl hc =>
    exact h.still (sameInput_remove t i) (remove_received t i) fun j m hk => (get_of_remove hk).2
  | goAway =>
    refine h.still (fun _ => ⟨rfl, rfl, rfl, rfl⟩) rfl fun i k hk => ?_
    change t.leave.streams.get i = some k at hk
    rw [get_leave] at hk
    cases hk
  | engine hp =>
    obtain ⟨h1, _, h2, h3, h4, _⟩ := forwardEngine_sends hp
    exact h.task rfl rfl rfl ⟨h1, h2, h3, h4⟩
  | sent | sendFailed | endSent | endFailed | completed =>
    exact h.task rfl rfl rfl ⟨rfl, rfl, rfl, rfl⟩
  | cancel hp =>
    obtain ⟨rfl, _⟩ := cancel_some hp
    exact h.task rfl rfl rfl ⟨rfl, rfl, rfl, rfl⟩
  | @poll k p hp =>
    refine h.body ?_ ((h.pump k).poll hp) (PumpInput.poll_log hp)
    rw [pollInput_eq hp]
  | @dropInput k => exact h.body rfl (h.pump k).drop (.inl rfl)
  | write | writerEnd => exact h.still (fun _ => sameInput_refl _) rfl fun _ _ hk => hk

theorem input_new : new.Input where
  pump _ := {
    log := List.nil_prefix
    yielded := rfl
    receiving := nofun
    failed := nofun
    ended := fun he => absurd he.mem List.not_mem_nil }
  handle _ _ hk := nomatch hk

/-- as long as every stream is opened once and before its other frames, what a tether queues for a
pump is what came for its stream, up to the first chunk that it could not queue -/
theorem Reachable.input (h : Reachable t) (hprop : Proper t.received) : t.Input := by
  revert hprop
  refine h.move (P := fun t => Proper t.received → t.Input) (fun _ => input_new) ?_
  intro t a u hr hi hm hprop
  exact (hi (hprop.of_initial hm.received)).move hr.inv hm hprop

end Tunnel

end AnvilRing
