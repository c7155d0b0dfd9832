import AnvilRing.Tether.Tunnel
import AnvilRing.Hub.Commands

/-!
# What a step of the tether can do

* `Tunnel.Move`              the branches of `Tunnel.step`, with their guards;
* `Tunnel.move_of_step`      every step is one of the moves;
* `Tunnel.remove`, `leave`   what dropping a `StreamHandle` leaves alone.
-/

namespace AnvilRing
open Wire

namespace Tunnel
variable {t u : Tunnel} {a : TunnelAction} {i j : UInt16} {k : Nat}

/-! ## dropping handles -/

@[simp] theorem remove_tx (t : Tunnel) (i : UInt16) : (t.remove i).tx = t.tx := by
  unfold remove
  split <;> rfl

@[simp] theorem remove_received (t : Tunnel) (i : UInt16) :
    (t.remove i).received = t.received := by
  unfold remove
  split <;> rfl

@[simp] theorem remove_spawned (t : Tunnel) (i : UInt16) : (t.remove i).spawned = t.spawned := by
  unfold remove
  split <;> rfl

@[simp] theorem remove_loop (t : Tunnel) (i : UInt16) : (t.remove i).loop = t.loop := by
  unfold remove
  split <;> rfl

@[simp] theorem remove_completions (t : Tunnel) (i : UInt16) :
    (t.remove i).completions = t.completions := by
  unfold remove
  split <;> rfl

theorem get_remove (t : Tunnel) (i j : UInt16) :
    (t.remove i).streams.get j = if j = i then none else t.streams.get j := by
  unfold remove
  split
  · next hn =>
    split
    · next hj =>
      rw [hj]
      exact hn
    · rfl
  · exact KeyMap.get_remove _ _ _

theorem get_of_remove (h : (t.remove i).streams.get j = some k) :
    j ≠ i ∧ t.streams.get j = some k := by
  rw [get_remove] at h
  split at h
  · cases h
  · next hj => exact ⟨hj, h⟩

/-- dropping a handle changes the `dropped` of its pump only -/
theorem pump_remove (t : Tunnel) (i : UInt16) (k : Nat) :
    ∃ d, (t.remove i).pump k = { t.pump k with dropped := d } := by
  unfold remove
  split
  · exact ⟨(t.pump k).dropped, rfl⟩
  · next m hm =>
    by_cases hk : k = m
    · subst hk
      exact ⟨true, setPump_self t k _⟩
    · exact ⟨(t.pump k).dropped, setPump_of_ne t _ hk⟩

@[simp] theorem remove_id (t : Tunnel) (i : UInt16) (k : Nat) :
    ((t.remove i).pump k).id = (t.pump k).id := by
  obtain ⟨d, hd⟩ := pump_remove t i k
  rw [hd]

@[simp] theorem remove_pc (t : Tunnel) (i : UInt16) (k : Nat) :
    ((t.remove i).pump k).pc = (t.pump k).pc := by
  obtain ⟨d, hd⟩ := pump_remove t i k
  rw [hd]

@[simp] theorem remove_input (t : Tunnel) (i : UInt16) (k : Nat) :
    ((t.remove i).pump k).input = (t.pump k).input := by
  obtain ⟨d, hd⟩ := pump_remove t i k
  rw [hd]

theorem forall_setPump {P : Nat → Pump → Prop} {p : Pump} (h : ∀ m, P m (t.pump m)) (hk : P k p)
    (m : Nat) : P m ((t.setPump k p).pump m) := by
  by_cases hm : m = k
  · subst hm
    rwa [setPump_self]
  · rw [setPump_of_ne t p hm]
    exact h m

theorem get_leave (t : Tunnel) (i : UInt16) : t.leave.streams.get i = none := KeyMap.get_empty i

theorem spawn_eq (t : Tunnel) (i : UInt16) (head : Bytes) :
    t.spawn i head = { (t.remove i).setPump t.spawned { id := i, head := head } with
      streams := (t.remove i).streams.insert i t.spawned, spawned := t.spawned + 1 } := by
  unfold spawn
  simp only [remove_spawned]

@[simp] theorem spawn_tx (t : Tunnel) (i : UInt16) (head : Bytes) :
    (t.spawn i head).tx = t.tx := by
  rw [spawn_eq]
  exact remove_tx t i

@[simp] theorem spawn_loop (t : Tunnel) (i : UInt16) (head : Bytes) :
    (t.spawn i head).loop = t.loop := by
  rw [spawn_eq]
  exact remove_loop t i

@[simp] theorem spawn_completions (t : Tunnel) (i : UInt16) (head : Bytes) :
    (t.spawn i head).completions = t.completions := by
  rw [spawn_eq]
  exact remove_completions t i

theorem get_spawn (t : Tunnel) (i j : UInt16) (head : Bytes) :
    (t.spawn i head).streams.get j = if j = i then some t.spawned else t.streams.get j := by
  rw [spawn_eq]
  show ((t.remove i).streams.insert i t.spawned).get j = _
  rw [KeyMap.get_insert]
  split
  · rfl
  · next hj => rw [get_remove, if_neg hj]

/-! ## the moves -/

inductive Move (t : Tunnel) : TunnelAction → Tunnel → Prop where
  | leave {a : TunnelAction} (hl : t.loop ≠ .finished) : Move t a t.leave
  -- a frame of the hub
  | quiet {m : Message} (hm : tetherDecode m = .ok none) : Move t (.recv m) t
  | leaveOn {m : Message} {f : Frame} (hl : t.loop = .select)
      (hm : tetherDecode m = .ok (some f)) (ho : f.opens = none) :
      Move t (.recv m) { t.leave with received := t.received ++ [f] }
  | pong {m : Message} (hl : t.loop = .select) (hm : tetherDecode m = .ok (some .ping)) :
      Move t (.recv m)
        { t with tx := t.tx.push .pong, loop := .select, received := t.received ++ [.ping] }
  | ignore {m : Message} {f : Frame} (hl : t.loop = .select)
      (hm : tetherDecode m = .ok (some f)) (ho : f.opens = none) (he : ∀ i r, f ≠ .end i r)
      (hu : ∀ i b k, f.upload i = some b → t.streams.get i = some k →
        (t.pump k).input.rxClosed = true) :
      Move t (.recv m) { t with received := t.received ++ [f] }
  | refuse {m : Message} {i : UInt16} {head : Bytes} (hl : t.loop = .select)
      (hm : tetherDecode m = .ok (some (.open i head)))
      (hn : maxConcurrentStreams ≤ t.streams.size) :
      Move t (.recv m)
        { t with loop := .reply i overloaded, received := t.received ++ [.open i head] }
  | spawn {m : Message} {i : UInt16} {head : Bytes} (hl : t.loop = .select)
      (hm : tetherDecode m = .ok (some (.open i head)))
      (hn : t.streams.size < maxConcurrentStreams) :
      Move t (.recv m) { t.spawn i head with received := t.received ++ [.open i head] }
  | queue {m : Message} {f : Frame} {i : UInt16} {b : Bytes} {k : Nat} (hl : t.loop = .select)
      (hm : tetherDecode m = .ok (some f)) (hf : f.upload i = some b)
      (hk : t.streams.get i = some k) (hc : (t.pump k).input.rxClosed = false) :
      Move t (.recv m)
        { t.setPump k { t.pump k with input := (t.pump k).input.push b } with
          received := t.received ++ [f] }
  | exceed {m : Message} {f : Frame} {i : UInt16} {b : Bytes} {k : Nat} (hl : t.loop = .select)
      (hm : tetherDecode m = .ok (some f)) (hf : f.upload i = some b)
      (hk : t.streams.get i = some k) :
      Move t (.recv m)
        { t.remove i with loop := .reply i exceeded, received := t.received ++ [f] }
  | «end» {m : Message} {i : UInt16} {r : Bytes} (hl : t.loop = .select)
      (hm : tetherDecode m = .ok (some (.end i r))) :
      Move t (.recv m) { t.remove i with received := t.received ++ [.end i r] }
  -- the loop of itself
  | reply {i : UInt16} {r : Bytes} (hl : t.loop = .reply i r) :
      Move t .reply { t with tx := t.tx.push (.end i r), loop := .select }
  | complete {i : UInt16} {k : Nat} {rest : List (UInt16 × Nat)} (hl : t.loop = .select)
      (hc : t.completions = (i, k) :: rest) :
      Move t .complete { t.remove i with completions := rest }
  | ping (hl : t.loop = .select) :
      Move t .pingTick { t with tx := t.tx.push .ping, loop := .select }
  | goAway (hl : t.loop = .select) :
      Move t .leaseTick { t.leave with tx := t.tx.push (.goAway (ascii "lease refresh")) }
  -- a pump
  | engine {k : Nat} {e : EngineEvent} {p : Pump} (hp : (t.pump k).forwardEngine e = some p) :
      Move t (.engine k e) (t.setPump k p)
  | sent {k : Nat} {f : Frame} (hp : (t.pump k).pc = .sending f) :
      Move t (.pumpSend k)
        { t.setPump k { t.pump k with pc := .engine true } with tx := t.tx.push f }
  | sendFailed {k : Nat} {f : Frame} (hp : (t.pump k).pc = .sending f) :
      Move t (.pumpSend k) (t.setPump k { t.pump k with pc := .ending engineFailed })
  | endSent {k : Nat} {r : Bytes} (hp : (t.pump k).pc = .ending r) :
      Move t (.pumpSend k) { t.setPump k { t.pump k with pc := .completing } with
        tx := t.tx.push (.end (t.pump k).id r) }
  | endFailed {k : Nat} {r : Bytes} (hp : (t.pump k).pc = .ending r) :
      Move t (.pumpSend k) (t.setPump k { t.pump k with pc := .completing })
  | completed {k : Nat} (hp : (t.pump k).pc = .completing) :
      Move t (.pumpSend k) { t.setPump k { t.pump k with pc := .done } with
        completions := t.completions ++ [((t.pump k).id, k)] }
  | cancel {k : Nat} {p : Pump} (hp : (t.pump k).cancel = some p) :
      Move t (.cancel k) (t.setPump k p)
  | poll {k : Nat} {p : Pump} (hp : (t.pump k).pollInput = some p) :
      Move t (.poll k) (t.setPump k p)
  | dropInput {k : Nat} : Move t (.dropInput k)
      (t.setPump k { t.pump k with input := (t.pump k).input.close, inputPc := .finished })
  -- the writer
  | write {f : Frame} {tx : Chan Frame} (hr : t.tx.recv = some (f, tx)) :
      Move t .write { t with tx := tx }
  | writerEnd : Move t .writerEnd t.writerEnd

/-! ## every step is a move -/

theorem loopSend_cases (t : Tunnel) (f : Frame) :
    t.loopSend f = { t with tx := t.tx.push f, loop := .select } ∨ t.loopSend f = t.leave := by
  unfold loopSend
  cases hs : t.tx.trySend wsWriterCapacity f with
  | ok tx =>
    obtain ⟨_, _, rfl⟩ := Chan.trySend_ok hs
    exact .inl rfl
  | error e => exact .inr rfl

theorem trySend_ok_or {α : Type*} (cap : Nat) (c : Chan α) (x : α) :
    (c.rxClosed = false ∧ c.trySend cap x = .ok (c.push x)) ∨
      c.trySend cap x = .error .full ∨ (c.rxClosed = true ∧ c.trySend cap x = .error .closed) := by
  cases hs : c.trySend cap x with
  | ok d =>
    obtain ⟨hc, _, rfl⟩ := Chan.trySend_ok hs
    exact .inl ⟨hc, rfl⟩
  | error e =>
    cases e with
    | full => exact .inr (.inl rfl)
    | closed => exact .inr (.inr ⟨Chan.trySend_closed hs, rfl⟩)

theorem move_enqueue {m : Message} {f : Frame} {b : Bytes} (hl : t.loop = .select)
    (hm : tetherDecode m = .ok (some f)) (hf : f.upload i = some b)
    (ho : f.opens = none) (he : ∀ i r, f ≠ .end i r) :
    Move t (.recv m) { t.enqueue i b with received := t.received ++ [f] } := by
  have hone : ∀ j c, f.upload j = some c → j = i := fun j c hj =>
    Option.some.inj ((upload_follows hj).symm.trans (upload_follows hf))
  unfold enqueue
  cases hk : t.streams.get i with
  | none =>
    refine .ignore hl hm ho he ?_
    intro j c k hj hjk
    rw [hone j c hj, hk] at hjk
    cases hjk
  | some k =>
    simp only
    rcases trySend_ok_or streamInputCapacity (t.pump k).input b with ⟨hc, hs⟩ | hs | ⟨hc, hs⟩
    · rw [hs]
      exact .queue hl hm hf hk hc
    · rw [hs]
      exact .exceed hl hm hf hk
    · rw [hs]
      refine .ignore hl hm ho he ?_
      intro j c k' hj hjk
      rw [hone j c hj, hk] at hjk
      obtain rfl := Option.some.inj hjk
      exact hc

theorem move_handleFrame {m : Message} {f : Frame} (hl : t.loop = .select)
    (hm : tetherDecode m = .ok (some f)) :
    Move t (.recv m) { t.handleFrame f with received := t.received ++ [f] } := by
  cases f with
  | ping =>
    show Move t _ { t.loopSend .pong with received := _ }
    rcases loopSend_cases t .pong with hs | hs
    · rw [hs]
      exact .pong hl hm
    · rw [hs]
      exact .leaveOn hl hm rfl
  | pong => exact .ignore hl hm rfl (fun _ _ => nofun) fun i b k hu => (nomatch hu)
  | «open» id head =>
    unfold handleFrame
    simp only
    split
    · next hn => exact .refuse hl hm hn
    · next hn => exact .spawn hl hm (Nat.lt_of_not_le hn)
  | data id bytes => exact move_enqueue hl hm (if_pos rfl) rfl fun _ _ => nofun
  | halfEnd id => exact move_enqueue hl hm (if_pos rfl) rfl fun _ _ => nofun
  | «end» id r => exact .end hl hm
  | _ => exact .leaveOn hl hm rfl

theorem move_recv {m : Message} (h : t.recv m = some u) : Move t (.recv m) u := by
  unfold recv at h
  split at h
  · next hl =>
    cases hm : tetherDecode m with
    | error e =>
      simp only [hm, Option.some.injEq] at h
      exact h ▸ .leave (by rw [hl]; exact nofun)
    | ok o =>
      cases o with
      | none =>
        simp only [hm, Option.some.injEq] at h
        exact h ▸ .quiet hm
      | some f =>
        simp only [hm, Option.some.injEq] at h
        exact h ▸ move_handleFrame hl hm
  · cases h

theorem move_pumpSend (h : t.pumpSend k = some u) : Move t (.pumpSend k) u := by
  unfold pumpSend at h
  simp only at h
  split at h
  · next f hp =>
    split at h
    · exact Option.some.inj h ▸ .sendFailed hp
    · split at h
      · exact Option.some.inj h ▸ .sent hp
      · cases h
  · next r hp =>
    split at h
    · exact Option.some.inj h ▸ .endFailed hp
    · split at h
      · exact Option.some.inj h ▸ .endSent hp
      · cases h
  · next hp => exact Option.some.inj h ▸ .completed hp
  · cases h

/-- **Inversion.** Every step of the tether is one of the moves. -/
theorem move_of_step (h : t.step a = some u) : Move t a u := by
  cases a with
  | recv m => exact move_recv h
  | reply =>
    change t.replyStep = some u at h
    unfold replyStep at h
    split at h
    · next i r hl =>
      obtain rfl := Option.some.inj h
      rcases loopSend_cases t (.end i r) with hs | hs
      · rw [hs]
        exact .reply hl
      · rw [hs]
        exact .leave (by rw [hl]; exact nofun)
    · cases h
  | complete =>
    change t.complete = some u at h
    unfold complete at h
    split at h
    · next i k rest hl hc => exact Option.some.inj h ▸ .complete hl hc
    · cases h
  | pingTick =>
    change t.pingTick = some u at h
    unfold pingTick at h
    split at h
    · next hl =>
      obtain rfl := Option.some.inj h
      rcases loopSend_cases t .ping with hs | hs
      · rw [hs]
        exact .ping hl
      · rw [hs]
        exact .leave (by rw [hl]; exact nofun)
    · cases h
  | leaseTick =>
    change t.leaseTick = some u at h
    unfold leaseTick at h
    split at h
    · next hl =>
      cases hs : t.tx.trySend wsWriterCapacity (.goAway (ascii "lease refresh")) with
      | ok tx =>
        obtain ⟨_, _, rfl⟩ := Chan.trySend_ok hs
        rw [hs] at h
        exact Option.some.inj h ▸ .goAway hl
      | error e =>
        rw [hs] at h
        exact Option.some.inj h ▸ .leave (by rw [hl]; exact nofun)
    · cases h
  | exit =>
    change t.exit = some u at h
    unfold Tunnel.exit at h
    split at h
    · next hl => exact Option.some.inj h ▸ .leave (by rw [hl]; exact nofun)
    · cases h
  | engine k e =>
    obtain ⟨p, hp, rfl⟩ := Option.map_eq_some_iff.mp h
    exact .engine hp
  | pumpSend k => exact move_pumpSend h
  | cancel k =>
    obtain ⟨p, hp, rfl⟩ := Option.map_eq_some_iff.mp h
    exact .cancel hp
  | poll k =>
    obtain ⟨p, hp, rfl⟩ := Option.map_eq_some_iff.mp h
    exact .poll hp
  | dropInput k => exact Option.some.inj h ▸ .dropInput
  | write =>
    change t.write = some u at h
    unfold write at h
    split at h
    · cases h
    · obtain ⟨⟨f, tx⟩, hr, rfl⟩ := Option.map_eq_some_iff.mp h
      exact .write hr
  | writerEnd => exact Option.some.inj h ▸ .writerEnd

end Tunnel

end AnvilRing
