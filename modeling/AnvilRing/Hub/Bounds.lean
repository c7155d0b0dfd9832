import AnvilRing.Hub.Session

/-!
# The queues of a hub session are bounded

Whatever the tether sends and the callers do: the command queue, the response queue of every stream
and the map of streams keep within their capacities.

* `ForwardPc.permits`   the slots that the forward in progress holds;
* `Session.Bounded`     the bounds;
* `Bounded.step`        every step keeps them.
-/

namespace AnvilRing
open Wire

/-- the slots of the command queue that a forward holds -/
def ForwardPc.permits : ForwardPc → Nat
  | .reserved _ => 1
  | .allocated _ _ => 1
  | .admitted _ => 1
  | _ => 0

structure Session.Bounded (s : Session) : Prop where
  commands : s.tx.Within commandChannelCapacity
  permits : s.tx.reserved = s.forward.permits
  streams : s.streams.card ≤ maxConcurrentStreams
  chunks : ∀ i, (s.state i).chunks.Within chunkCapacity

/-- the caller's side only takes from the response queue -/
theorem StreamState.Handled.within {st st' : StreamState} {cap : Nat} (h : st.Handled st')
    (hc : st.chunks.Within cap) : st'.chunks.Within cap := by
  cases h with
  | chunk _ hr => exact hc.recv hr
  | ended _ hr =>
    have hd := hc.recv hr
    exact hd
  | _ => exact hc

theorem StreamState.callerDrop_within {st st' : StreamState} {cap : Nat}
    (h : st.callerDrop = some st') (hc : st.chunks.Within cap) : st'.chunks.Within cap := by
  unfold callerDrop at h
  split at h <;> cases h <;> exact hc

namespace Session
namespace Bounded
variable {lib : HttpLib} {s t : Session} {a : SessionAction} {i : UInt16} {st : StreamState}

theorem setState (h : s.Bounded) (i : UInt16) (st : StreamState)
    (hc : st.chunks.Within chunkCapacity) :
    (s.setState i st).Bounded :=
  ⟨h.commands, h.permits, h.streams,
    forall_setState (P := fun _ st => st.chunks.Within _) h.chunks hc⟩

/-- a task of a stream queues a command -/
theorem push (h : s.Bounded) {f : Frame} (hroom : s.tx.canSend commandChannelCapacity = true)
    (hc : st.chunks.Within chunkCapacity) :
    Bounded { s.setState i st with tx := s.tx.push f } :=
  ⟨Chan.within_push hroom f, h.permits, h.streams, (h.setState i st hc).chunks⟩

theorem trySend (h : s.Bounded) {f : Frame} {tx : Chan Frame}
    (hs : s.tx.trySend commandChannelCapacity f = .ok tx) (hc : st.chunks.Within chunkCapacity) :
    Bounded { s.setState i st with tx := tx } := by
  obtain ⟨-, hroom, rfl⟩ := Chan.trySend_ok hs
  exact h.push hroom hc

/-- a forward that is refused gives its slot back -/
theorem dropPermit (h : s.Bounded) (hp : s.forward.permits = 1) (e : ForwardError) :
    Bounded { s with tx := s.tx.dropPermit, forward := .returned (.error e) } := by
  refine ⟨h.commands.dropPermit, ?_, h.streams, h.chunks⟩
  show s.tx.reserved - 1 = 0
  rw [h.permits, hp]

theorem terminate (h : s.Bounded) (i : UInt16) (v : Verdict) (stage : TermStage) :
    (s.setState i ((s.state i).terminate v stage)).Bounded :=
  h.setState i _ (by cases stage <;> exact h.chunks i)

theorem loopSend (h : s.Bounded) (f : Frame) : (s.loopSend f).Bounded := by
  unfold Session.loopSend
  split
  · next tx hs =>
    obtain ⟨-, hroom, rfl⟩ := Chan.trySend_ok hs
    exact ⟨Chan.within_push hroom f, h.permits, h.streams, h.chunks⟩
  · exact ⟨h.commands, h.permits, h.streams, h.chunks⟩

theorem recv {m : Message} {now : Nat} (h : s.Bounded) (hs : s.recv m now = some t) :
    t.Bounded := by
  unfold Session.recv at hs
  split at hs
  · split at hs
    · obtain rfl := Option.some.inj hs
      exact ⟨h.commands, h.permits, h.streams, h.chunks⟩
    · obtain rfl := Option.some.inj hs
      exact h
    · split at hs
      · obtain rfl := Option.some.inj hs
        exact h.loopSend _
      all_goals
        obtain rfl := Option.some.inj hs
        exact ⟨h.commands, h.permits, h.streams, h.chunks⟩
  · cases hs

theorem loopStep (h : s.Bounded) (hs : s.loopStep lib = some t) : t.Bounded := by
  unfold Session.loopStep at hs
  split at hs
  · obtain rfl := Option.some.inj hs
    exact ⟨h.commands, h.permits, h.streams, h.chunks⟩
  · next id head _ =>
    split at hs
    · next res _ =>
      obtain rfl := Option.some.inj hs
      have hset := h.setState id { s.state id with head := some res } (h.chunks id)
      exact ⟨hset.commands, hset.permits, hset.streams, hset.chunks⟩
    · obtain rfl := Option.some.inj hs
      exact ⟨h.commands, h.permits, h.streams, h.chunks⟩
  · next id bytes _ =>
    split at hs
    · next st ha =>
      obtain rfl := Option.some.inj hs
      unfold acceptData at ha
      split at ha
      · split at ha
        · next c hc =>
          obtain ⟨-, hroom, rfl⟩ := Chan.trySend_ok hc
          obtain rfl := Option.some.inj ha
          have hset := h.setState id
            { s.state id with chunks := (s.state id).chunks.push (.chunk bytes) }
            (Chan.within_push hroom _)
          exact ⟨hset.commands, hset.permits, hset.streams, hset.chunks⟩
        · cases ha
      · cases ha
    · obtain rfl := Option.some.inj hs
      exact ⟨h.commands, h.permits, h.streams, h.chunks⟩
  · next id v stage reply _ =>
    obtain rfl := Option.some.inj hs
    have hset := h.terminate id v stage
    exact ⟨hset.commands, hset.permits, hset.streams, hset.chunks⟩
  · obtain rfl := Option.some.inj hs
    exact ⟨h.commands, h.permits, (Finset.card_le_card (Finset.erase_subset _ _)).trans h.streams,
      h.chunks⟩
  · obtain rfl := Option.some.inj hs
    exact h.loopSend _
  · cases hs

theorem drain (h : s.Bounded) {order : List UInt16} (hs : s.drain order = some t) : t.Bounded := by
  unfold Session.drain at hs
  split at hs
  · obtain rfl := Option.some.inj hs
    exact ⟨h.commands, h.permits, Nat.zero_le _, h.chunks⟩
  · cases hs

theorem closeStep (h : s.Bounded) (drained todo : List UInt16) (stage : TermStage) :
    (s.closeStep drained todo stage).1.Bounded := by
  unfold Session.closeStep
  split
  · exact h
  · exact h.terminate _ .fail stage

theorem teardownStep (h : s.Bounded) {order : List UInt16} (hs : s.teardownStep order = some t) :
    t.Bounded := by
  unfold Session.teardownStep at hs
  split at hs
  · obtain ⟨u, hu, rfl⟩ := Option.map_eq_some_iff.mp hs
    have hd := h.drain hu
    exact ⟨hd.commands, hd.permits, hd.streams, hd.chunks⟩
  · next drained todo stage _ _ =>
    obtain rfl := Option.some.inj hs
    have hc := h.closeStep drained todo stage
    exact ⟨hc.commands, hc.permits, hc.streams, hc.chunks⟩
  · obtain rfl := Option.some.inj hs
    exact ⟨h.commands, h.permits, h.streams, h.chunks⟩
  · obtain rfl := Option.some.inj hs
    exact ⟨h.commands, h.permits, h.streams, h.chunks⟩
  · cases hs

theorem registryStep (h : s.Bounded) {order : List UInt16} (hs : s.registryStep order = some t) :
    t.Bounded := by
  unfold Session.registryStep at hs
  split at hs
  · obtain ⟨u, hu, rfl⟩ := Option.map_eq_some_iff.mp hs
    have hd := h.drain hu
    exact ⟨hd.commands, hd.permits, hd.streams, hd.chunks⟩
  · next drained todo stage _ =>
    obtain rfl := Option.some.inj hs
    have hc := h.closeStep drained todo stage
    exact ⟨hc.commands, hc.permits, hc.streams, hc.chunks⟩
  · obtain rfl := Option.some.inj hs
    exact ⟨h.commands, h.permits, h.streams, h.chunks⟩

theorem reserve (h : s.Bounded) {req : Request} (hs : s.reserve req = some t) : t.Bounded := by
  unfold Session.reserve at hs
  split at hs
  · next hf =>
    have hnone : s.tx.reserved = 0 := by
      rw [h.permits, hf]
      rfl
    split at hs
    · next tx htx =>
      obtain ⟨-, hroom, rfl⟩ := Chan.tryReserve_ok htx
      obtain rfl := Option.some.inj hs
      refine ⟨Chan.within_reserve hroom, ?_, h.streams, h.chunks⟩
      show s.tx.reserved + 1 = 1
      rw [hnone]
    all_goals
      obtain rfl := Option.some.inj hs
      exact ⟨h.commands, hnone, h.streams, h.chunks⟩
  · cases hs

theorem forwardStep (h : s.Bounded) (hs : s.forwardStep = some t) : t.Bounded := by
  unfold Session.forwardStep at hs
  split at hs
  · next req hf =>
    have hp : s.forward.permits = 1 := by rw [hf]; rfl
    obtain rfl := Option.some.inj hs
    unfold Session.allocate
    split
    · exact h.dropPermit hp _
    · exact ⟨h.commands, h.permits.trans hp, h.streams, h.chunks⟩
  · next req id hf =>
    have hp : s.forward.permits = 1 := by rw [hf]; rfl
    obtain rfl := Option.some.inj hs
    unfold Session.admitStream
    split
    · exact h.dropPermit hp _
    · split
      · exact h.dropPermit hp _
      · next hroom =>
        have hset := h.setState id (StreamState.fresh req s.received.length) (Nat.zero_le _)
        exact ⟨hset.commands, h.permits.trans hp,
          (Finset.card_insert_le _ _).trans (Nat.lt_of_not_le hroom), hset.chunks⟩
  · next id hf =>
    have hp : s.tx.reserved = 1 := by
      rw [h.permits, hf]
      rfl
    obtain rfl := Option.some.inj hs
    refine ⟨h.commands.sendPermit (hp ▸ Nat.one_pos) _, ?_, h.streams, h.chunks⟩
    show s.tx.reserved - 1 = 0
    rw [hp]
  · next id hf =>
    obtain rfl := Option.some.inj hs
    have hset := h.setState id
      { s.state id with guardPc := .held, uploadPc := .reading } (h.chunks id)
    refine ⟨hset.commands, ?_, hset.streams, hset.chunks⟩
    show s.tx.reserved = 0
    rw [h.permits, hf]
    rfl
  · next id hf =>
    obtain rfl := Option.some.inj hs
    have hset := h.setState id { (s.state id).installUpload with callerPc := .waitHead } (by
      rw [StreamState.installUpload_eq]
      exact h.chunks id)
    refine ⟨hset.commands, ?_, hset.streams, hset.chunks⟩
    show s.tx.reserved = 0
    rw [h.permits, hf]
    rfl
  · next hf =>
    obtain rfl := Option.some.inj hs
    refine ⟨h.commands, ?_, h.streams, h.chunks⟩
    show s.tx.reserved = 0
    rw [h.permits, hf]
    rfl
  · cases hs

theorem uploadStep (h : s.Bounded) (hs : s.uploadStep i = some t) : t.Bounded := by
  unfold Session.uploadStep at hs
  simp only at hs
  split at hs
  · split at hs <;> exact Option.some.inj hs ▸ h.setState i _ (h.chunks i)
  · split at hs
    · exact Option.some.inj hs ▸ h.setState i _ (h.chunks i)
    · split at hs
      · next hroom => exact Option.some.inj hs ▸ h.push hroom (h.chunks i)
      · cases hs
  · exact Option.some.inj hs ▸ h.setState i _ (h.chunks i)
  · next stage _ =>
    exact Option.some.inj hs ▸ h.setState i _ (by cases stage <;> exact h.chunks i)
  · split at hs
    · next tx htx => exact Option.some.inj hs ▸ h.trySend htx (h.chunks i)
    · exact Option.some.inj hs ▸ h.setState i _ (h.chunks i)
    · exact Option.some.inj hs ▸ h.setState i _ (h.chunks i)
  · have hset := h.setState i { s.state i with uploadPc := .done } (h.chunks i)
    exact Option.some.inj hs ▸ ⟨hset.commands, hset.permits, hset.streams, hset.chunks⟩
  · cases hs

theorem uploadCancel (h : s.Bounded) (hs : s.uploadCancel i = some t) : t.Bounded := by
  unfold Session.uploadCancel at hs
  simp only at hs
  split at hs
  · split at hs
    · exact Option.some.inj hs ▸ h.setState i _ (h.chunks i)
    · exact Option.some.inj hs ▸ h.setState i _ (h.chunks i)
    · cases hs
  · cases hs

theorem guardStep (h : s.Bounded) (hs : s.guardStep i = some t) : t.Bounded := by
  unfold Session.guardStep at hs
  simp only at hs
  split at hs
  · exact Option.some.inj hs ▸ h.setState i _ (h.chunks i)
  · have hset := h.setState i { s.state i with guardPc := .check } (h.chunks i)
    exact Option.some.inj hs ▸ ⟨hset.commands, hset.permits,
      (Finset.card_le_card (Finset.erase_subset _ _)).trans h.streams, hset.chunks⟩
  · exact Option.some.inj hs ▸ h.setState i _ (h.chunks i)
  · split at hs
    · next tx htx => exact Option.some.inj hs ▸ h.trySend htx (h.chunks i)
    · exact Option.some.inj hs ▸ h.setState i _ (h.chunks i)
    · exact Option.some.inj hs ▸ h.setState i _ (h.chunks i)
  · have hset := h.setState i { s.state i with guardPc := .dropped } (h.chunks i)
    exact Option.some.inj hs ▸ ⟨hset.commands, hset.permits, hset.streams, hset.chunks⟩
  · cases hs

theorem write (h : s.Bounded) (hs : s.write = some t) : t.Bounded := by
  unfold Session.write at hs
  split at hs
  · cases hs
  · obtain ⟨⟨f, tx⟩, hr, rfl⟩ := Option.map_eq_some_iff.mp hs
    refine ⟨h.commands.recv hr, ?_, h.streams, h.chunks⟩
    obtain ⟨-, hd⟩ := Chan.recv_some hr
    show tx.reserved = s.forward.permits
    rw [hd]
    exact h.permits

theorem step (h : s.Bounded) (hs : Session.step lib s a = some t) : t.Bounded := by
  cases a with
  | recv m now => exact h.recv hs
  | loop => exact h.loopStep hs
  | tickPing =>
    change s.tickPing = some t at hs
    unfold Session.tickPing at hs
    split at hs
    · exact Option.some.inj hs ▸ h.loopSend _
    · cases hs
  | exit cause =>
    change s.exit cause = some t at hs
    unfold Session.exit at hs
    split at hs
    · exact Option.some.inj hs ▸ ⟨h.commands, h.permits, h.streams, h.chunks⟩
    · cases hs
  | teardown order => exact h.teardownStep hs
  | registryClose order => exact h.registryStep hs
  | reserve req => exact h.reserve hs
  | forward => exact h.forwardStep hs
  | upload i => exact h.uploadStep hs
  | uploadCancel i => exact h.uploadCancel hs
  | guard i => exact h.guardStep hs
  | caller i budget =>
    obtain ⟨st, hst, rfl⟩ := Option.map_eq_some_iff.mp hs
    exact h.setState i _ ((StreamState.handled hst).within (h.chunks i))
  | callerDrop i =>
    obtain ⟨st, hst, rfl⟩ := Option.map_eq_some_iff.mp hs
    exact h.setState i _ (StreamState.callerDrop_within hst (h.chunks i))
  | write => exact h.write hs
  | writerEnd => exact Option.some.inj hs ▸ ⟨h.commands, h.permits, h.streams, h.chunks⟩

end Bounded

theorem Reachable.bounded {lib : HttpLib} {s : Session} (h : Reachable lib s) : s.Bounded := by
  refine Machine.Reachable.invariant (P := Bounded) ?_ (fun _ _ _ hb hs => hb.step hs) h
  rintro s ⟨id, cred, now, rfl⟩
  exact ⟨Nat.zero_le _, rfl, Nat.zero_le _, fun _ => Nat.zero_le _⟩

end Session

end AnvilRing
