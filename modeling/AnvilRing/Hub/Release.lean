import AnvilRing.Hub.Closing
import AnvilRing.Hub.Commands
import AnvilRing.Hub.Response

/-!
# How a session lets go of a stream

A stream leaves the map, or is given its outcome, on many paths.  Each of them sends END, is about
to, follows an END of the tether, or belongs to a session that is going down.

* `Session.Down`                 the session is going down;
* `Session.Releasing`            a task is about to put END into the command queue;
* `Session.Reachable.released`   where the END of an open stream is, once the session let go of it.
-/

namespace AnvilRing
open Wire

/-- the stream that the loop is about to send END for -/
def LoopPc.ends : LoopPc → Option UInt16
  | .terminate i _ _ (some _) => some i
  | .remove i (some _) => some i
  | .reply i _ => some i
  | _ => none

/-- the stream whose END from the tether the loop is acting on -/
def LoopPc.ending : LoopPc → Option UInt16
  | .terminate i _ _ none => some i
  | .remove i none => some i
  | _ => none

/-- the loop has left its `select!` for good -/
def LoopPc.out : LoopPc → Bool
  | .exited => true
  | .closed => true
  | .finished => true
  | _ => false

namespace StreamState

/-- a task that found the command queue full is about to raise `abort_tx` -/
def Aborting (st : StreamState) : Prop := st.uploadPc = .aborting ∨ st.guardPc = .aborting

/-- the failed upload task is on its way to END -/
def UploadEnds (st : StreamState) : Prop :=
  (∃ stage, st.uploadPc = .failing stage) ∨ st.uploadPc = .ending

/-- the stream was completed, or has its outcome -/
def Terminal (st : StreamState) : Prop := st.completed = true ∨ st.outcome ≠ .pending

/-- the guard is on its way to END, unless the stream was completed -/
def GuardEnds (st : StreamState) : Prop := st.guardPc = .check ∨ st.guardPc = .ending

end StreamState

namespace Session
open StreamState
variable {lib : HttpLib} {s t : Session} {a : SessionAction} {i : UInt16}

/-- the session is closed or cancelled, or one of its tasks has seen that it cannot go on -/
def Down (s : Session) : Prop :=
  s.closed = true ∨ s.abort = true ∨ s.tx.rxClosed = true ∨ s.loop.out = true ∨
    ∃ j, (s.state j).Aborting

/-- a task is about to put END for stream `i` into the command queue -/
def Releasing (s : Session) (i : UInt16) : Prop :=
  s.loop.ends = some i ∨ (s.state i).UploadEnds ∨
    ((s.state i).guardPc = .check ∧ (s.state i).completed = false) ∨ (s.state i).guardPc = .ending

/-- the reasons for which the other tasks may forget a completed stream -/
def Settled (s : Session) (i : UInt16) : Prop :=
  (∃ r, .end i r ∈ s.tx.log) ∨ s.loop.ends = some i ∨ (s.state i).UploadEnds ∨
    (∃ r, .end i r ∈ s.since i) ∨ s.Down

/-! ## the guard waits for its caller -/

/-- the guard runs only once its caller is gone -/
def Waits (st : StreamState) : Prop :=
  st.callerPc ≠ .gone → st.guardPc = .absent ∨ st.guardPc = .held

def Guarded (s : Session) : Prop := ∀ i, Waits (s.state i)

/-- a caller that is still there has not started its guard -/
theorem waits_of_handle {budget : Bool} {st st' : StreamState} (h : Waits st)
    (hh : st.handle budget = some st') : st.guardPc = .absent ∨ st.guardPc = .held := by
  refine h fun hc => ?_
  unfold handle at hh
  rw [hc] at hh
  cases hh

theorem waits_handle {budget : Bool} {st st' : StreamState} (h : Waits st)
    (hh : st.handle budget = some st') : Waits st' := by
  intro hg
  have hw := waits_of_handle h hh
  cases handled hh with
  | headNone => exact absurd rfl hg
  | _ => exact hw

theorem Guarded.setState (h : s.Guarded) {st : StreamState} (hi : Waits (s.state i) → Waits st) :
    (s.setState i st).Guarded := forall_setState (P := fun _ st => Waits st) h (hi (h i))

/-- the guard is running: its caller is gone -/
theorem waits_of_guard {st st' : StreamState} (h : Waits st) (hc : st'.callerPc = st.callerPc)
    (ha : st.guardPc ≠ .absent) (hg : st.guardPc ≠ .held) : Waits st' := by
  intro hx
  rw [hc] at hx
  rcases h hx with hx | hx
  · exact absurd hx ha
  · exact absurd hx hg

theorem Guarded.move (h : s.Guarded) (hr : Reachable lib s) (hm : Move lib s a t) : t.Guarded := by
  cases hm with
  | quiet | alive | frame | leave | control | takeUp | headBad | dataBad | remove | reply | noReply
  | ownDrain | ownFailed | ownReturned | detached | registryDrain | registryFailed | cancel
  | write | writerEnd | reserveOk | reserveNo | exhausted | allocate | gone | busy | answered
  | «open» => exact h
  | headOk | dataOk | readData | readTrailers | readEnd | sent | sendFailed | erred | uploadEnd
  | uploadFull | uploadClosed | uploadAbort | uploadCancel => exact h.setState fun hx => hx
  | terminate | ownFail | registryFail | uploadFail =>
    refine h.setState ?_
    rw [StreamState.terminate_eq]
    exact fun hx => hx
  | register => exact h.setState fun _ _ => .inl rfl
  | spawn => exact h.setState fun _ _ => .inr rfl
  | @install id hf =>
    refine h.setState fun hx _ => ?_
    rw [StreamState.installUpload_eq]
    refine hx ?_
    rw [(hr.responses id).starting (by rw [hf]; rfl)]
    exact nofun
  | guardAbortUpload hg | guardRemove hg | guardCheck hg | guardEnd hg | guardFull hg
  | guardClosed hg | guardAbort hg =>
    refine h.setState fun hx => waits_of_guard hx rfl ?_ ?_
    · rw [hg]
      exact nofun
    · rw [hg]
      exact nofun
  | caller hh => exact h.setState fun hx => waits_handle hx hh
  | callerDrop hh =>
    refine h.setState fun _ hg => absurd ?_ hg
    rw [callerDrop_eq hh]

theorem Reachable.guarded (h : Reachable lib s) : s.Guarded :=
  h.move (P := Guarded) (fun _ _ _ _ _ => .inl rfl) fun _ _ _ hr hg hm => hg.move hr hm

theorem waits_of_callerDrop {st st' : StreamState} (h : Waits st)
    (hh : st.callerDrop = some st') : st.guardPc = .absent ∨ st.guardPc = .held := by
  refine h fun hc => ?_
  unfold StreamState.callerDrop at hh
  rw [hc] at hh
  cases hh

/-! ## what stays as it is while the session goes on -/

/-- a stream that was taken up for stays so -/
theorem Move.since (hm : Move lib s a t) (hid : s.IdInv)
    (hstart : (s.state i).start ≤ s.received.length) (hi : (s.state i).registered = true)
    {f : Frame} (hf : f ∈ s.since i) : f ∈ t.since i := by
  have hset : ∀ {j : UInt16} {st : StreamState}, st.start = (s.state j).start →
      f ∈ (s.setState j st).since i := by
    intro j st hst
    rw [since_setState hst]
    exact hf
  cases hm with
  | takeUp =>
    rw [since_takeUp _ _ hstart]
    exact List.mem_append_left _ hf
  | headOk | dataOk | spawn | readData | readTrailers | readEnd | sent | sendFailed | erred
  | uploadEnd | uploadFull | uploadClosed | uploadAbort | uploadCancel | guardAbortUpload
  | guardRemove | guardCheck | guardEnd | guardFull | guardClosed | guardAbort => exact hset rfl
  | terminate | ownFail | registryFail | uploadFail =>
    refine hset ?_
    rw [StreamState.terminate_eq]
  | install =>
    refine hset ?_
    rw [StreamState.installUpload_eq]
  | caller hh =>
    refine hset ?_
    rw [StreamState.handle_eq hh]
  | callerDrop hh =>
    refine hset ?_
    rw [StreamState.callerDrop_eq hh]
  | @register req id hfw =>
    -- a new id: stream `i` is another one
    have hne : i ≠ id := by
      rintro rfl
      exact hid.not_allocated hi req hfw
    show f ∈ (s.received.drop ((s.setState id _).state i).start).filter (concerns i)
    rw [setState_of_ne s _ hne]
    exact hf
  | _ => exact hf

/-- a task about to raise `abort_tx` stays there until it has raised it -/
theorem Move.aborting (hm : Move lib s a t) (hr : Reachable lib s)
    (h : (s.state i).Aborting) : (t.state i).Aborting ∨ t.abort = true := by
  have hset : ∀ {j : UInt16} {st : StreamState}, ((s.state j).Aborting → st.Aborting) →
      ((s.setState j st).state i).Aborting ∨ t.abort = true := by
    intro j st hst
    left
    exact forall_setState (s := s) (P := fun j st => (s.state j).Aborting → st.Aborting)
      (fun _ hx => hx) hst i h
  have hupload : ∀ {j : UInt16} {st : StreamState}, (s.state j).uploadPc ≠ .aborting →
      st.guardPc = (s.state j).guardPc →
      ((s.setState j st).state i).Aborting ∨ t.abort = true := by
    intro j st hu hg
    refine hset fun hx => .inr ?_
    rw [hg]
    exact hx.resolve_left hu
  have hguard : ∀ {j : UInt16} {st : StreamState}, (s.state j).guardPc ≠ .aborting →
      st.uploadPc = (s.state j).uploadPc →
      ((s.setState j st).state i).Aborting ∨ t.abort = true := by
    intro j st hg hu
    refine hset fun hx => .inl ?_
    rw [hu]
    exact hx.resolve_right hg
  have hnew : ∀ {j : UInt16} {st : StreamState}, Unstarted (s.state j) →
      ((s.setState j st).state i).Aborting ∨ t.abort = true := by
    intro j st hu
    refine hset fun hx => ?_
    rcases hx with hx | hx
    · rw [hu.1] at hx
      cases hx
    · rw [hu.2.1] at hx
      cases hx
  cases hm with
  | quiet | alive | frame | leave | control | takeUp | headBad | dataBad | remove | reply | noReply
  | ownDrain | ownFailed | ownReturned | detached | registryDrain | registryFailed
  | write | writerEnd | reserveOk | reserveNo | exhausted | allocate | gone | busy | answered
  | «open» => exact .inl h
  | cancel => exact .inr rfl
  | uploadAbort => exact .inr rfl
  | guardAbort => exact .inr rfl
  | headOk | dataOk | readTrailers => exact hset fun hx => hx
  | terminate | ownFail | registryFail =>
    refine hset ?_
    rw [StreamState.terminate_eq]
    exact fun hx => hx
  | install =>
    refine hset ?_
    rw [StreamState.installUpload_eq]
    exact fun hx => hx
  | @register req id hf =>
    refine hnew ?_
    by_contra hx
    exact hr.idInv.unopened id (by rw [hf]; rfl) (hr.started.tasks id hx)
  | @spawn id hf => exact hnew (hr.started.unspawned id (by rw [hf]; rfl))
  | readData hu | readEnd hu | sent hu | sendFailed hu | erred hu | uploadEnd hu | uploadFull hu
  | uploadClosed hu => exact hupload (by rw [hu]; exact nofun) rfl
  | uploadFail hu =>
    refine hupload (by rw [hu]; exact nofun) ?_
    rw [StreamState.terminate_eq]
  | uploadCancel _ hu =>
    refine hupload ?_ rfl
    rcases hu with hu | ⟨f, hu⟩
    · rw [hu]
      exact nofun
    · rw [hu]
      exact nofun
  | guardAbortUpload hg | guardRemove hg | guardCheck hg | guardEnd hg | guardFull hg
  | guardClosed hg => exact hguard (by rw [hg]; exact nofun) rfl
  | @caller j budget st hh =>
    refine hguard ?_ ?_
    · rcases waits_of_handle (hr.guarded j) hh with hx | hx
      · rw [hx]
        exact nofun
      · rw [hx]
        exact nofun
    · rw [handle_eq hh]
  | @callerDrop j st hh =>
    refine hguard ?_ ?_
    · rcases waits_of_callerDrop (hr.guarded j) hh with hx | hx
      · rw [hx]
        exact nofun
      · rw [hx]
        exact nofun
    · rw [callerDrop_eq hh]

/-- a session that is going down keeps going down -/
theorem Move.down (hm : Move lib s a t) (hr : Reachable lib s) (h : s.Down) : t.Down := by
  rcases h with h | h | h | h | ⟨j, h⟩
  · exact .inl (hm.closed h (hr.closingInv.empty h)).1
  · right; left
    cases hm <;> first | exact h | rfl
  · right; right; left
    cases hm with
    | control _ _ hc | reply _ hc | reserveOk _ hc | sent _ hc | uploadEnd _ hc | guardEnd _ hc =>
      rw [h] at hc
      cases hc
    | write hc _ =>
      rw [h] at hc
      cases hc
    | writerEnd => rfl
    | _ => exact h
  · right; right; right; left
    cases hm with
    | frame hl | leave hl | control hl | takeUp hl | headOk hl | headBad hl | dataOk hl | dataBad hl
    | terminate hl | remove hl | reply hl | noReply hl =>
      rw [hl] at h
      cases h
    | ownReturned => rfl
    | detached => rfl
    | _ => exact h
  · rcases hm.aborting hr h with hx | hx
    · exact .inr (.inr (.inr (.inr ⟨j, hx⟩)))
    · exact .inr (.inl hx)

/-- a step registers no stream, or the one that its forward has an id for -/
theorem Move.registers (hm : Move lib s a t) :
    ((∀ j, (t.state j).registered = (s.state j).registered) ∧ t.streams ⊆ s.streams) ∨
    ∃ req id, a = .forward ∧ s.forward = .allocated req id ∧
      s.streams.card < maxConcurrentStreams ∧ t.streams = insert id s.streams ∧
      ∀ j, (t.state j).registered = true ↔ j = id ∨ (s.state j).registered = true := by
  have hset : ∀ {j : UInt16} {st : StreamState}, st.registered = (s.state j).registered →
      ∀ i, ((s.setState j st).state i).registered = (s.state i).registered :=
    fun hst => setState_apply StreamState.registered s hst
  cases hm with
  | headOk | dataOk | spawn | readData | readTrailers | readEnd | sent | sendFailed | erred
  | uploadEnd | uploadFull | uploadClosed | uploadAbort | uploadCancel | guardAbortUpload
  | guardCheck | guardEnd | guardFull | guardClosed | guardAbort =>
    exact .inl ⟨hset rfl, subset_rfl⟩
  | guardRemove => exact .inl ⟨hset rfl, Finset.erase_subset _ _⟩
  | terminate | ownFail | registryFail | uploadFail =>
    refine .inl ⟨hset ?_, subset_rfl⟩
    rw [StreamState.terminate_eq]
  | install =>
    refine .inl ⟨hset ?_, subset_rfl⟩
    rw [StreamState.installUpload_eq]
  | caller hh =>
    refine .inl ⟨hset ?_, subset_rfl⟩
    rw [StreamState.handle_eq hh]
  | callerDrop hh =>
    refine .inl ⟨hset ?_, subset_rfl⟩
    rw [StreamState.callerDrop_eq hh]
  | remove => exact .inl ⟨fun _ => rfl, Finset.erase_subset _ _⟩
  | ownDrain | registryDrain => exact .inl ⟨fun _ => rfl, Finset.empty_subset _⟩
  | @register req id hf hc hn =>
    refine .inr ⟨req, id, rfl, hf, hn, rfl, fun j => ?_⟩
    show ((s.setState id (StreamState.fresh req s.received.length)).state j).registered = true ↔ _
    by_cases hj : j = id
    · subst hj
      rw [setState_self]
      exact ⟨fun _ => .inl rfl, fun _ => rfl⟩
    · rw [setState_of_ne s _ hj]
      exact ⟨.inr, fun hx => hx.resolve_left hj⟩
  | _ => exact .inl ⟨fun _ => rfl, subset_rfl⟩

/-- a registered stream stays registered -/
theorem Move.registered (hm : Move lib s a t) (h : (s.state i).registered = true) :
    (t.state i).registered = true := by
  rcases hm.registers with ⟨hreg, _⟩ | ⟨_, _, _, _, _, _, hreg⟩
  · rw [hreg]
    exact h
  · exact (hreg i).mpr (.inr h)

/-! ## streams that the tether ended -/

/-- the loop acts on an END that it has taken up for a registered stream -/
def Acting (s : Session) : Prop := ∀ i, s.loop.ending = some i →
  (s.state i).registered = true ∧ ∃ r, .end i r ∈ s.since i

theorem Acting.frame (h : s.Acting) (hr : Reachable lib s) (hm : Move lib s a t)
    (hl : ∀ i, t.loop.ending = some i → s.loop.ending = some i) : t.Acting := by
  intro i hi
  obtain ⟨hreg, r, hx⟩ := h i (hl i hi)
  exact ⟨hm.registered hreg, r, hm.since hr.idInv (hr.responses i).start_le hreg hx⟩

theorem Acting.move (h : s.Acting) (hr : Reachable lib s) (hm : Move lib s a t) : t.Acting := by
  have hm' := hm
  cases hm' with
  | frame | leave | control | headOk | headBad | dataOk | dataBad | reply | noReply | ownReturned
  | detached => exact fun i hi => (nomatch hi)
  | @takeUp f hl =>
    intro i hi
    change (s.takeUp f).ending = some i at hi
    cases f with
    | «end» id r =>
      unfold takeUp at hi
      simp only at hi
      split at hi
      · next hmem =>
        obtain rfl := Option.some.inj hi
        refine ⟨hr.idInv.mapped id hmem, r, ?_⟩
        rw [since_takeUp _ _ (hr.responses id).start_le]
        refine List.mem_append_right _ ?_
        rw [if_pos (by simp [concerns])]
        exact List.mem_singleton_self _
      · cases hi
    | respHead id raw =>
      unfold takeUp at hi
      simp only at hi
      split at hi <;> cases hi
    | data id b =>
      unfold takeUp at hi
      simp only at hi
      split at hi <;> cases hi
    | _ => cases hi
  | @terminate id v stage reply hl =>
    refine h.frame hr hm fun i hi => ?_
    rw [hl]
    cases reply with
    | none => cases stage <;> exact hi
    | some r => cases stage <;> cases hi
  | @remove id reply hl =>
    intro i hi
    cases reply with
    | none => cases hi
    | some r => cases hi
  | _ => exact h.frame hr hm fun _ hi => hi

theorem Reachable.acting (h : Reachable lib s) : s.Acting :=
  h.move (P := Acting) (fun _ _ _ _ hi => (nomatch hi)) fun _ _ _ hr ha hm => ha.move hr hm

/-- a failed upload sends its END, or finds that the session is going down -/
theorem Move.uploadEnds (hm : Move lib s a t) (hr : Reachable lib s)
    (hi : (s.state i).registered = true) (h : (s.state i).UploadEnds) :
    (t.state i).UploadEnds ∨ (∃ r, .end i r ∈ t.tx.log) ∨ t.Down := by
  have hset : ∀ {j : UInt16} {st : StreamState}, st.uploadPc = (s.state j).uploadPc →
      ((s.setState j st).state i).UploadEnds := by
    intro j st hst
    refine forall_setState (s := s) (P := fun j st => (s.state j).UploadEnds → st.UploadEnds)
      (fun _ hx => hx) ?_ i h
    unfold UploadEnds
    rw [hst]
    exact fun hx => hx
  -- an upload task that is elsewhere is another stream's
  have hother : ∀ {j : UInt16} {st : StreamState}, ¬ (s.state j).UploadEnds →
      ((s.setState j st).state i).UploadEnds := by
    intro j st hj
    have hne : i ≠ j := by
      rintro rfl
      exact hj h
    rw [setState_of_ne s st hne]
    exact h
  have hends : ∀ {j : UInt16} {pc : UploadPc}, (s.state j).uploadPc = pc →
      (∀ stage, pc ≠ .failing stage) → pc ≠ .ending → ¬ (s.state j).UploadEnds := by
    intro j pc hu h1 h2 hx
    rcases hx with ⟨stage, hx⟩ | hx
    · exact h1 stage (hu.symm.trans hx)
    · exact h2 (hu.symm.trans hx)
  cases hm with
  | quiet | alive | frame | leave | control | takeUp | headBad | dataBad | remove | reply | noReply
  | ownDrain | ownFailed | ownReturned | detached | registryDrain | registryFailed | cancel
  | write | writerEnd | reserveOk | reserveNo | exhausted | allocate | gone | busy | answered
  | «open» => exact .inl h
  | headOk | dataOk | readTrailers | guardAbortUpload | guardRemove | guardCheck | guardEnd
  | guardFull | guardClosed | guardAbort => exact .inl (hset rfl)
  | terminate | ownFail | registryFail =>
    refine .inl (hset ?_)
    rw [StreamState.terminate_eq]
  | install =>
    refine .inl (hset ?_)
    rw [StreamState.installUpload_eq]
  | caller hh =>
    refine .inl (hset ?_)
    rw [handle_eq hh]
  | callerDrop hh =>
    refine .inl (hset ?_)
    rw [callerDrop_eq hh]
  | @register req id hf =>
    have hne : i ≠ id := by
      rintro rfl
      exact hr.idInv.not_allocated hi req hf
    left
    show ((s.setState id _).state i).UploadEnds
    rw [setState_of_ne s _ hne]
    exact h
  | @spawn id hf =>
    exact .inl (hother (hends (hr.started.unspawned id (by rw [hf]; rfl)).1 nofun nofun))
  | readData hu | readEnd hu | sent hu | sendFailed hu | erred hu | uploadAbort hu =>
    exact .inl (hother (hends hu nofun nofun))
  | uploadCancel _ hu =>
    rcases hu with hu | ⟨f, hu⟩
    · exact .inl (hother (hends hu nofun nofun))
    · exact .inl (hother (hends hu nofun nofun))
  | @uploadFail j stage hu =>
    left
    by_cases hij : i = j
    · subst hij
      show ((s.setState i _).state i).UploadEnds
      rw [setState_self]
      cases stage with
      | completed => exact .inl ⟨_, rfl⟩
      | upload => exact .inl ⟨_, rfl⟩
      | outcome => exact .inr rfl
    · show ((s.setState j _).state i).UploadEnds
      rw [setState_of_ne s _ hij]
      exact h
  | @uploadEnd j hu =>
    by_cases hij : i = j
    · subst hij
      right; left
      refine ⟨uploadFailed, ?_⟩
      rw [Chan.log_push]
      exact List.mem_append_right _ (List.mem_singleton_self _)
    · left
      show ((s.setState j _).state i).UploadEnds
      rw [setState_of_ne s _ hij]
      exact h
  | @uploadFull j hu =>
    right; right
    refine .inr (.inr (.inr (.inr ⟨j, .inl ?_⟩)))
    rw [setState_self]
  | uploadClosed hu hc => exact .inr (.inr (.inr (.inr (.inl hc))))

/-- what settles a stream goes on to do so -/
theorem Move.settled (hm : Move lib s a t) (hr : Reachable lib s)
    (hi : (s.state i).registered = true) (h : s.Settled i) : t.Settled i := by
  have hlog : ∀ f ∈ s.tx.log, f ∈ t.tx.log := by
    intro f hf
    rcases hm.log hr.sends with hl | ⟨g, _, hl⟩
    · rw [hl]
      exact hf
    · rw [hl]
      exact List.mem_append_left _ hf
  rcases h with ⟨r, h⟩ | h | h | ⟨r, h⟩ | h
  · exact .inl ⟨r, hlog _ h⟩
  · cases hm with
    | frame hl | leave hl | control hl | takeUp hl | headOk hl | headBad hl | dataOk hl
    | dataBad hl =>
      rw [hl] at h
      cases h
    | @terminate id v stage reply hl =>
      right; left
      rw [hl] at h
      cases reply with
      | none => cases h
      | some r => cases stage <;> exact h
    | @remove id reply hl =>
      right; left
      rw [hl] at h
      cases reply with
      | none => cases h
      | some r => exact h
    | @reply id r hl hc =>
      rw [hl] at h
      obtain rfl := Option.some.inj h
      left
      refine ⟨r, ?_⟩
      rw [Chan.log_push]
      exact List.mem_append_right _ (List.mem_singleton_self _)
    | noReply => exact .inr (.inr (.inr (.inr (.inr (.inr (.inr (.inl rfl)))))))
    | ownReturned hl | detached hl =>
      rw [hl] at h
      cases h
    | _ => exact .inr (.inl h)
  · rcases hm.uploadEnds hr hi h with hx | hx | hx
    · exact .inr (.inr (.inl hx))
    · exact .inl hx
    · exact .inr (.inr (.inr (.inr hx)))
  · exact .inr (.inr (.inr (.inl ⟨r, hm.since hr.idInv (hr.responses i).start_le hi h⟩)))
  · exact .inr (.inr (.inr (.inr (hm.down hr h))))

/-! ## the invariant -/

structure ReleaseInv (s : Session) : Prop where
  terminal : ∀ i, (s.state i).registered = true → (s.state i).Terminal → s.Settled i
  removed : ∀ i, (s.state i).registered = true → i ∉ s.streams →
    s.Settled i ∨ (s.state i).GuardEnds

/-- a move that registers no stream -/
theorem ReleaseInv.frame (h : s.ReleaseInv) (hr : Reachable lib s) (hm : Move lib s a t)
    (hreg : ∀ j, (t.state j).registered = (s.state j).registered)
    (hc : ∀ j, (s.state j).registered = true → (t.state j).Terminal →
      (s.state j).Terminal ∨ t.Settled j)
    (hs : ∀ j, (s.state j).registered = true → j ∉ t.streams →
      j ∉ s.streams ∨ t.Settled j ∨ (t.state j).GuardEnds)
    (hg : ∀ j, (s.state j).registered = true → (s.state j).GuardEnds →
      t.Settled j ∨ (t.state j).GuardEnds) : t.ReleaseInv where
  terminal i hi hx := by
    rw [hreg] at hi
    rcases hc i hi hx with hx | hx
    · exact hm.settled hr hi (h.terminal i hi hx)
    · exact hx
  removed i hi hx := by
    rw [hreg] at hi
    rcases hs i hi hx with hx | hx
    · rcases h.removed i hi hx with hx | hx
      · exact .inl (hm.settled hr hi hx)
      · exact hg i hi hx
    · exact hx

/-- a move that changes one stream and keeps the map -/
theorem ReleaseInv.update (h : s.ReleaseInv) (hr : Reachable lib s) (hm : Move lib s a t)
    {j : UInt16} {st : StreamState} (ht : t.state = (s.setState j st).state)
    (hs : s.streams ⊆ t.streams) (hreg : st.registered = (s.state j).registered)
    (hc : (s.state j).registered = true → st.Terminal → (s.state j).Terminal ∨ t.Settled j)
    (hg : (s.state j).registered = true → (s.state j).GuardEnds →
      t.Settled j ∨ st.GuardEnds) : t.ReleaseInv := by
  refine h.frame hr hm ?_ ?_ (fun _ _ hx => .inl fun hj => hx (hs hj)) ?_
  · intro i
    rw [ht]
    exact setState_apply StreamState.registered s hreg i
  · intro i hi hx
    rw [ht] at hx
    by_cases hij : i = j
    · subst hij
      rw [setState_self] at hx
      exact hc hi hx
    · rw [setState_of_ne s st hij] at hx
      exact .inl hx
  · intro i hi hx
    rw [ht]
    by_cases hij : i = j
    · subst hij
      rw [setState_self]
      exact hg hi hx
    · rw [setState_of_ne s st hij]
      exact .inr hx

theorem settled_of_closed (h : s.closed = true) (i : UInt16) : s.Settled i :=
  .inr (.inr (.inr (.inr (.inl h))))

/-- the new id is in the map, and nothing has happened to it -/
theorem ReleaseInv.register (h : s.ReleaseInv) (hr : Reachable lib s) {req : Request}
    {id : UInt16} (hm : Move lib s .forward { s.setState id (StreamState.fresh req
      s.received.length) with streams := insert id s.streams, forward := .admitted id }) :
    ReleaseInv { s.setState id (StreamState.fresh req s.received.length) with
      streams := insert id s.streams, forward := .admitted id } := by
  have hself : (s.setState id (StreamState.fresh req s.received.length)).state id =
      StreamState.fresh req s.received.length := setState_self ..
  have hne : ∀ {i}, i ≠ id → (s.setState id (StreamState.fresh req s.received.length)).state i =
      s.state i := fun hx => setState_of_ne s _ hx
  constructor
  · intro i hi hx
    change ((s.setState id _).state i).registered = true at hi
    change ((s.setState id _).state i).Terminal at hx
    by_cases hii : i = id
    · subst hii
      rw [hself] at hx
      rcases hx with hx | hx
      · cases hx
      · exact absurd rfl hx
    · rw [hne hii] at hi hx
      exact hm.settled hr hi (h.terminal i hi hx)
  · intro i hi hx
    change ((s.setState id _).state i).registered = true at hi
    have hii : i ≠ id := by
      rintro rfl
      exact hx (Finset.mem_insert_self _ _)
    rw [hne hii] at hi
    rcases h.removed i hi fun hmem => hx (Finset.mem_insert_of_mem hmem) with hy | hy
    · exact .inl (hm.settled hr hi hy)
    · right
      show ((s.setState id _).state i).GuardEnds
      rw [hne hii]
      exact hy

theorem ReleaseInv.move (h : s.ReleaseInv) (hr : Reachable lib s) (hm : Move lib s a t) :
    t.ReleaseInv := by
  have hm' := hm
  have hnot : ∀ {j : UInt16} {pc : GuardPc}, (s.state j).guardPc = pc → pc ≠ .check →
      pc ≠ .ending → ¬ (s.state j).GuardEnds := by
    intro j pc hg h1 h2 hx
    rcases hx with hx | hx
    · exact h1 (hg.symm.trans hx)
    · exact h2 (hg.symm.trans hx)
  cases hm' with
  | quiet | alive | frame | leave | control | takeUp | headBad | dataBad | reply | noReply
  | ownFailed | ownReturned | detached | registryFailed | cancel | write | writerEnd | reserveOk
  | reserveNo | exhausted | allocate | gone | busy | answered | «open» =>
    exact h.frame hr hm (fun _ => rfl) (fun _ _ => .inl) (fun _ _ => .inl) fun _ _ => .inr
  | headOk | dataOk | readData | readTrailers | readEnd | sent | sendFailed | erred | uploadEnd
  | uploadFull | uploadClosed | uploadAbort | uploadCancel =>
    exact h.update hr hm rfl subset_rfl rfl (fun _ => .inl) fun _ => .inr
  | @terminate id v stage reply hl =>
    refine h.update hr hm rfl subset_rfl ?_ ?_ ?_
    · rw [StreamState.terminate_eq]
    · intro hi _
      right
      cases reply with
      | none =>
        obtain ⟨_, r, hx⟩ := hr.acting id (by rw [hl]; rfl)
        exact .inr (.inr (.inr (.inl ⟨r, hm.since hr.idInv (hr.responses id).start_le hi hx⟩)))
      | some r =>
        right; left
        cases stage <;> rfl
    · rw [StreamState.terminate_eq]
      exact fun _ => .inr
  | @remove id reply hl =>
    refine h.frame hr hm (fun _ => rfl) (fun _ _ => .inl) ?_ fun _ _ => .inr
    intro j hj hx
    by_cases hji : j = id
    · subst hji
      right; left
      cases reply with
      | none =>
        obtain ⟨_, r, hx⟩ := hr.acting j (by rw [hl]; rfl)
        exact .inr (.inr (.inr (.inl ⟨r, hm.since hr.idInv (hr.responses j).start_le hj hx⟩)))
      | some r => exact .inr (.inl rfl)
    · exact .inl fun hmem => hx (Finset.mem_erase.mpr ⟨hji, hmem⟩)
  | ownDrain | registryDrain =>
    refine h.frame hr hm (fun _ => rfl) (fun _ _ => .inl) ?_ fun _ _ => .inr
    exact fun j _ _ => .inr (.inl (settled_of_closed rfl j))
  | @ownFail order drained rest i stage hl ho =>
    have hc : s.closed = true := hr.closingInv.own.closed (by rw [ho]; exact nofun)
    refine h.update hr hm rfl subset_rfl ?_
      (fun _ _ => .inr (.inr (.inr (.inr (.inr (.inl hc)))))) ?_
    · rw [StreamState.terminate_eq]
    · rw [StreamState.terminate_eq]
      exact fun _ => .inr
  | @registryFail order drained rest i stage ho =>
    have hc : s.closed = true := hr.closingInv.registry.closed (by rw [ho]; exact nofun)
    refine h.update hr hm rfl subset_rfl ?_
      (fun _ _ => .inr (.inr (.inr (.inr (.inr (.inl hc)))))) ?_
    · rw [StreamState.terminate_eq]
    · rw [StreamState.terminate_eq]
      exact fun _ => .inr
  | register => exact h.register hr hm
  | @spawn id hf =>
    refine h.update hr hm rfl subset_rfl rfl (fun _ => .inl) fun _ hx => absurd hx ?_
    exact hnot (hr.started.unspawned id (by rw [hf]; rfl)).2.1 nofun nofun
  | install =>
    refine h.update hr hm rfl subset_rfl ?_ ?_ ?_
    · rw [StreamState.installUpload_eq]
    · rw [StreamState.installUpload_eq]
      exact fun _ => .inl
    · rw [StreamState.installUpload_eq]
      exact fun _ => .inr
  | @uploadFail i stage hu =>
    refine h.update hr hm rfl subset_rfl ?_ ?_ ?_
    · rw [StreamState.terminate_eq]
    · intro _ _
      refine .inr (.inr (.inr (.inl ?_)))
      show ((s.setState i _).state i).UploadEnds
      rw [setState_self]
      cases stage with
      | completed => exact .inl ⟨_, rfl⟩
      | upload => exact .inl ⟨_, rfl⟩
      | outcome => exact .inr rfl
    · rw [StreamState.terminate_eq]
      exact fun _ => .inr
  | guardAbortUpload hg =>
    exact h.update hr hm rfl subset_rfl rfl (fun _ => .inl)
      fun _ hx => absurd hx (hnot hg nofun nofun)
  | @guardRemove i hg =>
    refine h.frame hr hm (setState_apply _ _ rfl) ?_ ?_ ?_
    · intro j _ hx
      left
      refine forall_setState (i := i) (P := fun j st => st.Terminal → (s.state j).Terminal)
        (fun _ hy => hy) ?_ j hx
      exact fun hy => hy
    · intro j _ hx
      by_cases hji : j = i
      · subst hji
        right; right
        show ((s.setState j _).state j).GuardEnds
        rw [setState_self]
        exact .inl rfl
      · exact .inl fun hmem => hx (Finset.mem_erase.mpr ⟨hji, hmem⟩)
    · intro j _ hx
      have hji : j ≠ i := by
        rintro rfl
        exact hnot hg nofun nofun hx
      right
      show ((s.setState i _).state j).GuardEnds
      rw [setState_of_ne s _ hji]
      exact hx
  | @guardCheck i hg =>
    refine h.update hr hm rfl subset_rfl rfl (fun _ => .inl) fun hi _ => ?_
    by_cases hc : (s.state i).completed = true
    · exact .inl (hm.settled hr hi (h.terminal i hi (.inl hc)))
    · right
      rw [if_neg hc]
      exact .inr rfl
  | @guardEnd i hg =>
    refine h.update hr hm rfl subset_rfl rfl (fun _ => .inl) fun _ _ => .inl (.inl ⟨[], ?_⟩)
    rw [Chan.log_push]
    exact List.mem_append_right _ (List.mem_singleton_self _)
  | @guardFull i hg =>
    refine h.update hr hm rfl subset_rfl rfl (fun _ => .inl) fun _ _ => .inl ?_
    refine .inr (.inr (.inr (.inr (.inr (.inr (.inr (.inr ⟨i, .inr ?_⟩)))))))
    rw [setState_self]
  | guardClosed hg hc =>
    exact h.update hr hm rfl subset_rfl rfl (fun _ => .inl)
      fun _ _ => .inl (.inr (.inr (.inr (.inr (.inr (.inr (.inl hc)))))))
  | guardAbort hg =>
    exact h.update hr hm rfl subset_rfl rfl (fun _ => .inl)
      fun _ hx => absurd hx (hnot hg nofun nofun)
  | @caller i budget st hh =>
    refine h.update hr hm rfl subset_rfl ?_ ?_ ?_
    · rw [handle_eq hh]
    · rw [handle_eq hh]
      exact fun _ => .inl
    · intro _ hx
      rcases waits_of_handle (hr.guarded i) hh with hg | hg
      · exact absurd hx (hnot hg nofun nofun)
      · exact absurd hx (hnot hg nofun nofun)
  | @callerDrop i st hh =>
    refine h.update hr hm rfl subset_rfl ?_ ?_ ?_
    · rw [callerDrop_eq hh]
    · rw [callerDrop_eq hh]
      exact fun _ => .inl
    · intro _ hx
      rcases waits_of_callerDrop (hr.guarded i) hh with hg | hg
      · exact absurd hx (hnot hg nofun nofun)
      · exact absurd hx (hnot hg nofun nofun)

theorem Reachable.releaseInv (h : Reachable lib s) : s.ReleaseInv := by
  refine h.move (P := ReleaseInv) ?_ fun _ _ _ hr hi hm => hi.move hr hm
  exact fun _ _ _ => ⟨fun _ hi => (nomatch hi), fun _ hi => (nomatch hi)⟩

/-- **Every stream that a session let go of is accounted for**: it is in the map and not terminal,
its END was queued or is about to be, the tether ended it, or the session is going down. -/
theorem Reachable.released (h : Reachable lib s) (hi : (s.state i).registered = true) :
    (i ∈ s.streams ∧ ¬ (s.state i).Terminal) ∨ (∃ r, .end i r ∈ s.tx.log) ∨
      s.Releasing i ∨ (∃ r, .end i r ∈ s.since i) ∨ s.Down := by
  have hsettled : s.Settled i → (∃ r, .end i r ∈ s.tx.log) ∨
      s.Releasing i ∨ (∃ r, .end i r ∈ s.since i) ∨ s.Down := by
    rintro (hx | hx | hx | hx)
    · exact .inl hx
    · exact .inr (.inl (.inl hx))
    · exact .inr (.inl (.inr (.inl hx)))
    · exact .inr (.inr hx)
  by_cases hmem : i ∈ s.streams
  · by_cases hc : (s.state i).Terminal
    · exact .inr (hsettled (h.releaseInv.terminal i hi hc))
    · exact .inl ⟨hmem, hc⟩
  · right
    rcases h.releaseInv.removed i hi hmem with hx | hx | hx
    · exact hsettled hx
    · -- the guard sends END unless the stream was completed
      cases hc : (s.state i).completed with
      | true => exact hsettled (h.releaseInv.terminal i hi (.inl hc))
      | false => exact .inr (.inl (.inr (.inr (.inl ⟨hx, hc⟩))))
    · exact .inr (.inl (.inr (.inr (.inr hx))))

end Session

end AnvilRing
