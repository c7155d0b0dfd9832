import AnvilRing.Hub.Release
import AnvilRing.Hub.UploadAbort

/-!
# A stream that was given up stays given up

Whoever says END for a stream has taken it out of the map, or completed it, before.

* `Session.Over`          the stream is not in the map, or completed; it stays so (`Move.over`);
* `Session.Parting`       somebody has said END for the stream, or is past giving it up;
* `Session.Parts`         who parts from a stream has given it up;
* `Session.Manned`        a stream in the map has a guard that has not removed it.
-/

namespace AnvilRing
open Wire

/-- the guard has taken its stream out of the map -/
def GuardPc.removed : GuardPc → Bool
  | .check => true
  | .ending => true
  | .aborting => true
  | .dropped => true
  | _ => false

/-- the failed upload task has completed its stream -/
def UploadPc.failed : UploadPc → Bool
  | .failing .upload => true
  | .failing .outcome => true
  | .ending => true
  | _ => false

namespace Session
variable {lib : HttpLib} {s t : Session} {a : SessionAction} {i : UInt16}

def Over (s : Session) (i : UInt16) : Prop := i ∉ s.streams ∨ (s.state i).completed = true

/-- a completed stream stays completed -/
theorem Move.completed_mono (hm : Move lib s a t) (hr : Reachable lib s)
    (hi : (s.state i).registered = true) (h : (s.state i).completed = true) :
    (t.state i).completed = true := by
  cases hm.touch i with
  | frame hcells => rwa [(StreamState.cells_eq.mp hcells).1]
  | terminate v stage _ hcells =>
    rw [(StreamState.cells_eq.mp hcells).1]
    cases stage with
    | completed => rfl
    | upload => exact h
    | outcome => exact h
  | install hcells =>
    rw [(StreamState.cells_eq.mp hcells).1, StreamState.installUpload_eq]
    exact h
  | guard hcells =>
    rw [(StreamState.cells_eq.mp hcells).1]
    exact h
  | register hf => exact absurd hf (hr.idInv.not_allocated hi _)

theorem Move.over (hm : Move lib s a t) (hr : Reachable lib s)
    (hi : (s.state i).registered = true) (h : s.Over i) : t.Over i := by
  rcases h with h | h
  · left
    rcases hm.registers with ⟨_, hsub⟩ | ⟨req, id, _, hf, _, hins, _⟩
    · exact fun hx => h (hsub hx)
    · rw [hins]
      intro hx
      rcases Finset.mem_insert.mp hx with rfl | hx
      · exact hr.idInv.not_allocated hi req hf
      · exact h hx
  · exact .inr (hm.completed_mono hr hi h)

/-! ## the tasks that part from a stream -/

/-- the loop replies to the stream that it has taken out of the map -/
theorem reply_of_move (hm : Move lib s a t) {r : Bytes} (h : t.loop = .reply i r) :
    s.loop = .reply i r ∨ i ∉ t.streams := by
  cases hm with
  | frame | leave | control | headOk | headBad | dataOk | dataBad | reply | noReply | ownReturned
  | detached => cases h
  | @takeUp f hl =>
    change s.takeUp f = .reply i r at h
    unfold takeUp at h
    split at h
    · split at h <;> cases h
    · split at h <;> cases h
    · split at h <;> cases h
    · cases h
  | @terminate id v stage reply hl => cases stage <;> cases h
  | @remove id reply hl =>
    cases reply with
    | none => cases h
    | some r' =>
      cases h
      exact .inr (Finset.notMem_erase i _)
  | _ => exact .inl h

theorem failed_of_move (hm : Move lib s a t) (h : (t.state i).uploadPc.failed = true) :
    (s.state i).uploadPc.failed = true ∨ (t.state i).completed = true := by
  have hset : ∀ {j : UInt16} {st : StreamState}, (st.uploadPc.failed = true →
      (s.state j).uploadPc.failed = true ∨ st.completed = true) →
      ((s.setState j st).state i).uploadPc.failed = true →
      (s.state i).uploadPc.failed = true ∨ ((s.setState j st).state i).completed = true := by
    intro j st hst
    exact forall_setState (s := s) (P := fun j st => st.uploadPc.failed = true →
      (s.state j).uploadPc.failed = true ∨ st.completed = true) (fun _ hx => .inl hx) hst i
  cases hm with
  | quiet | alive | frame | leave | control | takeUp | headBad | dataBad | remove | reply | noReply
  | ownDrain | ownFailed | ownReturned | detached | registryDrain | registryFailed | cancel
  | reserveOk | reserveNo | exhausted | allocate | gone | busy | «open» | answered | write
  | writerEnd => exact .inl h
  | headOk | dataOk | readTrailers | guardAbortUpload | guardRemove | guardCheck | guardEnd
  | guardFull | guardClosed | guardAbort => exact hset (by exact .inl) h
  | register | spawn | sendFailed | uploadEnd | uploadFull | uploadClosed | uploadAbort
  | uploadCancel => exact hset (fun hx => (by cases hx)) h
  | readData | readEnd | sent | erred =>
    refine hset (fun hx => ?_) h
    dsimp only at hx
    split at hx <;> cases hx
  | terminate | ownFail | registryFail =>
    refine hset ?_ h
    rw [StreamState.terminate_eq]
    exact .inl
  | @uploadFail j stage hu =>
    refine hset (fun _ => ?_) h
    cases stage with
    | completed => exact .inr rfl
    | upload => exact .inl (by rw [hu]; rfl)
    | outcome => exact .inl (by rw [hu]; rfl)
  | install =>
    refine hset ?_ h
    rw [StreamState.installUpload_eq]
    exact .inl
  | caller hh =>
    refine hset ?_ h
    rw [StreamState.handle_eq hh]
    exact .inl
  | callerDrop hh =>
    refine hset ?_ h
    rw [StreamState.callerDrop_eq hh]
    exact .inl

theorem removed_of_move (hm : Move lib s a t) (h : (t.state i).guardPc.removed = true) :
    (s.state i).guardPc.removed = true ∨ i ∉ t.streams := by
  have hset : ∀ {j : UInt16} {st : StreamState}, (st.guardPc.removed = true →
      (s.state j).guardPc.removed = true ∨ j ∉ t.streams) →
      ((s.setState j st).state i).guardPc.removed = true →
      (s.state i).guardPc.removed = true ∨ i ∉ t.streams := by
    intro j st hst
    exact forall_setState (s := s) (P := fun j st => st.guardPc.removed = true →
      (s.state j).guardPc.removed = true ∨ j ∉ t.streams) (fun _ hx => .inl hx) hst i
  cases hm with
  | quiet | alive | frame | leave | control | takeUp | headBad | dataBad | remove | reply | noReply
  | ownDrain | ownFailed | ownReturned | detached | registryDrain | registryFailed | cancel
  | reserveOk | reserveNo | exhausted | allocate | gone | busy | «open» | answered | write
  | writerEnd => exact .inl h
  | headOk | dataOk | readData | readTrailers | readEnd | sent | sendFailed | erred | uploadEnd
  | uploadFull | uploadClosed | uploadAbort | uploadCancel => exact hset (by exact .inl) h
  | register | spawn | guardAbortUpload => exact hset (fun hx => (by cases hx)) h
  | terminate | ownFail | registryFail | uploadFail =>
    refine hset ?_ h
    rw [StreamState.terminate_eq]
    exact .inl
  | install =>
    refine hset ?_ h
    rw [StreamState.installUpload_eq]
    exact .inl
  | guardRemove => exact hset (fun _ => .inr (Finset.notMem_erase _ _)) h
  | guardCheck hg | guardEnd hg | guardFull hg | guardClosed hg | guardAbort hg =>
    exact hset (fun _ => .inl (by rw [hg]; rfl)) h
  | caller hh =>
    refine hset (fun hx => ?_) h
    cases StreamState.handled hh with
    | headNone => cases hx
    | _ => exact .inl hx
  | callerDrop hh =>
    refine hset ?_ h
    rw [StreamState.callerDrop_eq hh]
    exact fun hx => (by cases hx)

/-- a frame that was taken up for a stream was taken up before, or is the one that the loop holds -/
theorem mem_since_of_move (hm : Move lib s a t) (hr : Reachable lib s)
    (hi : (s.state i).registered = true) {f : Frame} (hf : f ∈ t.since i) :
    f ∈ s.since i ∨ s.loop = .frame f ∧ t.loop = s.takeUp f := by
  have hset : ∀ {j : UInt16} {st : StreamState}, st.start = (s.state j).start →
      f ∈ (s.setState j st).since i → f ∈ s.since i := by
    intro j st hst hx
    rwa [since_setState hst] at hx
  cases hm with
  | @takeUp g hl =>
    rw [since_takeUp _ _ (hr.responses i).start_le] at hf
    rcases List.mem_append.mp hf with hf | hf
    · exact .inl hf
    · right
      split at hf
      · obtain rfl := List.mem_singleton.mp hf
        exact ⟨hl, rfl⟩
      · cases hf
  | headOk | dataOk | spawn | readData | readTrailers | readEnd | sent | sendFailed | erred
  | uploadEnd | uploadFull | uploadClosed | uploadAbort | uploadCancel | guardAbortUpload
  | guardRemove | guardCheck | guardEnd | guardFull | guardClosed | guardAbort =>
    exact .inl (hset (by rfl) hf)
  | terminate | ownFail | registryFail | uploadFail =>
    refine .inl (hset ?_ hf)
    rw [StreamState.terminate_eq]
  | install =>
    refine .inl (hset ?_ hf)
    rw [StreamState.installUpload_eq]
  | caller hh =>
    refine .inl (hset ?_ hf)
    rw [StreamState.handle_eq hh]
  | callerDrop hh =>
    refine .inl (hset ?_ hf)
    rw [StreamState.callerDrop_eq hh]
  | @register req id hfw =>
    left
    have hne : i ≠ id := by
      rintro rfl
      exact hr.idInv.not_allocated hi req hfw
    change f ∈ (s.received.drop ((s.setState id _).state i).start).filter (concerns i) at hf
    rwa [setState_of_ne s _ hne] at hf
  | _ => exact .inl hf

/-- the loop is done with an END of the tether once the stream is out of the map -/
theorem ending_of_move (hm : Move lib s a t) (h : s.loop.ending = some i) :
    t.loop.ending = some i ∨ i ∉ t.streams := by
  cases hm with
  | frame hl | leave hl | control hl | takeUp hl | headOk hl | headBad hl | dataOk hl | dataBad hl
  | reply hl | noReply hl | ownReturned hl | detached hl =>
    rw [hl] at h
    cases h
  | @terminate id v stage reply hl =>
    left
    rw [hl] at h
    cases reply with
    | none => cases stage <;> exact h
    | some r => cases h
  | @remove id reply hl =>
    rw [hl] at h
    cases reply with
    | none =>
      cases h
      exact .inr (Finset.notMem_erase i _)
    | some r => cases h
  | _ => exact .inl h

/-! ## the invariants -/

/-- somebody has said END for the stream, or is past giving it up -/
def Parting (s : Session) (i : UInt16) : Prop :=
  (∃ r, .end i r ∈ s.tx.log) ∨ (∃ r, s.loop = .reply i r) ∨
    (s.state i).uploadPc.failed = true ∨ (s.state i).guardPc.removed = true ∨
      (∃ r, .end i r ∈ s.since i) ∧ s.loop.ending ≠ some i

def Parts (s : Session) : Prop := ∀ i, (s.state i).registered = true → s.Parting i → s.Over i

/-- a step parts from a stream that somebody had parted from, or that it has given up -/
theorem Move.parting (hm : Move lib s a t) (hr : Reachable lib s)
    (hi : (s.state i).registered = true) (h : t.Parting i) : s.Parting i ∨ t.Over i := by
  rcases h with ⟨r, h⟩ | ⟨r, h⟩ | h | h | ⟨⟨r, h⟩, hl⟩
  · rcases hm.log hr.sends with hlog | ⟨f, hf, hlog⟩
    · rw [hlog] at h
      exact .inl (.inl ⟨r, h⟩)
    · rw [hlog] at h
      rcases List.mem_append.mp h with h | h
      · exact .inl (.inl ⟨r, h⟩)
      · obtain rfl := List.mem_singleton.mp h
        left
        cases hf with
        | control hf => rcases hf with hf | hf <;> cases hf
        | upload _ hf => rcases hf with hf | ⟨b, _, hf⟩ <;> cases hf
        | reply hl => exact .inr (.inl ⟨_, hl⟩)
        | uploadEnd hu => exact .inr (.inr (.inl (by rw [hu]; rfl)))
        | guardEnd hg => exact .inr (.inr (.inr (.inl (by rw [hg]; rfl))))
  · rcases reply_of_move hm h with h | h
    · exact .inl (.inr (.inl ⟨r, h⟩))
    · exact .inr (.inl h)
  · rcases failed_of_move hm h with h | h
    · exact .inl (.inr (.inr (.inl h)))
    · exact .inr (.inr h)
  · rcases removed_of_move hm h with h | h
    · exact .inl (.inr (.inr (.inr (.inl h))))
    · exact .inr (.inl h)
  · by_cases hs : s.loop.ending = some i
    · rcases ending_of_move hm hs with hx | hx
      · exact absurd hx hl
      · exact .inr (.inl hx)
    · rcases mem_since_of_move hm hr hi h with hx | ⟨hx, hloop⟩
      · exact .inl (.inr (.inr (.inr (.inr ⟨⟨r, hx⟩, hs⟩))))
      · -- the END is taken up now: the loop acts on it, or the stream is not in the map
        rw [hloop] at hl
        by_cases hmem : i ∈ s.streams
        · refine absurd ?_ hl
          change (if i ∈ s.streams then _ else LoopPc.select).ending = some i
          rw [if_pos hmem]
          rfl
        · exact .inr (hm.over hr hi (.inl hmem))

/-- a stream that is registered now has nobody that parts from it -/
theorem not_parting_register (hr : Reachable lib s) (hprop : Proper s.tx.log)
    (habout : ∀ r, s.loop = .reply i r → i ∈ openedIds s.tx.log) {req : Request}
    (hf : s.forward = .allocated req i) : ¬ Parting { s.setState i (StreamState.fresh req
      s.received.length) with streams := insert i s.streams, forward := .admitted i } i := by
  have hnew : i ∉ openedIds s.tx.log := hr.idInv.unopened i (by rw [hf]; rfl)
  rintro (⟨r, h⟩ | ⟨r, h⟩ | h | h | ⟨⟨r, h⟩, -⟩)
  · exact hnew (hprop.mem_opened h rfl)
  · exact hnew (habout r h)
  · change ((s.setState i _).state i).uploadPc.failed = true at h
    rw [setState_self] at h
    cases h
  · change ((s.setState i _).state i).guardPc.removed = true at h
    rw [setState_self] at h
    cases h
  · change .end i r ∈ (s.received.drop ((s.setState i _).state i).start).filter _ at h
    rw [setState_self] at h
    change .end i r ∈ (s.received.drop s.received.length).filter _ at h
    rw [List.drop_length] at h
    cases h

theorem Parts.move (h : s.Parts) (hr : Reachable lib s) (hprop : Proper s.tx.log)
    (habout : ∀ i r, s.loop = .reply i r → i ∈ openedIds s.tx.log) (hm : Move lib s a t) :
    t.Parts := by
  intro i hi hp
  by_cases hreg : (s.state i).registered = true
  · rcases hm.parting hr hreg hp with hx | hx
    · exact hm.over hr hreg (h i hreg hx)
    · exact hx
  · -- the stream is registered by this step
    rcases hm.registers with ⟨hsame, _⟩ | ⟨req, id, rfl, hf, _, _, _⟩
    · rw [hsame] at hi
      exact absurd hi hreg
    · cases hm with
      | @register req id hf =>
        by_cases hid : i = id
        · subst hid
          exact absurd hp (not_parting_register hr hprop (habout i) hf)
        · refine absurd ?_ hreg
          change ((s.setState id _).state i).registered = true at hi
          rwa [setState_of_ne s _ hid] at hi
      | leave | control | gone | busy => exact absurd hi hreg
      | exhausted hx | allocate hx | «open» hx | spawn hx | install hx | answered hx =>
        rw [hf] at hx
        cases hx

/-! ## streams in the map -/

theorem admitted_of_move (hm : Move lib s a t) (h : s.forward = .admitted i) :
    t.forward = .admitted i ∨ i ∈ openedIds t.tx.log := by
  cases hm with
  | reserveOk hf | reserveNo hf | exhausted hf | allocate hf | gone hf | busy hf | register hf
  | spawn hf | install hf | answered hf =>
    rw [h] at hf
    cases hf
  | «open» hf =>
    rw [h] at hf
    cases hf
    right
    rw [Chan.log_sendPermit, openedIds_append]
    exact List.mem_append_right _ (List.mem_singleton_self i)
  | _ => exact .inl h

/-- a registered stream is open, or about to be -/
theorem Reachable.opened_or_admitted (h : Reachable lib s) : ∀ i,
    (s.state i).registered = true → i ∈ openedIds s.tx.log ∨ s.forward = .admitted i := by
  refine h.move (P := fun s => ∀ i, (s.state i).registered = true →
    i ∈ openedIds s.tx.log ∨ s.forward = .admitted i) ?_ ?_
  · intro id cred now i hi
    cases hi
  · intro s a t hr ih hm i hi
    have hold : (s.state i).registered = true →
        i ∈ openedIds t.tx.log ∨ t.forward = .admitted i := by
      intro hs
      rcases ih i hs with hx | hx
      · exact .inl (hm.openedIds_subset hr.sends hx)
      · exact (admitted_of_move hm hx).symm
    rcases hm.registers with ⟨hsame, _⟩ | ⟨req, id, rfl, hf, _, _, hreg⟩
    · rw [hsame] at hi
      exact hold hi
    · rcases (hreg i).mp hi with rfl | hs
      · cases hm with
        | leave | control | gone | busy =>
          rw [show (s.state i).registered = false from hr.idInv.allocated req i hf] at hi
          cases hi
        | exhausted hx | allocate hx | «open» hx | spawn hx | install hx | answered hx =>
          rw [hf] at hx
          cases hx
        | register hx =>
          rw [hf] at hx
          cases hx
          exact .inr rfl
      · exact hold hs

/-- a stream in the map has a guard that has not removed it, once its forward has spawned it -/
def Manned (s : Session) : Prop := ∀ i ∈ s.streams,
  (s.state i).guardPc.removed = false ∧
    ((s.state i).guardPc = .absent → s.forward.unspawned = some i)

theorem unspawned_of_move (hm : Move lib s a t) (h : s.forward.unspawned = some i) :
    t.forward.unspawned = some i ∨ (t.state i).guardPc = .held := by
  cases hm with
  | reserveOk hf | reserveNo hf | exhausted hf | allocate hf | gone hf | busy hf | register hf
  | install hf | answered hf =>
    rw [hf] at h
    cases h
  | «open» hf =>
    rw [hf] at h
    exact .inl h
  | spawn hf =>
    rw [hf] at h
    cases h
    right
    show ((s.setState i _).state i).guardPc = .held
    rw [setState_self]
  | _ => exact .inl h

theorem absent_of_move (hm : Move lib s a t) (h : (t.state i).guardPc = .absent) :
    (s.state i).guardPc = .absent ∨ t.forward.unspawned = some i := by
  have hset : ∀ {j : UInt16} {st : StreamState}, (st.guardPc = .absent →
      (s.state j).guardPc = .absent ∨ t.forward.unspawned = some j) →
      ((s.setState j st).state i).guardPc = .absent →
      (s.state i).guardPc = .absent ∨ t.forward.unspawned = some i := by
    intro j st hst
    exact forall_setState (s := s) (P := fun j st => st.guardPc = .absent →
      (s.state j).guardPc = .absent ∨ t.forward.unspawned = some j) (fun _ hx => .inl hx) hst i
  cases hm with
  | quiet | alive | frame | leave | control | takeUp | headBad | dataBad | remove | reply | noReply
  | ownDrain | ownFailed | ownReturned | detached | registryDrain | registryFailed | cancel
  | reserveOk | reserveNo | exhausted | allocate | gone | busy | «open» | answered | write
  | writerEnd => exact .inl h
  | headOk | dataOk | readData | readTrailers | readEnd | sent | sendFailed | erred | uploadEnd
  | uploadFull | uploadClosed | uploadAbort | uploadCancel => exact hset (by exact .inl) h
  | register => exact hset (fun _ => .inr rfl) h
  | spawn | guardAbortUpload | guardRemove | guardEnd | guardFull | guardClosed | guardAbort =>
    exact hset (fun hx => (by cases hx)) h
  | guardCheck =>
    refine hset (fun hx => ?_) h
    dsimp only at hx
    split at hx <;> cases hx
  | terminate | ownFail | registryFail | uploadFail =>
    refine hset ?_ h
    rw [StreamState.terminate_eq]
    exact .inl
  | install =>
    refine hset ?_ h
    rw [StreamState.installUpload_eq]
    exact .inl
  | caller hh =>
    refine hset (fun hx => ?_) h
    cases StreamState.handled hh with
    | headNone => cases hx
    | _ => exact .inl hx
  | callerDrop hh =>
    refine hset ?_ h
    rw [StreamState.callerDrop_eq hh]
    exact fun hx => (by cases hx)

theorem Manned.move (h : s.Manned) (hm : Move lib s a t) (hreg : ∀ i ∈ t.streams, i ∉ s.streams →
    (s.state i).guardPc = .absent ∧ t.forward.unspawned = some i) : t.Manned := by
  intro i hi
  constructor
  · by_contra hx
    rcases removed_of_move hm (Bool.not_eq_false _ ▸ hx) with hx | hx
    · by_cases hs : i ∈ s.streams
      · rw [(h i hs).1] at hx
        cases hx
      · rw [(hreg i hi hs).1] at hx
        cases hx
    · exact hx hi
  · intro ha
    by_cases hs : i ∈ s.streams
    · rcases absent_of_move hm ha with hx | hx
      · rcases unspawned_of_move hm ((h i hs).2 hx) with hx | hx
        · exact hx
        · rw [hx] at ha
          cases ha
      · exact hx
    · exact (hreg i hi hs).2

theorem Reachable.manned (h : Reachable lib s) : s.Manned := by
  refine h.move (P := Manned) ?_ ?_
  · intro id cred now i hi
    cases hi
  · intro s a t hr ih hm
    refine ih.move hm fun i hi hs => ?_
    rcases hm.registers with ⟨_, hsub⟩ | ⟨req, id, rfl, hf, _, hins, _⟩
    · exact absurd (hsub hi) hs
    · rw [hins] at hi
      obtain rfl : i = id := (Finset.mem_insert.mp hi).resolve_right hs
      have hnew : Unstarted (s.state i) := by
        by_contra hx
        exact hr.idInv.unopened i (by rw [hf]; rfl) (hr.started.tasks i hx)
      refine ⟨hnew.2.1, ?_⟩
      cases hm with
      | leave | control | gone | busy => exact absurd (hins ▸ Finset.mem_insert_self i _) hs
      | exhausted hx | allocate hx | «open» hx | spawn hx | install hx | answered hx =>
        rw [hf] at hx
        cases hx
      | register hx =>
        rw [hf] at hx
        cases hx
        rfl

end Session

end AnvilRing
