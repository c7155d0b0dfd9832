import AnvilRing.Hub.Release
import Mathlib.Data.List.TakeWhile

/-!
# How many ENDs a session sends for a stream

Five branches decide to send END: DATA for an id that is not in the map, a rejected head, rejected
DATA, a failed upload and a dropped guard.  None of them knows of the others.

* `endsOf`              the ENDs for a stream that were queued since its OPEN;
* `Session.ends`        these, and those that a task is on its way to queue;
* `Session.Move.ends`   a step adds one only where it takes one of the five branches;
* `end_sent_once`       no second END, in every run in which each branch finds that count at zero.
-/

namespace AnvilRing
open Wire

/-- the frames from the OPEN of stream `i` on -/
def sinceOpen (i : UInt16) (fs : List Frame) : List Frame :=
  fs.dropWhile fun f => decide (f.opens ≠ some i)

/-- how many ENDs for stream `i` follow its OPEN -/
def endsOf (i : UInt16) (fs : List Frame) : Nat := (endedIds (sinceOpen i fs)).count i

section
variable {i : UInt16} {fs : List Frame} {f : Frame}

theorem sinceOpen_eq_nil (h : i ∉ openedIds fs) : sinceOpen i fs = [] := by
  unfold sinceOpen
  rw [List.dropWhile_eq_nil_iff]
  intro f hf
  refine decide_eq_true fun hi => h ?_
  exact List.mem_filterMap.mpr ⟨f, hf, hi⟩

theorem endsOf_unopened (h : i ∉ openedIds fs) : endsOf i fs = 0 := by
  unfold endsOf
  rw [sinceOpen_eq_nil h]
  rfl

/-- one more frame is at most one more END -/
theorem endsOf_snoc_le (i : UInt16) (fs : List Frame) (f : Frame) :
    endsOf i (fs ++ [f]) ≤ endsOf i fs + if f.ended = some i then 1 else 0 := by
  unfold endsOf sinceOpen
  rw [List.dropWhile_append]
  split
  · -- the stream is not open yet; an OPEN is no END
    rw [List.dropWhile_cons]
    split
    · exact Nat.zero_le _
    · next ho =>
      have hopen : f.opens = some i := by simpa using ho
      have hend : f.ended = none := by
        cases f with
        | «open» => rfl
        | _ => cases hopen
      simp [endedIds, hend]
  · rw [endedIds_append, List.count_append]
    refine Nat.add_le_add_left ?_ _
    cases hf : f.ended with
    | none => simp [endedIds, hf]
    | some j =>
      have hone : endedIds [f] = [j] := List.filterMap_cons_some hf
      rw [hone, List.count_singleton]
      by_cases hj : j = i
      · simp [hj]
      · simp [hj]

theorem endsOf_snoc_of_none (h : f.ended = none) : endsOf i (fs ++ [f]) ≤ endsOf i fs := by
  have hle := endsOf_snoc_le i fs f
  rw [h] at hle
  exact hle

end

/-- the failed upload task is on its way to END -/
def UploadPc.ends : UploadPc → Bool
  | .failing _ => true
  | .ending => true
  | _ => false

/-- how many tasks of the stream are on their way to END -/
def StreamState.ends (st : StreamState) : Nat :=
  (if st.uploadPc.ends then 1 else 0) + if st.guardPc = .ending then 1 else 0

theorem StreamState.ends_congr {st st' : StreamState} (hu : st'.uploadPc = st.uploadPc)
    (hg : st'.guardPc = st.guardPc) : st'.ends = st.ends := by
  unfold ends
  rw [hu, hg]

theorem StreamState.ends_upload_le {st st' : StreamState} (hu : st'.uploadPc.ends = false)
    (hg : st'.guardPc = st.guardPc) : st'.ends ≤ st.ends := by
  unfold ends
  rw [hu, hg]
  simp

theorem StreamState.ends_guard_le {st st' : StreamState} (hu : st'.uploadPc = st.uploadPc)
    (hg : st'.guardPc ≠ .ending) : st'.ends ≤ st.ends := by
  unfold ends
  rw [hu, if_neg hg]
  simp

/-- `handle` gives the guard up, or leaves it alone -/
theorem StreamState.handle_guardPc {budget : Bool} {st st' : StreamState}
    (h : st.handle budget = some st') :
    st'.guardPc = st.guardPc ∨ st'.guardPc = .abortUpload := by
  cases handled h with
  | headNone => exact .inr rfl
  | _ => exact .inl rfl

namespace Session
variable {lib : HttpLib} {s t : Session} {a : SessionAction} {i : UInt16}

/-- the ENDs for stream `i` that were queued since its OPEN, or are about to be -/
def ends (s : Session) (i : UInt16) : Nat :=
  endsOf i s.tx.log + (if s.loop.ends = some i then 1 else 0) + (s.state i).ends

/-- the registered stream that a step gives up with an END -/
def faults (lib : HttpLib) (s : Session) : SessionAction → Option UInt16
  | .loop =>
    match s.loop with
    | .respHead i raw => if acceptHead lib (s.state i) raw = none then some i else none
    | .data i bytes => if (acceptData (s.state i) bytes).isNone then some i else none
    | _ => none
  | .upload i =>
    match (s.state i).uploadPc with
    | .erred _ => if (s.state i).completed then none else some i
    | _ => none
  | .guard i =>
    if (s.state i).guardPc = .check ∧ (s.state i).completed = false then some i else none
  | _ => none

/-- the stream that a step finds DATA for, no longer in the map -/
def late (s : Session) : SessionAction → Option UInt16
  | .loop =>
    match s.loop with
    | .frame (.data i _) => if i ∈ openedIds s.tx.log ∧ i ∉ s.streams then some i else none
    | _ => none
  | _ => none

/-- no DATA is taken up for a stream that was opened and is gone, and a stream is given up only if
no END for it was queued or is on its way -/
def EndsOnce (lib : HttpLib) (s : Session) (a : SessionAction) : Prop :=
  s.late a = none ∧ ∀ i ∈ s.faults lib a, s.ends i = 0

instance (lib : HttpLib) (s : Session) (a : SessionAction) : Decidable (s.EndsOnce lib a) :=
  letI := Option.decidableForallMem (p := fun i => s.ends i = 0) (s.faults lib a)
  inferInstanceAs (Decidable (_ ∧ _))

/-- a move that queues nothing -/
theorem ends_frame (hq : t.tx.log = s.tx.log)
    (hl : t.loop = s.loop ∨ t.loop.ends = none) (hs : (t.state i).ends ≤ (s.state i).ends) :
    t.ends i ≤ s.ends i := by
  unfold ends
  rw [hq]
  refine Nat.add_le_add (Nat.add_le_add_left ?_ _) hs
  rcases hl with hl | hl
  · rw [hl]
  · rw [hl]
    exact Nat.zero_le _

/-- the loop moves on towards the END that it was about to send -/
theorem ends_loop (hq : t.tx.log = s.tx.log) (hl : t.loop.ends = s.loop.ends)
    (hs : (t.state i).ends ≤ (s.state i).ends) : t.ends i ≤ s.ends i := by
  unfold ends
  rw [hq, hl]
  exact Nat.add_le_add_left hs _

/-- a frame that is no END is queued -/
theorem ends_push {f : Frame} (hq : t.tx.log = s.tx.log ++ [f]) (hf : f.ended = none)
    (hl : t.loop = s.loop ∨ t.loop.ends = none) (hs : (t.state i).ends ≤ (s.state i).ends) :
    t.ends i ≤ s.ends i := by
  unfold ends
  rw [hq]
  refine Nat.add_le_add (Nat.add_le_add (endsOf_snoc_of_none hf) ?_) hs
  rcases hl with hl | hl
  · rw [hl]
  · rw [hl]
    exact Nat.zero_le _

theorem ends_setState {j : UInt16} {st : StreamState} (h : st.ends ≤ (s.state j).ends) :
    ((s.setState j st).state i).ends ≤ (s.state i).ends :=
  forall_setState (s := s) (P := fun j st => st.ends ≤ (s.state j).ends) (fun _ => le_rfl) h i

/-- a task queues its END -/
theorem ends_task {j : UInt16} {st : StreamState} {r : Bytes}
    (hq : t.tx.log = s.tx.log ++ [.end j r]) (hl : t.loop = s.loop)
    (ht : t.state = (s.setState j st).state) (h : st.ends + 1 ≤ (s.state j).ends) :
    t.ends i ≤ s.ends i := by
  unfold ends
  rw [hq, hl, ht]
  have hlog := endsOf_snoc_le i s.tx.log (.end j r)
  by_cases hij : i = j
  · subst hij
    rw [setState_self]
    simp only [Frame.ended, ↓reduceIte] at hlog
    omega
  · have hne : (Frame.end j r).ended ≠ some i := fun hx => hij (Option.some.inj hx).symm
    rw [setState_of_ne s st hij]
    rw [if_neg hne] at hlog
    omega

/-- a step decides to send an END for stream `id` -/
theorem ends_decide {id : UInt16} (hq : t.tx.log = s.tx.log) (hl : s.loop.ends = none)
    (hl' : t.loop.ends = some id) (hs : t.state = s.state) :
    t.ends i ≤ s.ends i + if id = i then 1 else 0 := by
  unfold ends
  rw [hq, hs, hl, hl']
  by_cases hi : id = i
  · simp [hi]
    omega
  · simp [hi]

theorem ends_decide_task {j : UInt16} {st : StreamState} (hq : t.tx.log = s.tx.log)
    (hl : t.loop = s.loop) (ht : t.state = (s.setState j st).state)
    (h : st.ends ≤ (s.state j).ends + 1) : t.ends i ≤ s.ends i + if j = i then 1 else 0 := by
  unfold ends
  rw [hq, hl, ht]
  by_cases hij : i = j
  · subst hij
    rw [setState_self, if_pos rfl]
    omega
  · rw [setState_of_ne s st hij]
    omega

/-- DATA of an id that the session has not opened: nothing for it is under way -/
theorem ends_unopened (h : s.Started) (hi : i ∉ openedIds s.tx.log) (hl : s.loop.ends = none) :
    s.ends i = 0 := by
  have hun : Unstarted (s.state i) := by
    by_contra hx
    exact hi (h.tasks i hx)
  unfold ends StreamState.ends
  rw [endsOf_unopened hi, hl, hun.1, hun.2.1]
  rfl

/-- a step that gives up stream `j` -/
theorem ends_fault {j : UInt16} (h : t.ends i ≤ s.ends i + if j = i then 1 else 0)
    (hj : s.faults lib a = some j) :
    t.ends i ≤ s.ends i ∨ t.ends i ≤ s.ends i + 1 ∧ (s.faults lib a = some i ∨
      s.late a = some i ∨ i ∉ openedIds s.tx.log ∧ s.loop.ends = none) := by
  by_cases hi : j = i
  · rw [if_pos hi] at h
    exact .inr ⟨h, .inl (hi ▸ hj)⟩
  · rw [if_neg hi] at h
    exact .inl h

theorem takeUp_ends {f : Frame} {id : UInt16} (h : (s.takeUp f).ends = some id) :
    ∃ bytes, f = .data id bytes ∧ id ∉ s.streams := by
  unfold takeUp at h
  cases f with
  | respHead j head =>
    simp only at h
    split at h <;> cases h
  | data j bytes =>
    simp only at h
    split at h
    · cases h
    · next hn =>
      cases h
      exact ⟨bytes, rfl, hn⟩
  | «end» j reason =>
    simp only at h
    split at h <;> cases h
  | _ => cases h

/-- taking up a frame decides on an END for DATA of an id that is not in the map only -/
theorem ends_takeUp {f : Frame} (hl : s.loop = .frame f) :
    Session.ends { s with loop := s.takeUp f, received := s.received ++ [f] } i ≤ s.ends i ∨
    Session.ends { s with loop := s.takeUp f, received := s.received ++ [f] } i ≤ s.ends i + 1 ∧
      (s.late .loop = some i ∨ i ∉ openedIds s.tx.log ∧ s.loop.ends = none) := by
  have hends : s.loop.ends = none := by rw [hl]; rfl
  cases hx : (s.takeUp f).ends with
  | none => exact .inl (ends_frame rfl (.inr hx) le_rfl)
  | some id =>
    obtain ⟨bytes, rfl, hid⟩ := takeUp_ends hx
    have hle : Session.ends { s with
        loop := s.takeUp (.data id bytes), received := s.received ++ [.data id bytes] } i ≤
        s.ends i + if id = i then 1 else 0 := ends_decide rfl hends hx rfl
    by_cases hi : id = i
    · subst hi
      rw [if_pos rfl] at hle
      refine .inr ⟨hle, ?_⟩
      by_cases ho : id ∈ openedIds s.tx.log
      · left
        unfold late
        simp only [hl]
        exact if_pos ⟨ho, hid⟩
      · exact .inr ⟨ho, hends⟩
    · rw [if_neg hi] at hle
      exact .inl hle

/-- a head that the loop does not take is a fault -/
theorem faults_respHead {id : UInt16} {raw reason : Bytes} (hl : s.loop = .respHead id raw)
    (h : s.loopStep lib = some { s with
      loop := .terminate id .fail .completed (some reason) }) : s.faults lib .loop = some id := by
  have hrej : acceptHead lib (s.state id) raw = none := by
    unfold loopStep at h
    simp only [hl] at h
    split at h
    · cases congrArg loop (Option.some.inj h)
    · next hn => exact hn
  unfold faults
  simp only [hl]
  exact if_pos hrej

/-- and so is data -/
theorem faults_data {id : UInt16} {bytes reason : Bytes} (hl : s.loop = .data id bytes)
    (h : s.loopStep lib = some { s with
      loop := .terminate id .fail .completed (some reason) }) : s.faults lib .loop = some id := by
  have hrej : (acceptData (s.state id) bytes).isNone = true := by
    unfold loopStep at h
    simp only [hl] at h
    split at h
    · cases congrArg loop (Option.some.inj h)
    · next hn =>
      rw [hn]
      rfl
  unfold faults
  simp only [hl]
  exact if_pos hrej

/-- **Step.** The count for stream `i` grows by one at most, and only where the step gives up the
stream, or finds DATA for an id that is not in the map. -/
theorem step_ends (hr : Reachable lib s) (h : step lib s a = some t) :
    t.ends i ≤ s.ends i ∨ t.ends i ≤ s.ends i + 1 ∧ (s.faults lib a = some i ∨
      s.late a = some i ∨ i ∉ openedIds s.tx.log ∧ s.loop.ends = none) := by
  have hm := move_of_step h
  cases hm with
  | quiet | alive | writerEnd | ownDrain | ownFailed | registryDrain | registryFailed | cancel
  | reserveOk | reserveNo | exhausted | allocate | gone | busy | answered =>
    exact .inl (ends_frame rfl (.inl rfl) le_rfl)
  | frame | leave | noReply | ownReturned | detached =>
    exact .inl (ends_frame rfl (.inr rfl) le_rfl)
  | write _ hrecv => exact .inl (ends_frame (Chan.log_recv hrecv) (.inl rfl) le_rfl)
  | @control _ f _ hf =>
    refine .inl (ends_push (Chan.log_push _ f) ?_ (.inr rfl) le_rfl)
    rcases hf with rfl | rfl
    · rfl
    · rfl
  | @takeUp f hl =>
    exact (ends_takeUp hl).imp_right fun hle => ⟨hle.1, .inr hle.2⟩
  | headOk | dataOk =>
    exact .inl (ends_frame rfl (.inr rfl) (ends_setState (StreamState.ends_congr rfl rfl).le))
  | @headBad id raw hl =>
    exact ends_fault (ends_decide rfl (by rw [hl]; rfl) rfl rfl) (faults_respHead hl h)
  | @dataBad id bytes hl =>
    exact ends_fault (ends_decide rfl (by rw [hl]; rfl) rfl rfl) (faults_data hl h)
  | @terminate id v stage reply hl =>
    refine .inl (ends_loop rfl ?_ (ends_setState ?_))
    · rw [hl]
      cases stage <;> cases reply <;> rfl
    · rw [StreamState.terminate_eq]
      exact (StreamState.ends_congr rfl rfl).le
  | @remove id reply hl =>
    refine .inl (ends_loop rfl ?_ le_rfl)
    rw [hl]
    cases reply <;> rfl
  | @reply id reason hl =>
    left
    have hlog := endsOf_snoc_le i s.tx.log (.end id reason)
    unfold ends
    rw [hl, Chan.log_push]
    change _ + (if none = some i then 1 else 0) + (s.state i).ends ≤
      _ + (if some id = some i then 1 else 0) + (s.state i).ends
    change _ ≤ _ + (if some id = some i then 1 else 0) at hlog
    rw [if_neg nofun]
    omega
  | ownFail | registryFail =>
    refine .inl (ends_frame rfl (.inl rfl) (ends_setState ?_))
    rw [StreamState.terminate_eq]
    exact (StreamState.ends_congr rfl rfl).le
  | register => exact .inl (ends_frame rfl (.inl rfl) (ends_setState (Nat.zero_le _)))
  | «open» => exact .inl (ends_push (Chan.log_sendPermit _ _) rfl (.inl rfl) le_rfl)
  | spawn => exact .inl (ends_frame rfl (.inl rfl) (ends_setState (Nat.zero_le _)))
  | install =>
    refine .inl (ends_frame rfl (.inl rfl) (ends_setState ?_))
    rw [StreamState.installUpload_eq]
    exact (StreamState.ends_congr rfl rfl).le
  | @readData i b rest hu hb =>
    refine .inl (ends_frame rfl (.inl rfl) (ends_setState (StreamState.ends_upload_le ?_ rfl)))
    dsimp only
    split <;> rfl
  | readTrailers =>
    exact .inl (ends_frame rfl (.inl rfl) (ends_setState (StreamState.ends_congr rfl rfl).le))
  | readEnd =>
    refine .inl (ends_frame rfl (.inl rfl) (ends_setState (StreamState.ends_upload_le ?_ rfl)))
    dsimp only
    split <;> rfl
  | @sent j f hu =>
    have hf : f.ended = none := by
      rcases hr.sends j f hu with rfl | ⟨b, _, rfl⟩
      · rfl
      · rfl
    refine .inl (ends_push (Chan.log_push _ f) hf (.inl rfl)
      (ends_setState (StreamState.ends_upload_le ?_ rfl)))
    dsimp only
    split <;> rfl
  | sendFailed | uploadFull | uploadClosed | uploadAbort | uploadCancel =>
    exact .inl (ends_frame rfl (.inl rfl) (ends_setState (StreamState.ends_upload_le rfl rfl)))
  | @erred j e hu =>
    cases hc : (s.state j).completed with
    | true =>
      refine .inl (ends_frame rfl (.inl rfl) (ends_setState (StreamState.ends_upload_le ?_ rfl)))
      rw [if_pos rfl]
      rfl
    | false =>
      refine ends_fault (ends_decide_task rfl rfl rfl ?_) ?_
      · unfold StreamState.ends
        rw [hu]
        simp [UploadPc.ends]
        omega
      · unfold faults
        simp only [hu, hc]
        rfl
  | @uploadFail j stage hu =>
    refine .inl (ends_frame rfl (.inl rfl) (ends_setState ?_))
    unfold StreamState.ends
    rw [hu, StreamState.terminate_eq]
    cases stage <;> exact le_rfl
  | @uploadEnd j hu =>
    refine .inl (ends_task (Chan.log_push _ _) rfl rfl ?_)
    unfold StreamState.ends
    rw [hu]
    simp [UploadPc.ends]
  | guardAbortUpload | guardRemove | guardFull | guardClosed | guardAbort =>
    exact .inl (ends_frame rfl (.inl rfl) (ends_setState (StreamState.ends_guard_le rfl nofun)))
  | @guardCheck j hg =>
    cases hc : (s.state j).completed with
    | true =>
      exact .inl (ends_frame rfl (.inl rfl)
        (ends_setState (StreamState.ends_guard_le rfl nofun)))
    | false =>
      refine ends_fault (ends_decide_task rfl rfl rfl ?_) ?_
      · unfold StreamState.ends
        rw [hg]
        simp
      · exact if_pos ⟨hg, hc⟩
  | @guardEnd j hg =>
    refine .inl (ends_task (Chan.log_push _ _) rfl rfl ?_)
    unfold StreamState.ends
    rw [hg]
    simp
  | @caller j budget st hh =>
    refine .inl (ends_frame rfl (.inl rfl) (ends_setState ?_))
    have hu : st.uploadPc = (s.state j).uploadPc := by rw [StreamState.handle_eq hh]
    rcases StreamState.handle_guardPc hh with hg | hg
    · exact (StreamState.ends_congr hu hg).le
    · exact StreamState.ends_guard_le hu fun hx => (nomatch hg.symm.trans hx)
  | callerDrop hh =>
    refine .inl (ends_frame rfl (.inl rfl) (ends_setState ?_))
    rw [StreamState.callerDrop_eq hh]
    exact StreamState.ends_guard_le rfl nofun

/-- **Run.** No stream has two ENDs queued or on their way. -/
theorem ends_le_one (h : Machine.ReachableWhen (step lib) Initial (EndsOnce lib) s) (i : UInt16) :
    s.ends i ≤ 1 := by
  refine h.invariant_of (P := fun s => ∀ i, s.ends i ≤ 1) ?_ ?_ i
  · intro s hs i
    obtain ⟨id, cred, now, rfl⟩ := hs
    exact Nat.zero_le _
  · intro s a t hr ha hs hstep i
    rcases step_ends (i := i) hr hstep with hle | ⟨hle, hf | hl | ⟨ho, hn⟩⟩
    · exact hle.trans (hs i)
    · rwa [ha.2 i hf] at hle
    · rw [ha.1] at hl
      cases hl
    · rwa [ends_unopened (Reachable.started hr) ho hn] at hle

/-- DATA for a stream that is gone costs a slot of the command queue, or the session -/
theorem late_costs (hl : s.late .loop = some i) :
    ∃ t, Machine.run (step lib) s [.loop, .loop, .loop] = some t ∧
      (t.tx = s.tx.push (.end i callerUnavailable) ∨ t.loop = .exited) := by
  change (match s.loop with
    | .frame (.data i _) => if i ∈ openedIds s.tx.log ∧ i ∉ s.streams then some i else none
    | _ => none) = some i at hl
  split at hl
  · next id bytes hpc =>
    split at hl
    · next hgone =>
      cases hl
      have hsome : Machine.run (step lib) s [.loop, .loop, .loop] = some (loopSend { s with
          streams := s.streams.erase i
          loop := .reply i callerUnavailable
          received := s.received ++ [.data i bytes] } (.end i callerUnavailable)) := by
        refine Machine.run_cons_some.mpr ⟨{ s with
          loop := .remove i (some callerUnavailable)
          received := s.received ++ [.data i bytes] }, ?_, Machine.run_cons_some.mpr ⟨_, rfl,
            Machine.run_cons_some.mpr ⟨_, rfl, rfl⟩⟩⟩
        show s.loopStep lib = _
        unfold loopStep
        rw [hpc]
        simp only [takeUp, if_neg hgone.2]
      refine ⟨_, hsome, ?_⟩
      unfold loopSend
      split
      · next tx htx =>
        obtain ⟨_, _, rfl⟩ := Chan.trySend_ok htx
        exact .inl rfl
      · exact .inr rfl
    · cases hl
  · cases hl

end Session

/-- a caller goes away, and its guard tells the tether -/
def dropRun : List SessionAction :=
  [.reserve ⟨[], [], true⟩, .forward, .forward, .forward, .forward, .forward, .callerDrop 1,
    .guard 1, .guard 1, .guard 1, .guard 1]

theorem dropRun_ends : (Machine.runWhen (Session.step okLib) (Session.EndsOnce okLib)
    (Session.new "t" [] 0) dropRun).map (fun s => endedIds s.tx.log) = some [1] := by
  decide

/-- two DATA frames that were in flight when the caller went away -/
def lateDataRun : List SessionAction :=
  dropRun ++ [.recv (wsMsg (.data 1 [7])) 0, .loop, .loop, .loop,
    .recv (wsMsg (.data 1 [8])) 0, .loop, .loop, .loop]

theorem lateDataRun_ends : (Machine.run (Session.step okLib) (Session.new "t" [] 0)
    lateDataRun).map (fun s => endsOf 1 s.tx.log) = some 3 := by
  decide

end AnvilRing
