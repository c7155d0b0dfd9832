import AnvilRing.Hub.Commands
import AnvilRing.Lib.Variant

/-!
# The work left in a hub session

A variant of the session's own tasks: every step that the loop, a forward, an upload, a guard or the
cancellation of an upload makes by itself takes something off it.  What such a step queues for the
tether weighs less than the step, so the answers that the tether will give are paid for, too.

* `downWork`        what a frame to the tether may still cause, from the WebSocket on;
* `Session.work`    the work left;
* `loopStep_work`, `forwardStep_work`, `uploadStep_work`, `uploadCancel_work`, `guardStep_work`.
-/

namespace AnvilRing
open Wire

/-! ## the work of the parts -/

/-- what a frame to the tether may still cause: an END or a PONG is not answered -/
def downWork : Frame → Nat
  | .end _ _ => 1
  | .pong => 1
  | _ => 13

theorem downWork_le (f : Frame) : downWork f ≤ 13 := by
  cases f <;> simp [downWork]

theorem downWork_pos (f : Frame) : 0 < downWork f := by
  cases f <;> simp [downWork]

/-- what a frame for the hub's loop may still cause -/
def LoopPc.work : LoopPc → Nat
  | .frame _ => 9
  | .respHead _ _ => 8
  | .data _ _ => 8
  | .terminate _ _ .completed _ => 7
  | .terminate _ _ .upload _ => 6
  | .terminate _ _ .outcome _ => 5
  | .remove _ _ => 4
  | .reply _ _ => 3
  | _ => 0

/-- reading a body, a DATA for every frame, and the HALF_END -/
def bodyWork (body : List CallerFrame) : Nat := 17 * body.length + 16

def ForwardPc.work : ForwardPc → Nat
  | .idle => 0
  | .reserved req => bodyWork req.body + 21
  | .allocated req _ => bodyWork req.body + 20
  | .admitted _ => 18
  | .opened _ => 3
  | .spawned _ => 2
  | .returned _ => 1

/-- the upload task of stream `i`, with this much of its body not read yet -/
def UploadPc.work (i : UInt16) (body : List CallerFrame) : UploadPc → Nat
  | .absent => bodyWork body + 1
  | .reading => bodyWork body
  | .sending f => if f = .halfEnd i then 15 else bodyWork body + 15
  | .erred _ => 7
  | .failing .completed => 6
  | .failing .upload => 5
  | .failing .outcome => 4
  | .ending => 3
  | .aborting => 1
  | .done => 0
  | .cancelled => 0

def GuardPc.work : GuardPc → Nat
  | .abortUpload => 7
  | .remove => 6
  | .check => 5
  | .ending => 4
  | .aborting => 1
  | _ => 0

def StreamState.work (i : UInt16) (st : StreamState) : Nat :=
  if st.registered then st.uploadPc.work i st.body + st.guardPc.work else 0

/-- every stream id -/
def streamIds : Finset UInt16 := (Finset.range 65536).image UInt16.ofNat

theorem mem_streamIds (i : UInt16) : i ∈ streamIds :=
  Finset.mem_image.mpr ⟨i.toNat, Finset.mem_range.mpr i.toNat_lt, UInt16.ofNat_toNat⟩

def streamsWork (state : UInt16 → StreamState) : Nat := ∑ i ∈ streamIds, (state i).work i

def commandsWork (fs : List Frame) : Nat := (fs.map fun f => downWork f + 1).sum

def Session.work (s : Session) : Nat :=
  s.loop.work + s.forward.work + commandsWork s.tx.queue + streamsWork s.state

/-! ## one part changes -/

section
variable {st st' : StreamState} {i : UInt16} {f : Frame}

theorem streamsWork_update (state : UInt16 → StreamState) (i : UInt16) (st : StreamState) :
    streamsWork (Function.update state i st) + (state i).work i = streamsWork state + st.work i :=
  sum_update streamIds state (fun j st => st.work j) (mem_streamIds i) st

theorem streamsWork_update_of_eq {state : UInt16 → StreamState} (h : st.work i = (state i).work i) :
    streamsWork (Function.update state i st) = streamsWork state := by
  have hsum := streamsWork_update state i st
  omega

theorem commandsWork_push (fs : List Frame) (f : Frame) :
    commandsWork (fs ++ [f]) = commandsWork fs + (downWork f + 1) := by
  unfold commandsWork
  rw [List.map_append, List.sum_append]
  rfl

theorem StreamState.terminate_work (v : Verdict) (stage : TermStage) (st : StreamState)
    (i : UInt16) : (st.terminate v stage).work i = st.work i := by
  cases stage <;> rfl

theorem installUpload_work (st : StreamState) (i : UInt16) :
    StreamState.work i { st.installUpload with callerPc := .waitHead } = st.work i := by
  unfold StreamState.installUpload
  split <;> rfl

/-- the upload task of a stream is spawned, and its guard is held -/
theorem spawn_work (i : UInt16) (hu : st.uploadPc = .absent) (hg : st.guardPc = .absent) :
    StreamState.work i { st with guardPc := .held, uploadPc := .reading } ≤ st.work i := by
  unfold StreamState.work
  rw [hu, hg]
  split
  · simp [UploadPc.work, GuardPc.work]
  · exact le_rfl

theorem StreamState.work_of_registered (h : st.registered = true) :
    st.work i = st.uploadPc.work i st.body + st.guardPc.work := by
  unfold StreamState.work
  rw [if_pos h]

theorem bodyWork_pos (body : List CallerFrame) : 15 < bodyWork body :=
  Nat.lt_of_lt_of_le (Nat.lt_succ_self 15) (Nat.le_add_left 16 _)

end

/-! ## the steps -/

namespace Session
variable {lib : HttpLib} {s t : Session} {i : UInt16}

/-- what is sent from the loop takes the place of the loop's work -/
theorem loopSend_work (s : Session) (f : Frame) :
    (s.loopSend f).work + s.loop.work ≤ s.work + (downWork f + 1) := by
  unfold loopSend
  split
  · next tx htx =>
    obtain ⟨-, -, rfl⟩ := Chan.trySend_ok htx
    simp only [work, Chan.push, commandsWork_push, LoopPc.work]
    omega
  · simp only [work, LoopPc.work]
    omega

/-- a message makes a frame for the loop, or a PONG -/
theorem recv_work {m : Message} {now : Nat} (h : s.recv m now = some t) : t.work ≤ s.work + 9 := by
  unfold recv at h
  split at h
  · next hl =>
    have hselect : s.loop.work = 0 := by rw [hl]; rfl
    split at h
    · obtain rfl := Option.some.inj h
      exact Nat.le_add_right_of_le (by simp [work, LoopPc.work])
    · obtain rfl := Option.some.inj h
      exact Nat.le_add_right _ _
    · split at h
      · obtain rfl := Option.some.inj h
        have hsend := loopSend_work s .pong
        simp only [downWork] at hsend
        omega
      all_goals
        obtain rfl := Option.some.inj h
        simp only [work, LoopPc.work]
        omega
  · cases h

theorem exit_work {cause : ExitCause} (h : s.exit cause = some t) : t.work ≤ s.work := by
  unfold exit at h
  split at h
  · obtain rfl := Option.some.inj h
    simp [work, LoopPc.work]
  · cases h

/-- the frame that the writer takes leaves the queue -/
theorem write_work {f : Frame} {tx : Chan Frame} (hr : s.tx.recv = some (f, tx))
    (h : s.write = some t) : t.work + (downWork f + 1) = s.work := by
  unfold write at h
  split at h
  · cases h
  · rw [hr] at h
    obtain rfl := Option.some.inj h
    simp only [work, commandsWork, (Chan.recv_some hr).1, List.map_cons, List.sum_cons]
    omega

theorem takeUp_work (s : Session) (f : Frame) : (s.takeUp f).work ≤ 8 := by
  unfold takeUp
  split
  · split <;> simp [LoopPc.work]
  · split <;> simp [LoopPc.work]
  · split <;> simp [LoopPc.work]
  · exact Nat.zero_le _

theorem acceptData_work {st st' : StreamState} {bytes : Bytes} (h : acceptData st bytes = some st')
    (i : UInt16) : st'.work i = st.work i := by
  unfold acceptData at h
  split at h
  · split at h
    · obtain rfl := Option.some.inj h
      rfl
    · cases h
  · cases h

theorem loopStep_work (h : s.loopStep lib = some t) : t.work < s.work := by
  unfold loopStep at h
  split at h
  · next f hl =>
    obtain rfl := Option.some.inj h
    have htake := takeUp_work s f
    have hframe : (LoopPc.frame f).work = 9 := rfl
    simp only [work, hl]
    omega
  · next id head hl =>
    split at h
    · next res hres =>
      obtain rfl := Option.some.inj h
      have hsame : streamsWork (Function.update s.state id { s.state id with head := some res }) =
          streamsWork s.state := streamsWork_update_of_eq rfl
      simp only [work, setState, hsame, hl, LoopPc.work]
      omega
    · obtain rfl := Option.some.inj h
      simp only [work, hl, LoopPc.work]
      omega
  · next id bytes hl =>
    split at h
    · next st hst =>
      obtain rfl := Option.some.inj h
      have hsame := streamsWork_update_of_eq (acceptData_work hst id)
      simp only [work, setState, hsame, hl, LoopPc.work]
      omega
    · obtain rfl := Option.some.inj h
      simp only [work, hl, LoopPc.work]
      omega
  · next id v stage reply hl =>
    obtain rfl := Option.some.inj h
    have hsame := streamsWork_update_of_eq (StreamState.terminate_work v stage (s.state id) id)
    simp only [work, setState, hsame, hl]
    cases stage <;> simp [LoopPc.work, TermStage.next]
  · next id reply hl =>
    obtain rfl := Option.some.inj h
    simp only [work, hl]
    cases reply <;> simp [LoopPc.work]
  · next id reason hl =>
    obtain rfl := Option.some.inj h
    have hsend := loopSend_work s (.end id reason)
    rw [hl] at hsend
    simp only [LoopPc.work, downWork] at hsend
    omega
  · cases h

/-- a forward pays for its tasks and its OPEN -/
theorem forwardStep_work (hid : s.IdInv) (hs : s.Started) (h : s.forwardStep = some t) :
    t.work < s.work := by
  unfold forwardStep at h
  split at h
  · next req hf =>
    obtain rfl := Option.some.inj h
    unfold allocate
    split
    · simp only [work, Chan.dropPermit, hf, ForwardPc.work]
      omega
    · simp only [work, hf, ForwardPc.work]
      omega
  · next req id hf =>
    obtain rfl := Option.some.inj h
    unfold admitStream
    split
    · simp only [work, Chan.dropPermit, hf, ForwardPc.work]
      omega
    · split
      · simp only [work, Chan.dropPermit, hf, ForwardPc.work]
        omega
      · have hnew : (s.state id).work id = 0 := by
          unfold StreamState.work
          rw [hid.allocated req id hf]
          rfl
        have hfresh : (StreamState.fresh req s.received.length).work id = bodyWork req.body + 1 :=
          rfl
        have hsum := streamsWork_update s.state id (StreamState.fresh req s.received.length)
        simp only [work, setState, hf, ForwardPc.work]
        omega
  · next id hf =>
    obtain rfl := Option.some.inj h
    simp only [work, Chan.sendPermit, commandsWork_push, hf, ForwardPc.work, downWork]
    omega
  · next id hf =>
    obtain rfl := Option.some.inj h
    obtain ⟨hu, hg, -⟩ := hs.unspawned id (by rw [hf]; rfl)
    have hless := spawn_work id hu hg
    have hsum := streamsWork_update s.state id
      { s.state id with guardPc := .held, uploadPc := .reading }
    simp only [work, setState, hf, ForwardPc.work]
    simp only at hless hsum
    omega
  · next id hf =>
    obtain rfl := Option.some.inj h
    have hsame := streamsWork_update_of_eq (installUpload_work (s.state id) id)
    simp only [work, setState, hsame, hf, ForwardPc.work]
    omega
  · next hf =>
    obtain rfl := Option.some.inj h
    simp only [work, hf, ForwardPc.work]
    omega
  · cases h

/-- a step of a stream's task that queues nothing -/
theorem setState_work {st : StreamState} (hi : (s.state i).registered = true)
    (hst : st.registered = true)
    (h : st.uploadPc.work i st.body + st.guardPc.work <
      (s.state i).uploadPc.work i (s.state i).body + (s.state i).guardPc.work) :
    (s.setState i st).work < s.work := by
  have hsum := streamsWork_update s.state i st
  rw [StreamState.work_of_registered hi, StreamState.work_of_registered hst] at hsum
  simp only [work, setState]
  omega

/-- a step of a stream's task that queues a frame -/
theorem setState_push_work {st : StreamState} {f : Frame} (hi : (s.state i).registered = true)
    (hst : st.registered = true)
    (h : st.uploadPc.work i st.body + st.guardPc.work + (downWork f + 1) <
      (s.state i).uploadPc.work i (s.state i).body + (s.state i).guardPc.work) :
    work { s.setState i st with tx := s.tx.push f } < s.work := by
  have hsum := streamsWork_update s.state i st
  rw [StreamState.work_of_registered hi, StreamState.work_of_registered hst] at hsum
  simp only [work, setState, Chan.push, commandsWork_push]
  omega

theorem uploadStep_work (hi : (s.state i).registered = true) (h : s.uploadStep i = some t) :
    t.work < s.work := by
  unfold uploadStep at h
  simp only at h
  split at h
  · next hu =>
    split at h
    · next b rest hb =>
      refine Option.some.inj h ▸ setState_work hi hi ?_
      rw [hu, hb]
      split
      · simp [UploadPc.work, bodyWork]
      · simp [UploadPc.work, bodyWork]
        omega
    · next rest hb =>
      refine Option.some.inj h ▸ setState_work hi hi ?_
      rw [hu, hb]
      simp [UploadPc.work, bodyWork]
    · next hb =>
      refine Option.some.inj h ▸ setState_work hi hi ?_
      rw [hu, hb]
      split <;> simp [UploadPc.work, bodyWork]
  · next f hu =>
    have hbody := bodyWork_pos (s.state i).body
    split at h
    · refine Option.some.inj h ▸ setState_work hi hi ?_
      rw [hu]
      simp only [UploadPc.work]
      split <;> omega
    · split at h
      · refine Option.some.inj h ▸ setState_push_work hi hi ?_
        rw [hu]
        by_cases hf : f = .halfEnd i
        · simp only [UploadPc.work, downWork, hf, ↓reduceIte]
          omega
        · have hdown : downWork f ≤ 13 := downWork_le f
          simp only [UploadPc.work, hf, ↓reduceIte]
          omega
      · cases h
  · next e hu =>
    refine Option.some.inj h ▸ setState_work hi hi ?_
    rw [hu]
    split <;> simp [UploadPc.work]
  · next stage hu =>
    refine Option.some.inj h ▸ setState_work hi (by cases stage <;> exact hi) ?_
    rw [hu]
    cases stage <;> simp [UploadPc.work, TermStage.next, StreamState.terminate]
  · next hu =>
    split at h
    · next tx hs =>
      obtain ⟨-, -, rfl⟩ := Chan.trySend_ok hs
      refine Option.some.inj h ▸ setState_push_work hi hi ?_
      rw [hu]
      simp only [UploadPc.work, downWork]
      omega
    all_goals
      refine Option.some.inj h ▸ setState_work hi hi ?_
      rw [hu]
      simp [UploadPc.work]
  · next hu =>
    refine Option.some.inj h ▸ (setState_work hi hi ?_ :
      (s.setState i { s.state i with uploadPc := .done }).work < s.work)
    rw [hu]
    simp [UploadPc.work]
  · cases h

theorem uploadCancel_work (hi : (s.state i).registered = true) (h : s.uploadCancel i = some t) :
    t.work < s.work := by
  have hbody := bodyWork_pos (s.state i).body
  unfold uploadCancel at h
  simp only at h
  split at h
  · split at h
    · next hu =>
      refine Option.some.inj h ▸ setState_work hi hi ?_
      rw [hu]
      simp only [UploadPc.work]
      omega
    · next f hu =>
      refine Option.some.inj h ▸ setState_work hi hi ?_
      rw [hu]
      simp only [UploadPc.work]
      split <;> omega
    · cases h
  · cases h

theorem guardStep_work (hi : (s.state i).registered = true) (h : s.guardStep i = some t) :
    t.work < s.work := by
  unfold guardStep at h
  simp only at h
  split at h
  · next hg =>
    refine Option.some.inj h ▸ setState_work hi hi ?_
    rw [hg]
    simp [GuardPc.work]
  · next hg =>
    refine Option.some.inj h ▸ (setState_work hi hi ?_ :
      (s.setState i { s.state i with guardPc := .check }).work < s.work)
    rw [hg]
    simp [GuardPc.work]
  · next hg =>
    refine Option.some.inj h ▸ setState_work hi hi ?_
    rw [hg]
    split <;> simp [GuardPc.work]
  · next hg =>
    split at h
    · next tx hs =>
      obtain ⟨-, -, rfl⟩ := Chan.trySend_ok hs
      refine Option.some.inj h ▸ setState_push_work hi hi ?_
      rw [hg]
      simp only [GuardPc.work, downWork]
      omega
    all_goals
      refine Option.some.inj h ▸ setState_work hi hi ?_
      rw [hg]
      simp [GuardPc.work]
  · next hg =>
    refine Option.some.inj h ▸ (setState_work hi hi ?_ :
      (s.setState i { s.state i with guardPc := .dropped }).work < s.work)
    rw [hg]
    simp [GuardPc.work]
  · cases h

end Session

end AnvilRing
