import AnvilRing.Hub.Closing
import AnvilRing.Hub.Commands
import AnvilRing.Hub.Response

/-!
# The outcome of a stream, and the head that its caller waits for

`complete` and `fail` store what they are told to, and four tasks call them.  `Forwarded::head`
reads two cells one after the other.

* `Session.Untouched`          a stream that was never registered is as it was made;
* `Session.OneVerdict`         no call of `complete` or `fail` contradicts an earlier one;
* `outcome_decided_once`       then an outcome is never changed;
* `Session.OnTime`             no stream is completed while its caller stands between its two reads
                               with a head behind it;
* `head_not_missed`            then a head that was stored in time is never reported missing.
-/

namespace AnvilRing
open Wire

namespace Session
variable {lib : HttpLib} {s t : Session} {a : SessionAction} {i : UInt16}

/-! ## streams that nobody registered -/

structure Untouched (s : Session) : Prop where
  unused : ∀ i, (s.state i).registered = false → s.state i = unusedStream
  own : ∀ i ∈ s.ownClose.todo, (s.state i).registered = true
  registry : ∀ i ∈ s.registryClose.todo, (s.state i).registered = true

/-- a stream with a task is registered -/
theorem Untouched.registered (h : s.Untouched) (hi : s.state i ≠ unusedStream) :
    (s.state i).registered = true := by
  by_contra hn
  exact hi (h.unused i (Bool.eq_false_iff.mpr hn))

/-- a move that registers no stream, and changes the states of registered streams only -/
theorem Untouched.frame (h : s.Untouched)
    (hreg : ∀ j, (t.state j).registered = (s.state j).registered)
    (hs : ∀ j, (s.state j).registered = false → t.state j = s.state j)
    (ho : ∀ i ∈ t.ownClose.todo, i ∈ s.ownClose.todo ∨ i ∈ s.streams)
    (hr : ∀ i ∈ t.registryClose.todo, i ∈ s.registryClose.todo ∨ i ∈ s.streams)
    (hm : ∀ i ∈ s.streams, (s.state i).registered = true) : t.Untouched where
  unused i hi := by
    rw [hreg] at hi
    rw [hs i hi]
    exact h.unused i hi
  own i hi := by
    rw [hreg]
    rcases ho i hi with hx | hx
    · exact h.own i hx
    · exact hm i hx
  registry i hi := by
    rw [hreg]
    rcases hr i hi with hx | hx
    · exact h.registry i hx
    · exact hm i hx

/-- one registered stream changes -/
theorem Untouched.update (h : s.Untouched) (hid : s.IdInv) {st : StreamState}
    (ht : t.state = (s.setState i st).state) (hi : (s.state i).registered = true)
    (hst : st.registered = true)
    (ho : ∀ j ∈ t.ownClose.todo, j ∈ s.ownClose.todo)
    (hr : ∀ j ∈ t.registryClose.todo, j ∈ s.registryClose.todo) : t.Untouched := by
  refine h.frame ?_ ?_ (fun j hj => .inl (ho j hj)) (fun j hj => .inl (hr j hj)) hid.mapped
  · intro j
    rw [ht]
    exact setState_apply StreamState.registered s (hst.trans hi.symm) j
  · intro j hj
    rw [ht]
    refine setState_of_ne s st ?_
    rintro rfl
    rw [hi] at hj
    cases hj

theorem todo_next {stage : TermStage} {drained rest : List UInt16} {j : UInt16}
    (hj : j ∈ (stage.next.elim (ClosePc.failing drained rest .completed)
      (.failing drained (i :: rest))).todo) :
    j ∈ (ClosePc.failing drained (i :: rest) stage).todo := by
  cases stage with
  | outcome => exact List.mem_cons_of_mem i hj
  | _ => exact hj

theorem Untouched.move (h : s.Untouched) (hr : Reachable lib s) (hm : Move lib s a t) :
    t.Untouched := by
  have hid := hr.idInv
  have hkeep : ∀ j ∈ s.ownClose.todo, j ∈ s.ownClose.todo := fun _ hj => hj
  have hkeep' : ∀ j ∈ s.registryClose.todo, j ∈ s.registryClose.todo := fun _ hj => hj
  have hupload : ∀ {j : UInt16} {pc : UploadPc}, (s.state j).uploadPc = pc → pc ≠ .absent →
      (s.state j).registered = true := by
    intro j pc hu hpc
    refine h.registered fun hx => hpc ?_
    rw [hx] at hu
    exact hu.symm
  have hguard : ∀ {j : UInt16} {pc : GuardPc}, (s.state j).guardPc = pc → pc ≠ .absent →
      (s.state j).registered = true := by
    intro j pc hg hpc
    refine h.registered fun hx => hpc ?_
    rw [hx] at hg
    exact hg.symm
  have hterm : ∀ {j : UInt16} {v : Verdict} {stage : TermStage},
      ((s.state j).terminate v stage).registered = (s.state j).registered := by
    intro j v stage
    rw [StreamState.terminate_eq]
  cases hm with
  | quiet | alive | frame | leave | control | takeUp | headBad | dataBad | remove | reply | noReply
  | ownReturned | detached | cancel | write | writerEnd | reserveOk | reserveNo | exhausted
  | allocate | gone | busy | answered | «open» => exact ⟨h.unused, h.own, h.registry⟩
  | ownFailed | registryFailed =>
    exact h.frame (fun _ => rfl) (fun _ _ => rfl) (fun j hj => by first | exact .inl hj | cases hj)
      (fun j hj => by first | exact .inl hj | cases hj) hid.mapped
  | @ownDrain order hl hi ho =>
    refine h.frame (fun _ => rfl) (fun _ _ => rfl) (fun j hj => .inr ?_) (fun _ hj => .inl hj)
      hid.mapped
    rw [← ho]
    exact List.mem_toFinset.mpr hj
  | @registryDrain order hl ho =>
    refine h.frame (fun _ => rfl) (fun _ _ => rfl) (fun _ hj => .inl hj) (fun j hj => .inr ?_)
      hid.mapped
    rw [← ho]
    exact List.mem_toFinset.mpr hj
  | headOk hl | dataOk hl =>
    have hi := hid.target _ (by rw [hl]; rfl)
    exact h.update hid rfl hi hi hkeep hkeep'
  | terminate hl =>
    have hi := hid.target _ (by rw [hl]; rfl)
    exact h.update hid rfl hi (hterm.trans hi) hkeep hkeep'
  | @ownFail order drained rest i stage hl ho =>
    have hi : (s.state i).registered = true := h.own i (by rw [ho]; exact List.mem_cons_self)
    refine h.update hid rfl hi (hterm.trans hi) (fun j hj => ?_) hkeep'
    rw [ho]
    exact todo_next hj
  | @registryFail order drained rest i stage ho =>
    have hi : (s.state i).registered = true := h.registry i (by rw [ho]; exact List.mem_cons_self)
    refine h.update hid rfl hi (hterm.trans hi) hkeep (fun j hj => ?_)
    rw [ho]
    exact todo_next hj
  | @register req id hf =>
    have hreg : ∀ j, (s.state j).registered = true →
        ((s.setState id (StreamState.fresh req s.received.length)).state j).registered = true :=
      forall_setState (s := s) (P := fun j st => (s.state j).registered = true →
        st.registered = true) (fun _ hj => hj) fun _ => rfl
    constructor
    · exact forall_setState (s := s) (P := fun _ st => st.registered = false → st = unusedStream)
        h.unused fun hx => (nomatch hx)
    · exact fun j hj => hreg j (h.own j hj)
    · exact fun j hj => hreg j (h.registry j hj)
  | @spawn id hf =>
    have hi := hid.opened id (hr.started.launched id (by rw [hf]; rfl))
    exact h.update hid rfl hi hi hkeep hkeep'
  | @install id hf =>
    have hi := hid.opened id (hr.started.launched id (by rw [hf]; rfl))
    refine h.update hid rfl hi ?_ hkeep hkeep'
    rw [StreamState.installUpload_eq]
    exact hi
  | readData hu | readTrailers hu | readEnd hu | sent hu | sendFailed hu | erred hu | uploadEnd hu
  | uploadFull hu | uploadClosed hu | uploadAbort hu =>
    have hi := hupload hu nofun
    exact h.update hid rfl hi hi hkeep hkeep'
  | uploadFail hu =>
    have hi := hupload hu nofun
    exact h.update hid rfl hi (hterm.trans hi) hkeep hkeep'
  | @uploadCancel i _ hu =>
    have hi : (s.state i).registered = true := by
      rcases hu with hu | ⟨f, hu⟩
      · exact hupload hu nofun
      · exact hupload hu nofun
    exact h.update hid rfl hi hi hkeep hkeep'
  | guardAbortUpload hg | guardRemove hg | guardCheck hg | guardEnd hg | guardFull hg
  | guardClosed hg | guardAbort hg =>
    have hi := hguard hg nofun
    exact h.update hid rfl hi hi hkeep hkeep'
  | @caller i budget st hh =>
    have hi : (s.state i).registered = true := by
      refine h.registered fun hx => ?_
      rw [hx] at hh
      cases hh
    refine h.update hid rfl hi ?_ hkeep hkeep'
    rw [StreamState.handle_eq hh]
    exact hi
  | @callerDrop i st hh =>
    have hi : (s.state i).registered = true := by
      refine h.registered fun hx => ?_
      rw [hx] at hh
      cases hh
    refine h.update hid rfl hi ?_ hkeep hkeep'
    rw [StreamState.callerDrop_eq hh]
    exact hi

theorem Reachable.untouched (h : Reachable lib s) : s.Untouched := by
  refine h.move (P := Untouched) ?_ fun _ _ _ hr hu hm => hu.move hr hm
  exact fun _ _ _ => ⟨fun _ _ => rfl, fun _ hi => (nomatch hi), fun _ hi => (nomatch hi)⟩

end Session

/-! ## calls of `complete` and `fail` -/

/-- the call has set `completed` -/
def TermStage.begun : TermStage → Bool
  | .completed => false
  | _ => true

def LoopPc.calling : LoopPc → Option (UInt16 × Verdict)
  | .terminate i v stage _ => if stage.begun then some (i, v) else none
  | _ => none

def UploadPc.calling : UploadPc → Bool
  | .failing stage => stage.begun
  | _ => false

def ClosePc.calling : ClosePc → Option UInt16
  | .failing _ (i :: _) stage => if stage.begun then some i else none
  | _ => none

def LoopPc.starting : LoopPc → Option (UInt16 × Verdict)
  | .terminate i v .completed _ => some (i, v)
  | _ => none

def ClosePc.starting : ClosePc → Option (UInt16 × Verdict)
  | .failing _ (i :: _) .completed => some (i, .fail)
  | _ => none

def Verdict.opposite : Verdict → Verdict
  | .complete => .fail
  | .fail => .complete

theorem Verdict.outcome_ne_pending (v : Verdict) : v.outcome ≠ .pending := by
  cases v <;> exact nofun

theorem Verdict.outcome_inj {v w : Verdict} (h : v.outcome = w.outcome) : v = w := by
  cases v <;> cases w <;> first | rfl | cases h

theorem Verdict.eq_or_opposite (v w : Verdict) : w = v ∨ w = v.opposite := by
  cases v <;> cases w <;> first | exact .inl rfl | exact .inr rfl

theorem exists_verdict {o : Outcome} (h : o ≠ .pending) : ∃ v : Verdict, v.outcome = o := by
  cases o with
  | pending => exact absurd rfl h
  | complete => exact ⟨.complete, rfl⟩
  | failed => exact ⟨.fail, rfl⟩

namespace Session
variable {lib : HttpLib} {s t : Session} {a : SessionAction} {v w : Verdict} {i : UInt16}

/-- the verdict was called on stream `i`: the call has returned, or is on its way -/
def Called (s : Session) (v : Verdict) (i : UInt16) : Prop :=
  (s.state i).outcome = v.outcome ∨ s.loop.calling = some (i, v) ∨
    v = .fail ∧ ((s.state i).uploadPc.calling = true ∨ s.ownClose.calling = some i ∨
      s.registryClose.calling = some i)

instance (s : Session) (v : Verdict) (i : UInt16) : Decidable (s.Called v i) :=
  inferInstanceAs (Decidable (_ ∨ _ ∨ _ ∧ (_ ∨ _ ∨ _)))

/-- the call that a step begins: its stream and its verdict -/
def starting (s : Session) : SessionAction → Option (UInt16 × Verdict)
  | .loop => s.loop.starting
  | .upload i => if (s.state i).uploadPc = .failing .completed then some (i, .fail) else none
  | .teardown _ => if s.loop = .exited then s.ownClose.starting else none
  | .registryClose _ => s.registryClose.starting
  | _ => none

/-- no call begins that contradicts an earlier one -/
def OneVerdict (s : Session) (a : SessionAction) : Prop :=
  ∀ x ∈ s.starting a, ¬ s.Called x.2.opposite x.1

instance (s : Session) (a : SessionAction) : Decidable (s.OneVerdict a) :=
  Option.decidableForallMem (p := fun x : UInt16 × Verdict => ¬ s.Called x.2.opposite x.1)
    (s.starting a)

/-- a move that stores no outcome and carries no call on -/
theorem Called.of_frame (h : t.Called v i)
    (ho : (t.state i).outcome = (s.state i).outcome ∨ (t.state i).outcome = .pending)
    (hu : (t.state i).uploadPc.calling = true → (s.state i).uploadPc.calling = true)
    (hl : t.loop = s.loop ∨ t.loop.calling = none)
    (hc : t.ownClose = s.ownClose ∨ t.ownClose.calling = none)
    (hr : t.registryClose = s.registryClose ∨ t.registryClose.calling = none) : s.Called v i := by
  rcases h with h | h | ⟨hv, h | h | h⟩
  · rcases ho with ho | ho
    · exact .inl (ho.symm.trans h)
    · exact absurd (h.symm.trans ho) v.outcome_ne_pending
  · rcases hl with hl | hl
    · exact .inr (.inl (hl ▸ h))
    · rw [hl] at h
      cases h
  · exact .inr (.inr ⟨hv, .inl (hu h)⟩)
  · rcases hc with hc | hc
    · exact .inr (.inr ⟨hv, .inr (.inl (hc ▸ h))⟩)
    · rw [hc] at h
      cases h
  · rcases hr with hr | hr
    · exact .inr (.inr ⟨hv, .inr (.inr (hr ▸ h))⟩)
    · rw [hr] at h
      cases h

/-- a move on one stream that stores no outcome and carries no call on -/
theorem Called.of_update {j : UInt16} {st : StreamState} (h : t.Called v i)
    (ht : t.state = (s.setState j st).state) (ho : st.outcome = (s.state j).outcome)
    (hu : st.uploadPc.calling = true → (s.state j).uploadPc.calling = true)
    (hl : t.loop = s.loop ∨ t.loop.calling = none)
    (hc : t.ownClose = s.ownClose ∨ t.ownClose.calling = none)
    (hr : t.registryClose = s.registryClose ∨ t.registryClose.calling = none) : s.Called v i := by
  refine h.of_frame (.inl ?_) ?_ hl hc hr
  · rw [ht]
    exact setState_apply StreamState.outcome s ho i
  · rw [ht]
    exact forall_setState (s := s) (P := fun j st => st.uploadPc.calling = true →
      (s.state j).uploadPc.calling = true) (fun _ hx => hx) hu i

theorem takeUp_calling (s : Session) (f : Frame) : (s.takeUp f).calling = none := by
  unfold takeUp
  split
  · split <;> rfl
  · split <;> rfl
  · split <;> rfl
  · rfl

/-- one effect of a call on stream `j`: what was called there before -/
theorem outcome_terminate {st : StreamState} {stage : TermStage}
    (h : (st.terminate w stage).outcome = v.outcome) :
    st.outcome = v.outcome ∨ v = w ∧ stage = .outcome := by
  cases stage with
  | outcome => exact .inr ⟨(Verdict.outcome_inj h).symm, rfl⟩
  | _ => exact .inl h

/-- one effect of a call of `w` on stream `j`; `P` is what is to be shown of the state before -/
theorem Called.of_effect {P : Prop} {j : UInt16} {st : StreamState} {stage : TermStage}
    (h : t.Called v i) (ht : t.state = (s.setState j st).state)
    (ho : st.outcome = ((s.state j).terminate w stage).outcome)
    (hcall : stage = .outcome → s.Called w j) (hP : s.Called v i → P)
    (hl : t.loop.calling = some (i, v) → P)
    (hu : v = .fail → (t.state i).uploadPc.calling = true → P)
    (hc : v = .fail → t.ownClose.calling = some i → P)
    (hr : v = .fail → t.registryClose.calling = some i → P) : P := by
  rcases h with h | h | ⟨hv, h | h | h⟩
  · refine hP ?_
    rw [ht] at h
    by_cases hij : i = j
    · subst hij
      rw [setState_self, ho] at h
      rcases outcome_terminate h with h | ⟨rfl, hs⟩
      · exact .inl h
      · exact hcall hs
    · rw [setState_of_ne s st hij] at h
      exact .inl h
  · exact hl h
  · exact hu hv h
  · exact hc hv h
  · exact hr hv h

theorem upload_terminate {j : UInt16} {stage : TermStage}
    (h : ((s.setState j ((s.state j).terminate w stage)).state i).uploadPc.calling = true) :
    (s.state i).uploadPc.calling = true := by
  have hsame : ((s.state j).terminate w stage).uploadPc = (s.state j).uploadPc := by
    rw [StreamState.terminate_eq]
  rwa [setState_apply StreamState.uploadPc s hsame i] at h

/-- the `close` that takes one effect further -/
theorem close_calling {drained rest : List UInt16} {j : UInt16} {stage : TermStage}
    (h : (stage.next.elim (ClosePc.failing drained rest .completed)
      (.failing drained (j :: rest))).calling = some i) : j = i ∧ stage ≠ .outcome := by
  cases stage with
  | outcome => cases rest <;> cases h
  | completed => exact ⟨Option.some.inj h, nofun⟩
  | upload => exact ⟨Option.some.inj h, nofun⟩

/-- a call goes on: what was called before, or begins now -/
theorem Move.called (hm : Move lib s a t) (h : t.Called v i) :
    s.Called v i ∨ s.starting a = some (i, v) := by
  have hsame : s.loop = s.loop ∨ s.loop.calling = none := .inl rfl
  have hown : s.ownClose = s.ownClose ∨ s.ownClose.calling = none := .inl rfl
  have hreg : s.registryClose = s.registryClose ∨ s.registryClose.calling = none := .inl rfl
  have hnot : ∀ {j : UInt16} {pc : UploadPc} {b : Bool}, (s.state j).uploadPc = pc →
      pc.calling = false → pc.calling = true → b = true := fun _ h1 h2 => by
    rw [h1] at h2
    cases h2
  cases hm with
  | quiet | alive | write | writerEnd | reserveOk | reserveNo | exhausted | allocate | gone | busy
  | answered | «open» | cancel =>
    exact .inl (h.of_frame (.inl rfl) (fun hx => hx) hsame hown hreg)
  | frame | leave | control | headBad | dataBad | reply | noReply | ownReturned | detached =>
    exact .inl (h.of_frame (.inl rfl) (fun hx => hx) (.inr rfl) hown hreg)
  | takeUp =>
    exact .inl (h.of_frame (.inl rfl) (fun hx => hx) (.inr (takeUp_calling s _)) hown hreg)
  | @remove id reply =>
    refine .inl (h.of_frame (.inl rfl) (fun hx => hx) (.inr ?_) hown hreg)
    cases reply <;> rfl
  | ownDrain | ownFailed =>
    refine .inl (h.of_frame (.inl rfl) (fun hx => hx) hsame (.inr ?_) hreg)
    first
      | rfl
      | (next order _ _ _ => cases order <;> rfl)
  | registryDrain | registryFailed =>
    refine .inl (h.of_frame (.inl rfl) (fun hx => hx) hsame hown (.inr ?_))
    first
      | rfl
      | (next order _ _ => cases order <;> rfl)
  | headOk | dataOk => exact .inl (h.of_update rfl rfl (fun hx => hx) (.inr rfl) hown hreg)
  | readData | readEnd | sent | erred =>
    refine .inl (h.of_update rfl rfl (fun hx => ?_) hsame hown hreg)
    revert hx
    dsimp only
    split <;> exact nofun
  | readTrailers | guardAbortUpload | guardRemove | guardCheck | guardEnd | guardFull
  | guardClosed | guardAbort => exact .inl (h.of_update rfl rfl (fun hx => hx) hsame hown hreg)
  | sendFailed | uploadEnd | uploadFull | uploadClosed | uploadAbort | uploadCancel | spawn =>
    exact .inl (h.of_update rfl rfl nofun hsame hown hreg)
  | @register req id =>
    refine .inl (h.of_frame ?_ ?_ hsame hown hreg)
    · exact forall_setState (s := s) (P := fun j st => st.outcome = (s.state j).outcome ∨
        st.outcome = .pending) (fun _ => .inl rfl) (.inr rfl) i
    · refine forall_setState (s := s) (P := fun j st => st.uploadPc.calling = true →
        (s.state j).uploadPc.calling = true) (fun _ hx => hx) ?_ i
      exact fun hx => (nomatch hx)
  | install =>
    refine .inl (h.of_update rfl ?_ ?_ hsame hown hreg)
    · rw [StreamState.installUpload_eq]
    · rw [StreamState.installUpload_eq]
      exact fun hx => hx
  | caller hh =>
    refine .inl (h.of_update rfl ?_ ?_ hsame hown hreg)
    · rw [StreamState.handle_eq hh]
    · rw [StreamState.handle_eq hh]
      exact fun hx => hx
  | callerDrop hh =>
    refine .inl (h.of_update rfl ?_ ?_ hsame hown hreg)
    · rw [StreamState.callerDrop_eq hh]
    · rw [StreamState.callerDrop_eq hh]
      exact fun hx => hx
  | @terminate id w stage reply hl =>
    have hcall : stage.begun = true → s.Called w id := fun hb => .inr (.inl (by
      rw [hl]
      exact if_pos hb))
    refine h.of_effect rfl rfl (fun hs => hcall (hs ▸ rfl)) .inl ?_
      (fun hv hx => .inl (.inr (.inr ⟨hv, .inl (upload_terminate hx)⟩)))
      (fun hv hx => .inl (.inr (.inr ⟨hv, .inr (.inl hx)⟩)))
      (fun hv hx => .inl (.inr (.inr ⟨hv, .inr (.inr hx)⟩)))
    intro hx
    cases stage with
    | completed =>
      cases hx
      right
      show s.loop.starting = _
      rw [hl]
      rfl
    | upload =>
      cases hx
      exact .inl (hcall rfl)
    | outcome => cases hx
  | @ownFail order drained rest j stage hl ho =>
    have hcall : stage.begun = true → s.Called .fail j := fun hb =>
      .inr (.inr ⟨rfl, .inr (.inl (by
        rw [ho]
        exact if_pos hb))⟩)
    refine h.of_effect rfl rfl (fun hs => hcall (hs ▸ rfl)) .inl (fun hx => .inl (.inr (.inl hx)))
      (fun hv hx => .inl (.inr (.inr ⟨hv, .inl (upload_terminate hx)⟩))) ?_
      (fun hv hx => .inl (.inr (.inr ⟨hv, .inr (.inr hx)⟩)))
    rintro rfl hx
    obtain ⟨rfl, hne⟩ := close_calling hx
    cases stage with
    | completed =>
      right
      show (if _ then s.ownClose.starting else none) = _
      rw [if_pos hl, ho]
      rfl
    | upload => exact .inl (hcall rfl)
    | outcome => exact absurd rfl hne
  | @registryFail order drained rest j stage ho =>
    have hcall : stage.begun = true → s.Called .fail j := fun hb =>
      .inr (.inr ⟨rfl, .inr (.inr (by
        rw [ho]
        exact if_pos hb))⟩)
    refine h.of_effect rfl rfl (fun hs => hcall (hs ▸ rfl)) .inl (fun hx => .inl (.inr (.inl hx)))
      (fun hv hx => .inl (.inr (.inr ⟨hv, .inl (upload_terminate hx)⟩)))
      (fun hv hx => .inl (.inr (.inr ⟨hv, .inr (.inl hx)⟩))) ?_
    rintro rfl hx
    obtain ⟨rfl, hne⟩ := close_calling hx
    cases stage with
    | completed =>
      right
      show s.registryClose.starting = _
      rw [ho]
      rfl
    | upload => exact .inl (hcall rfl)
    | outcome => exact absurd rfl hne
  | @uploadFail j stage hu =>
    have hcall : stage.begun = true → s.Called .fail j := fun hb =>
      .inr (.inr ⟨rfl, .inl (by
        rw [hu]
        exact hb)⟩)
    refine h.of_effect rfl rfl (fun hs => hcall (hs ▸ rfl)) .inl (fun hx => .inl (.inr (.inl hx)))
      ?_ (fun hv hx => .inl (.inr (.inr ⟨hv, .inr (.inl hx)⟩)))
      (fun hv hx => .inl (.inr (.inr ⟨hv, .inr (.inr hx)⟩)))
    rintro rfl hx
    change ((s.setState j _).state i).uploadPc.calling = true at hx
    by_cases hij : i = j
    · subst hij
      rw [setState_self] at hx
      cases stage with
      | completed => exact .inr (if_pos hu)
      | upload => exact .inl (hcall rfl)
      | outcome => cases hx
    · rw [setState_of_ne s _ hij] at hx
      exact .inl (.inr (.inr ⟨rfl, .inl hx⟩))

/-! ## one verdict on every stream -/

/-- no stream has both verdicts called on it -/
def Decided (s : Session) : Prop := ∀ v i, s.Called v i → ¬ s.Called v.opposite i

theorem Called.opposite {s : Session} (h : s.Called v i) : s.Called v.opposite.opposite i := by
  cases v <;> exact h

theorem Decided.move (h : s.Decided) (ha : s.OneVerdict a) (hm : Move lib s a t) : t.Decided := by
  intro v i hv hw
  rcases hm.called hv with hv | hv
  · rcases hm.called hw with hw | hw
    · exact h v i hv hw
    · exact ha _ hw hv.opposite
  · rcases hm.called hw with hw | hw
    · exact ha _ hv hw
    · -- a step begins one call
      rw [hv] at hw
      cases v <;> cases hw

theorem decided_of_oneVerdict
    (h : Machine.ReachableWhen (step lib) Initial OneVerdict s) : s.Decided := by
  refine h.invariant_of (P := Decided) ?_ fun s a t _ ha hd hs => hd.move ha (move_of_step hs)
  intro s hs v i hv hw
  obtain ⟨id, cred, now, rfl⟩ := hs
  have hnone : ∀ v, ¬ (Session.new id cred now).Called v i := by
    intro v hx
    rcases hx with hx | hx | ⟨_, hx | hx | hx⟩
    · exact v.outcome_ne_pending hx.symm
    all_goals cases hx
  exact hnone v hv

/-- an outcome stays what it is -/
theorem Decided.outcome (h : s.Decided) (hr : Reachable lib s) (ha : s.OneVerdict a)
    (hm : Move lib s a t) (hi : (s.state i).outcome ≠ .pending) :
    (t.state i).outcome = (s.state i).outcome := by
  have hreg : (s.state i).registered = true := by
    refine hr.untouched.registered fun hx => hi ?_
    rw [hx]
    rfl
  have hi' : (t.state i).outcome ≠ .pending := by
    refine hm.outcome (fun req hf => ?_) hi
    exact absurd hf (hr.idInv.not_allocated hreg req)
  obtain ⟨v, hv⟩ := exists_verdict hi
  obtain ⟨w, hw⟩ := exists_verdict hi'
  have hs : s.Called v i := .inl hv.symm
  rcases v.eq_or_opposite w with rfl | rfl
  · exact hw.symm.trans hv
  · -- the other verdict would have been called before, or would begin now
    rcases hm.called (v := v.opposite) (.inl hw.symm) with hx | hx
    · exact absurd hx (h v i hs)
    · exact absurd hs.opposite (ha _ hx)

end Session

/-- **An outcome is decided once**, in every run in which no call of `complete` or `fail` begins on
a stream on which the other one has begun. -/
theorem outcome_decided_once {lib : HttpLib} {s t : Session}
    (hs : Machine.ReachableWhen (Session.step lib) Session.Initial Session.OneVerdict s)
    (ht : Machine.ReachableWhen (Session.step lib) (· = s) Session.OneVerdict t) (i : UInt16)
    (hi : (s.state i).outcome ≠ .pending) : (t.state i).outcome = (s.state i).outcome := by
  induction ht with
  | init he => rw [he]
  | @step u v a hu ha hstep ih =>
    have hreach : Machine.ReachableWhen (Session.step lib) Session.Initial Session.OneVerdict u :=
      hs.trans hu
    have hm := Session.move_of_step hstep
    rw [← ih] at hi ⊢
    exact (Session.decided_of_oneVerdict hreach).outcome hreach.reachable ha hm hi

/-- a registry operation closes a session with one stream -/
def closeRun : List SessionAction :=
  [.reserve ⟨[], [], true⟩, .forward, .forward, .forward, .forward, .forward, .registryClose [1],
    .registryClose [], .registryClose [], .registryClose []]

theorem closeRun_outcome : ((Machine.runWhen (Session.step okLib) Session.OneVerdict
    (Session.new "t" [] 0) closeRun).bind fun s =>
      (Machine.runWhen (Session.step okLib) Session.OneVerdict s
        [.registryClose [], .registryClose []]).map fun t =>
        ((s.state 1).outcome, t.abort)) = some (.failed, true) := by
  decide

theorem outcome_decided_once_failed : ∃ s t : Session, Session.Reachable okLib t ∧
    (s.state 1).outcome = .failed ∧ t.abort = true ∧
    (t.state 1).outcome = (s.state 1).outcome := by
  obtain ⟨s, hs, h⟩ := Option.bind_eq_some_iff.mp closeRun_outcome
  obtain ⟨t, ht, h⟩ := Option.map_eq_some_iff.mp h
  have hfailed : (s.state 1).outcome = .failed := (Prod.mk.inj h).1
  have hinit : Session.Initial (Session.new "t" [] 0) := ⟨"t", [], 0, rfl⟩
  have hreach : Machine.ReachableWhen (Session.step okLib) Session.Initial Session.OneVerdict s :=
    (Machine.ReachableWhen.init hinit).runWhen hs
  have hstart : Machine.ReachableWhen (Session.step okLib) (· = s) Session.OneVerdict s := .init rfl
  have hlater := hstart.runWhen ht
  exact ⟨s, t, (hreach.trans hlater).reachable, hfailed, (Prod.mk.inj h).2,
    outcome_decided_once hreach hlater 1 (hfailed ▸ nofun)⟩

/-- a caller's body fails, and its tether ends the stream before it has read the hub's END -/
def lateEndRun : List SessionAction :=
  [.reserve ⟨[], [], false⟩, .forward, .forward, .forward, .forward, .forward, .upload 1, .upload 1,
    .upload 1, .upload 1, .upload 1]

/-- the END of the tether -/
def endRun : List SessionAction :=
  [.recv (wsMsg (.end 1 [])) 0, .loop, .loop, .loop, .loop]

theorem lateEndRun_outcomes : (((Machine.run (Session.step okLib) (Session.new "t" [] 0)
    lateEndRun).bind fun s => (Machine.run (Session.step okLib) s endRun).map fun t =>
      ((s.state 1).outcome, (t.state 1).outcome)) = some (.failed, .complete)) := by
  decide

/-- A stream reported failed turns into a success: the upload task has failed it, and the END that
the tether sent before it learned of that completes it. -/
theorem failure_turned_into_success : ∃ s t, Session.Reachable okLib s ∧
    Machine.run (Session.step okLib) s endRun = some t ∧ (s.state 1).outcome = .failed ∧
    (t.state 1).outcome = .complete := by
  obtain ⟨s, hs, h⟩ := Option.bind_eq_some_iff.mp lateEndRun_outcomes
  obtain ⟨t, ht, h⟩ := Option.map_eq_some_iff.mp h
  exact ⟨s, t, (Machine.Reachable.init ⟨"t", [], 0, rfl⟩).run hs, ht, (Prod.mk.inj h).1,
    (Prod.mk.inj h).2⟩

/-! ## the head and the flag -/

namespace StreamState

/-- `head()` found the head cell empty, and finds the stream terminal at its next step -/
def HeadNone (st : StreamState) : Prop := st.callerPc = .checkCompleted ∧ st.completed = true

instance (st : StreamState) : Decidable st.HeadNone := inferInstanceAs (Decidable (_ ∧ _))

/-- that step returns `None` from `head()`, and no other step of `handle` does -/
theorem headNone_iff {st : StreamState} (budget : Bool) :
    st.HeadNone ↔ st.handle budget = some
      { st with answer := some noHeadResponse, callerPc := .gone, guardPc := .abortUpload } := by
  constructor
  · rintro ⟨hpc, hc⟩
    unfold handle
    rw [hpc]
    exact if_pos hc
  · intro h
    generalize hst : { st with
      answer := some noHeadResponse, callerPc := .gone, guardPc := .abortUpload } = st' at h
    have hgone : st'.callerPc = .gone := by rw [← hst]
    cases handled h with
    | headNone hpc hc => exact ⟨hpc, hc⟩
    | empty hpc =>
      change st.callerPc = .gone at hgone
      rw [hpc] at hgone
      cases hgone
    | _ => cases hgone

/-- what one step does to the cells that `head()` reads; `ends` says that the step begins a call of
`complete` or `fail` on the stream -/
structure Awaits (ends : Prop) (st st' : StreamState) : Prop where
  head : st.head.isSome = true → st'.head.isSome = true
  completed : st'.completed = true → st.completed = true ∨ ends
  callerPc : st'.callerPc = .checkCompleted → st.callerPc = .checkCompleted ∨ st.head = none

theorem Awaits.of_eq {ends : Prop} {st st' : StreamState} (hh : st'.head = st.head)
    (hc : st'.completed = st.completed) (hpc : st'.callerPc = st.callerPc) :
    Awaits ends st st' :=
  ⟨fun h => hh ▸ h, fun h => .inl (hc ▸ h), fun h => .inl (hpc ▸ h)⟩

theorem awaits_terminate {ends : Prop} {st : StreamState} {v : Verdict} {stage : TermStage}
    (h : stage = .completed → ends) : Awaits ends st (st.terminate v stage) := by
  cases stage with
  | completed => exact ⟨fun hx => hx, fun _ => .inr (h rfl), .inl⟩
  | upload => exact .of_eq rfl rfl rfl
  | outcome => exact .of_eq rfl rfl rfl

theorem awaits_handle {ends : Prop} {budget : Bool} {st st' : StreamState}
    (h : st.handle budget = some st') : Awaits ends st st' := by
  have hh : st'.head = st.head := by rw [handle_eq h]
  have hc : st'.completed = st.completed := by rw [handle_eq h]
  refine ⟨fun hx => hh ▸ hx, fun hx => .inl (hc ▸ hx), fun hx => ?_⟩
  cases handled h with
  | noHead _ hn => exact .inr hn
  | empty => exact .inl hx
  | _ => cases hx

end StreamState

namespace Session
variable {lib : HttpLib} {s t : Session} {a : SessionAction} {v : Verdict} {i : UInt16}

/-- no stream becomes terminal while its caller, which found no head, has not read the flag yet and
a head has come behind its back -/
def OnTime (s : Session) (a : SessionAction) : Prop :=
  ∀ x ∈ s.starting a, (s.state x.1).completed = false → (s.state x.1).head.isSome = true →
    (s.state x.1).callerPc ≠ .checkCompleted

instance (s : Session) (a : SessionAction) : Decidable (s.OnTime a) :=
  Option.decidableForallMem (p := fun x : UInt16 × Verdict => (s.state x.1).completed = false →
    (s.state x.1).head.isSome = true → (s.state x.1).callerPc ≠ .checkCompleted) (s.starting a)

theorem Move.awaits (hm : Move lib s a t) (hr : Reachable lib s)
    (hi : (s.state i).registered = true) :
    StreamState.Awaits (∃ v, s.starting a = some (i, v)) (s.state i) (t.state i) := by
  have hsame : ∀ j, StreamState.Awaits (∃ v, s.starting a = some (j, v)) (s.state j)
      (s.state j) := fun _ => .of_eq rfl rfl rfl
  have hupdate : ∀ {j : UInt16} {st : StreamState},
      StreamState.Awaits (∃ v, s.starting a = some (j, v)) (s.state j) st →
      StreamState.Awaits (∃ v, s.starting a = some (i, v)) (s.state i)
        ((s.setState j st).state i) := by
    intro j st hj
    exact forall_setState (s := s) (P := fun j st =>
      StreamState.Awaits (∃ v, s.starting a = some (j, v)) (s.state j) st) hsame hj i
  cases hm with
  | quiet | alive | frame | leave | control | takeUp | headBad | dataBad | remove | reply | noReply
  | ownDrain | ownFailed | ownReturned | detached | registryDrain | registryFailed | cancel
  | reserveOk | reserveNo | exhausted | allocate | gone | busy | «open» | answered | write
  | writerEnd => exact hsame i
  | headOk => exact hupdate ⟨fun _ => rfl, .inl, .inl⟩
  | dataOk | readData | readTrailers | readEnd | sent | sendFailed | erred | uploadEnd | uploadFull
  | uploadClosed | uploadAbort | uploadCancel | spawn | guardAbortUpload | guardRemove | guardCheck
  | guardEnd | guardFull | guardClosed | guardAbort => exact hupdate (.of_eq rfl rfl rfl)
  | @terminate id v stage reply hl =>
    refine hupdate (StreamState.awaits_terminate ?_)
    rintro rfl
    exact ⟨v, congrArg LoopPc.starting hl⟩
  | @ownFail order drained rest j stage hl ho =>
    refine hupdate (StreamState.awaits_terminate ?_)
    rintro rfl
    exact ⟨.fail, (if_pos hl).trans (congrArg ClosePc.starting ho)⟩
  | @registryFail order drained rest j stage ho =>
    refine hupdate (StreamState.awaits_terminate ?_)
    rintro rfl
    exact ⟨.fail, congrArg ClosePc.starting ho⟩
  | @uploadFail j stage hu =>
    refine hupdate ?_
    have hterm : StreamState.Awaits (∃ v, s.starting (.upload j) = some (j, v)) (s.state j)
        ((s.state j).terminate .fail stage) := by
      refine StreamState.awaits_terminate ?_
      rintro rfl
      exact ⟨.fail, if_pos hu⟩
    exact ⟨hterm.head, hterm.completed, hterm.callerPc⟩
  | @register req id hf =>
    have hne : i ≠ id := by
      rintro rfl
      exact hr.idInv.not_allocated hi req hf
    rw [show _ = s.state i from setState_of_ne s _ hne]
    exact hsame i
  | install =>
    refine hupdate ⟨fun hx => ?_, fun hx => ?_, fun hx => (nomatch hx)⟩
    · rw [StreamState.installUpload_eq]
      exact hx
    · rw [StreamState.installUpload_eq] at hx
      exact .inl hx
  | caller hh => exact hupdate (StreamState.awaits_handle hh)
  | callerDrop hh =>
    refine hupdate ⟨fun hx => ?_, fun hx => ?_, fun hx => ?_⟩
    · rw [StreamState.callerDrop_eq hh]
      exact hx
    · rw [StreamState.callerDrop_eq hh] at hx
      exact .inl hx
    · rw [StreamState.callerDrop_eq hh] at hx
      cases hx

/-- a head is there, and the caller does not stand before a flag that would hide it -/
structure HeadKept (s : Session) (i : UInt16) : Prop where
  head : (s.state i).head.isSome = true
  seen : (s.state i).completed = true → (s.state i).callerPc ≠ .checkCompleted

theorem HeadKept.move (h : s.HeadKept i) (hr : Reachable lib s) (ha : s.OnTime a)
    (hm : Move lib s a t) : t.HeadKept i := by
  have hreg : (s.state i).registered = true := by
    refine hr.untouched.registered fun hx => ?_
    have hhead := h.head
    rw [hx] at hhead
    cases hhead
  have hstep := hm.awaits hr hreg
  refine ⟨hstep.head h.head, fun hc hpc => ?_⟩
  have hwait : (s.state i).callerPc = .checkCompleted := by
    rcases hstep.callerPc hpc with hx | hx
    · exact hx
    · have hhead := h.head
      rw [hx] at hhead
      cases hhead
  rcases hstep.completed hc with hx | ⟨v, hv⟩
  · exact h.seen hx hwait
  · have hopen : (s.state i).completed = false :=
      Bool.eq_false_iff.mpr fun hx => h.seen hx hwait
    exact ha _ hv hopen h.head hwait

/-- a step that is not on time makes `head()` return `None` where a head is stored -/
theorem headNone_of_late (hs : step lib s a = some t) (ha : s.starting a = some (i, v))
    (hpc : (s.state i).callerPc = .checkCompleted) (hh : (s.state i).head.isSome = true) :
    (t.state i).HeadNone ∧ (t.state i).head.isSome = true := by
  have hset : t.state = (s.setState i ((s.state i).terminate v .completed)).state ∨
      t.state = (s.setState i { (s.state i).terminate v .completed with
        uploadPc := .failing .upload }).state := by
    cases a with
    | loop =>
      left
      change s.loopStep lib = some t at hs
      change s.loop.starting = some (i, v) at ha
      unfold LoopPc.starting at ha
      split at ha
      · next hl =>
        cases ha
        unfold loopStep at hs
        rw [hl] at hs
        obtain rfl := Option.some.inj hs
        rfl
      · cases ha
    | upload j =>
      right
      change s.uploadStep j = some t at hs
      change (if _ then _ else _) = some (i, v) at ha
      split at ha
      · next hu =>
        cases ha
        unfold uploadStep at hs
        simp only [hu] at hs
        exact congrArg state (Option.some.inj hs).symm
      · cases ha
    | teardown order =>
      left
      change s.teardownStep order = some t at hs
      change (if _ then _ else _) = some (i, v) at ha
      split at ha
      · next hl =>
        unfold ClosePc.starting at ha
        split at ha
        · next ho =>
          cases ha
          unfold teardownStep at hs
          rw [hl, ho] at hs
          obtain rfl := Option.some.inj hs
          rfl
        · cases ha
      · cases ha
    | registryClose order =>
      left
      change s.registryStep order = some t at hs
      change s.registryClose.starting = some (i, v) at ha
      unfold ClosePc.starting at ha
      split at ha
      · next ho =>
        cases ha
        unfold registryStep at hs
        rw [ho] at hs
        obtain rfl := Option.some.inj hs
        rfl
      · cases ha
    | _ => cases ha
  rcases hset with hset | hset
  · rw [hset, setState_self]
    exact ⟨⟨hpc, rfl⟩, hh⟩
  · rw [hset, setState_self]
    exact ⟨⟨hpc, rfl⟩, hh⟩

end Session

/-- **A head that arrived is not reported missing**, in every run in which no stream becomes
terminal while its caller stands between its two reads with a head stored behind it. -/
theorem head_not_missed {lib : HttpLib} {u s : Session}
    (hu : Machine.ReachableWhen (Session.step lib) Session.Initial Session.OnTime u)
    (hs : Machine.ReachableWhen (Session.step lib) (· = u) Session.OnTime s) (i : UInt16)
    (hh : (u.state i).head.isSome = true) (hc : (u.state i).completed = false) :
    ¬ (s.state i).HeadNone := by
  have hkept : s.HeadKept i := by
    induction hs with
    | init he =>
      refine ⟨he ▸ hh, fun hx => ?_⟩
      rw [he, hc] at hx
      cases hx
    | step hv ha hstep ih => exact ih.move (hu.trans hv).reachable ha (Session.move_of_step hstep)
  rintro ⟨hpc, hdone⟩
  exact hkept.seen hdone hpc

/-- a head is stored while the caller waits -/
def headRun : List SessionAction :=
  [.reserve ⟨[], [], true⟩, .forward, .forward, .forward, .forward, .forward,
    .recv (wsMsg (.respHead 1 (ascii "HTTP/1.1 200 OK\r\n\r\n"))) 0, .loop, .loop]

theorem headRun_kept : ((Machine.runWhen (Session.step okLib) Session.OnTime
    (Session.new "t" [] 0) headRun).bind fun u =>
      (Machine.runWhen (Session.step okLib) Session.OnTime u endRun).map fun s =>
        ((u.state 1).head.isSome, (u.state 1).completed, (s.state 1).completed)) =
    some (true, false, true) := by
  decide

theorem head_not_missed_ok : ∃ s : Session, Session.Reachable okLib s ∧
    (s.state 1).completed = true ∧ ¬ (s.state 1).HeadNone := by
  obtain ⟨u, hu, h⟩ := Option.bind_eq_some_iff.mp headRun_kept
  obtain ⟨s, hs, h⟩ := Option.map_eq_some_iff.mp h
  obtain ⟨hhead, hopen, hdone⟩ : (u.state 1).head.isSome = true ∧ (u.state 1).completed = false ∧
      (s.state 1).completed = true := by
    simpa only [Prod.mk.injEq] using h
  have hinit : Session.Initial (Session.new "t" [] 0) := ⟨"t", [], 0, rfl⟩
  have hreach : Machine.ReachableWhen (Session.step okLib) Session.Initial Session.OnTime u :=
    (Machine.ReachableWhen.init hinit).runWhen hu
  have hstart : Machine.ReachableWhen (Session.step okLib) (· = u) Session.OnTime u := .init rfl
  have hlater := hstart.runWhen hs
  exact ⟨s, (hreach.trans hlater).reachable, hdone, head_not_missed hreach hlater 1 hhead hopen⟩

/-- the caller has read the empty head cell when the head arrives -/
def lateHeadRun : List SessionAction :=
  [.reserve ⟨[], [], true⟩, .forward, .forward, .forward, .forward, .forward, .caller 1 true,
    .recv (wsMsg (.respHead 1 (ascii "HTTP/1.1 200 OK\r\n\r\n"))) 0, .loop, .loop]

theorem lateHeadRun_missed : (((Machine.run (Session.step okLib) (Session.new "t" [] 0)
    lateHeadRun).bind fun u =>
      (Machine.run (Session.step okLib) u (endRun ++ [.caller 1 true])).map fun s =>
        ((u.state 1).head.map HttpResponse.status, (u.state 1).completed, (s.state 1).answer)) =
    some (some 200, false, some StreamState.noHeadResponse)) := by
  decide

/-- A stored head reported missing: the response 200 and its END arrive between the caller's look
into the head cell and its look at the flag, and the caller is answered 502. -/
theorem arrived_head_missed : ∃ u s : Session, Session.Reachable okLib u ∧
    Machine.run (Session.step okLib) u (endRun ++ [.caller 1 true]) = some s ∧
    (u.state 1).head.map HttpResponse.status = some 200 ∧ (u.state 1).completed = false ∧
    (s.state 1).answer = some StreamState.noHeadResponse := by
  obtain ⟨u, hu, h⟩ := Option.bind_eq_some_iff.mp lateHeadRun_missed
  obtain ⟨s, hs, h⟩ := Option.map_eq_some_iff.mp h
  obtain ⟨hhead, hopen, hanswer⟩ : (u.state 1).head.map HttpResponse.status = some 200 ∧
      (u.state 1).completed = false ∧ (s.state 1).answer = some StreamState.noHeadResponse := by
    simpa only [Prod.mk.injEq] using h
  exact ⟨u, s, (Machine.Reachable.init ⟨"t", [], 0, rfl⟩).run hu, hs, hhead, hopen, hanswer⟩

end AnvilRing
