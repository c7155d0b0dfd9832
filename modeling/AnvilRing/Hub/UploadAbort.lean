import AnvilRing.Hub.Outcome

/-!
# When an upload task is told to abort

`install_upload`, `complete`, `fail`, `close` and the drop of the guard race on one stream.  The
flag is stored before the `upload` cell is emptied, and the task is put into the cell under its
lock only if the flag is not set.

* `TermStage.Reached`          what a call has done before it gets to a stage;
* `Session.Move.touch`         what a step of any task does to the three cells of a stream;
* `Session.Move.reached`       no step undoes what a call has done;
* `Session.Reachable.cancels`  every call in progress has done it;
* `terminal_upload_aborted`    a stream that is over has no upload, and no other loses its own.
-/

namespace AnvilRing
open Wire

/-- a call of `complete` or `fail` that is at this stage has done this -/
def TermStage.Reached (stage : TermStage) (st : StreamState) : Prop :=
  match stage with
  | .completed => True
  | .upload => st.completed = true
  | .outcome => st.completed = true ∧ st.uploadCell = false

/-- the drop of the guard has begun -/
def GuardPc.dropping : GuardPc → Bool
  | .absent => false
  | .held => false
  | _ => true

/-- the drop of the guard has told the upload task -/
def GuardPc.told : GuardPc → Bool
  | .absent => false
  | .held => false
  | .abortUpload => false
  | _ => true

namespace StreamState
variable {st st' : StreamState} {stage next : TermStage} {v : Verdict}

/-! ## the handshake on one stream -/

/-- the flag, the `upload` cell, and whether the task was told -/
def cells (st : StreamState) : Bool × Bool × Bool :=
  (st.completed, st.uploadCell, st.uploadAbort)

theorem cells_eq : st'.cells = st.cells ↔ st'.completed = st.completed ∧
    st'.uploadCell = st.uploadCell ∧ st'.uploadAbort = st.uploadAbort := by
  simp only [cells, Prod.mk.injEq]

/-- one effect of a call keeps what another call has done -/
theorem reached_terminate (stage' : TermStage) (h : stage.Reached st) :
    stage.Reached (st.terminate v stage') := by
  cases stage' with
  | completed =>
    cases stage with
    | completed => exact trivial
    | upload => rfl
    | outcome => exact ⟨rfl, h.2⟩
  | upload =>
    cases stage with
    | completed => exact trivial
    | upload => exact h
    | outcome => exact ⟨h.1, rfl⟩
  | outcome => exact h

/-- the call gets to its next stage -/
theorem reached_next (h : stage.Reached st) (hn : stage.next = some next) :
    next.Reached (st.terminate v stage) := by
  cases stage with
  | completed =>
    cases hn
    rfl
  | upload =>
    cases hn
    exact ⟨h, rfl⟩
  | outcome => cases hn

theorem reached_congr (hcells : st'.cells = st.cells) (h : stage.Reached st) :
    stage.Reached st' := by
  obtain ⟨hf, hc, _⟩ := cells_eq.mp hcells
  cases stage with
  | completed => exact trivial
  | upload => exact hf.trans h
  | outcome => exact ⟨hf.trans h.1, hc.trans h.2⟩

theorem installUpload_set (h : st.completed = true) :
    st.installUpload = { st with uploadAbort := true } :=
  if_pos h

theorem installUpload_unset (h : st.completed = false) :
    st.installUpload = { st with uploadCell := true } :=
  if_neg (Bool.eq_false_iff.mp h)

/-- a stream with the flag keeps its cell as it is -/
theorem reached_installUpload (h : stage.Reached st) : stage.Reached st.installUpload := by
  cases hc : st.completed with
  | true =>
    rw [installUpload_set hc]
    exact reached_congr rfl h
  | false =>
    cases stage with
    | completed => exact trivial
    | upload => exact absurd (hc.symm.trans h) nofun
    | outcome => exact absurd (hc.symm.trans h.1) nofun

/-- The upload task of a stream is in the cell or was told; it was told only by a call or by the
guard; and the failure that it raises itself is a call like any other. -/
structure Handshake (st : StreamState) : Prop where
  installed : st.callerPc ≠ .absent → st.uploadCell = true ∨ st.uploadAbort = true
  told : st.guardPc.told = true → st.uploadAbort = true
  cause : st.uploadAbort = true → st.completed = true ∨ st.guardPc.dropping = true
  failing : ∀ stage, st.uploadPc = .failing stage → stage.Reached st

/-- a step of another task of the stream, on none of the three cells -/
theorem Handshake.frame (h : Handshake st) (hcells : st'.cells = st.cells)
    (hc : st'.callerPc ≠ .absent → st.callerPc ≠ .absent)
    (ht : st'.guardPc.told = true → st.guardPc.told = true)
    (hd : st.guardPc.dropping = true → st'.guardPc.dropping = true)
    (hu : ∀ stage, st'.uploadPc = .failing stage →
      stage = .completed ∨ st.uploadPc = .failing stage) : Handshake st' := by
  obtain ⟨hflag, hcell, habort⟩ := cells_eq.mp hcells
  refine ⟨fun hx => ?_, fun hx => ?_, fun hx => ?_, fun stage hx => ?_⟩
  · rw [hcell, habort]
    exact h.installed (hc hx)
  · rw [habort]
    exact h.told (ht hx)
  · rw [habort] at hx
    rw [hflag]
    exact (h.cause hx).imp_right hd
  · rcases hu stage hx with rfl | hx
    · exact trivial
    · exact reached_congr hcells (h.failing stage hx)

theorem Handshake.terminate (h : Handshake st) (v : Verdict) (stage : TermStage)
    (hr : stage.Reached st) : Handshake (st.terminate v stage) := by
  have hfail : ∀ stage', (st.terminate v stage).uploadPc = .failing stage' →
      stage'.Reached (st.terminate v stage) := by
    intro stage' hu
    rw [terminate_eq] at hu
    exact reached_terminate stage (h.failing stage' hu)
  cases stage with
  | completed => exact ⟨h.installed, h.told, fun _ => .inl rfl, hfail⟩
  | upload =>
    refine ⟨fun hx => .inr ?_, fun hx => ?_, fun _ => .inl hr, hfail⟩
    · show (st.uploadAbort || st.uploadCell) = true
      rcases h.installed hx with hc | ha
      · rw [hc, Bool.or_true]
      · rw [ha, Bool.true_or]
    · show (st.uploadAbort || st.uploadCell) = true
      rw [h.told hx, Bool.true_or]
  | outcome => exact ⟨h.installed, h.told, h.cause, hfail⟩

/-- the upload task's own call takes a step -/
theorem Handshake.uploadFail (h : Handshake st) (hu : st.uploadPc = .failing stage) :
    Handshake { st.terminate .fail stage with
      uploadPc := stage.next.elim .ending .failing } := by
  have hr := h.failing stage hu
  obtain ⟨hi, ht, hc, _⟩ := h.terminate .fail stage hr
  refine ⟨hi, ht, hc, fun next hx => ?_⟩
  cases hn : stage.next with
  | none =>
    rw [hn] at hx
    cases hx
  | some next' =>
    rw [hn] at hx
    obtain rfl := UploadPc.failing.inj hx
    exact reached_next hr hn

theorem Handshake.install (h : Handshake st) :
    Handshake { st.installUpload with callerPc := .waitHead } := by
  have hfail : ∀ stage, st.installUpload.uploadPc = .failing stage →
      stage.Reached st.installUpload := by
    intro stage hu
    rw [installUpload_eq] at hu
    exact reached_installUpload (h.failing stage hu)
  cases hc : st.completed with
  | true =>
    rw [installUpload_set hc] at hfail ⊢
    exact ⟨fun _ => .inr rfl, fun _ => rfl, fun _ => .inl hc, hfail⟩
  | false =>
    rw [installUpload_unset hc] at hfail ⊢
    exact ⟨fun _ => .inl rfl, h.told, h.cause, hfail⟩

theorem Handshake.handle {budget : Bool} (h : Handshake st) (hh : st.handle budget = some st') :
    Handshake st' := by
  have hne : st.callerPc ≠ .absent := by
    intro hx
    unfold StreamState.handle at hh
    rw [hx] at hh
    cases hh
  cases handled hh with
  | headNone =>
    exact h.frame rfl (fun _ => hne) nofun (fun _ => rfl) fun _ => .inr
  | _ => exact h.frame rfl (fun _ => hne) id id fun _ => .inr

theorem Handshake.callerDrop (h : Handshake st) (hh : st.callerDrop = some st') :
    Handshake st' := by
  have hne : st.callerPc ≠ .absent := by
    intro hx
    unfold StreamState.callerDrop at hh
    rw [hx] at hh
    cases hh
  rw [callerDrop_eq hh]
  exact h.frame rfl (fun _ => hne) nofun (fun _ => rfl) fun _ => .inr

end StreamState

namespace Session
variable {lib : HttpLib} {s t : Session} {a : SessionAction} {i : UInt16} {stage : TermStage}

/-! ## what a step does to the cells -/

/-- what a step comes to for the cells of stream `i`, whose state is `st'` behind it -/
inductive Touch (s : Session) (a : SessionAction) (i : UInt16) (st' : StreamState) : Prop where
  | frame (h : st'.cells = (s.state i).cells)
  | terminate (v : Verdict) (stage : TermStage)
      (hs : stage = .completed → s.starting a = some (i, v))
      (h : st'.cells = ((s.state i).terminate v stage).cells)
  | install (h : st'.cells = (s.state i).installUpload.cells)
  | guard (h : st'.cells = StreamState.cells { s.state i with uploadAbort := true })
  | register {req : Request} (hf : s.forward = .allocated req i) (h : st'.completed = false)

/-- **Inversion.** The cells of a stream are written by the calls, by the drop of the guard and by
the installation; the registration makes them. -/
theorem Move.touch (hm : Move lib s a t) (i : UInt16) : Touch s a i (t.state i) := by
  have hset : ∀ {j st}, Touch s a j st → Touch s a i ((s.setState j st).state i) := by
    intro j st hst
    exact forall_setState (s := s) (P := Touch s a) (fun _ => .frame rfl) hst i
  cases hm with
  | quiet | alive | frame | leave | control | takeUp | headBad | dataBad | remove | reply | noReply
  | ownDrain | ownFailed | ownReturned | detached | registryDrain | registryFailed | cancel
  | reserveOk | reserveNo | exhausted | allocate | gone | busy | «open» | answered | write
  | writerEnd => exact .frame rfl
  | headOk | dataOk | spawn | readData | readTrailers | readEnd | sent | sendFailed | erred
  | uploadEnd | uploadFull | uploadClosed | uploadAbort | uploadCancel | guardRemove | guardCheck
  | guardEnd | guardFull | guardClosed | guardAbort => exact hset (.frame rfl)
  | guardAbortUpload => exact hset (.guard rfl)
  | register hf => exact hset (.register hf rfl)
  | install => exact hset (.install rfl)
  | @terminate id v stage reply hl =>
    refine hset (.terminate v stage ?_ rfl)
    rintro rfl
    show s.loop.starting = _
    rw [hl]
    rfl
  | @ownFail _ drained rest j stage hl ho =>
    refine hset (.terminate .fail stage ?_ rfl)
    rintro rfl
    show (if _ then s.ownClose.starting else none) = _
    rw [if_pos hl, ho]
    rfl
  | @registryFail _ drained rest j stage ho =>
    refine hset (.terminate .fail stage ?_ rfl)
    rintro rfl
    show s.registryClose.starting = _
    rw [ho]
    rfl
  | @uploadFail j stage hu =>
    refine hset (.terminate .fail stage ?_ rfl)
    rintro rfl
    exact if_pos hu
  | caller hh =>
    refine hset (.frame ?_)
    rw [StreamState.handle_eq hh]
    rfl
  | callerDrop hh =>
    refine hset (.frame ?_)
    rw [StreamState.callerDrop_eq hh]
    rfl

/-! ## no step undoes a call -/

theorem Reachable.registered_of_reached (h : Reachable lib s) (hne : stage ≠ .completed)
    (hr : stage.Reached (s.state i)) : (s.state i).registered = true := by
  refine h.untouched.registered fun hx => ?_
  rw [hx] at hr
  cases stage with
  | completed => exact hne rfl
  | upload => cases hr
  | outcome => cases hr.1

/-- what a call has done stays done -/
theorem Move.reached (hr : Reachable lib s) (hm : Move lib s a t)
    (h : stage.Reached (s.state i)) : stage.Reached (t.state i) := by
  by_cases hc : stage = .completed
  · rw [hc]
    exact trivial
  cases hm.touch i with
  | frame hcells => exact StreamState.reached_congr hcells h
  | terminate _ _ _ hcells =>
    exact StreamState.reached_congr hcells (StreamState.reached_terminate _ h)
  | install hcells => exact StreamState.reached_congr hcells (StreamState.reached_installUpload h)
  | guard hcells =>
    have hguard : stage.Reached { s.state i with uploadAbort := true } := by
      cases stage with
      | completed => exact trivial
      | upload => exact h
      | outcome => exact h
    exact StreamState.reached_congr hcells hguard
  | register hf => exact absurd hf (hr.idInv.not_allocated (hr.registered_of_reached hc h) _)

theorem takeUp_terminate {f : Frame} {v : Verdict} {reply : Option Bytes}
    (h : s.takeUp f = .terminate i v stage reply) : stage = .completed := by
  unfold takeUp at h
  split at h
  · split at h <;> cases h
  · split at h <;> cases h
  · split at h
    · cases h
      rfl
    · cases h
  · cases h

/-! ## the invariant -/

/-- a `close` has done what its stage says to the stream it is failing, and all to those behind -/
structure CloseReached (s : Session) (pc : ClosePc) : Prop where
  calling : ∀ drained i rest stage, pc = .failing drained (i :: rest) stage →
    stage.Reached (s.state i)
  called : ∀ i ∈ pc.drained, i ∉ pc.todo → TermStage.outcome.Reached (s.state i)

structure Cancels (s : Session) : Prop where
  stream : ∀ i, StreamState.Handshake (s.state i)
  loop : ∀ i v stage reply, s.loop = .terminate i v stage reply → stage.Reached (s.state i)
  own : CloseReached s s.ownClose
  registry : CloseReached s s.registryClose

theorem CloseReached.move {pc : ClosePc} (h : CloseReached s pc) (hr : Reachable lib s)
    (hm : Move lib s a t) : CloseReached t pc where
  calling drained i rest stage hpc := hm.reached hr (h.calling drained i rest stage hpc)
  called i hi hn := hm.reached hr (h.called i hi hn)

/-- the drain starts with nothing done -/
theorem closeReached_drain (order : List UInt16) :
    CloseReached t (.failing order order .completed) where
  calling _ _ _ _ hpc := by
    cases hpc
    exact trivial
  called _ hi hn := absurd hi hn

theorem CloseReached.returned {drained : List UInt16}
    (h : CloseReached t (.failing drained [] stage)) : CloseReached t (.returned drained) where
  calling _ _ _ _ hpc := nomatch hpc
  called i hi _ := h.called i hi List.not_mem_nil

/-- one effect on the stream that is being failed -/
theorem CloseReached.step {drained rest : List UInt16}
    (h : CloseReached s (.failing drained (i :: rest) stage)) (hr : Reachable lib s)
    (hm : Move lib s a t) (ht : t.state i = (s.state i).terminate .fail stage) :
    CloseReached t
      (stage.next.elim (.failing drained rest .completed) (.failing drained (i :: rest))) := by
  have hi : stage.Reached (s.state i) := h.calling drained i rest stage rfl
  have hkeep := h.move hr hm
  cases hn : stage.next with
  | some next =>
    refine ⟨fun d j r stage' hpc => ?_, fun j hj hx => hkeep.called j hj hx⟩
    cases hpc
    rw [ht]
    exact StreamState.reached_next hi hn
  | none =>
    refine ⟨fun d j r stage' hpc => ?_, fun j hj hx => ?_⟩
    · cases hpc
      exact trivial
    · by_cases hji : j = i
      · have hstage : stage = .outcome := by
          cases stage with
          | completed => cases hn
          | upload => cases hn
          | outcome => rfl
        rw [hji, ht]
        exact StreamState.reached_terminate _ (hstage ▸ hi)
      · exact hkeep.called j hj (List.not_mem_cons_of_ne_of_not_mem hji hx)

theorem Cancels.move (h : s.Cancels) (hr : Reachable lib s) (hm : Move lib s a t) :
    t.Cancels := by
  have hmove := hm
  have hown := h.own.move hr hm
  have hreg := h.registry.move hr hm
  have hloop : ∀ i v stage reply, s.loop = .terminate i v stage reply →
      stage.Reached (t.state i) :=
    fun i v stage reply hl => hm.reached hr (h.loop i v stage reply hl)
  have hset : ∀ {j st}, StreamState.Handshake st →
      ∀ i, StreamState.Handshake ((s.setState j st).state i) := fun {j st} hst =>
    forall_setState (s := s) (P := fun _ st => StreamState.Handshake st) h.stream hst
  cases hm with
  | quiet | alive | cancel | reserveOk | reserveNo | exhausted | allocate | gone | busy | answered
  | write | writerEnd | «open» => exact ⟨h.stream, hloop, hown, hreg⟩
  | frame | leave | control | reply | noReply | ownReturned | detached =>
    exact ⟨h.stream, nofun, hown, hreg⟩
  | @takeUp f =>
    refine ⟨h.stream, fun i v stage reply hl => ?_, hown, hreg⟩
    obtain rfl := takeUp_terminate hl
    exact trivial
  | headBad | dataBad =>
    refine ⟨h.stream, fun i v stage reply hl => ?_, hown, hreg⟩
    cases hl
    exact trivial
  | @remove id reply =>
    refine ⟨h.stream, fun i v stage reply' hl => ?_, hown, hreg⟩
    cases reply <;> cases hl
  | headOk | dataOk =>
    exact ⟨hset ((h.stream _).frame rfl id id id fun _ => .inr), nofun, hown, hreg⟩
  | @terminate id v stage reply hl =>
    have hi := h.loop id v stage reply hl
    refine ⟨hset ((h.stream id).terminate v stage hi), fun i w next reply' hx => ?_, hown, hreg⟩
    cases hn : stage.next with
    | none =>
      rw [hn] at hx
      cases hx
    | some next' =>
      rw [hn] at hx
      cases hx
      show next.Reached ((s.setState id _).state id)
      rw [setState_self]
      exact StreamState.reached_next hi hn
  | ownDrain => exact ⟨h.stream, hloop, closeReached_drain _, hreg⟩
  | registryDrain => exact ⟨h.stream, hloop, hown, closeReached_drain _⟩
  | ownFailed _ ho => exact ⟨h.stream, hloop, CloseReached.returned (ho ▸ hown), hreg⟩
  | registryFailed ho => exact ⟨h.stream, hloop, hown, CloseReached.returned (ho ▸ hreg)⟩
  | @ownFail _ drained rest i stage _ ho =>
    have hpc : CloseReached s (.failing drained (i :: rest) stage) := ho ▸ h.own
    have hi := hpc.calling drained i rest stage rfl
    exact ⟨hset ((h.stream i).terminate .fail stage hi), hloop,
      hpc.step hr hmove (setState_self s i _), hreg⟩
  | @registryFail _ drained rest i stage ho =>
    have hpc : CloseReached s (.failing drained (i :: rest) stage) := ho ▸ h.registry
    have hi := hpc.calling drained i rest stage rfl
    exact ⟨hset ((h.stream i).terminate .fail stage hi), hloop, hown,
      hpc.step hr hmove (setState_self s i _)⟩
  | register => exact ⟨hset ⟨fun hx => absurd rfl hx, nofun, nofun, nofun⟩, hloop, hown, hreg⟩
  | @spawn id hf =>
    obtain ⟨_, hguard, hcaller⟩ := hr.started.unspawned id (by rw [hf]; rfl)
    refine ⟨hset ⟨fun hx => absurd hcaller hx, nofun, fun hx => ?_, nofun⟩, hloop, hown, hreg⟩
    rcases (h.stream id).cause hx with hc | hd
    · exact .inl hc
    · rw [hguard] at hd
      cases hd
  | install => exact ⟨hset (h.stream _).install, hloop, hown, hreg⟩
  | readTrailers =>
    exact ⟨hset ((h.stream _).frame rfl id id id fun _ => .inr), hloop, hown, hreg⟩
  | readData | readEnd | sent =>
    refine ⟨hset ((h.stream _).frame rfl id id id fun stage hx => .inl ?_), hloop, hown,
      hreg⟩
    dsimp only at hx
    split at hx <;> cases hx
  | erred =>
    refine ⟨hset ((h.stream _).frame rfl id id id fun stage hx => .inl ?_), hloop, hown,
      hreg⟩
    dsimp only at hx
    split at hx
    · cases hx
    · exact (UploadPc.failing.inj hx).symm
  | sendFailed | uploadEnd | uploadFull | uploadClosed | uploadAbort | uploadCancel =>
    exact ⟨hset ((h.stream _).frame rfl id id id nofun), hloop, hown, hreg⟩
  | uploadFail hu => exact ⟨hset ((h.stream _).uploadFail hu), hloop, hown, hreg⟩
  | @guardAbortUpload i hg =>
    have hi := h.stream i
    exact ⟨hset ⟨fun _ => .inr rfl, fun _ => rfl, fun _ => .inr rfl, hi.failing⟩, hloop, hown, hreg⟩
  | guardRemove hg | guardEnd hg | guardFull hg | guardClosed hg | guardAbort hg =>
    refine ⟨hset ((h.stream _).frame rfl id (fun _ => ?_) (fun _ => rfl)
      fun _ => .inr), hloop, hown, hreg⟩
    rw [hg]
    rfl
  | @guardCheck i hg =>
    refine ⟨hset ((h.stream _).frame rfl id (fun _ => ?_) (fun _ => ?_)
      fun _ => .inr), hloop, hown, hreg⟩
    · rw [hg]
      rfl
    · dsimp only
      split <;> rfl
  | caller hh => exact ⟨hset ((h.stream _).handle hh), hloop, hown, hreg⟩
  | callerDrop hh => exact ⟨hset ((h.stream _).callerDrop hh), hloop, hown, hreg⟩

theorem Reachable.cancels (h : Reachable lib s) : s.Cancels := by
  refine h.move (P := Cancels) ?_ fun _ _ _ hr hc hm => hc.move hr hm
  intro id cred now
  exact ⟨fun _ => ⟨fun hx => absurd rfl hx, nofun, nofun, nofun⟩, nofun, ⟨nofun, nofun⟩,
    ⟨nofun, nofun⟩⟩

/-! ## the flag -/

/-- the flag of a stream is set by the first step of a call on it, and by nothing else -/
theorem Move.completed (hm : Move lib s a t) (h : (t.state i).completed = true) :
    (s.state i).completed = true ∨ ∃ v, s.starting a = some (i, v) := by
  cases hm.touch i with
  | frame hcells =>
    rw [(StreamState.cells_eq.mp hcells).1] at h
    exact .inl h
  | terminate v stage hstart hcells =>
    rw [(StreamState.cells_eq.mp hcells).1] at h
    cases stage with
    | completed => exact .inr ⟨v, hstart rfl⟩
    | upload => exact .inl h
    | outcome => exact .inl h
  | install hcells =>
    rw [(StreamState.cells_eq.mp hcells).1, StreamState.installUpload_eq] at h
    exact .inl h
  | guard hcells =>
    rw [(StreamState.cells_eq.mp hcells).1] at h
    exact .inl h
  | register _ hfresh => exact absurd (hfresh.symm.trans h) nofun

/-! ## what the calls leave behind -/

/-- the step with which a terminating call on stream `i` returns: `complete` or `fail` in the loop,
`fail` in the upload task, the `close` of the teardown or of a registry operation, the drop of the
guard -/
inductive Returns (s t : Session) : SessionAction → UInt16 → Prop where
  | loop {i : UInt16} {v : Verdict} {reply : Option Bytes}
      (h : s.loop = .terminate i v .outcome reply) : Returns s t .loop i
  | upload {i : UInt16} (h : (s.state i).uploadPc = .failing .outcome) : Returns s t (.upload i) i
  | own {order drained : List UInt16} {i : UInt16} (h : t.ownClose = .returned drained)
      (hi : i ∈ drained) : Returns s t (.teardown order) i
  | registry {order drained : List UInt16} {i : UInt16} (h : t.registryClose = .returned drained)
      (hi : i ∈ drained) : Returns s t (.registryClose order) i
  | guard {i : UInt16} (h : (t.state i).guardPc = .dropped) : Returns s t (.guard i) i

/-- the upload of the stream is over, or will be when it is installed -/
def Cancelled (s : Session) (i : UInt16) : Prop :=
  TermStage.outcome.Reached (s.state i) ∨ (s.state i).uploadAbort = true

theorem Returns.cancelled (hr : Reachable lib s) (hm : Move lib s a t) (h : Returns s t a i) :
    t.Cancelled i := by
  have hc := hr.cancels
  have ht := hc.move hr hm
  cases h with
  | loop hl => exact .inl (hm.reached hr (hc.loop _ _ _ _ hl))
  | upload hu => exact .inl (hm.reached hr ((hc.stream i).failing _ hu))
  | own hd hi => exact .inl (ht.own.called i (by rwa [hd]) (by rw [hd]; exact List.not_mem_nil))
  | registry hd hi =>
    exact .inl (ht.registry.called i (by rwa [hd]) (by rw [hd]; exact List.not_mem_nil))
  | guard hg => exact .inr ((ht.stream i).told (by rw [hg]; rfl))

theorem Reachable.registered_of_cancelled (h : Reachable lib s) (hi : s.Cancelled i) :
    (s.state i).registered = true := by
  rcases hi with hi | hi
  · have hne : TermStage.outcome ≠ .completed := nofun
    exact h.registered_of_reached hne hi
  · refine h.untouched.registered fun hx => ?_
    rw [hx] at hi
    cases hi

/-- a task that was told to abort stays told -/
theorem Move.uploadAbort_kept (hr : Reachable lib s) (hm : Move lib s a t)
    (h : (s.state i).uploadAbort = true) : (t.state i).uploadAbort = true := by
  cases hm.touch i with
  | frame hcells =>
    rw [(StreamState.cells_eq.mp hcells).2.2]
    exact h
  | terminate v stage _ hcells =>
    rw [(StreamState.cells_eq.mp hcells).2.2]
    cases stage with
    | completed => exact h
    | outcome => exact h
    | upload =>
      show ((s.state i).uploadAbort || _) = true
      rw [h]
      rfl
  | install hcells =>
    rw [(StreamState.cells_eq.mp hcells).2.2]
    unfold StreamState.installUpload
    split
    · rfl
    · exact h
  | guard hcells => exact (StreamState.cells_eq.mp hcells).2.2
  | register hf => exact absurd hf (hr.idInv.not_allocated (hr.registered_of_cancelled (.inr h)) _)

theorem Cancelled.move (h : s.Cancelled i) (hr : Reachable lib s) (hm : Move lib s a t) :
    t.Cancelled i :=
  h.imp (hm.reached hr) (hm.uploadAbort_kept hr)

/-- from the return of the call on, an installed upload has been told -/
theorem Cancelled.run (h : s.Cancelled i) (hr : Reachable lib s) {as : List SessionAction}
    (hrun : Machine.run (step lib) s as = some t) (hi : (t.state i).callerPc ≠ .absent) :
    (t.state i).uploadAbort = true := by
  have ht : Reachable lib t := hr.run hrun
  have hinv : Reachable lib t ∧ t.Cancelled i := by
    refine Machine.run_invariant (P := fun u => Reachable lib u ∧ u.Cancelled i) ?_ ⟨hr, h⟩ hrun
    exact fun u a v hu hstep => ⟨hu.1.step hstep, hu.2.move hu.1 (move_of_step hstep)⟩
  rcases hinv.2 with hreached | ha
  · rcases (ht.cancels.stream i).installed hi with hcell | ha
    · exact absurd (hcell.symm.trans hreached.2) nofun
    · exact ha
  · exact ha

end Session

/-- **A stream that is over has no running upload.** Once a terminating call on it has returned, in
every later state in which `install_upload` has returned too the upload task was told to abort; and
it was told only if the stream's flag is set, which only a terminating call does, or its guard is
being dropped. -/
theorem terminal_upload_aborted {lib : HttpLib} {s t : Session} {a : SessionAction} {i : UInt16}
    (h : Session.Reachable lib s) (hstep : Session.step lib s a = some t) :
    (Session.Returns s t a i → ∀ as u, Machine.run (Session.step lib) t as = some u →
      (u.state i).callerPc ≠ .absent → (u.state i).uploadAbort = true) ∧
    ((t.state i).uploadAbort = true →
      (t.state i).completed = true ∨ (t.state i).guardPc.dropping = true) ∧
    ((t.state i).completed = true →
      (s.state i).completed = true ∨ ∃ v, s.starting a = some (i, v)) := by
  have hm := Session.move_of_step hstep
  have ht : Session.Reachable lib t := h.step hstep
  refine ⟨fun hret as u hrun hi => ?_, (ht.cancels.stream i).cause, hm.completed⟩
  exact (hret.cancelled h hm).run ht hrun hi

/-- the session's `close` runs between the spawn of an upload and its installation -/
def earlyCloseRun : List SessionAction :=
  [.reserve ⟨[], [], true⟩, .forward, .forward, .forward, .forward, .registryClose [1],
    .registryClose [], .registryClose [], .registryClose []]

theorem earlyCloseRun_state : ((Machine.run (Session.step okLib) (Session.new "t" [] 0)
    earlyCloseRun).bind fun s => (Session.step okLib s (.registryClose [])).bind fun t =>
      (Machine.run (Session.step okLib) t [.forward]).map fun u =>
        (t.registryClose, (t.state 1).uploadAbort, (u.state 1).callerPc))
      = some (.returned [1], false, .waitHead) := by
  decide

theorem terminal_upload_aborted_early : ∃ s t u : Session, Session.Reachable okLib s ∧
    (t.state 1).uploadAbort = false ∧ Machine.run (Session.step okLib) t [.forward] = some u ∧
    (u.state 1).uploadAbort = true := by
  obtain ⟨s, hs, h⟩ := Option.bind_eq_some_iff.mp earlyCloseRun_state
  obtain ⟨t, ht, h⟩ := Option.bind_eq_some_iff.mp h
  obtain ⟨u, hu, h⟩ := Option.map_eq_some_iff.mp h
  obtain ⟨hclose, habort, hpc⟩ :
      t.registryClose = .returned [1] ∧ (t.state 1).uploadAbort = false ∧
        (u.state 1).callerPc = .waitHead :=
    ⟨(Prod.mk.inj h).1, (Prod.mk.inj (Prod.mk.inj h).2).1, (Prod.mk.inj (Prod.mk.inj h).2).2⟩
  have hr : Session.Reachable okLib s := (Machine.Reachable.init ⟨"t", [], 0, rfl⟩).run hs
  refine ⟨s, t, u, hr, habort, hu, ?_⟩
  have hret : Session.Returns s t (.registryClose []) 1 :=
    .registry hclose List.mem_cons_self
  refine (terminal_upload_aborted hr ht).1 hret [.forward] u hu ?_
  rw [hpc]
  exact nofun

end AnvilRing
