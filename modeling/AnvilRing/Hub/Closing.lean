import AnvilRing.Hub.Moves

/-!
# Closing a session

* `Session.ClosingInv`             a closed session has no streams, and a close that got past a
                                   stream left it with an outcome;
* `Session.Reachable.closingInv`   every reachable session satisfies it;
* `Session.close_final`            what holds of a closed session and of every later state of it;
* `Session.close_drained`          a `close` accounts for the streams it found in the map.
-/

namespace AnvilRing
open Wire

/-- the streams that a `close` drained -/
def ClosePc.drained : ClosePc → List UInt16
  | .idle => []
  | .failing drained _ _ => drained
  | .returned drained => drained

/-- the drained streams that are still to be failed -/
def ClosePc.todo : ClosePc → List UInt16
  | .failing _ todo _ => todo
  | _ => []

namespace Session
variable {lib : HttpLib} {s t : Session} {a : SessionAction} {i : UInt16}

/-! ## outcomes are final -/

theorem terminate_outcome {st : StreamState} (h : st.outcome ≠ .pending) (v : Verdict)
    (stage : TermStage) : (st.terminate v stage).outcome ≠ .pending := by
  cases stage with
  | completed => exact h
  | upload => exact h
  | outcome => cases v <;> exact nofun

/-- no stream loses its outcome, unless it is registered now -/
theorem Move.outcome (hm : Move lib s a t)
    (hc : ∀ req, s.forward = .allocated req i → s.closed = true)
    (h : (s.state i).outcome ≠ .pending) : (t.state i).outcome ≠ .pending := by
  have hset : ∀ {j st}, ((s.state j).outcome ≠ .pending → st.outcome ≠ .pending) →
      ((s.setState j st).state i).outcome ≠ .pending := by
    intro j st hst
    exact forall_setState (s := s)
      (P := fun j st => (s.state j).outcome ≠ .pending → st.outcome ≠ .pending)
      (fun _ hx => hx) hst i h
  cases hm with
  | quiet | alive | frame | leave | control | takeUp | headBad | dataBad | remove | reply | noReply
  | ownDrain | ownFailed | ownReturned | detached | registryDrain | registryFailed | cancel
  | reserveOk | reserveNo | exhausted | allocate | gone | busy | «open» | answered | write
  | writerEnd => exact h
  | headOk | dataOk | spawn | readData | readTrailers | readEnd | sent | sendFailed | erred
  | uploadEnd | uploadFull | uploadClosed | uploadAbort | uploadCancel | guardAbortUpload
  | guardRemove | guardCheck | guardEnd | guardFull | guardClosed | guardAbort => exact hset id
  | terminate | ownFail | registryFail | uploadFail =>
    exact hset fun hx => terminate_outcome hx _ _
  | @register req id hf hx =>
    show ((s.setState id _).state i).outcome ≠ .pending
    have hne : i ≠ id := by
      rintro rfl
      rw [hc req hf] at hx
      cases hx
    rw [setState_of_ne s _ hne]
    exact h
  | install =>
    refine hset fun hx => ?_
    rw [StreamState.installUpload_eq]
    exact hx
  | caller hh =>
    refine hset fun hx => ?_
    rw [StreamState.handle_eq hh]
    exact hx
  | callerDrop hh =>
    refine hset fun hx => ?_
    rw [StreamState.callerDrop_eq hh]
    exact hx

/-- closed is forever, and with it the map stays empty -/
theorem Move.closed (hm : Move lib s a t) (hc : s.closed = true) (he : s.streams = ∅) :
    t.closed = true ∧ t.streams = ∅ := by
  cases hm with
  | remove => exact ⟨hc, by rw [he]; rfl⟩
  | guardRemove => exact ⟨hc, by rw [he]; rfl⟩
  | ownDrain => exact ⟨rfl, rfl⟩
  | registryDrain => exact ⟨rfl, rfl⟩
  | register hf hx =>
    rw [hc] at hx
    cases hx
  | _ => exact ⟨hc, he⟩

/-! ## the invariant -/

/-- a `close` in progress: the session is closed, and the streams behind it have an outcome -/
structure CloseInv (s : Session) (pc : ClosePc) : Prop where
  closed : pc ≠ .idle → s.closed = true
  failed : ∀ i ∈ pc.drained, i ∉ pc.todo → (s.state i).outcome ≠ .pending

structure ClosingInv (s : Session) : Prop where
  empty : s.closed = true → s.streams = ∅
  own : CloseInv s s.ownClose
  registry : CloseInv s s.registryClose

theorem CloseInv.move {pc : ClosePc} (h : CloseInv s pc) (hm : Move lib s a t)
    (hc : s.closed = true → t.closed = true) : CloseInv t pc where
  closed hx := hc (h.closed hx)
  failed i hi ht := by
    have hne : pc ≠ .idle := by
      rintro rfl
      cases hi
    exact hm.outcome (fun _ _ => h.closed hne) (h.failed i hi ht)

/-- the drain starts a `close` -/
theorem closeInv_drain {order : List UInt16} (ht : t.closed = true) :
    CloseInv t (.failing order order .completed) where
  closed _ := ht
  failed _ hi hn := absurd hi hn

/-- one stream further -/
theorem CloseInv.step {drained rest : List UInt16} {i : UInt16} {stage : TermStage}
    (h : CloseInv s (.failing drained (i :: rest) stage)) (hm : Move lib s a t)
    (hc : t.closed = true) (ho : stage = .outcome → (t.state i).outcome = .failed) :
    CloseInv t
      (stage.next.elim (.failing drained rest .completed) (.failing drained (i :: rest))) := by
  have hsc : s.closed = true := h.closed nofun
  have hkeep : ∀ j ∈ drained, j ∉ i :: rest → (t.state j).outcome ≠ .pending :=
    fun j hj hn => hm.outcome (fun _ _ => hsc) (h.failed j hj hn)
  cases stage with
  | completed => exact ⟨fun _ => hc, hkeep⟩
  | upload => exact ⟨fun _ => hc, hkeep⟩
  | outcome =>
    refine ⟨fun _ => hc, fun j hj hn => ?_⟩
    by_cases hji : j = i
    · rw [hji, ho rfl]
      exact nofun
    · exact hkeep j hj (List.not_mem_cons_of_ne_of_not_mem hji hn)

theorem CloseInv.returned {drained : List UInt16} {stage : TermStage}
    (h : CloseInv s (.failing drained [] stage)) (ht : t.closed = true)
    (hs : t.state = s.state) : CloseInv t (.returned drained) where
  closed _ := ht
  failed i hi _ := by
    rw [hs]
    exact h.failed i hi List.not_mem_nil

theorem failed_setState (s : Session) (stage : TermStage) (i : UInt16) (h : stage = .outcome) :
    ((s.setState i ((s.state i).terminate .fail stage)).state i).outcome = .failed := by
  rw [setState_self, h]
  rfl

theorem ClosingInv.move (h : s.ClosingInv) (hm : Move lib s a t) : t.ClosingInv := by
  have hcl : s.closed = true → t.closed = true := fun hc => (hm.closed hc (h.empty hc)).1
  have hown := h.own.move hm hcl
  have hreg := h.registry.move hm hcl
  have hempty : s.closed = true → t.streams = ∅ := fun hc => (hm.closed hc (h.empty hc)).2
  have hmove := hm
  cases hm with
  | ownDrain => exact ⟨fun _ => rfl, closeInv_drain rfl, hreg⟩
  | registryDrain => exact ⟨fun _ => rfl, hown, closeInv_drain rfl⟩
  | ownFail hl ho =>
    have hpc := ho ▸ h.own
    refine ⟨hempty, hpc.step hmove ?_ (failed_setState s _ _), hreg⟩
    exact hpc.closed nofun
  | registryFail hr =>
    have hpc := hr ▸ h.registry
    refine ⟨hempty, hown, hpc.step hmove ?_ (failed_setState s _ _)⟩
    exact hpc.closed nofun
  | ownFailed hl ho =>
    have hpc := ho ▸ h.own
    exact ⟨hempty, hpc.returned (hpc.closed nofun) rfl, hreg⟩
  | registryFailed hr =>
    have hpc := hr ▸ h.registry
    exact ⟨hempty, hown, hpc.returned (hpc.closed nofun) rfl⟩
  | register hf hc hn =>
    refine ⟨fun hx => ?_, hown, hreg⟩
    exact absurd (hc.symm.trans hx) nofun
  | _ => exact ⟨hempty, hown, hreg⟩

theorem closingInv_new (id : String) (cred : Bytes) (now : Nat) :
    (new id cred now).ClosingInv where
  empty _ := rfl
  own := ⟨fun hx => absurd rfl hx, fun _ hi => nomatch hi⟩
  registry := ⟨fun hx => absurd rfl hx, fun _ hi => nomatch hi⟩

theorem Reachable.closingInv (h : Reachable lib s) : s.ClosingInv :=
  h.move closingInv_new fun _ _ _ _ hs hm => hs.move hm

/-! ## closed is final -/

/-- in every state after a `close` has drained the map, no stream is registered any more and every
admission is refused -/
theorem close_final (h : Reachable lib s) (hc : s.closed = true) {as : List SessionAction}
    (hr : Machine.run (step lib) s as = some t) :
    t.closed = true ∧ t.streams = ∅ ∧ ∀ req id u, t.forward = .allocated req id →
      step lib t .forward = some u →
      u.forward = .returned (.error .tetherGone) ∧ u.streams = ∅ ∧ u.tx.log = t.tx.log := by
  have hinv : t.closed = true ∧ t.streams = ∅ := by
    refine Machine.run_invariant (P := fun s => s.closed = true ∧ s.streams = ∅) ?_
      ⟨hc, h.closingInv.empty hc⟩ hr
    exact fun s a t hs hstep => (move_of_step hstep).closed hs.1 hs.2
  refine ⟨hinv.1, hinv.2, ?_⟩
  intro req id u hf hstep
  have hu : some (t.admitStream req id) = some u := by
    rw [← hstep]
    show _ = t.forwardStep
    rw [forwardStep, hf]
  obtain rfl := Option.some.inj hu
  unfold admitStream
  rw [if_pos hinv.1]
  exact ⟨rfl, hinv.2, rfl⟩

/-- what a `close` drained does not change while it runs and after it returned -/
theorem Move.drained (hm : Move lib s a t) :
    (s.ownClose ≠ .idle → t.ownClose ≠ .idle ∧ t.ownClose.drained = s.ownClose.drained) ∧
    (s.registryClose ≠ .idle →
      t.registryClose ≠ .idle ∧ t.registryClose.drained = s.registryClose.drained) := by
  have hstep : ∀ {drained rest : List UInt16} {i : UInt16} {stage : TermStage},
      (stage.next.elim (.failing drained rest .completed) (.failing drained (i :: rest)) :
        ClosePc) ≠ .idle ∧
      ClosePc.drained
        (stage.next.elim (.failing drained rest .completed) (.failing drained (i :: rest))) =
        drained := by
    intro drained rest i stage
    cases stage with
    | completed => exact ⟨nofun, rfl⟩
    | upload => exact ⟨nofun, rfl⟩
    | outcome => exact ⟨nofun, rfl⟩
  cases hm with
  | ownDrain hl hi ho => exact ⟨fun hx => absurd hi hx, fun hx => ⟨hx, rfl⟩⟩
  | registryDrain hi ho => exact ⟨fun hx => ⟨hx, rfl⟩, fun hx => absurd hi hx⟩
  | ownFail hl ho => exact ⟨fun _ => by rw [ho]; exact hstep, fun hx => ⟨hx, rfl⟩⟩
  | registryFail ho => exact ⟨fun hx => ⟨hx, rfl⟩, fun _ => by rw [ho]; exact hstep⟩
  | ownFailed hl ho => exact ⟨fun _ => by rw [ho]; exact ⟨nofun, rfl⟩, fun hx => ⟨hx, rfl⟩⟩
  | registryFailed ho => exact ⟨fun hx => ⟨hx, rfl⟩, fun _ => by rw [ho]; exact ⟨nofun, rfl⟩⟩
  | _ => exact ⟨fun hx => ⟨hx, rfl⟩, fun hx => ⟨hx, rfl⟩⟩

theorem run_drained {as : List SessionAction} (hr : Machine.run (step lib) s as = some t) :
    (s.ownClose ≠ .idle → t.ownClose.drained = s.ownClose.drained) ∧
    (s.registryClose ≠ .idle → t.registryClose.drained = s.registryClose.drained) := by
  constructor
  · intro hx
    refine (Machine.run_invariant (P := fun u => u.ownClose ≠ .idle ∧
      u.ownClose.drained = s.ownClose.drained) ?_ ⟨hx, rfl⟩ hr).2
    intro u a v hu hstep
    obtain ⟨hne, hd⟩ := (move_of_step hstep).drained.1 hu.1
    exact ⟨hne, hd.trans hu.2⟩
  · intro hx
    refine (Machine.run_invariant (P := fun u => u.registryClose ≠ .idle ∧
      u.registryClose.drained = s.registryClose.drained) ?_ ⟨hx, rfl⟩ hr).2
    intro u a v hu hstep
    obtain ⟨hne, hd⟩ := (move_of_step hstep).drained.2 hu.1
    exact ⟨hne, hd.trans hu.2⟩

/-- a `close` begins with the streams that are in the map -/
theorem Move.drain_start (hm : Move lib s a t) :
    (s.ownClose = .idle → t.ownClose ≠ .idle → t.ownClose.drained.toFinset = s.streams) ∧
    (s.registryClose = .idle → t.registryClose ≠ .idle →
      t.registryClose.drained.toFinset = s.streams) := by
  cases hm with
  | ownDrain hl hi ho => exact ⟨fun _ _ => ho, fun hx hn => absurd hx hn⟩
  | registryDrain hi ho => exact ⟨fun hx hn => absurd hx hn, fun _ _ => ho⟩
  | ownFail hl ho =>
    exact ⟨fun hx => absurd (ho.symm.trans hx) nofun, fun hx hn => absurd hx hn⟩
  | registryFail ho =>
    exact ⟨fun hx hn => absurd hx hn, fun hx => absurd (ho.symm.trans hx) nofun⟩
  | ownFailed hl ho =>
    exact ⟨fun hx => absurd (ho.symm.trans hx) nofun, fun hx hn => absurd hx hn⟩
  | registryFailed ho =>
    exact ⟨fun hx hn => absurd hx hn, fun hx => absurd (ho.symm.trans hx) nofun⟩
  | _ => exact ⟨fun hx hn => absurd hx hn, fun hx hn => absurd hx hn⟩

/-- a `close` that has returned left an outcome in every stream that was registered when it was
called -/
theorem close_drained (h : Reachable lib s) {u : Session} (hstep : step lib s a = some u)
    {as : List SessionAction} (hr : Machine.run (step lib) u as = some t) :
    (s.registryClose = .idle → u.registryClose ≠ .idle →
      ∀ d, t.registryClose = .returned d → ∀ i ∈ s.streams, (t.state i).outcome ≠ .pending) ∧
    (s.ownClose = .idle → u.ownClose ≠ .idle →
      ∀ d, t.ownClose = .returned d → ∀ i ∈ s.streams, (t.state i).outcome ≠ .pending) := by
  have ht : Reachable lib t := (h.step hstep).run hr
  constructor
  · intro hidle hne d hd i hi
    have hinv := ht.closingInv.registry
    have hdr := (run_drained hr).2 hne
    have hstart := (move_of_step hstep).drain_start.2 hidle hne
    rw [← hdr, hd] at hstart
    rw [hd] at hinv
    exact hinv.failed i (List.mem_toFinset.mp (hstart ▸ hi)) List.not_mem_nil
  · intro hidle hne d hd i hi
    have hinv := ht.closingInv.own
    have hdr := (run_drained hr).1 hne
    have hstart := (move_of_step hstep).drain_start.1 hidle hne
    rw [← hdr, hd] at hstart
    rw [hd] at hinv
    exact hinv.failed i (List.mem_toFinset.mp (hstart ▸ hi)) List.not_mem_nil

end Session

end AnvilRing
