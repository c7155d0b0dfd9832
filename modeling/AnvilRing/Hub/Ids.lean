import AnvilRing.Hub.Moves

/-!
# Stream ids of a session

* `IdInv`                      who may hold an id, and that an id is new when a forward takes it;
* `Session.Reachable.idInv`    every reachable session satisfies it;
* `Session.Reachable.sends`    the upload task of stream `i` sends frames of stream `i` only.
-/

namespace AnvilRing
open Wire

/-! ## who holds an id -/

/-- the stream that an OPEN frame opens -/
def Frame.opens : Frame → Option UInt16
  | .open s _ => some s
  | _ => none

/-- the ids on the OPEN frames of `fs`, in order -/
def openedIds (fs : List Frame) : List UInt16 := fs.filterMap Frame.opens

@[simp] theorem openedIds_append (fs gs : List Frame) :
    openedIds (fs ++ gs) = openedIds fs ++ openedIds gs := List.filterMap_append

theorem openedIds_snoc_of_none (fs : List Frame) {f : Frame} (h : f.opens = none) :
    openedIds (fs ++ [f]) = openedIds fs := by
  rw [openedIds_append, openedIds, openedIds, List.filterMap_cons_none h]
  simp

/-- a request frame of stream `i` as its upload task sends it -/
def IsUpload (i : UInt16) (f : Frame) : Prop := f = .halfEnd i ∨ ∃ b, b ≠ [] ∧ f = .data i b

theorem IsUpload.opens {i : UInt16} {f : Frame} (h : IsUpload i f) : f.opens = none := by
  rcases h with rfl | ⟨b, _, rfl⟩
  · rfl
  · rfl

/-- the id that a forward has taken and not opened yet -/
def ForwardPc.pending : ForwardPc → Option UInt16
  | .allocated _ id => some id
  | .admitted id => some id
  | _ => none

/-- the stream that the loop found in the map and is about to change -/
def LoopPc.target : LoopPc → Option UInt16
  | .respHead id _ => some id
  | .data id _ => some id
  | .terminate id _ _ _ => some id
  | _ => none

namespace Session
variable {lib : HttpLib} {s t : Session} {a : SessionAction}

/-! ## what an upload task sends -/

def Sends (s : Session) : Prop := ∀ i f, (s.state i).uploadPc = .sending f → IsUpload i f

theorem Sends.setState {i : UInt16} {st : StreamState} (h : s.Sends)
    (hi : ∀ f, st.uploadPc = .sending f → IsUpload i f) : (s.setState i st).Sends :=
  forall_setState (P := fun i st => ∀ f, st.uploadPc = .sending f → IsUpload i f) h hi

theorem Sends.move (h : s.Sends) (hm : Move lib s a t) : t.Sends := by
  cases hm with
  | quiet | alive | frame | leave | control | takeUp | headBad | dataBad | remove | reply | noReply
  | ownDrain | ownFailed | ownReturned | detached | registryDrain | registryFailed | cancel
  | reserveOk | reserveNo | exhausted | allocate | gone | busy | «open» | answered | write
  | writerEnd => exact h
  | headOk | dataOk | guardAbortUpload | guardRemove | guardCheck | guardEnd | guardFull
  | guardClosed | guardAbort | readTrailers => exact h.setState (h _)
  | terminate | ownFail | registryFail =>
    refine h.setState ?_
    rw [StreamState.terminate_eq]
    exact h _
  | register | spawn | sendFailed | uploadEnd | uploadFull | uploadClosed | uploadAbort
  | uploadCancel => exact h.setState fun f hf => nomatch hf
  | @install id hf =>
    refine h.setState ?_
    rw [StreamState.installUpload_eq]
    exact h id
  | @readData i b rest hu hb =>
    refine h.setState fun f hf => ?_
    by_cases hb0 : b = []
    · simp [hb0] at hf
    · simp only [if_neg hb0, UploadPc.sending.injEq] at hf
      exact .inr ⟨b, hb0, hf.symm⟩
  | @readEnd i hu hb =>
    refine h.setState fun f hf => ?_
    by_cases hok : (s.state i).request.bodyOk = true
    · simp only [if_pos hok, UploadPc.sending.injEq] at hf
      exact .inl hf.symm
    · simp [hok] at hf
  | @sent i f hu hc =>
    refine h.setState fun g hg => ?_
    by_cases hf : f = .halfEnd i
    · simp [hf] at hg
    · simp [hf] at hg
  | @erred i e hu =>
    refine h.setState fun g hg => ?_
    by_cases hc : (s.state i).completed = true
    · simp [hc] at hg
    · simp [hc] at hg
  | @uploadFail i stage hu =>
    refine h.setState fun g hg => ?_
    cases stage <;> cases hg
  | @caller i budget st hh =>
    refine h.setState ?_
    rw [StreamState.handle_eq hh]
    exact h i
  | @callerDrop i st hh =>
    refine h.setState ?_
    rw [StreamState.callerDrop_eq hh]
    exact h i

theorem Reachable.sends (h : Reachable lib s) : s.Sends :=
  h.move (fun _ _ _ _ _ hf => nomatch hf) fun _ _ _ _ hs hm => hs.move hm

/-! ## registration -/

/-- Who may hold an id: the counter is ahead of every id in use, and an id between its allocation
and its registration is in use nowhere else. -/
structure IdInv (s : Session) : Prop where
  pos : 0 < s.nextId
  le : s.nextId ≤ 65536
  registered : ∀ i, (s.state i).registered = true → 0 < i.toNat ∧ i.toNat < s.nextId
  pending : ∀ i, s.forward.pending = some i → 0 < i.toNat ∧ i.toNat + 1 = s.nextId
  allocated : ∀ req i, s.forward = .allocated req i → (s.state i).registered = false
  admitted : ∀ i, s.forward = .admitted i → (s.state i).registered = true
  mapped : ∀ i ∈ s.streams, (s.state i).registered = true
  target : ∀ i, s.loop.target = some i → (s.state i).registered = true
  opened : ∀ i ∈ openedIds s.tx.log, (s.state i).registered = true
  unopened : ∀ i, s.forward.pending = some i → i ∉ openedIds s.tx.log
  increasing : (openedIds s.tx.log).Pairwise fun i j => i.toNat < j.toNat

/-- a stream that is registered is not the one that a forward is about to register -/
theorem IdInv.not_allocated (h : s.IdInv) {i : UInt16} (hi : (s.state i).registered = true)
    (req : Request) : s.forward ≠ .allocated req i := by
  intro hf
  rw [h.allocated req i hf] at hi
  cases hi

/-- a move that neither takes nor registers nor opens an id -/
theorem IdInv.frame (h : s.IdInv) (hn : t.nextId = s.nextId)
    (hf : t.forward = s.forward ∨ t.forward.pending = none)
    (hr : ∀ j, (t.state j).registered = (s.state j).registered) (hs : t.streams ⊆ s.streams)
    (hl : ∀ i, t.loop.target = some i → s.loop.target = some i ∨ i ∈ s.streams)
    (ho : openedIds t.tx.log = openedIds s.tx.log) : t.IdInv where
  pos := hn ▸ h.pos
  le := hn ▸ h.le
  registered i hi := by
    rw [hn]
    exact h.registered i (hr i ▸ hi)
  pending i hi := by
    rcases hf with hf | hf
    · rw [hn]
      exact h.pending i (hf ▸ hi)
    · rw [hf] at hi
      cases hi
  allocated req i hi := by
    rcases hf with hf | hf
    · rw [hr]
      exact h.allocated req i (hf ▸ hi)
    · rw [hi] at hf
      cases hf
  admitted i hi := by
    rcases hf with hf | hf
    · rw [hr]
      exact h.admitted i (hf ▸ hi)
    · rw [hi] at hf
      cases hf
  mapped i hi := by
    rw [hr]
    exact h.mapped i (hs hi)
  target i hi := by
    rw [hr]
    rcases hl i hi with hi | hi
    · exact h.target i hi
    · exact h.mapped i hi
  opened i hi := by
    rw [hr]
    exact h.opened i (ho ▸ hi)
  unopened i hi := by
    rw [ho]
    rcases hf with hf | hf
    · exact h.unopened i (hf ▸ hi)
    · rw [hf] at hi
      cases hi
  increasing := by
    rw [ho]
    exact h.increasing

/-- the counter steps: the id is new -/
theorem IdInv.allocate (h : s.IdInv) (hn : s.nextId ≤ 65535) (req : Request) :
    IdInv { s with
      nextId := s.nextId + 1, forward := .allocated req (UInt16.ofNat s.nextId) } := by
  have hid : (UInt16.ofNat s.nextId).toNat = s.nextId := UInt16.toNat_ofNat_of_lt' (by
    rw [UInt16.size]
    omega)
  have h0 : 0 < (UInt16.ofNat s.nextId).toNat := by
    rw [hid]
    exact h.pos
  have hnew : (s.state (UInt16.ofNat s.nextId)).registered = false := by
    rw [Bool.eq_false_iff]
    intro hr
    have := (h.registered _ hr).2
    omega
  exact {
    pos := Nat.succ_pos _
    le := Nat.succ_le_succ hn
    registered := fun i hi => ⟨(h.registered i hi).1, Nat.lt_succ_of_lt (h.registered i hi).2⟩
    pending := by
      rintro i ⟨⟩
      exact ⟨h0, congrArg (· + 1) hid⟩
    allocated := by
      rintro _ i ⟨⟩
      exact hnew
    admitted := fun i hi => nomatch hi
    mapped := h.mapped
    target := h.target
    opened := h.opened
    unopened := by
      rintro i ⟨⟩ hi
      exact absurd (h.opened _ hi) (by simp [hnew])
    increasing := h.increasing }

/-- the id is registered -/
theorem IdInv.register (h : s.IdInv) {req : Request} {id : UInt16}
    (hf : s.forward = .allocated req id) (st : StreamState) (hst : st.registered = true) :
    IdInv { s.setState id st with streams := insert id s.streams, forward := .admitted id } := by
  have hp : s.forward.pending = some id := by rw [hf]; rfl
  have hr : ∀ j, (s.state j).registered = true → ((s.setState id st).state j).registered = true :=
    forall_setState (s := s)
      (P := fun j st' => (s.state j).registered = true → st'.registered = true)
      (fun _ hj => hj) fun _ => hst
  exact {
    pos := h.pos
    le := h.le
    registered := by
      intro j hj
      by_cases hji : j = id
      · subst hji
        obtain ⟨h0, h1⟩ := h.pending j hp
        exact ⟨h0, Nat.lt_of_succ_le h1.le⟩
      · exact h.registered j (by rwa [← setState_of_ne s st hji])
    pending := by
      rintro i ⟨⟩
      exact h.pending id hp
    allocated := fun _ _ hi => nomatch hi
    admitted := by
      rintro i ⟨⟩
      show ((s.setState id st).state id).registered = true
      rwa [setState_self]
    mapped := by
      intro j hj
      rcases Finset.mem_insert.mp hj with rfl | hj
      · show ((s.setState j st).state j).registered = true
        rwa [setState_self]
      · exact hr j (h.mapped j hj)
    target := fun j hj => hr j (h.target j hj)
    opened := fun j hj => hr j (h.opened j hj)
    unopened := by
      rintro i ⟨⟩
      exact h.unopened id hp
    increasing := h.increasing }

/-- the id goes onto the OPEN frame: it is above every id opened before -/
theorem IdInv.«open» (h : s.IdInv) {id : UInt16} (hf : s.forward = .admitted id) (head : Bytes) :
    IdInv { s with tx := s.tx.sendPermit (.open id head), forward := .opened id } := by
  have hp : s.forward.pending = some id := by rw [hf]; rfl
  have ho : openedIds (s.tx.sendPermit (.open id head)).log = openedIds s.tx.log ++ [id] := by
    rw [Chan.log_sendPermit, openedIds_append]
    rfl
  exact {
    pos := h.pos
    le := h.le
    registered := h.registered
    pending := fun i hi => nomatch hi
    allocated := fun _ i hi => nomatch hi
    admitted := fun i hi => nomatch hi
    mapped := h.mapped
    target := h.target
    opened := by
      intro i hi
      rw [ho, List.mem_append, List.mem_singleton] at hi
      rcases hi with hi | rfl
      · exact h.opened i hi
      · exact h.admitted i hf
    unopened := fun i hi => nomatch hi
    increasing := by
      rw [ho, List.pairwise_append]
      refine ⟨h.increasing, List.pairwise_singleton _ _, ?_⟩
      intro i hi j hj
      obtain rfl := List.mem_singleton.mp hj
      have hlt := (h.registered i (h.opened i hi)).2
      have hne : i.toNat ≠ j.toNat := by
        intro he
        exact h.unopened j hp (UInt16.toNat_inj.mp he ▸ hi)
      have := (h.pending j hp).2
      omega }

theorem IdInv.move (h : s.IdInv) (hsend : s.Sends) (hm : Move lib s a t) : t.IdInv := by
  cases hm with
  | quiet | alive => exact h.frame rfl (.inl rfl) (fun _ => rfl) subset_rfl (fun _ => .inl) rfl
  | frame | leave | noReply | ownReturned | detached =>
    exact h.frame rfl (.inl rfl) (fun _ => rfl) subset_rfl (fun _ hi => nomatch hi) rfl
  | headBad hl | dataBad hl =>
    refine h.frame rfl (.inl rfl) (fun _ => rfl) subset_rfl ?_ rfl
    intro i hi
    left
    rw [hl]
    exact hi
  | @control _ f _ hf _ =>
    refine h.frame rfl (.inl rfl) (fun _ => rfl) subset_rfl (fun _ hi => nomatch hi) ?_
    rw [Chan.log_push]
    rcases hf with rfl | rfl
    · exact openedIds_snoc_of_none _ rfl
    · exact openedIds_snoc_of_none _ rfl
  | reply =>
    refine h.frame rfl (.inl rfl) (fun _ => rfl) subset_rfl (fun _ hi => nomatch hi) ?_
    rw [Chan.log_push]
    exact openedIds_snoc_of_none _ rfl
  | @takeUp f hl =>
    refine h.frame rfl (.inl rfl) (fun _ => rfl) subset_rfl ?_ rfl
    intro i hi
    right
    revert hi
    show (s.takeUp f).target = some i → i ∈ s.streams
    unfold takeUp
    split
    · split
      · next hm =>
        rintro ⟨⟩
        exact hm
      · exact nofun
    · split
      · next hm =>
        rintro ⟨⟩
        exact hm
      · exact nofun
    · split
      · next hm =>
        rintro ⟨⟩
        exact hm
      · exact nofun
    · exact nofun
  | headOk | dataOk =>
    exact h.frame rfl (.inl rfl) (setState_apply _ _ rfl) subset_rfl (fun _ hi => nomatch hi) rfl
  | @terminate id v stage reply hl =>
    refine h.frame rfl (.inl rfl) (setState_apply _ _ ?_) subset_rfl ?_ rfl
    · rw [StreamState.terminate_eq]
    · intro i hi
      left
      rw [hl]
      cases stage with
      | completed => exact hi
      | upload => exact hi
      | outcome => exact nomatch hi
  | @remove id reply hl =>
    refine h.frame rfl (.inl rfl) (fun _ => rfl) (Finset.erase_subset _ _) ?_ rfl
    intro i hi
    cases reply with
    | none => exact nomatch hi
    | some r => exact nomatch hi
  | ownDrain | registryDrain =>
    exact h.frame rfl (.inl rfl) (fun _ => rfl) (Finset.empty_subset _) (fun _ => .inl) rfl
  | ownFail | registryFail =>
    refine h.frame rfl (.inl rfl) (setState_apply _ _ ?_) subset_rfl (fun _ => .inl) rfl
    rw [StreamState.terminate_eq]
  | ownFailed | registryFailed | cancel =>
    exact h.frame rfl (.inl rfl) (fun _ => rfl) subset_rfl (fun _ => .inl) rfl
  | reserveOk | reserveNo | exhausted | gone | busy | answered =>
    exact h.frame rfl (.inr rfl) (fun _ => rfl) subset_rfl (fun _ => .inl) rfl
  | @allocate req hf hn => exact h.allocate hn req
  | register hf => exact h.register hf _ rfl
  | «open» hf => exact h.open hf _
  | spawn => exact h.frame rfl (.inr rfl) (setState_apply _ _ rfl) subset_rfl (fun _ => .inl) rfl
  | install =>
    refine h.frame rfl (.inr rfl) (setState_apply _ _ ?_) subset_rfl (fun _ => .inl) rfl
    rw [StreamState.installUpload_eq]
  | readData | readTrailers | readEnd | sendFailed | erred | uploadFull | uploadClosed
  | uploadAbort | uploadCancel | guardAbortUpload | guardCheck | guardFull | guardClosed
  | guardAbort =>
    exact h.frame rfl (.inl rfl) (setState_apply _ _ rfl) subset_rfl (fun _ => .inl) rfl
  | @sent i f hu hc =>
    refine h.frame rfl (.inl rfl) (setState_apply _ _ rfl) subset_rfl (fun _ => .inl) ?_
    rw [Chan.log_push]
    exact openedIds_snoc_of_none _ (hsend i f hu).opens
  | uploadEnd | guardEnd =>
    refine h.frame rfl (.inl rfl) (setState_apply _ _ rfl) subset_rfl (fun _ => .inl) ?_
    rw [Chan.log_push]
    exact openedIds_snoc_of_none _ rfl
  | uploadFail =>
    refine h.frame rfl (.inl rfl) (setState_apply _ _ ?_) subset_rfl (fun _ => .inl) rfl
    rw [StreamState.terminate_eq]
  | guardRemove =>
    exact h.frame rfl (.inl rfl) (setState_apply _ _ rfl) (Finset.erase_subset _ _)
      (fun _ => .inl) rfl
  | @caller i budget st hh =>
    refine h.frame rfl (.inl rfl) (setState_apply _ _ ?_) subset_rfl (fun _ => .inl) rfl
    rw [StreamState.handle_eq hh]
  | @callerDrop i st hh =>
    refine h.frame rfl (.inl rfl) (setState_apply _ _ ?_) subset_rfl (fun _ => .inl) rfl
    rw [StreamState.callerDrop_eq hh]
  | @write f tx hc hr =>
    refine h.frame rfl (.inl rfl) (fun _ => rfl) subset_rfl (fun _ => .inl) ?_
    show openedIds tx.log = openedIds s.tx.log
    rw [Chan.log_recv hr]
  | writerEnd =>
    exact h.frame rfl (.inl rfl) (fun _ => rfl) subset_rfl (fun _ => .inl) rfl

theorem idInv_new (id : String) (cred : Bytes) (now : Nat) : (new id cred now).IdInv where
  pos := Nat.one_pos
  le := show 1 ≤ 65536 by decide
  registered _ hi := nomatch hi
  pending _ hi := nomatch hi
  allocated _ _ hi := nomatch hi
  admitted _ hi := nomatch hi
  mapped _ hi := absurd hi (Finset.notMem_empty _)
  target _ hi := nomatch hi
  opened _ hi := nomatch hi
  unopened _ hi := nomatch hi
  increasing := .nil

theorem Reachable.idInv (h : Reachable lib s) : s.IdInv :=
  h.move idInv_new fun _ _ _ hr hi hm => hi.move hr.sends hm

/-- only a forward opens a stream -/
theorem Move.opened (hm : Move lib s a t) (hs : s.Sends) (ha : a ≠ .forward) :
    openedIds t.tx.log = openedIds s.tx.log := by
  cases hm with
  | @control _ f _ hf _ =>
    show openedIds (s.tx.push f).log = _
    rw [Chan.log_push]
    rcases hf with rfl | rfl
    · exact openedIds_snoc_of_none _ rfl
    · exact openedIds_snoc_of_none _ rfl
  | reply | uploadEnd | guardEnd =>
    rw [Chan.log_push]
    exact openedIds_snoc_of_none _ rfl
  | @sent i f hu hc =>
    rw [Chan.log_push]
    exact openedIds_snoc_of_none _ (hs i f hu).opens
  | @write f tx hc hr =>
    show openedIds tx.log = _
    rw [Chan.log_recv hr]
  | exhausted | allocate | gone | busy | register | «open» | spawn | install | answered =>
    exact absurd rfl ha
  | _ => rfl

end Session

end AnvilRing
