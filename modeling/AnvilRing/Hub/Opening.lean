import AnvilRing.Hub.Response
import AnvilRing.Hub.Commands

/-!
# What a registration fixes

* `origin_of_move`             a request and its place in the frames of the session never change;
* `Session.Reachable.opening`  the OPEN of a stream carries the head of its request.
-/

namespace AnvilRing
open Wire

/-- what the registration of a stream fixes -/
def StreamState.origin (st : StreamState) : Request × Nat := (st.request, st.start)

namespace Session
variable {lib : HttpLib} {s t : Session} {a : SessionAction}

theorem origin_setState {j : UInt16} {st : StreamState} (h : st.origin = (s.state j).origin)
    (i : UInt16) : ((s.setState j st).state i).origin = (s.state i).origin :=
  setState_apply StreamState.origin s h i

theorem origin_of_move (hm : Move lib s a t) (i : UInt16) :
    (t.state i).origin = (s.state i).origin ∨
      ∃ req, s.forward = .allocated req i ∧ (t.state i).origin = (req, s.received.length) := by
  cases hm with
  | @register req id hf =>
    by_cases hi : i = id
    · subst hi
      refine .inr ⟨req, hf, ?_⟩
      show ((s.setState i _).state i).origin = _
      rw [setState_self]
      rfl
    · left
      show ((s.setState id _).state i).origin = _
      rw [setState_of_ne s _ hi]
  | quiet | alive | frame | leave | control | takeUp | headBad | dataBad | remove | reply | noReply
  | ownDrain | ownFailed | ownReturned | detached | registryDrain | registryFailed | cancel
  | reserveOk | reserveNo | exhausted | allocate | gone | busy | «open» | answered | write
  | writerEnd => exact .inl rfl
  | headOk | dataOk | spawn | readData | readTrailers | readEnd | sent | sendFailed | erred
  | uploadEnd | uploadFull | uploadClosed | uploadAbort | uploadCancel | guardAbortUpload
  | guardRemove | guardCheck | guardEnd | guardFull | guardClosed | guardAbort =>
    exact .inl (origin_setState (by rfl) i)
  | terminate | ownFail | registryFail | uploadFail =>
    refine .inl (origin_setState ?_ i)
    rw [StreamState.terminate_eq]
    rfl
  | install =>
    refine .inl (origin_setState ?_ i)
    rw [StreamState.installUpload_eq]
    rfl
  | caller hh =>
    refine .inl (origin_setState ?_ i)
    rw [StreamState.handle_eq hh]
    rfl
  | callerDrop hh =>
    refine .inl (origin_setState ?_ i)
    rw [StreamState.callerDrop_eq hh]
    rfl

/-- every OPEN carries the head of the request that it opens -/
def Opening (s : Session) : Prop :=
  ∀ i head, .open i head ∈ s.tx.log → head = (s.state i).request.head

theorem mem_log_push {c : Chan Frame} {f g : Frame} (h : f ∈ (c.push g).log) :
    f ∈ c.log ∨ f = g := by
  rw [Chan.log_push] at h
  rcases List.mem_append.mp h with h | h
  · exact .inl h
  · exact .inr (List.mem_singleton.mp h)

/-- an OPEN that was not queued before is that of the forward -/
theorem open_of_move (hm : Move lib s a t) (hs : s.Sends) {i : UInt16} {head : Bytes}
    (h : .open i head ∈ t.tx.log) :
    .open i head ∈ s.tx.log ∨ s.forward = .admitted i ∧ head = (s.state i).request.head := by
  cases hm with
  | @«open» id hf =>
    change .open i head ∈ (s.tx.sendPermit _).log at h
    rw [Chan.log_sendPermit] at h
    rcases List.mem_append.mp h with h | h
    · exact .inl h
    · cases List.mem_singleton.mp h
      exact .inr ⟨hf, rfl⟩
  | @control _ f _ hf =>
    rcases mem_log_push h with h | rfl
    · exact .inl h
    · rcases hf with hf | hf <;> cases hf
  | @sent j f hu =>
    rcases mem_log_push h with h | rfl
    · exact .inl h
    · have ho := (hs j _ hu).opens
      cases ho
  | reply | uploadEnd | guardEnd =>
    rcases mem_log_push h with h | h
    · exact .inl h
    · cases h
  | @write f tx _ hr =>
    change .open i head ∈ tx.log at h
    rw [Chan.log_recv hr] at h
    exact .inl h
  | _ => exact .inl h

theorem Opening.move (h : s.Opening) (hr : Reachable lib s) (hm : Move lib s a t) : t.Opening := by
  intro i head hx
  have hold : head = (s.state i).request.head ∧ (s.state i).registered = true := by
    rcases open_of_move hm hr.sends hx with hx | ⟨hf, hhead⟩
    · exact ⟨h i head hx, hr.idInv.opened i (List.mem_filterMap.mpr ⟨_, hx, rfl⟩)⟩
    · exact ⟨hhead, hr.idInv.admitted i hf⟩
  rcases origin_of_move hm i with ho | ⟨req, hf, -⟩
  · rw [hold.1]
    exact congrArg (fun o => o.1.head) ho.symm
  · -- an id that a forward is about to register was not opened
    exact absurd hf (hr.idInv.not_allocated hold.2 req)

theorem Reachable.opening (h : Reachable lib s) : s.Opening :=
  h.move (fun _ _ _ _ _ hx => absurd hx List.not_mem_nil) fun _ _ _ hr hi hm => hi.move hr hm

end Session

end AnvilRing
