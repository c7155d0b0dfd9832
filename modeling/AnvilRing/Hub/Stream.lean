import AnvilRing.Message
import AnvilRing.Lib.Chan

/-!
# One caller's stream at the hub

`StreamState` of `hub.rs` with the three tasks that live on it: the upload task spawned by
`start_forward`, the frontend's `handle` (waiting in `Forwarded::head`, then polling `TunnelBody`)
and `StreamGuard::drop`.  Each task is a program counter; one constructor is one point between two
accesses to shared memory.

* `StreamState.terminate`    the three effects of `complete` and `fail`, one at a time;
* `StreamState.poll`         `TunnelBody::poll_next`, one access at a time;
* `StreamState.fresh`        the state that `start_forward` registers;
* `StreamState.Handled`      what one step of the caller's task can do.
-/

namespace AnvilRing
open Wire

/-! ## errors of a forward -/

inductive ForwardError where
  | noTether
  | revoked
  | idhausted
  | tetherGone
  | tetherBusy
  | callerBody
  deriving DecidableEq, Repr

/-- the status that `handle` answers for a refused forward -/
def ForwardError.status : ForwardError → Nat
  | .noTether => badGateway
  | .tetherGone => badGateway
  | .revoked => 503
  | .tetherBusy => 503
  | .idhausted => 429
  | .callerBody => 400

/-! ## the request -/

/-- what `body.frame().await` yields: trailers are read and skipped -/
inductive CallerFrame where
  | data (bytes : Bytes)
  | trailers
  deriving DecidableEq, Repr

/-- A caller's request: the head that `encode_request_head` writes, the frames of the body, and
whether the body ends cleanly or with a read error. -/
structure Request where
  head : Bytes
  body : List CallerFrame
  bodyOk : Bool
  deriving DecidableEq, Repr

def CallerFrame.bytes : CallerFrame → Bytes
  | .data b => b
  | .trailers => []

/-- the bytes of a caller's body -/
def bodyBytes (fs : List CallerFrame) : Bytes := fs.flatMap CallerFrame.bytes

/-! ## the outcome cell -/

/-- `StreamFailure::outcome`: 0, 1, 2 -/
inductive Outcome where
  | pending
  | complete
  | failed
  deriving DecidableEq, Repr

/-- which of `complete` and `fail` is running -/
inductive Verdict where
  | complete
  | fail
  deriving DecidableEq, Repr

def Verdict.outcome : Verdict → Outcome
  | .complete => .complete
  | .fail => .failed

/-- `completed.store(true)`, then `upload.take()` with its abort, then `outcome.store` -/
inductive TermStage where
  | completed
  | upload
  | outcome
  deriving DecidableEq, Repr

def TermStage.next : TermStage → Option TermStage
  | .completed => some .upload
  | .upload => some .outcome
  | .outcome => none

/-! ## the tasks -/

/-- the upload task of `start_forward` -/
inductive UploadPc where
  /-- not spawned yet -/
  | absent
  /-- at `body.frame().await` -/
  | reading
  /-- at `upload_tx.send(frame).await` -/
  | sending (f : Frame)
  /-- the body loop ended in an error; `completed` is not read yet -/
  | erred (e : ForwardError)
  /-- inside `upload_state.fail()` -/
  | failing (stage : TermStage)
  /-- about to `try_send` END -/
  | ending
  /-- END found the command queue full: about to raise `abort_tx` -/
  | aborting
  | done
  | cancelled
  deriving DecidableEq, Repr

/-- `StreamGuard::drop` -/
inductive GuardPc where
  | absent
  | held
  | abortUpload
  | remove
  | check
  | ending
  | aborting
  | dropped
  deriving DecidableEq, Repr

/-- `TunnelBody::poll_next` on a live body -/
inductive BodyPc where
  /-- between polls, the receiver in its slot -/
  | idle
  /-- `poll_failed` returned false -/
  | polling
  /-- `is_complete` was read and acted on -/
  | draining
  /-- the receiver was not put back -/
  | empty
  deriving DecidableEq, Repr

/-- `frontend::handle` after `forward_any` returned `Ok` -/
inductive CallerPc where
  | absent
  /-- in `Forwarded::head`, about to read the head cell -/
  | waitHead
  /-- the head cell was empty: about to read `completed` -/
  | checkCompleted
  | body (pc : BodyPc)
  | gone
  deriving DecidableEq, Repr

inductive ChunkOrEnd where
  | chunk (bytes : Bytes)
  | «end»
  deriving DecidableEq, Repr

/-- what a poll of the body returned, other than `Pending` -/
inductive PollEvent where
  | chunk (bytes : Bytes)
  | err
  | eof
  deriving DecidableEq, Repr

/-- the bytes of a `Ready(Some(Ok(_)))` -/
def PollEvent.item : PollEvent → Option Bytes
  | .chunk b => some b
  | _ => none

/-- a body with these polls ended cleanly: one returned `Ready(None)` and none before it an error -/
def EndsCleanly (polls : List PollEvent) : Prop :=
  ∃ pre post, polls = pre ++ .eof :: post ∧ .err ∉ pre

/-- the chunks that the polls of a body yielded -/
def yields (polls : List PollEvent) : List Bytes := polls.filterMap PollEvent.item

section
variable {polls : List PollEvent} {e : PollEvent}

theorem EndsCleanly.mem (h : EndsCleanly polls) : .eof ∈ polls := by
  obtain ⟨pre, post, rfl, _⟩ := h
  exact List.mem_append_right _ List.mem_cons_self

/-- one more poll ends the body only if it returned `Ready(None)` and nothing failed before -/
theorem EndsCleanly.of_snoc (h : EndsCleanly (polls ++ [e])) :
    EndsCleanly polls ∨ (e = .eof ∧ .err ∉ polls) := by
  obtain ⟨pre, post, he, hn⟩ := h
  rcases List.eq_nil_or_concat post with rfl | ⟨post', x, rfl⟩
  · have h2 := List.append_inj' he rfl
    right
    exact ⟨List.head_eq_of_cons_eq h2.2, h2.1 ▸ hn⟩
  · left
    rw [List.concat_eq_append, ← List.cons_append, ← List.append_assoc] at he
    exact ⟨pre, post', (List.append_inj' he rfl).1, hn⟩

theorem EndsCleanly.snoc (h : EndsCleanly polls) (e : PollEvent) : EndsCleanly (polls ++ [e]) := by
  obtain ⟨pre, post, rfl, hn⟩ := h
  refine ⟨pre, post ++ [e], ?_, hn⟩
  rw [List.append_assoc, List.cons_append]

theorem yields_snoc (polls : List PollEvent) (e : PollEvent) :
    yields (polls ++ [e]) = yields polls ++ e.item.toList := by
  unfold yields
  rw [List.filterMap_append]
  cases e <;> rfl

end

/-- the response that `handle` builds: status and fields -/
abbrev CallerResponse := HttpResponse

structure StreamState where
  request : Request
  /-- frames of the caller's body not read yet -/
  body : List CallerFrame
  chunks : Chan ChunkOrEnd := {}
  head : Option HttpResponse := none
  completed : Bool := false
  outcome : Outcome := .pending
  /-- the `upload` cell holds the task's abort handle -/
  uploadCell : Bool := false
  /-- the upload task was told to abort -/
  uploadAbort : Bool := false
  uploadPc : UploadPc := .absent
  guardPc : GuardPc := .absent
  callerPc : CallerPc := .absent
  /-- the response given to the caller -/
  answer : Option CallerResponse := none
  /-- the polls of the body that did not return `Pending`, oldest first -/
  polls : List PollEvent := []
  /-- history: the stream was put into the map -/
  registered : Bool := false
  /-- history: how many frames the session had taken up by then -/
  start : Nat := 0

/-- capacity of the response queue -/
def chunkCapacity : Nat := 64

namespace StreamState

/-- `StreamState::new`, registered when the session had taken up `start` frames -/
def fresh (req : Request) (start : Nat) : StreamState :=
  { request := req, body := req.body, registered := true, start := start }

/-- one effect of `complete` / `fail` -/
def terminate (v : Verdict) (stage : TermStage) (st : StreamState) : StreamState :=
  match stage with
  | .completed => { st with completed := true }
  | .upload => { st with uploadCell := false, uploadAbort := st.uploadAbort || st.uploadCell }
  | .outcome => { st with outcome := v.outcome }

/-- all three effects at once, for a call that nothing interleaves with -/
def terminated (v : Verdict) (st : StreamState) : StreamState :=
  terminate v .outcome (terminate v .upload (terminate v .completed st))

/-- `install_upload`, under the lock of the `upload` cell -/
def installUpload (st : StreamState) : StreamState :=
  if st.completed then { st with uploadAbort := true } else { st with uploadCell := true }

/-- the head a caller is answered with: the engine's status, without hop-by-hop fields -/
def respond (head : HttpResponse) : CallerResponse :=
  { status := callerStatusFor (some head.status)
    headers := head.headers.filter fun f => !isHopByHop f.1 }

/-- `error_response(caller_status_for(None))` -/
def noHeadResponse : CallerResponse :=
  { status := callerStatusFor none, headers := [(ascii "content-length", ascii "0")] }

/-- `poll_recv` and what `poll_next` makes of its answer; `budget` says whether the task still has
cooperative budget (without it the receiver reports `Pending` whatever it holds) -/
def pollRecv (budget : Bool) (st : StreamState) : StreamState :=
  if budget then
    match st.chunks.recv with
    | some (.chunk b, c) =>
      { st with chunks := c, polls := st.polls ++ [.chunk b], callerPc := .body .idle }
    | some (.end, c) =>
      { st with chunks := c.close, polls := st.polls ++ [.eof], callerPc := .body .empty }
    | none =>
      if st.chunks.rxClosed then
        { st with polls := st.polls ++ [.eof], callerPc := .body .empty }
      else { st with callerPc := .body .idle }
  else { st with callerPc := .body .idle }

/-- `TunnelBody::poll_next`, up to its next access to shared memory -/
def poll (budget : Bool) (pc : BodyPc) (st : StreamState) : StreamState :=
  match pc with
  | .idle =>
    if st.outcome = .failed then
      -- the receiver is dropped, not put back
      { st with
        chunks := st.chunks.close, polls := st.polls ++ [.err], callerPc := .body .empty }
    else { st with callerPc := .body .polling }
  | .polling =>
    { st with
      chunks := if st.outcome = .complete then st.chunks.close else st.chunks
      callerPc := .body .draining }
  | .draining => st.pollRecv budget
  | .empty => { st with polls := st.polls ++ [.eof] }

/-- the next step of `handle`; `Forwarded` is dropped when `head()` returned `None` -/
def handle (budget : Bool) (st : StreamState) : Option StreamState :=
  match st.callerPc with
  | .waitHead =>
    match st.head with
    | some h => some { st with answer := some (respond h), callerPc := .body .idle }
    | none => some { st with callerPc := .checkCompleted }
  | .checkCompleted =>
    if st.completed then
      some { st with answer := some noHeadResponse, callerPc := .gone, guardPc := .abortUpload }
    else some { st with callerPc := .waitHead }
  | .body pc => some (st.poll budget pc)
  | .absent => none
  | .gone => none

/-- the caller goes away: the receiver (if the body has it) and then the guard are dropped -/
def callerDrop (st : StreamState) : Option StreamState :=
  match st.callerPc with
  | .waitHead => some { st with callerPc := .gone, guardPc := .abortUpload }
  | .body .idle =>
    some { st with chunks := st.chunks.close, callerPc := .gone, guardPc := .abortUpload }
  | .body .empty => some { st with callerPc := .gone, guardPc := .abortUpload }
  | _ => none

/-! ## what the steps leave alone -/

theorem terminate_eq (v : Verdict) (stage : TermStage) (st : StreamState) :
    st.terminate v stage = { st with
      completed := (st.terminate v stage).completed
      uploadCell := (st.terminate v stage).uploadCell
      uploadAbort := (st.terminate v stage).uploadAbort
      outcome := (st.terminate v stage).outcome } := by
  cases stage <;> rfl

theorem installUpload_eq (st : StreamState) :
    st.installUpload = { st with
      uploadCell := st.installUpload.uploadCell, uploadAbort := st.installUpload.uploadAbort } := by
  unfold installUpload
  split <;> rfl

/-- what one step of `handle` can do -/
inductive Handled (st : StreamState) : StreamState → Prop where
  -- `Forwarded::head`
  | head {h : HttpResponse} (hpc : st.callerPc = .waitHead) (hh : st.head = some h) :
      Handled st { st with answer := some (respond h), callerPc := .body .idle }
  | noHead (hpc : st.callerPc = .waitHead) (hh : st.head = none) :
      Handled st { st with callerPc := .checkCompleted }
  | headNone (hpc : st.callerPc = .checkCompleted) (hc : st.completed = true) :
      Handled st
        { st with answer := some noHeadResponse, callerPc := .gone, guardPc := .abortUpload }
  | waits (hpc : st.callerPc = .checkCompleted) : Handled st { st with callerPc := .waitHead }
  -- `TunnelBody::poll_next`
  | failed (hpc : st.callerPc = .body .idle) (ho : st.outcome = .failed) :
      Handled st { st with
        chunks := st.chunks.close, polls := st.polls ++ [.err], callerPc := .body .empty }
  | live (hpc : st.callerPc = .body .idle) : Handled st { st with callerPc := .body .polling }
  | complete (hpc : st.callerPc = .body .polling) (ho : st.outcome = .complete) :
      Handled st { st with chunks := st.chunks.close, callerPc := .body .draining }
  | open (hpc : st.callerPc = .body .polling) : Handled st { st with callerPc := .body .draining }
  | chunk {b : Bytes} {c : Chan ChunkOrEnd} (hpc : st.callerPc = .body .draining)
      (hr : st.chunks.recv = some (.chunk b, c)) :
      Handled st { st with
        chunks := c, polls := st.polls ++ [.chunk b], callerPc := .body .idle }
  | ended {c : Chan ChunkOrEnd} (hpc : st.callerPc = .body .draining)
      (hr : st.chunks.recv = some (.end, c)) :
      Handled st { st with
        chunks := c.close, polls := st.polls ++ [.eof], callerPc := .body .empty }
  | drained (hpc : st.callerPc = .body .draining) (hr : st.chunks.recv = none)
      (hx : st.chunks.rxClosed = true) :
      Handled st { st with polls := st.polls ++ [.eof], callerPc := .body .empty }
  | pending (hpc : st.callerPc = .body .draining) : Handled st { st with callerPc := .body .idle }
  | empty (hpc : st.callerPc = .body .empty) : Handled st { st with polls := st.polls ++ [.eof] }

theorem handled_poll {budget : Bool} {st : StreamState} {pc : BodyPc}
    (hpc : st.callerPc = .body pc) : Handled st (st.poll budget pc) := by
  cases pc with
  | idle =>
    by_cases ho : st.outcome = .failed
    · have he : st.poll budget .idle = { st with
          chunks := st.chunks.close, polls := st.polls ++ [.err], callerPc := .body .empty } :=
        if_pos ho
      rw [he]
      exact .failed hpc ho
    · have he : st.poll budget .idle = { st with callerPc := .body .polling } := if_neg ho
      rw [he]
      exact .live hpc
  | polling =>
    unfold poll
    by_cases ho : st.outcome = .complete
    · simp only [if_pos ho]
      exact .complete hpc ho
    · simp only [if_neg ho]
      exact .open hpc
  | draining =>
    show Handled st (st.pollRecv budget)
    unfold pollRecv
    split
    · split
      · next hr => exact .chunk hpc hr
      · next hr => exact .ended hpc hr
      · next hr =>
        split
        · next hx => exact .drained hpc hr hx
        · exact .pending hpc
    · exact .pending hpc
  | empty => exact .empty hpc

/-- a step of `handle` is one of these -/
theorem handled {budget : Bool} {st st' : StreamState} (h : st.handle budget = some st') :
    Handled st st' := by
  unfold handle at h
  split at h
  · next hpc =>
    split at h
    · next hh => exact Option.some.inj h ▸ .head hpc hh
    · next hh => exact Option.some.inj h ▸ .noHead hpc hh
  · next hpc =>
    split at h
    · next hc => exact Option.some.inj h ▸ .headNone hpc hc
    · exact Option.some.inj h ▸ .waits hpc
  · next hpc => exact Option.some.inj h ▸ handled_poll hpc
  · cases h
  · cases h

/-- `handle` works on the caller's side of the stream only -/
theorem handle_eq {budget : Bool} {st st' : StreamState} (h : st.handle budget = some st') :
    st' = { st with
      chunks := st'.chunks, guardPc := st'.guardPc, callerPc := st'.callerPc
      answer := st'.answer, polls := st'.polls } := by
  cases handled h <;> rfl

/-- the caller's side only takes from the response queue -/
theorem handle_log {budget : Bool} {st st' : StreamState} (h : st.handle budget = some st') :
    st'.chunks.log = st.chunks.log := by
  cases handled h with
  | chunk _ hr => exact Chan.log_recv hr
  | ended _ hr => exact (Chan.log_close _).trans (Chan.log_recv hr)
  | _ => rfl

theorem callerDrop_log {st st' : StreamState} (h : st.callerDrop = some st') :
    st'.chunks.log = st.chunks.log := by
  unfold callerDrop at h
  split at h <;> cases h <;> rfl

theorem callerDrop_eq {st st' : StreamState} (h : st.callerDrop = some st') :
    st' = { st with
      chunks := st'.chunks, guardPc := .abortUpload, callerPc := .gone } := by
  unfold callerDrop at h
  split at h <;> cases h <;> rfl

/-! ## what the caller saw -/

/-- the caller's body ended cleanly -/
def EndedCleanly (st : StreamState) : Prop := EndsCleanly st.polls

/-- the chunks that the caller's body yielded -/
def yielded (st : StreamState) : List Bytes := yields st.polls

end StreamState

end AnvilRing
