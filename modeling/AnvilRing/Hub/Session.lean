import AnvilRing.Hub.Stream
import AnvilRing.Lib.Machine
import Mathlib.Data.Finset.Basic
import Mathlib.Data.Finset.Card

/-!
# A hub session as a machine

One `LiveSession` with everything that runs on it: the session loop of `handle_tether` and its
teardown, the WebSocket writer, a forward in progress, every stream's upload task, caller and
guard, and the `close` that a registry operation makes.  The tasks interleave freely: an `Action`
names the task that moves, and `Session.step` moves it to its next access to shared memory.  The
tether is any peer: `recv` brings any message at any time.

* `Session.takeUp`, `Session.loopStep`   the session loop on a stream frame;
* `Session.forwardStep`                  `start_forward` behind the reserved permit;
* `Session.uploadStep`, `guardStep`      the upload task and `StreamGuard::drop`;
* `Session.closeStep`                    `LiveSession::close` after its drain;
* `Session.since`                        the frames for a stream taken up since its registration.
-/

namespace AnvilRing
open Wire

/-- `tunnel::MAX_CONCURRENT_STREAMS` -/
def maxConcurrentStreams : Nat := 64

/-- `COMMAND_CHANNEL_CAPACITY` -/
def commandChannelCapacity : Nat := 256

/-- the frame is about stream `i` -/
def concerns (i : UInt16) : Frame → Bool
  | .respHead s _ => s == i
  | .data s _ => s == i
  | .end s _ => s == i
  | _ => false

/-! ## program counters -/

/-- the session loop of `handle_tether` -/
inductive LoopPc where
  /-- at `select!` -/
  | select
  /-- a stream frame was received; its stream is not looked up yet -/
  | frame (f : Frame)
  | respHead (id : UInt16) (head : Bytes)
  | data (id : UInt16) (bytes : Bytes)
  /-- inside `st.complete()` / `st.fail()`; `reply` is the END to send after the removal -/
  | terminate (id : UInt16) (v : Verdict) (stage : TermStage) (reply : Option Bytes)
  | remove (id : UInt16) (reply : Option Bytes)
  | reply (id : UInt16) (reason : Bytes)
  /-- out of the loop: the teardown runs -/
  | exited
  /-- `session.close()` returned -/
  | closed
  /-- detached from the registry -/
  | finished
  deriving DecidableEq, Repr

/-- a call of `LiveSession::close` -/
inductive ClosePc where
  | idle
  /-- the map is drained; the head of `todo` is being failed -/
  | failing (drained todo : List UInt16) (stage : TermStage)
  | returned (drained : List UInt16)
  deriving DecidableEq, Repr

/-- a forward on this session, from its permit on -/
inductive ForwardPc where
  | idle
  | reserved (req : Request)
  | allocated (req : Request) (id : UInt16)
  | admitted (id : UInt16)
  | opened (id : UInt16)
  | spawned (id : UInt16)
  | returned (r : Except ForwardError UInt16)
  deriving DecidableEq, Repr

/-- why the loop leaves its `select!` without a frame -/
inductive ExitCause where
  | leaseExpired
  /-- `abort_rx.changed()` -/
  | sessionCancelled
  | notActive
  | silent
  | writerClosed
  /-- the WebSocket failed or ended -/
  | streamError
  deriving DecidableEq, Repr

structure Session where
  /-- locals of `handle_tether`: the lease's tether id and the credential of HELLO -/
  tetherId : String
  credential : Bytes
  /-- the command queue; its receiver is the WebSocket writer -/
  tx : Chan Frame := {}
  /-- the watch cell behind `abort_tx` -/
  abort : Bool := false
  lastSeen : Nat
  /-- the keys of the stream map; the state an id maps to is `state id` -/
  streams : Finset UInt16 := ∅
  closed : Bool := false
  nextId : Nat := 1
  state : UInt16 → StreamState
  loop : LoopPc := .select
  forward : ForwardPc := .idle
  /-- the `close` of the teardown -/
  ownClose : ClosePc := .idle
  /-- the `close` of the registry operation that displaces the session -/
  registryClose : ClosePc := .idle
  /-- history: the stream frames that the loop has taken up, in the order of receipt -/
  received : List Frame := []

/-- no request: the state of an id that was never registered -/
def unusedStream : StreamState := { request := ⟨[], [], true⟩, body := [] }

namespace Session

/-- the session that `attach` installs -/
def new (tetherId : String) (credential : Bytes) (now : Nat) : Session :=
  { tetherId := tetherId, credential := credential, lastSeen := now,
    state := fun _ => unusedStream }

def setState (s : Session) (i : UInt16) (st : StreamState) : Session :=
  { s with state := Function.update s.state i st }

@[simp] theorem setState_self (s : Session) (i : UInt16) (st : StreamState) :
    (s.setState i st).state i = st := Function.update_self ..

theorem setState_of_ne (s : Session) {i j : UInt16} (st : StreamState) (h : j ≠ i) :
    (s.setState i st).state j = s.state j := Function.update_of_ne h ..

/-- what an update of stream `i` leaves alone in stream `i` it leaves alone in every stream -/
theorem setState_apply {α : Type*} (p : StreamState → α) (s : Session) {i : UInt16}
    {st : StreamState} (h : p st = p (s.state i)) (j : UInt16) :
    p ((s.setState i st).state j) = p (s.state j) := by
  by_cases hj : j = i
  · subst hj
    rw [setState_self, h]
  · rw [setState_of_ne s st hj]

theorem forall_setState {P : UInt16 → StreamState → Prop} {s : Session} {i : UInt16}
    {st : StreamState} (h : ∀ j, P j (s.state j)) (hi : P i st) (j : UInt16) :
    P j ((s.setState i st).state j) := by
  by_cases hj : j = i
  · subst hj
    rwa [setState_self]
  · rw [setState_of_ne s st hj]
    exact h j

/-- the frames for stream `i` taken up since it was registered -/
def since (s : Session) (i : UInt16) : List Frame :=
  (s.received.drop (s.state i).start).filter (concerns i)

/-! ## the session loop -/

/-- `session.tx.try_send(frame)` on the loop: failing to queue a control frame ends the session -/
def loopSend (s : Session) (f : Frame) : Session :=
  match s.tx.trySend commandChannelCapacity f with
  | .ok tx => { s with tx := tx, loop := .select }
  | .error _ => { s with loop := .exited }

def invalidHead : Bytes := ascii "invalid response head"

def callerUnavailable : Bytes := ascii "caller unavailable or response queue full"

/-- a message from the tether arrives at `select!`, at time `now` -/
def recv (s : Session) (m : Message) (now : Nat) : Option Session :=
  if s.loop = .select then
    match hubDecode m with
    | .error _ => some { s with loop := .exited }
    | .ok none => some s
    | .ok (some f) =>
      match f with
      | .ping => some (s.loopSend .pong)
      | .pong => some { s with lastSeen := now }
      | .respHead _ _ => some { s with loop := .frame f }
      | .data _ _ => some { s with loop := .frame f }
      | .end _ _ => some { s with loop := .frame f }
      -- GOAWAY ends the session; OPEN, HALF_END, HELLO and WELCOME are protocol violations
      | _ => some { s with loop := .exited }
  else none

/-- look the frame's stream up: what the loop does next -/
def takeUp (s : Session) (f : Frame) : LoopPc :=
  match f with
  | .respHead id head => if id ∈ s.streams then .respHead id head else .select
  | .data id bytes =>
    if id ∈ s.streams then .data id bytes else .remove id (some callerUnavailable)
  | .end id reason =>
    if id ∈ s.streams then
      .terminate id (if reason = [] then .complete else .fail) .completed none
    else .select
  | _ => .select

/-- `parse_head` and the filter behind it: a final status, nothing after the head, no head yet -/
def acceptHead (lib : HttpLib) (st : StreamState) (head : Bytes) : Option HttpResponse :=
  match parseHead lib head with
  | some (res, rest) => if 200 ≤ res.status ∧ rest = [] ∧ st.head = none then some res else none
  | none => none

/-- `st.head.is_some() && st.chunk_tx.try_send(chunk).is_ok()` -/
def acceptData (st : StreamState) (bytes : Bytes) : Option StreamState :=
  if st.head.isSome then
    match st.chunks.trySend chunkCapacity (.chunk bytes) with
    | .ok c => some { st with chunks := c }
    | .error _ => none
  else none

/-- the loop inside the arm of a stream frame -/
def loopStep (lib : HttpLib) (s : Session) : Option Session :=
  match s.loop with
  | .frame f => some { s with loop := s.takeUp f, received := s.received ++ [f] }
  | .respHead id head =>
    match acceptHead lib (s.state id) head with
    | some res =>
      some { s.setState id { s.state id with head := some res } with loop := .select }
    | none => some { s with loop := .terminate id .fail .completed (some invalidHead) }
  | .data id bytes =>
    match acceptData (s.state id) bytes with
    | some st => some { s.setState id st with loop := .select }
    | none => some { s with loop := .terminate id .fail .completed (some callerUnavailable) }
  | .terminate id v stage reply =>
    some { s.setState id ((s.state id).terminate v stage) with
      loop := stage.next.elim (.remove id reply) fun next => .terminate id v next reply }
  | .remove id reply =>
    some { s with
      streams := s.streams.erase id
      loop := reply.elim .select (.reply id) }
  | .reply id reason => some (s.loopSend (.end id reason))
  | _ => none

/-- the tick sends a PING -/
def tickPing (s : Session) : Option Session :=
  if s.loop = .select then some (s.loopSend .ping) else none

def exit (s : Session) (cause : ExitCause) : Option Session :=
  if s.loop = .select
      ∧ (cause = .sessionCancelled → s.abort = true)
      ∧ (cause = .writerClosed → s.tx.rxClosed = true) then
    some { s with loop := .exited }
  else none

/-! ## closing -/

/-- the locked part of `close`: `closed` is set and the map drained, in the order `todo` -/
def drain (s : Session) (todo : List UInt16) : Option Session :=
  if todo.Nodup ∧ todo.toFinset = s.streams then some { s with closed := true, streams := ∅ }
  else none

/-- one effect of failing the drained streams, one stream after the other -/
def closeStep (s : Session) (drained todo : List UInt16) (stage : TermStage) : Session × ClosePc :=
  match todo with
  | [] => (s, .returned drained)
  | i :: rest =>
    (s.setState i ((s.state i).terminate .fail stage),
      stage.next.elim (.failing drained rest .completed) (.failing drained (i :: rest)))

/-- the `close` of the teardown, then the detach -/
def teardownStep (s : Session) (order : List UInt16) : Option Session :=
  match s.loop, s.ownClose with
  | .exited, .idle =>
    (s.drain order).map fun t => { t with ownClose := .failing order order .completed }
  | .exited, .failing drained todo stage =>
    let r := s.closeStep drained todo stage
    some { r.1 with ownClose := r.2 }
  | .exited, .returned _ => some { s with loop := .closed }
  | .closed, _ => some { s with loop := .finished }
  | _, _ => none

/-- the `close` of a registry operation, then `abort_tx.send(true)` -/
def registryStep (s : Session) (order : List UInt16) : Option Session :=
  match s.registryClose with
  | .idle =>
    (s.drain order).map fun t => { t with registryClose := .failing order order .completed }
  | .failing drained todo stage =>
    let r := s.closeStep drained todo stage
    some { r.1 with registryClose := r.2 }
  | .returned _ => some { s with abort := true }

/-! ## a forward -/

/-- `reserve_stream_start` -/
def reserve (s : Session) (req : Request) : Option Session :=
  if s.forward = .idle then
    match s.tx.tryReserve commandChannelCapacity with
    | .ok tx => some { s with tx := tx, forward := .reserved req }
    | .error .full => some { s with forward := .returned (.error .tetherBusy) }
    | .error .closed => some { s with forward := .returned (.error .tetherGone) }
  else none

/-- the id of the next stream: refused rather than wrapped past 65535 -/
def allocate (s : Session) (req : Request) : Session :=
  if 65535 < s.nextId then
    { s with tx := s.tx.dropPermit, forward := .returned (.error .idhausted) }
  else
    { s with nextId := s.nextId + 1, forward := .allocated req (UInt16.ofNat s.nextId) }

/-- `LiveSession::admit`; a refusal drops the permit -/
def admitStream (s : Session) (req : Request) (id : UInt16) : Session :=
  if s.closed then { s with tx := s.tx.dropPermit, forward := .returned (.error .tetherGone) }
  else if maxConcurrentStreams ≤ s.streams.card then
    { s with tx := s.tx.dropPermit, forward := .returned (.error .tetherBusy) }
  else
    { s.setState id (StreamState.fresh req s.received.length) with
      streams := insert id s.streams, forward := .admitted id }

/-- `start_forward`, one access to shared memory at a time -/
def forwardStep (s : Session) : Option Session :=
  match s.forward with
  | .reserved req => some (s.allocate req)
  | .allocated req id => some (s.admitStream req id)
  | .admitted id =>
    some { s with
      tx := s.tx.sendPermit (.open id (s.state id).request.head)
      forward := .opened id }
  | .opened id =>
    some { s.setState id { s.state id with guardPc := .held, uploadPc := .reading } with
      forward := .spawned id }
  | .spawned id =>
    some { s.setState id { (s.state id).installUpload with callerPc := .waitHead } with
      forward := .returned (.ok id) }
  | .returned _ => some { s with forward := .idle }
  | .idle => none

/-! ## the upload task and the guard -/

def uploadFailed : Bytes := ascii "request upload failed"

/-- the upload task of stream `i` -/
def uploadStep (s : Session) (i : UInt16) : Option Session :=
  let st := s.state i
  match st.uploadPc with
  | .reading =>
    match st.body with
    | .data b :: rest =>
      -- DATA must never collide with the empty HALF_END sentinel
      some (s.setState i { st with
        body := rest, uploadPc := if b = [] then .reading else .sending (.data i b) })
    | .trailers :: rest => some (s.setState i { st with body := rest })
    | [] =>
      some (s.setState i { st with
        uploadPc := if st.request.bodyOk then .sending (.halfEnd i) else .erred .callerBody })
  | .sending f =>
    if s.tx.rxClosed then some (s.setState i { st with uploadPc := .erred .tetherGone })
    else if s.tx.canSend commandChannelCapacity then
      some { s.setState i { st with
          uploadPc := if f = .halfEnd i then .done else .reading } with
        tx := s.tx.push f }
    else none
  | .erred _ =>
    some (s.setState i { st with uploadPc := if st.completed then .done else .failing .completed })
  | .failing stage =>
    some (s.setState i { st.terminate .fail stage with
      uploadPc := stage.next.elim .ending .failing })
  | .ending =>
    match s.tx.trySend commandChannelCapacity (.end i uploadFailed) with
    | .ok tx => some { s.setState i { st with uploadPc := .done } with tx := tx }
    | .error .full => some (s.setState i { st with uploadPc := .aborting })
    | .error .closed => some (s.setState i { st with uploadPc := .done })
  | .aborting => some { s.setState i { st with uploadPc := .done } with abort := true }
  | _ => none

/-- an aborted task is cancelled at its next await -/
def uploadCancel (s : Session) (i : UInt16) : Option Session :=
  let st := s.state i
  if st.uploadAbort then
    match st.uploadPc with
    | .reading => some (s.setState i { st with uploadPc := .cancelled })
    | .sending _ => some (s.setState i { st with uploadPc := .cancelled })
    | _ => none
  else none

/-- `StreamGuard::drop` of stream `i` -/
def guardStep (s : Session) (i : UInt16) : Option Session :=
  let st := s.state i
  match st.guardPc with
  | .abortUpload => some (s.setState i { st with uploadAbort := true, guardPc := .remove })
  | .remove =>
    some { s.setState i { st with guardPc := .check } with streams := s.streams.erase i }
  | .check =>
    some (s.setState i { st with guardPc := if st.completed then .dropped else .ending })
  | .ending =>
    match s.tx.trySend commandChannelCapacity (.end i []) with
    | .ok tx => some { s.setState i { st with guardPc := .dropped } with tx := tx }
    | .error .full => some (s.setState i { st with guardPc := .aborting })
    | .error .closed => some (s.setState i { st with guardPc := .dropped })
  | .aborting => some { s.setState i { st with guardPc := .dropped } with abort := true }
  | _ => none

/-- `handle` on stream `i` -/
def callerStep (s : Session) (i : UInt16) (budget : Bool) : Option Session :=
  ((s.state i).handle budget).map (s.setState i)

/-- the caller of stream `i` goes away -/
def callerDrop (s : Session) (i : UInt16) : Option Session :=
  ((s.state i).callerDrop).map (s.setState i)

/-- the writer takes the next command to the WebSocket -/
def write (s : Session) : Option Session :=
  if s.tx.rxClosed then none else s.tx.recv.map fun e => { s with tx := e.2 }

/-- the writer ends: the WebSocket sink failed, or the teardown dropped it -/
def writerEnd (s : Session) : Session := { s with tx := s.tx.close }

end Session

/-! ## the machine -/

inductive SessionAction where
  | recv (m : Message) (now : Nat)
  | loop
  | tickPing
  | exit (cause : ExitCause)
  | teardown (order : List UInt16)
  | registryClose (order : List UInt16)
  | reserve (req : Request)
  | forward
  | upload (i : UInt16)
  | uploadCancel (i : UInt16)
  | guard (i : UInt16)
  | caller (i : UInt16) (budget : Bool)
  | callerDrop (i : UInt16)
  | write
  | writerEnd
  deriving DecidableEq, Repr

namespace Session

def step (lib : HttpLib) (s : Session) : SessionAction → Option Session
  | .recv m now => s.recv m now
  | .loop => s.loopStep lib
  | .tickPing => s.tickPing
  | .exit cause => s.exit cause
  | .teardown order => s.teardownStep order
  | .registryClose order => s.registryStep order
  | .reserve req => s.reserve req
  | .forward => s.forwardStep
  | .upload i => s.uploadStep i
  | .uploadCancel i => s.uploadCancel i
  | .guard i => s.guardStep i
  | .caller i budget => s.callerStep i budget
  | .callerDrop i => s.callerDrop i
  | .write => s.write
  | .writerEnd => some s.writerEnd

/-- a session as `attach` installs it -/
def Initial (s : Session) : Prop := ∃ id cred now, s = new id cred now

/-- the states of all runs of a hub session -/
abbrev Reachable (lib : HttpLib) (s : Session) : Prop := Machine.Reachable (step lib) Initial s

end Session

end AnvilRing
