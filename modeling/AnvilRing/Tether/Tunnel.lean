import AnvilRing.Hub.Session
import AnvilRing.Lib.KeyMap

/-!
# The tether's side of a session

`run_session` with everything that runs beside it: the pump task of every stream, the request body
that Hyper polls, and the WebSocket writer.  The engine is any HTTP server: an `EngineEvent` is what
the exchange gives its pump next.  The map of streams belongs to the loop alone, so the loop works
on it in the step in which it takes a message.

* `Tunnel.handleFrame`   an arm of `match frame`;
* `Tunnel.enqueue`       `enqueue_stream_input`;
* `Pump.forwardEngine`   the pump between two frames;
* `Pump.pollInput`       the `unfold` behind the engine's request body.
-/

namespace AnvilRing
open Wire

/-- `STREAM_INPUT_CAPACITY` -/
def streamInputCapacity : Nat := 64

/-- `WS_WRITER_CAPACITY` -/
def wsWriterCapacity : Nat := 256

/-! ## pumps -/

/-- the task that an OPEN spawns -/
inductive PumpPc where
  /-- in `forward_engine`; `answered` once the response head was sent -/
  | engine (answered : Bool)
  /-- at `reply.send(frame).await` inside `forward_engine` -/
  | sending (f : Frame)
  /-- at the `reply.send(END).await` behind it -/
  | ending (reason : Bytes)
  /-- about to `completed.send(id)` -/
  | completing
  | done
  | cancelled
  deriving DecidableEq, Repr

/-- the state of the `unfold` -/
inductive InputPc where
  /-- `Some(rx)` -/
  | receiving
  /-- `None`, behind the error item -/
  | failed
  /-- it ended, or Hyper dropped it -/
  | finished
  deriving DecidableEq, Repr

/-- what the HTTP exchange with the engine gives its pump -/
inductive EngineEvent where
  | head (bytes : Bytes)
  | chunk (bytes : Bytes)
  | finish
  | fail
  deriving DecidableEq, Repr

structure Pump where
  id : UInt16
  head : Bytes
  /-- the queue between its `StreamHandle` and the request body -/
  input : Chan Bytes := {}
  /-- its `StreamHandle` was dropped: the task is told to abort, and the sender is gone -/
  dropped : Bool := false
  pc : PumpPc := .engine false
  inputPc : InputPc := .receiving
  /-- the polls of the request body that did not return `Pending`, oldest first -/
  polls : List PollEvent := []

def engineFailed : Bytes := ascii "engine request or response failed"

namespace Pump

/-- `forward_engine`: an empty chunk is skipped, and every error ends the exchange -/
def forwardEngine (p : Pump) (e : EngineEvent) : Option Pump :=
  match p.pc, e with
  | .engine false, .head head => some { p with pc := .sending (.respHead p.id head) }
  | .engine true, .chunk bytes =>
    some { p with pc := if bytes = [] then .engine true else .sending (.data p.id bytes) }
  | .engine true, .finish => some { p with pc := .ending [] }
  | .engine _, .fail => some { p with pc := .ending engineFailed }
  | _, _ => none

/-- `rx.recv()` in the `unfold`: an empty vector is HALF_END, a sender gone is an error -/
def pollInput (p : Pump) : Option Pump :=
  match p.inputPc with
  | .receiving =>
    match p.input.recv with
    | some (bytes, input) =>
      if bytes = [] then
        some { p with input := input.close, inputPc := .finished, polls := p.polls ++ [.eof] }
      else some { p with input := input, polls := p.polls ++ [.chunk bytes] }
    | none =>
      if p.dropped then
        some { p with input := p.input.close, inputPc := .failed, polls := p.polls ++ [.err] }
      else none
  | .failed => some { p with inputPc := .finished, polls := p.polls ++ [.eof] }
  | .finished => none

/-- an aborted task is cancelled at an await -/
def cancel (p : Pump) : Option Pump :=
  if p.dropped then
    match p.pc with
    | .engine _ => some { p with pc := .cancelled }
    | .sending _ => some { p with pc := .cancelled }
    | .ending _ => some { p with pc := .cancelled }
    | _ => none
  else none

end Pump

/-! ## the session -/

/-- `run_session` -/
inductive TunnelPc where
  /-- at `select!` -/
  | select
  /-- about to `try_send` END for a stream that it refused or gave up -/
  | reply (id : UInt16) (reason : Bytes)
  /-- returned, with the map cleared -/
  | finished
  deriving DecidableEq, Repr

structure Tunnel where
  /-- the writer's queue -/
  tx : Chan Frame := {}
  /-- stream id to the pump that its `StreamHandle` controls -/
  streams : KeyMap UInt16 Nat := .empty
  /-- the stream ids that pumps completed, each with the pump that sent it -/
  completions : List (UInt16 × Nat) := []
  pump : Nat → Pump
  /-- how many pumps were spawned -/
  spawned : Nat := 0
  loop : TunnelPc := .select
  /-- history: the frames that the loop handled -/
  received : List Frame := []

namespace Tunnel

/-- no stream: the state of a pump that was never spawned -/
def unusedPump : Pump := { id := 0, head := [], pc := .done, inputPc := .finished }

/-- a session that has been welcomed -/
def new : Tunnel := { pump := fun _ => unusedPump }

def setPump (t : Tunnel) (k : Nat) (p : Pump) : Tunnel :=
  { t with pump := Function.update t.pump k p }

@[simp] theorem setPump_self (t : Tunnel) (k : Nat) (p : Pump) : (t.setPump k p).pump k = p :=
  Function.update_self ..

theorem setPump_of_ne (t : Tunnel) {k m : Nat} (p : Pump) (h : m ≠ k) :
    (t.setPump k p).pump m = t.pump m := Function.update_of_ne h ..

/-- the loop returns: `streams.clear()` drops every handle -/
def leave (t : Tunnel) : Tunnel :=
  { t with
    streams := .empty
    pump := fun k => { t.pump k with dropped := (t.pump k).dropped || k ∈ t.streams.values }
    loop := .finished }

/-- `tx.try_send(frame)?` -/
def loopSend (t : Tunnel) (f : Frame) : Tunnel :=
  match t.tx.trySend wsWriterCapacity f with
  | .ok tx => { t with tx := tx, loop := .select }
  | .error _ => t.leave

/-- `streams.remove(&id)`: dropping the handle aborts its pump -/
def remove (t : Tunnel) (id : UInt16) : Tunnel :=
  match t.streams.get id with
  | none => t
  | some k =>
    { t.setPump k { t.pump k with dropped := true } with streams := t.streams.remove id }

/-- the pump of an OPEN; a handle that the id had before is dropped by the insertion -/
def spawn (t : Tunnel) (id : UInt16) (head : Bytes) : Tunnel :=
  let u := t.remove id
  { u.setPump u.spawned { id := id, head := head } with
    streams := u.streams.insert id u.spawned, spawned := u.spawned + 1 }

def overloaded : Bytes := ascii "overloaded"

def exceeded : Bytes := ascii "request body exceeded tether backpressure"

/-- `enqueue_stream_input`, and the END behind an overload -/
def enqueue (t : Tunnel) (id : UInt16) (bytes : Bytes) : Tunnel :=
  match t.streams.get id with
  | none => t
  | some k =>
    match (t.pump k).input.trySend streamInputCapacity bytes with
    | .ok input => t.setPump k { t.pump k with input := input }
    | .error .full => { t.remove id with loop := .reply id exceeded }
    | .error .closed => t

/-- the `match frame` of the loop -/
def handleFrame (t : Tunnel) (f : Frame) : Tunnel :=
  match f with
  | .ping => t.loopSend .pong
  | .pong => t
  | .open id head =>
    if maxConcurrentStreams ≤ t.streams.size then { t with loop := .reply id overloaded }
    else t.spawn id head
  | .data id bytes => t.enqueue id bytes
  | .halfEnd id => t.enqueue id []
  | .end id _ => t.remove id
  -- GOAWAY ends the session; RESP_HEAD, HELLO and WELCOME are protocol violations
  | _ => t.leave

/-- a message from the hub arrives at `select!` -/
def recv (t : Tunnel) (m : Message) : Option Tunnel :=
  if t.loop = .select then
    match tetherDecode m with
    | .error _ => some t.leave
    | .ok none => some t
    | .ok (some f) => some { t.handleFrame f with received := t.received ++ [f] }
  else none

/-- the END of `reply` -/
def replyStep (t : Tunnel) : Option Tunnel :=
  match t.loop with
  | .reply id reason => some (t.loopSend (.end id reason))
  | _ => none

/-- a completion arrives at `select!`; the code sees the id only -/
def complete (t : Tunnel) : Option Tunnel :=
  match t.loop, t.completions with
  | .select, (id, _) :: rest => some { t.remove id with completions := rest }
  | _, _ => none

/-- the tick sends a PING -/
def pingTick (t : Tunnel) : Option Tunnel :=
  if t.loop = .select then some (t.loopSend .ping) else none

/-- the lease tick says GOAWAY, if there is room for it -/
def leaseTick (t : Tunnel) : Option Tunnel :=
  if t.loop = .select then
    match t.tx.trySend wsWriterCapacity (.goAway (ascii "lease refresh")) with
    | .ok tx => some { t.leave with tx := tx }
    | .error _ => some t.leave
  else none

/-- the hub is silent, or the WebSocket failed or ended -/
def exit (t : Tunnel) : Option Tunnel := if t.loop = .select then some t.leave else none

/-- pump `k` sends a frame, or learns that the writer is gone -/
def pumpSend (t : Tunnel) (k : Nat) : Option Tunnel :=
  let p := t.pump k
  match p.pc with
  | .sending f =>
    if t.tx.rxClosed then some (t.setPump k { p with pc := .ending engineFailed })
    else if t.tx.canSend wsWriterCapacity then
      some { t.setPump k { p with pc := .engine true } with tx := t.tx.push f }
    else none
  | .ending reason =>
    if t.tx.rxClosed then some (t.setPump k { p with pc := .completing })
    else if t.tx.canSend wsWriterCapacity then
      some { t.setPump k { p with pc := .completing } with tx := t.tx.push (.end p.id reason) }
    else none
  | .completing =>
    some { t.setPump k { p with pc := .done } with completions := t.completions ++ [(p.id, k)] }
  | _ => none

/-- the writer takes the next message to the WebSocket -/
def write (t : Tunnel) : Option Tunnel :=
  if t.tx.rxClosed then none else t.tx.recv.map fun e => { t with tx := e.2 }

/-- the writer ends: the WebSocket sink failed, or the session dropped it -/
def writerEnd (t : Tunnel) : Tunnel := { t with tx := t.tx.close }

end Tunnel

/-! ## the machine -/

inductive TunnelAction where
  | recv (m : Message)
  | reply
  | complete
  | pingTick
  | leaseTick
  | exit
  /-- the engine gives pump `k` something -/
  | engine (k : Nat) (e : EngineEvent)
  | pumpSend (k : Nat)
  | cancel (k : Nat)
  /-- Hyper polls the request body of pump `k` -/
  | poll (k : Nat)
  /-- Hyper drops the request body of pump `k` -/
  | dropInput (k : Nat)
  | write
  | writerEnd
  deriving DecidableEq, Repr

namespace Tunnel

def step (t : Tunnel) : TunnelAction → Option Tunnel
  | .recv m => t.recv m
  | .reply => t.replyStep
  | .complete => t.complete
  | .pingTick => t.pingTick
  | .leaseTick => t.leaseTick
  | .exit => t.exit
  | .engine k e => ((t.pump k).forwardEngine e).map (t.setPump k)
  | .pumpSend k => t.pumpSend k
  | .cancel k => ((t.pump k).cancel).map (t.setPump k)
  | .poll k => ((t.pump k).pollInput).map (t.setPump k)
  | .dropInput k =>
    some (t.setPump k { t.pump k with input := (t.pump k).input.close, inputPc := .finished })
  | .write => t.write
  | .writerEnd => some t.writerEnd

end Tunnel

end AnvilRing
