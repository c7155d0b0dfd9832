import AnvilRing.Hub.Stream
import AnvilRing.Lib.Machine
import AnvilRing.Lib.Waker

/-!
# Wake-ups of a response body

A live `TunnelBody` and everything that wakes its reader, one access to shared memory at a time: the
session task, which queues chunks and then completes or fails the stream, any number of other tasks
that fail it, and the consumer, whose every poll may come with another waker.

* `LiveBody.startPoll`, `LiveBody.consume`   `TunnelBody::poll_next` and the receiver's `poll_recv`;
* `LiveBody.send`, `LiveBody.deliver`        the session task: `try_send`, `complete` and `fail`;
* `LiveBody.Reachable.inv`                   what is watched at each point of a poll;
* `no_lost_wakeup`                           a reader that waits is woken, or about to be;
* `LiveBody.step_view`                       without wakers these are the steps of a stream.
-/

namespace AnvilRing
open Wake Wire

/-! ## the machine -/

/-- the session task on this stream -/
inductive DeliveryPc where
  | ready
  /-- `try_send` has its permit -/
  | reserved (c : ChunkOrEnd)
  /-- the value is in the list; the receiver is not woken yet -/
  | pushed
  /-- `try_send` was refused: about to fail the stream -/
  | refused
  /-- the outcome is stored; its waker is not woken yet -/
  | stored
  | ended
  deriving DecidableEq, Repr

/-- the permits that the session task holds -/
def DeliveryPc.permits : DeliveryPc → Nat
  | .reserved _ => 1
  | _ => 0

/-- the task that reads the body -/
inductive ReaderPc where
  /-- between polls; `pending` says whether the last one returned `Pending` -/
  | idle (pending : Bool)
  /-- in `poll_failed`, behind its `register` -/
  | loadFailed
  | loadComplete
  /-- at the start of `poll_recv` -/
  | recv
  /-- the list was empty: about to register with the channel -/
  | register
  | recvAgain
  /-- the list was empty again -/
  | checkIdle
  /-- the receiver was not put back -/
  | taken
  | gone
  deriving DecidableEq, Repr

/-- where `handle` stands meanwhile -/
def ReaderPc.caller : ReaderPc → CallerPc
  | .idle _ => .body .idle
  | .loadFailed => .body .idle
  | .loadComplete => .body .polling
  | .taken => .body .empty
  | .gone => .gone
  | _ => .body .draining

structure LiveBody (τ : Type*) where
  chunks : Chan ChunkOrEnd := {}
  /-- the waker cell of the channel's receiver -/
  rxWaker : AtomicWaker τ := {}
  /-- `StreamFailure` -/
  outcome : Outcome := .pending
  failWaker : AtomicWaker τ := {}
  session : DeliveryPc := .ready
  /-- the calls of `fail` in other tasks that have stored the outcome and not woken yet -/
  failing : Nat := 0
  reader : ReaderPc := .idle false
  poller : Poller τ := {}
  /-- the polls that did not return `Pending`, oldest first -/
  polls : List PollEvent := []
  deriving DecidableEq

inductive BodyAction (τ : Type*) where
  | poll (w : τ)
  | consume (budget : Bool)
  | drop
  | send (c : ChunkOrEnd)
  | finish (v : Verdict)
  | deliver
  | fail
  | failWake
  deriving DecidableEq

namespace LiveBody
variable {τ : Type*}

/-- `poll_next` up to the `register` of `poll_failed` -/
def startPoll (b : LiveBody τ) (w : τ) : Option (LiveBody τ) :=
  match b.reader with
  | .idle _ =>
    some { b with
      poller := .start w, failWaker := (Poller.start w).register, reader := .loadFailed }
  | .taken => some { b with polls := b.polls ++ [.eof] }
  | _ => none

/-- the oldest value, if there is one, and what `poll_next` makes of it -/
def pop (b : LiveBody τ) : Option (LiveBody τ) :=
  match b.chunks.recv with
  | some (.chunk bytes, c) =>
    some { b with chunks := c, polls := b.polls ++ [.chunk bytes], reader := .idle false }
  | some (.end, c) =>
    some { b with chunks := c.close, polls := b.polls ++ [.eof], reader := .taken }
  | none => none

/-- the rest of `poll_next`; a receiver without budget wakes its own task -/
def consume (b : LiveBody τ) (budget : Bool) : Option (LiveBody τ) :=
  match b.reader with
  | .loadFailed =>
    if b.outcome = .failed then
      some { b with chunks := b.chunks.close, polls := b.polls ++ [.err], reader := .taken }
    else some { b with reader := .loadComplete }
  | .loadComplete =>
    some { b with
      chunks := if b.outcome = .complete then b.chunks.close else b.chunks, reader := .recv }
  | .recv =>
    if budget then some (b.pop.getD { b with reader := .register })
    else some { b with poller := b.poller.yield, reader := .idle true }
  | .register => some { b with rxWaker := b.poller.register, reader := .recvAgain }
  | .recvAgain => some (b.pop.getD { b with reader := .checkIdle })
  | .checkIdle =>
    if b.chunks.rxClosed = true ∧ b.chunks.reserved = 0 ∧ b.chunks.queue = [] then
      some { b with polls := b.polls ++ [.eof], reader := .taken }
    else some { b with reader := .idle true }
  | _ => none

/-- the body is dropped, and the receiver with it -/
def drop (b : LiveBody τ) : Option (LiveBody τ) :=
  match b.reader with
  | .idle _ => some { b with chunks := b.chunks.close, reader := .gone }
  | .taken => some { b with reader := .gone }
  | _ => none

/-- `chunk_tx.try_send`, up to its permit -/
def send (b : LiveBody τ) (c : ChunkOrEnd) : Option (LiveBody τ) :=
  if b.session = .ready then
    match b.chunks.tryReserve chunkCapacity with
    | .ok chunks => some { b with chunks := chunks, session := .reserved c }
    | .error _ => some { b with session := .refused }
  else none

/-- `StreamFailure::complete` or `StreamFailure::fail` in the session task, up to its store -/
def finish (b : LiveBody τ) (v : Verdict) : Option (LiveBody τ) :=
  if b.session = .ready then some { b with outcome := v.outcome, session := .stored } else none

/-- `StreamFailure::fail` in another task, up to its store -/
def fail (b : LiveBody τ) : LiveBody τ := { b with outcome := .failed, failing := b.failing + 1 }

section
variable [DecidableEq τ]

/-- the receiver's waker is woken -/
def wakeRx (b : LiveBody τ) : LiveBody τ :=
  { b with poller := b.poller.notify b.rxWaker.cell, rxWaker := .wake }

/-- `self.waker.wake()` -/
def wakeFail (b : LiveBody τ) : LiveBody τ :=
  { b with poller := b.poller.notify b.failWaker.cell, failWaker := .wake }

/-- the session task goes on with what it began -/
def deliver (b : LiveBody τ) : Option (LiveBody τ) :=
  match b.session with
  | .reserved c => some { b with chunks := b.chunks.sendPermit c, session := .pushed }
  | .pushed => some { b.wakeRx with session := .ready }
  | .refused => some { b with outcome := .failed, session := .stored }
  | .stored => some { b.wakeFail with session := .ended }
  | _ => none

def failWake (b : LiveBody τ) : Option (LiveBody τ) :=
  if 0 < b.failing then some { b.wakeFail with failing := b.failing - 1 } else none

def step (b : LiveBody τ) : BodyAction τ → Option (LiveBody τ)
  | .poll w => b.startPoll w
  | .consume budget => b.consume budget
  | .drop => b.drop
  | .send c => b.send c
  | .finish v => b.finish v
  | .deliver => b.deliver
  | .fail => some b.fail
  | .failWake => b.failWake

/-- the states of all runs of a new body -/
abbrev Reachable (b : LiveBody τ) : Prop := Machine.Reachable step (· = {}) b

/-- the reader was woken since its last poll began, or the next step of a task that has stored
something wakes it -/
def WakePending (b : LiveBody τ) : Prop :=
  b.poller.notified = true ∨ (∃ t, b.deliver = some t ∧ t.poller.notified = true) ∨
    ∃ t, b.failWake = some t ∧ t.poller.notified = true

end

/-- the stream without the wakers and the permit -/
def view (b : LiveBody τ) (st : StreamState) : StreamState :=
  { st with
    chunks := { b.chunks with reserved := 0 }, outcome := b.outcome
    callerPc := b.reader.caller, polls := b.polls }

/-! ## the invariant -/

/-- a wake-up of the failure cell is due -/
def FailDue (b : LiveBody τ) : Prop := b.session = .stored ∨ 0 < b.failing

abbrev FailWatch (b : LiveBody τ) (cond : Prop) : Prop :=
  Watched b.failWaker b.poller b.FailDue cond

abbrev RxWatch (b : LiveBody τ) (cond : Prop) : Prop :=
  Watched b.rxWaker b.poller (b.session = .pushed) cond

/-- what the reader watches at each point of a poll: failure from its first check on, completion
from the second, the queue from the receiver's second look on -/
def Watches (b : LiveBody τ) : Prop :=
  match b.reader with
  | .idle true => b.FailWatch (b.outcome ≠ .pending) ∧ b.RxWatch (b.chunks.queue ≠ [])
  | .loadFailed => b.FailWatch False
  | .loadComplete => b.FailWatch (b.outcome = .failed)
  | .recv =>
    b.FailWatch (b.outcome = .failed ∨ (b.outcome = .complete ∧ b.chunks.rxClosed = false))
  | .register =>
    b.FailWatch (b.outcome = .failed ∨ (b.outcome = .complete ∧ b.chunks.rxClosed = false))
  | .recvAgain =>
    b.FailWatch (b.outcome = .failed ∨ (b.outcome = .complete ∧ b.chunks.rxClosed = false)) ∧
      b.RxWatch False
  | .checkIdle =>
    b.FailWatch (b.outcome = .failed ∨ (b.outcome = .complete ∧ b.chunks.rxClosed = false)) ∧
      b.RxWatch (b.chunks.queue ≠ [])
  | _ => True

/-- the session task is past its last chunk -/
def Over (b : LiveBody τ) : Prop := b.session = .stored ∨ b.session = .ended

structure Inv (b : LiveBody τ) : Prop where
  permits : b.chunks.reserved = b.session.permits
  complete : b.outcome = .complete → b.Over
  closed : b.reader ≠ .taken → b.reader ≠ .gone → b.chunks.rxClosed = true → b.Over
  watches : b.Watches

variable {b t : LiveBody τ}

/-- a step of another task keeps what the reader watches, if it keeps every condition on the outcome
and every condition on the queue watched -/
theorem Watches.other (h : b.Watches) (hr : t.reader = b.reader)
    (hf : ∀ cond : Outcome → Bool → Prop, b.FailWatch (cond b.outcome b.chunks.rxClosed) →
      t.FailWatch (cond t.outcome t.chunks.rxClosed))
    (hq : ∀ cond : List ChunkOrEnd → Prop, b.RxWatch (cond b.chunks.queue) →
      t.RxWatch (cond t.chunks.queue)) : t.Watches := by
  have hopen := hf fun o closed => o = .failed ∨ (o = .complete ∧ closed = false)
  unfold Watches at h ⊢
  rw [hr]
  cases hb : b.reader with
  | idle pending =>
    rw [hb] at h
    cases pending with
    | false => exact trivial
    | true => exact ⟨hf (fun o _ => o ≠ .pending) h.1, hq (fun q => q ≠ []) h.2⟩
  | loadFailed =>
    rw [hb] at h
    exact hf (fun _ _ => False) h
  | loadComplete =>
    rw [hb] at h
    exact hf (fun o _ => o = .failed) h
  | recv =>
    rw [hb] at h
    exact hopen h
  | register =>
    rw [hb] at h
    exact hopen h
  | recvAgain =>
    rw [hb] at h
    exact ⟨hopen h.1, hq (fun _ => False) h.2⟩
  | checkIdle =>
    rw [hb] at h
    exact ⟨hopen h.1, hq (fun q => q ≠ []) h.2⟩
  | taken => exact trivial
  | gone => exact trivial

/-! ## the producers' steps -/

theorem failDue_mono (hs : b.session ≠ .stored) (hf : t.failing = b.failing) (h : b.FailDue) :
    t.FailDue := by
  rcases h with h | h
  · exact absurd h hs
  · exact .inr (hf ▸ h)

theorem not_over (hs : b.session ≠ .stored) (he : b.session ≠ .ended) : ¬ b.Over :=
  fun h => h.elim hs he

/-- a session that has more to send has not completed the stream, so nothing closed the channel
behind the reader -/
theorem Inv.running (h : b.Inv) (hover : ¬ b.Over) (ho : t.outcome = b.outcome)
    (hc : t.chunks.rxClosed = b.chunks.rxClosed) (hr : t.reader = b.reader)
    (hp : t.chunks.reserved = t.session.permits) (hw : t.Watches) : t.Inv where
  permits := hp
  complete hx := absurd (h.complete (ho.symm.trans hx)) hover
  closed h1 h2 hx := by
    rw [hr] at h1 h2
    exact absurd (h.closed h1 h2 (hc.symm.trans hx)) hover
  watches := hw

theorem Inv.send {c : ChunkOrEnd} (h : b.Inv) (hs : b.send c = some t) : t.Inv := by
  unfold LiveBody.send at hs
  split at hs
  · next hready =>
    have hpermits := h.permits
    have hstored : b.session ≠ .stored := by rw [hready]; exact nofun
    have hpushed : b.session ≠ .pushed := by rw [hready]; exact nofun
    have hover : ¬ b.Over := not_over hstored (by rw [hready]; exact nofun)
    rw [hready] at hpermits
    split at hs
    · next chunks hr =>
      obtain ⟨_, _, rfl⟩ := Chan.tryReserve_ok hr
      cases hs
      refine h.running hover rfl rfl rfl (congrArg (· + 1) hpermits) ?_
      exact h.watches.other rfl (fun _ hw => hw.mono (failDue_mono hstored rfl) id)
        fun _ hw => hw.mono (fun hx => absurd hx hpushed) id
    · cases hs
      refine h.running hover rfl rfl rfl hpermits ?_
      exact h.watches.other rfl (fun _ hw => hw.mono (failDue_mono hstored rfl) id)
        fun _ hw => hw.mono (fun hx => absurd hx hpushed) id
  · cases hs

/-- the session task stores an outcome: the failure cell's wake-up is due -/
theorem Inv.store {v : Verdict} (h : b.Inv) (hs : b.session = .ready ∨ b.session = .refused) :
    Inv { b with outcome := v.outcome, session := .stored } := by
  have hpermits := h.permits
  have hpushed : b.session ≠ .pushed := by
    rcases hs with hs | hs
    · rw [hs]
      exact nofun
    · rw [hs]
      exact nofun
  refine ⟨?_, fun _ => .inl rfl, fun _ _ _ => .inl rfl, ?_⟩
  · rcases hs with hs | hs
    · rwa [hs] at hpermits
    · rwa [hs] at hpermits
  · exact h.watches.other rfl (fun _ hw => hw.armed.store (.inl rfl)) fun _ hw =>
      hw.mono (fun hx => absurd hx hpushed) id

theorem Inv.finish {v : Verdict} (h : b.Inv) (hs : b.finish v = some t) : t.Inv := by
  unfold LiveBody.finish at hs
  split at hs
  · next hready =>
    cases hs
    exact h.store (.inl hready)
  · cases hs

theorem Inv.fail (h : b.Inv) : b.fail.Inv where
  permits := h.permits
  complete hx := nomatch hx
  closed := h.closed
  watches := h.watches.other rfl (fun _ hw => hw.armed.store (.inr (Nat.succ_pos _))) fun _ hw => hw

section
variable [DecidableEq τ]

theorem Inv.deliver (h : b.Inv) (hs : b.deliver = some t) : t.Inv := by
  have hpermits := h.permits
  unfold LiveBody.deliver at hs
  split at hs
  · next c hc =>
    -- the value goes into the list, and its wake-up is due
    have hstored : b.session ≠ .stored := by rw [hc]; exact nofun
    have hover : ¬ b.Over := not_over hstored (by rw [hc]; exact nofun)
    cases hs
    rw [hc] at hpermits
    refine h.running hover rfl rfl rfl (congrArg (· - 1) hpermits) ?_
    exact h.watches.other rfl (fun _ hw => hw.mono (failDue_mono hstored rfl) id) fun _ hw =>
      hw.armed.store rfl
  · next hp =>
    have hstored : b.session ≠ .stored := by rw [hp]; exact nofun
    have hover : ¬ b.Over := not_over hstored (by rw [hp]; exact nofun)
    cases hs
    rw [hp] at hpermits
    refine h.running hover rfl rfl rfl hpermits ?_
    exact h.watches.other rfl
      (fun _ hw => (hw.other _).mono (failDue_mono hstored rfl) id) fun _ hw => hw.armed.wake
  · next hr =>
    cases hs
    exact h.store (v := .fail) (.inr hr)
  · next hst =>
    have hpushed : b.session ≠ .pushed := by rw [hst]; exact nofun
    cases hs
    rw [hst] at hpermits
    refine ⟨hpermits, fun _ => .inr rfl, fun _ _ _ => .inr rfl, ?_⟩
    exact h.watches.other rfl (fun _ hw => hw.armed.wake) fun _ hw =>
      (hw.other _).mono (fun hx => absurd hx hpushed) id
  · cases hs

theorem Inv.failWake (h : b.Inv) (hs : b.failWake = some t) : t.Inv := by
  unfold LiveBody.failWake at hs
  split at hs
  · cases hs
    refine ⟨h.permits, h.complete, h.closed, ?_⟩
    exact h.watches.other rfl (fun _ hw => hw.armed.wake) fun _ hw => hw.other _
  · cases hs

end

/-! ## the reader's steps -/

theorem Inv.startPoll {w : τ} (h : b.Inv) (hs : b.startPoll w = some t) : t.Inv := by
  unfold LiveBody.startPoll at hs
  split at hs
  · next hi =>
    cases hs
    have hne : b.reader ≠ .taken ∧ b.reader ≠ .gone := by
      rw [hi]
      exact ⟨nofun, nofun⟩
    exact ⟨h.permits, h.complete, fun _ _ => h.closed hne.1 hne.2, (armed_start w).check not_false⟩
  · next ht =>
    cases hs
    refine ⟨h.permits, h.complete, fun hx => absurd ht hx, ?_⟩
    unfold Watches
    rw [ht]
    exact trivial
  · cases hs

/-- a value, or the end of the queue, ends the poll -/
theorem Inv.pop (h : b.Inv) (hne : b.reader ≠ .taken ∧ b.reader ≠ .gone)
    (hs : b.pop = some t) : t.Inv := by
  unfold LiveBody.pop at hs
  split at hs
  · next bytes c hr =>
    obtain ⟨_, hc⟩ := Chan.recv_some hr
    cases hs
    rw [hc]
    exact ⟨h.permits, h.complete, fun _ _ => h.closed hne.1 hne.2, trivial⟩
  · next c hr =>
    obtain ⟨_, hc⟩ := Chan.recv_some hr
    cases hs
    rw [hc]
    exact ⟨h.permits, h.complete, fun hx => absurd rfl hx, trivial⟩
  · cases hs

theorem pop_none (h : b.pop = none) : b.chunks.queue = [] := by
  unfold LiveBody.pop at h
  split at h
  · cases h
  · cases h
  · next hr =>
    unfold Chan.recv at hr
    split at hr
    · next hq => exact hq
    · cases hr

/-- behind the second check: a completed channel is closed -/
theorem Inv.close (h : b.Inv) (hr : b.reader = .loadComplete) :
    Inv { b with
      chunks := if b.outcome = .complete then b.chunks.close else b.chunks, reader := .recv } := by
  have hw := h.watches
  have hclosed := h.closed (by rw [hr]; exact nofun) (by rw [hr]; exact nofun)
  unfold Watches at hw
  rw [hr] at hw
  by_cases ho : b.outcome = .complete
  · rw [if_pos ho]
    exact ⟨h.permits, h.complete, fun _ _ _ => h.complete ho, hw.check fun hx => nomatch hx.2⟩
  · rw [if_neg ho]
    exact ⟨h.permits, h.complete, fun _ _ => hclosed, hw.check fun hx => ho hx.1⟩

/-- The reader goes to sleep.  A channel that was closed has nothing to come, so it either ended the
poll or holds a value, whose wake-up is past. -/
theorem Inv.sleep (h : b.Inv) (hr : b.reader = .checkIdle)
    (hn : ¬ (b.chunks.rxClosed = true ∧ b.chunks.reserved = 0 ∧ b.chunks.queue = [])) :
    Inv { b with reader := .idle true } := by
  have hw := h.watches
  have hclosed := h.closed (by rw [hr]; exact nofun) (by rw [hr]; exact nofun)
  unfold Watches at hw
  rw [hr] at hw
  have htold : b.outcome ≠ .pending → Due b.failWaker b.poller b.FailDue := by
    intro ho
    cases hout : b.outcome with
    | pending => exact absurd hout ho
    | failed => exact hw.1.told (.inl hout)
    | complete =>
      cases hx : b.chunks.rxClosed with
      | false => exact hw.1.told (.inr ⟨hout, hx⟩)
      | true =>
        have hover := hclosed hx
        have hreserved : b.chunks.reserved = 0 := by
          rw [h.permits]
          rcases hover with hs | hs
          · rw [hs]
            rfl
          · rw [hs]
            rfl
        have hqueue : b.chunks.queue ≠ [] := fun hq => hn ⟨hx, hreserved, hq⟩
        rcases hw.2.told hqueue with hnotified | ⟨_, _, hpushed⟩
        · exact .inl hnotified
        · rcases hover with hs | hs
          · cases hs.symm.trans hpushed
          · cases hs.symm.trans hpushed
  exact ⟨h.permits, h.complete, fun _ _ => hclosed, ⟨hw.1.armed, htold⟩, hw.2⟩

theorem Inv.consume {budget : Bool} (h : b.Inv) (hs : b.consume budget = some t) : t.Inv := by
  have hw := h.watches
  unfold Watches at hw
  have hlive : b.reader ≠ .taken → b.reader ≠ .gone → b.chunks.rxClosed = true → b.Over := h.closed
  unfold LiveBody.consume at hs
  cases hr : b.reader with
  | idle pending =>
    rw [hr] at hs
    cases hs
  | taken =>
    rw [hr] at hs
    cases hs
  | gone =>
    rw [hr] at hs
    cases hs
  | loadFailed =>
    rw [hr] at hs hw hlive
    simp only at hs
    split at hs
    · cases hs
      exact ⟨h.permits, h.complete, fun hx => absurd rfl hx, trivial⟩
    · next ho =>
      cases hs
      exact ⟨h.permits, h.complete, fun _ _ => hlive nofun nofun, hw.armed.check ho⟩
  | loadComplete =>
    rw [hr] at hs
    cases hs
    exact h.close hr
  | recv =>
    rw [hr] at hs hw hlive
    simp only at hs
    split at hs
    · cases hp : b.pop with
      | some u =>
        rw [hp] at hs
        cases hs
        exact h.pop (by rw [hr]; exact ⟨nofun, nofun⟩) hp
      | none =>
        rw [hp] at hs
        cases hs
        exact ⟨h.permits, h.complete, fun _ _ => hlive nofun nofun, hw⟩
    · cases hs
      exact ⟨h.permits, h.complete, fun _ _ => hlive nofun nofun, watched_of_notified rfl,
        watched_of_notified rfl⟩
  | register =>
    rw [hr] at hs hw hlive
    cases hs
    exact ⟨h.permits, h.complete, fun _ _ => hlive nofun nofun, hw,
      hw.armed.register.check not_false⟩
  | recvAgain =>
    rw [hr] at hs hw hlive
    simp only at hs
    cases hp : b.pop with
    | some u =>
      rw [hp] at hs
      cases hs
      exact h.pop (by rw [hr]; exact ⟨nofun, nofun⟩) hp
    | none =>
      rw [hp] at hs
      cases hs
      exact ⟨h.permits, h.complete, fun _ _ => hlive nofun nofun, hw.1,
        hw.2.armed.check fun hq => hq (pop_none hp)⟩
  | checkIdle =>
    rw [hr] at hs
    simp only at hs
    split at hs
    · cases hs
      exact ⟨h.permits, h.complete, fun hx => absurd rfl hx, trivial⟩
    · next hn =>
      cases hs
      exact h.sleep hr hn

theorem Inv.drop (h : b.Inv) (hs : b.drop = some t) : t.Inv := by
  unfold LiveBody.drop at hs
  split at hs
  · cases hs
    exact ⟨h.permits, h.complete, fun _ hx => absurd rfl hx, trivial⟩
  · cases hs
    exact ⟨h.permits, h.complete, fun _ hx => absurd rfl hx, trivial⟩
  · cases hs

/-! ## runs -/

theorem inv_new : Inv ({} : LiveBody τ) where
  permits := rfl
  complete hx := nomatch hx
  closed _ _ hx := nomatch hx
  watches := trivial

variable [DecidableEq τ]

theorem Inv.step {a : BodyAction τ} (h : b.Inv) (hs : step b a = some t) : t.Inv := by
  cases a with
  | poll w => exact h.startPoll hs
  | consume budget => exact h.consume hs
  | drop => exact h.drop hs
  | send c => exact h.send hs
  | finish v => exact h.finish hs
  | deliver => exact h.deliver hs
  | fail => exact Option.some.inj hs ▸ h.fail
  | failWake => exact h.failWake hs

theorem Reachable.inv (h : Reachable b) : b.Inv := by
  refine Machine.Reachable.invariant ?_ (fun _ _ _ hb hs => hb.step hs) h
  rintro b rfl
  exact inv_new

/-- a wake-up that is due is the next step of its task, and reaches the reader -/
theorem wakePending_fail (h : Due b.failWaker b.poller b.FailDue) : b.WakePending := by
  have hwoken : ∀ u : LiveBody τ, u.poller = b.wakeFail.poller → u.poller.notified = true := by
    intro u hu
    rw [hu]
    exact Armed.notify (h.imp_right fun hc => ⟨hc.1, hc.2.1⟩)
  rcases h with h | ⟨_, _, hs | hf⟩
  · exact .inl h
  · refine .inr (.inl ⟨{ b.wakeFail with session := .ended }, ?_, hwoken _ rfl⟩)
    unfold LiveBody.deliver
    rw [hs]
  · exact .inr (.inr ⟨_, if_pos hf, hwoken _ rfl⟩)

theorem wakePending_rx (h : Due b.rxWaker b.poller (b.session = .pushed)) : b.WakePending := by
  rcases h with h | ⟨h1, h2, hs⟩
  · exact .inl h
  · refine .inr (.inl ⟨{ b.wakeRx with session := .ready }, ?_, ?_⟩)
    · unfold LiveBody.deliver
      rw [hs]
    · exact Armed.notify (.inr ⟨h1, h2⟩)

end LiveBody

/-- **No lost wake-up.** A reader whose last poll returned `Pending`, while a chunk is queued or the
outcome is stored, was woken since that poll began, or the next step of the task that stored it
wakes it; and if no task stands between its store and its wake-up, it was woken. -/
theorem no_lost_wakeup {τ : Type*} [DecidableEq τ] {b : LiveBody τ} (h : LiveBody.Reachable b)
    (hp : b.reader = .idle true) (hr : b.chunks.queue ≠ [] ∨ b.outcome ≠ .pending) :
    b.WakePending ∧
      (b.session ≠ .pushed → b.session ≠ .stored → b.failing = 0 → b.poller.notified = true) := by
  have hw := (LiveBody.Reachable.inv h).watches
  unfold LiveBody.Watches at hw
  rw [hp] at hw
  rcases hr with hq | ho
  · have hdue := hw.2.told hq
    refine ⟨LiveBody.wakePending_rx hdue, fun hs _ _ => ?_⟩
    exact hdue.resolve_right fun hc => hs hc.2.2
  · have hdue := hw.1.told ho
    refine ⟨LiveBody.wakePending_fail hdue, fun _ hs hf => ?_⟩
    refine hdue.resolve_right fun hc => hc.2.2.elim hs fun hx => ?_
    rw [hf] at hx
    exact absurd hx (Nat.lt_irrefl 0)

/-- a reader sleeps, and a chunk is queued: its wake-up is the session task's next step -/
def sleepRun : List (BodyAction Nat) :=
  [.poll 7, .consume true, .consume true, .consume true, .consume true, .consume true,
    .consume true, .send (.chunk (ascii "last")), .deliver]

theorem sleepRun_state : (Machine.run LiveBody.step ({} : LiveBody Nat) sleepRun).map (fun b =>
    (b.reader, b.chunks.queue, b.poller.notified))
      = some (.idle true, [.chunk (ascii "last")], false) := by
  decide

theorem no_lost_wakeup_queued : ∃ b : LiveBody Nat, LiveBody.Reachable b ∧
    b.poller.notified = false ∧ b.WakePending := by
  obtain ⟨b, hb, h⟩ := Option.map_eq_some_iff.mp sleepRun_state
  obtain ⟨hreader, hqueue, hnotified⟩ :
      b.reader = .idle true ∧ b.chunks.queue = [.chunk (ascii "last")] ∧
        b.poller.notified = false :=
    ⟨(Prod.mk.inj h).1, (Prod.mk.inj (Prod.mk.inj h).2).1, (Prod.mk.inj (Prod.mk.inj h).2).2⟩
  have hinit : LiveBody.Reachable ({} : LiveBody Nat) := .init rfl
  have hr : LiveBody.Reachable b := hinit.run hb
  refine ⟨b, hr, hnotified, (no_lost_wakeup hr hreader (.inl ?_)).1⟩
  rw [hqueue]
  exact nofun

/-! ## the stream behind the wakers -/

namespace LiveBody
variable {τ : Type*} {b t : LiveBody τ}

/-- a permit is no matter to the receiver -/
theorem recv_unreserved {c d : Chan ChunkOrEnd} {x : ChunkOrEnd} (h : c.recv = some (x, d)) :
    Chan.recv { c with reserved := 0 } = some (x, { d with reserved := 0 }) := by
  obtain ⟨hq, hd⟩ := Chan.recv_some h
  rw [hd]
  unfold Chan.recv
  simp only
  rw [hq]

theorem pop_view (st : StreamState) (hr : b.reader.caller = .body .draining)
    (h : b.pop = some t) : StreamState.Handled (b.view st) (t.view st) := by
  unfold LiveBody.pop at h
  split at h
  · next bytes c hc =>
    cases h
    exact .chunk hr (recv_unreserved hc)
  · next c hc =>
    cases h
    have hended : StreamState.Handled (b.view st) _ := .ended hr (recv_unreserved hc)
    exact hended
  · cases h

/-- the reader's steps are steps of `handle`, or seen by nobody -/
theorem consume_view {budget : Bool} (st : StreamState) (h : b.consume budget = some t) :
    t.view st = b.view st ∨ StreamState.Handled (b.view st) (t.view st) := by
  unfold LiveBody.consume at h
  split at h
  · next hr =>
    have hpc : (b.view st).callerPc = .body .idle := congrArg ReaderPc.caller hr
    split at h
    · next ho =>
      cases h
      exact .inr (.failed hpc ho)
    · cases h
      exact .inr (.live hpc)
  · next hr =>
    have hpc : (b.view st).callerPc = .body .polling := congrArg ReaderPc.caller hr
    cases h
    by_cases ho : b.outcome = .complete
    · rw [if_pos ho]
      exact .inr (.complete hpc ho)
    · rw [if_neg ho]
      exact .inr (.open hpc)
  · next hr =>
    have hpc : (b.view st).callerPc = .body .draining := congrArg ReaderPc.caller hr
    split at h
    · cases hp : b.pop with
      | some u =>
        rw [hp] at h
        cases h
        exact .inr (pop_view st hpc hp)
      | none =>
        rw [hp] at h
        cases h
        left
        unfold LiveBody.view
        rw [hr]
        rfl
    · cases h
      exact .inr (.pending hpc)
  · next hr =>
    cases h
    left
    unfold LiveBody.view
    rw [hr]
    rfl
  · next hr =>
    have hpc : (b.view st).callerPc = .body .draining := congrArg ReaderPc.caller hr
    cases hp : b.pop with
    | some u =>
      rw [hp] at h
      cases h
      exact .inr (pop_view st hpc hp)
    | none =>
      rw [hp] at h
      cases h
      left
      unfold LiveBody.view
      rw [hr]
      rfl
  · next hr =>
    have hpc : (b.view st).callerPc = .body .draining := congrArg ReaderPc.caller hr
    split at h
    · next hidle =>
      cases h
      refine .inr (.drained hpc ?_ hidle.1)
      show Chan.recv { b.chunks with reserved := 0 } = none
      unfold Chan.recv
      simp only
      rw [hidle.2.2]
    · cases h
      exact .inr (.pending hpc)
  · cases h

variable [DecidableEq τ]

/-- **Without its wakers a live body is a stream**: each of its steps is a step of `handle`, a chunk
queued, an outcome stored, the drop of the body, or nothing. -/
theorem step_view {a : BodyAction τ} (st : StreamState) (h : step b a = some t) :
    t.view st = b.view st ∨ StreamState.Handled (b.view st) (t.view st) ∨
    (∃ c, t.view st = { b.view st with chunks := (b.view st).chunks.push c }) ∨
    (∃ v, t.view st = (b.view st).terminate v .outcome) ∨
    (b.view st).callerDrop = some (t.view { st with guardPc := .abortUpload }) := by
  cases a with
  | poll w =>
    change b.startPoll w = some t at h
    unfold LiveBody.startPoll at h
    split at h
    · next hr =>
      cases h
      left
      unfold LiveBody.view
      rw [hr]
      rfl
    · next hr =>
      cases h
      exact .inr (.inl (.empty (congrArg ReaderPc.caller hr)))
    · cases h
  | consume budget => exact (consume_view st h).imp_right .inl
  | drop =>
    change b.drop = some t at h
    right; right; right; right
    unfold LiveBody.drop at h
    unfold StreamState.callerDrop LiveBody.view
    split at h
    · next hr =>
      cases h
      rw [hr]
      rfl
    · next hr =>
      cases h
      rw [hr]
      rfl
    · cases h
  | send c =>
    change b.send c = some t at h
    left
    unfold LiveBody.send at h
    split at h
    · split at h
      · next hc =>
        obtain ⟨_, _, rfl⟩ := Chan.tryReserve_ok hc
        cases h
        rfl
      · cases h
        rfl
    · cases h
  | finish v =>
    change b.finish v = some t at h
    unfold LiveBody.finish at h
    split at h
    · cases h
      exact .inr (.inr (.inr (.inl ⟨v, rfl⟩)))
    · cases h
  | deliver =>
    change b.deliver = some t at h
    unfold LiveBody.deliver at h
    split at h
    · next c hc =>
      cases h
      exact .inr (.inr (.inl ⟨c, rfl⟩))
    · cases h
      exact .inl rfl
    · cases h
      exact .inr (.inr (.inr (.inl ⟨.fail, rfl⟩)))
    · cases h
      exact .inl rfl
    · cases h
  | fail =>
    obtain rfl := Option.some.inj h
    exact .inr (.inr (.inr (.inl ⟨.fail, rfl⟩)))
  | failWake =>
    change b.failWake = some t at h
    unfold LiveBody.failWake at h
    split at h
    · cases h
      exact .inl rfl
    · cases h

end LiveBody

end AnvilRing
