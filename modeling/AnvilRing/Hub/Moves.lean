import AnvilRing.Hub.Session

/-!
# What a session step can do

`Session.step` is a program; `Session.Move` says branch by branch what it did, with the guards
that a proof may use.  Every invariant of a session is a case analysis on `Move`.

* `Session.move_of_step`     every step is one of the moves;
* `Session.Reachable.move`   the invariant rule over the moves.
-/

namespace AnvilRing
open Wire

/-- a frame that the hub accepts from a tether about one of its streams -/
def Frame.isResponse : Frame → Bool
  | .respHead _ _ => true
  | .data _ _ => true
  | .end _ _ => true
  | _ => false

namespace Session

inductive Move (lib : HttpLib) (s : Session) : SessionAction → Session → Prop where
  -- the loop at `select!`
  | quiet {m : Message} {now : Nat} (hm : hubDecode m = .ok none) : Move lib s (.recv m now) s
  | alive {m : Message} {now : Nat} (hm : hubDecode m = .ok (some .pong)) :
      Move lib s (.recv m now) { s with lastSeen := now }
  | frame {m : Message} {now : Nat} {f : Frame} (hl : s.loop = .select)
      (hm : hubDecode m = .ok (some f)) (hf : f.isResponse = true) :
      Move lib s (.recv m now) { s with loop := .frame f }
  | leave {a : SessionAction} (hl : s.loop = .select) : Move lib s a { s with loop := .exited }
  | control {a : SessionAction} {f : Frame} (hl : s.loop = .select) (hf : f = .ping ∨ f = .pong)
      (hc : s.tx.rxClosed = false) : Move lib s a { s with tx := s.tx.push f, loop := .select }
  -- the loop on a stream frame
  | takeUp {f : Frame} (hl : s.loop = .frame f) :
      Move lib s .loop { s with loop := s.takeUp f, received := s.received ++ [f] }
  | headOk {id : UInt16} {raw : Bytes} {res : HttpResponse} (hl : s.loop = .respHead id raw)
      (hr : acceptHead lib (s.state id) raw = some res) :
      Move lib s .loop { s.setState id { s.state id with head := some res } with loop := .select }
  | headBad {id : UInt16} {raw : Bytes} (hl : s.loop = .respHead id raw) :
      Move lib s .loop { s with loop := .terminate id .fail .completed (some invalidHead) }
  | dataOk {id : UInt16} {b : Bytes} (hl : s.loop = .data id b)
      (hh : (s.state id).head.isSome = true) (hc : (s.state id).chunks.rxClosed = false) :
      Move lib s .loop { s.setState id
        { s.state id with chunks := (s.state id).chunks.push (.chunk b) } with loop := .select }
  | dataBad {id : UInt16} {b : Bytes} (hl : s.loop = .data id b) :
      Move lib s .loop { s with loop := .terminate id .fail .completed (some callerUnavailable) }
  | terminate {id : UInt16} {v : Verdict} {stage : TermStage} {reply : Option Bytes}
      (hl : s.loop = .terminate id v stage reply) :
      Move lib s .loop { s.setState id ((s.state id).terminate v stage) with
        loop := stage.next.elim (.remove id reply) fun next => .terminate id v next reply }
  | remove {id : UInt16} {reply : Option Bytes} (hl : s.loop = .remove id reply) :
      Move lib s .loop { s with
        streams := s.streams.erase id
        loop := reply.elim .select (.reply id) }
  | reply {id : UInt16} {reason : Bytes} (hl : s.loop = .reply id reason)
      (hc : s.tx.rxClosed = false) :
      Move lib s .loop { s with tx := s.tx.push (.end id reason), loop := .select }
  | noReply {id : UInt16} {reason : Bytes} (hl : s.loop = .reply id reason) :
      Move lib s .loop { s with loop := .exited }
  -- closing
  | ownDrain {order : List UInt16} (hl : s.loop = .exited) (hi : s.ownClose = .idle)
      (ho : order.toFinset = s.streams) :
      Move lib s (.teardown order)
        { s with closed := true, streams := ∅, ownClose := .failing order order .completed }
  | ownFail {order drained rest : List UInt16} {i : UInt16} {stage : TermStage}
      (hl : s.loop = .exited) (ho : s.ownClose = .failing drained (i :: rest) stage) :
      Move lib s (.teardown order) { s.setState i ((s.state i).terminate .fail stage) with
        ownClose :=
          stage.next.elim (.failing drained rest .completed) (.failing drained (i :: rest)) }
  | ownFailed {order drained : List UInt16} {stage : TermStage} (hl : s.loop = .exited)
      (ho : s.ownClose = .failing drained [] stage) :
      Move lib s (.teardown order) { s with ownClose := .returned drained }
  | ownReturned {order drained : List UInt16} (hl : s.loop = .exited)
      (ho : s.ownClose = .returned drained) :
      Move lib s (.teardown order) { s with loop := .closed }
  | detached {order : List UInt16} (hl : s.loop = .closed) :
      Move lib s (.teardown order) { s with loop := .finished }
  | registryDrain {order : List UInt16} (hr : s.registryClose = .idle)
      (ho : order.toFinset = s.streams) :
      Move lib s (.registryClose order)
        { s with closed := true, streams := ∅, registryClose := .failing order order .completed }
  | registryFail {order drained rest : List UInt16} {i : UInt16} {stage : TermStage}
      (hr : s.registryClose = .failing drained (i :: rest) stage) :
      Move lib s (.registryClose order) { s.setState i ((s.state i).terminate .fail stage) with
        registryClose :=
          stage.next.elim (.failing drained rest .completed) (.failing drained (i :: rest)) }
  | registryFailed {order drained : List UInt16} {stage : TermStage}
      (hr : s.registryClose = .failing drained [] stage) :
      Move lib s (.registryClose order) { s with registryClose := .returned drained }
  | cancel {order drained : List UInt16} (hr : s.registryClose = .returned drained) :
      Move lib s (.registryClose order) { s with abort := true }
  -- a forward
  | reserveOk {req : Request} (hf : s.forward = .idle) (hc : s.tx.rxClosed = false) :
      Move lib s (.reserve req)
        { s with tx := { s.tx with reserved := s.tx.reserved + 1 }, forward := .reserved req }
  | reserveNo {req : Request} {e : ForwardError} (hf : s.forward = .idle) :
      Move lib s (.reserve req) { s with forward := .returned (.error e) }
  | exhausted {req : Request} (hf : s.forward = .reserved req) (hn : 65535 < s.nextId) :
      Move lib s .forward
        { s with tx := s.tx.dropPermit, forward := .returned (.error .idhausted) }
  | allocate {req : Request} (hf : s.forward = .reserved req) (hn : s.nextId ≤ 65535) :
      Move lib s .forward
        { s with nextId := s.nextId + 1, forward := .allocated req (UInt16.ofNat s.nextId) }
  | gone {req : Request} {id : UInt16} (hf : s.forward = .allocated req id)
      (hc : s.closed = true) :
      Move lib s .forward
        { s with tx := s.tx.dropPermit, forward := .returned (.error .tetherGone) }
  | busy {req : Request} {id : UInt16} (hf : s.forward = .allocated req id)
      (hc : s.closed = false) (hn : maxConcurrentStreams ≤ s.streams.card) :
      Move lib s .forward
        { s with tx := s.tx.dropPermit, forward := .returned (.error .tetherBusy) }
  | register {req : Request} {id : UInt16} (hf : s.forward = .allocated req id)
      (hc : s.closed = false) (hn : s.streams.card < maxConcurrentStreams) :
      Move lib s .forward { s.setState id (StreamState.fresh req s.received.length) with
        streams := insert id s.streams, forward := .admitted id }
  | «open» {id : UInt16} (hf : s.forward = .admitted id) :
      Move lib s .forward { s with
        tx := s.tx.sendPermit (.open id (s.state id).request.head), forward := .opened id }
  | spawn {id : UInt16} (hf : s.forward = .opened id) :
      Move lib s .forward { s.setState id
        { s.state id with guardPc := .held, uploadPc := .reading } with forward := .spawned id }
  | install {id : UInt16} (hf : s.forward = .spawned id) :
      Move lib s .forward
        { s.setState id { (s.state id).installUpload with callerPc := .waitHead } with
          forward := .returned (.ok id) }
  | answered {r : Except ForwardError UInt16} (hf : s.forward = .returned r) :
      Move lib s .forward { s with forward := .idle }
  -- an upload task
  | readData {i : UInt16} {b : Bytes} {rest : List CallerFrame}
      (hu : (s.state i).uploadPc = .reading) (hb : (s.state i).body = .data b :: rest) :
      Move lib s (.upload i) (s.setState i { s.state i with
        body := rest, uploadPc := if b = [] then .reading else .sending (.data i b) })
  | readTrailers {i : UInt16} {rest : List CallerFrame}
      (hu : (s.state i).uploadPc = .reading) (hb : (s.state i).body = .trailers :: rest) :
      Move lib s (.upload i) (s.setState i { s.state i with body := rest })
  | readEnd {i : UInt16} (hu : (s.state i).uploadPc = .reading) (hb : (s.state i).body = []) :
      Move lib s (.upload i) (s.setState i { s.state i with
        uploadPc := if (s.state i).request.bodyOk then .sending (.halfEnd i)
          else .erred .callerBody })
  | sent {i : UInt16} {f : Frame} (hu : (s.state i).uploadPc = .sending f)
      (hc : s.tx.rxClosed = false) :
      Move lib s (.upload i) { s.setState i { s.state i with
        uploadPc := if f = .halfEnd i then .done else .reading } with tx := s.tx.push f }
  | sendFailed {i : UInt16} {f : Frame} (hu : (s.state i).uploadPc = .sending f)
      (hc : s.tx.rxClosed = true) :
      Move lib s (.upload i) (s.setState i { s.state i with uploadPc := .erred .tetherGone })
  | erred {i : UInt16} {e : ForwardError} (hu : (s.state i).uploadPc = .erred e) :
      Move lib s (.upload i) (s.setState i { s.state i with
        uploadPc := if (s.state i).completed then .done else .failing .completed })
  | uploadFail {i : UInt16} {stage : TermStage} (hu : (s.state i).uploadPc = .failing stage) :
      Move lib s (.upload i) (s.setState i { (s.state i).terminate .fail stage with
        uploadPc := stage.next.elim .ending .failing })
  | uploadEnd {i : UInt16} (hu : (s.state i).uploadPc = .ending) (hc : s.tx.rxClosed = false) :
      Move lib s (.upload i) { s.setState i { s.state i with uploadPc := .done } with
        tx := s.tx.push (.end i uploadFailed) }
  | uploadFull {i : UInt16} (hu : (s.state i).uploadPc = .ending) :
      Move lib s (.upload i) (s.setState i { s.state i with uploadPc := .aborting })
  | uploadClosed {i : UInt16} (hu : (s.state i).uploadPc = .ending) (hc : s.tx.rxClosed = true) :
      Move lib s (.upload i) (s.setState i { s.state i with uploadPc := .done })
  | uploadAbort {i : UInt16} (hu : (s.state i).uploadPc = .aborting) :
      Move lib s (.upload i)
        { s.setState i { s.state i with uploadPc := .done } with abort := true }
  | uploadCancel {i : UInt16} (ha : (s.state i).uploadAbort = true)
      (hu : (s.state i).uploadPc = .reading ∨ ∃ f, (s.state i).uploadPc = .sending f) :
      Move lib s (.uploadCancel i) (s.setState i { s.state i with uploadPc := .cancelled })
  -- a guard
  | guardAbortUpload {i : UInt16} (hg : (s.state i).guardPc = .abortUpload) :
      Move lib s (.guard i)
        (s.setState i { s.state i with uploadAbort := true, guardPc := .remove })
  | guardRemove {i : UInt16} (hg : (s.state i).guardPc = .remove) :
      Move lib s (.guard i)
        { s.setState i { s.state i with guardPc := .check } with streams := s.streams.erase i }
  | guardCheck {i : UInt16} (hg : (s.state i).guardPc = .check) :
      Move lib s (.guard i) (s.setState i { s.state i with
        guardPc := if (s.state i).completed then .dropped else .ending })
  | guardEnd {i : UInt16} (hg : (s.state i).guardPc = .ending) (hc : s.tx.rxClosed = false) :
      Move lib s (.guard i) { s.setState i { s.state i with guardPc := .dropped } with
        tx := s.tx.push (.end i []) }
  | guardFull {i : UInt16} (hg : (s.state i).guardPc = .ending) :
      Move lib s (.guard i) (s.setState i { s.state i with guardPc := .aborting })
  | guardClosed {i : UInt16} (hg : (s.state i).guardPc = .ending) (hc : s.tx.rxClosed = true) :
      Move lib s (.guard i) (s.setState i { s.state i with guardPc := .dropped })
  | guardAbort {i : UInt16} (hg : (s.state i).guardPc = .aborting) :
      Move lib s (.guard i)
        { s.setState i { s.state i with guardPc := .dropped } with abort := true }
  -- a caller
  | caller {i : UInt16} {budget : Bool} {st : StreamState}
      (hh : (s.state i).handle budget = some st) : Move lib s (.caller i budget) (s.setState i st)
  | callerDrop {i : UInt16} {st : StreamState} (hh : (s.state i).callerDrop = some st) :
      Move lib s (.callerDrop i) (s.setState i st)
  -- the writer
  | write {f : Frame} {tx : Chan Frame} (hc : s.tx.rxClosed = false)
      (hr : s.tx.recv = some (f, tx)) : Move lib s .write { s with tx := tx }
  | writerEnd : Move lib s .writerEnd s.writerEnd

/-! ## every step is a move -/

section
variable {lib : HttpLib} {s t : Session}

theorem move_loopSend {a : SessionAction} {f : Frame} (hl : s.loop = .select)
    (hf : f = .ping ∨ f = .pong) (h : s.loopSend f = t) : Move lib s a t := by
  subst h
  unfold loopSend
  cases hs : s.tx.trySend commandChannelCapacity f with
  | ok tx =>
    obtain ⟨hc, _, rfl⟩ := Chan.trySend_ok hs
    exact .control hl hf hc
  | error e => exact .leave hl

theorem move_recv {m : Message} {now : Nat} (h : s.recv m now = some t) :
    Move lib s (.recv m now) t := by
  unfold recv at h
  split at h
  · next hl =>
    cases hm : hubDecode m with
    | error e =>
      simp only [hm, Option.some.injEq] at h
      exact h ▸ .leave hl
    | ok o =>
      cases o with
      | none =>
        simp only [hm, Option.some.injEq] at h
        exact h ▸ .quiet hm
      | some f =>
        simp only [hm] at h
        cases f <;> simp only [Option.some.injEq] at h
        case ping => exact move_loopSend hl (.inr rfl) h
        case pong => exact h ▸ .alive hm
        case respHead => exact h ▸ .frame hl hm rfl
        case data => exact h ▸ .frame hl hm rfl
        case «end» => exact h ▸ .frame hl hm rfl
        all_goals exact h ▸ .leave hl
  · cases h

theorem move_loopStep (h : s.loopStep lib = some t) : Move lib s .loop t := by
  unfold loopStep at h
  cases hl : s.loop with
  | frame f =>
    simp only [hl, Option.some.injEq] at h
    exact h ▸ .takeUp hl
  | respHead id raw =>
    simp only [hl] at h
    split at h
    · next res hr => exact Option.some.inj h ▸ .headOk hl hr
    · exact Option.some.inj h ▸ .headBad hl
  | data id b =>
    simp only [hl] at h
    split at h
    · next st ha =>
      unfold acceptData at ha
      split at ha
      · next hh =>
        split at ha
        · next c hs =>
          obtain ⟨hc, _, rfl⟩ := Chan.trySend_ok hs
          cases ha
          exact Option.some.inj h ▸ .dataOk hl hh hc
        · cases ha
      · cases ha
    · exact Option.some.inj h ▸ .dataBad hl
  | terminate id v stage reply =>
    simp only [hl, Option.some.injEq] at h
    exact h ▸ .terminate hl
  | remove id reply =>
    simp only [hl, Option.some.injEq] at h
    exact h ▸ .remove hl
  | reply id reason =>
    simp only [hl, Option.some.injEq, loopSend] at h
    subst h
    cases hs : s.tx.trySend commandChannelCapacity (.end id reason) with
    | ok tx =>
      obtain ⟨hc, _, rfl⟩ := Chan.trySend_ok hs
      exact .reply hl hc
    | error e => exact .noReply hl
  | select => simp [hl] at h
  | exited => simp [hl] at h
  | closed => simp [hl] at h
  | finished => simp [hl] at h

theorem drain_some {order : List UInt16} {u : Session} (h : s.drain order = some u) :
    order.toFinset = s.streams ∧ u = { s with closed := true, streams := ∅ } := by
  unfold drain at h
  split at h
  · next ho => exact ⟨ho.2, (Option.some.inj h).symm⟩
  · cases h

theorem move_teardownStep {order : List UInt16} (h : s.teardownStep order = some t) :
    Move lib s (.teardown order) t := by
  unfold teardownStep at h
  split at h
  · next hl ho =>
    obtain ⟨u, hu, rfl⟩ := Option.map_eq_some_iff.mp h
    obtain ⟨hs, rfl⟩ := drain_some hu
    exact .ownDrain hl ho hs
  · next drained todo stage hl ho =>
    cases todo with
    | nil => exact Option.some.inj h ▸ .ownFailed hl ho
    | cons i rest => exact Option.some.inj h ▸ .ownFail hl ho
  · next drained hl ho => exact Option.some.inj h ▸ .ownReturned hl ho
  · next hl => exact Option.some.inj h ▸ .detached hl
  · cases h

theorem move_registryStep {order : List UInt16} (h : s.registryStep order = some t) :
    Move lib s (.registryClose order) t := by
  unfold registryStep at h
  split at h
  · next hr =>
    obtain ⟨u, hu, rfl⟩ := Option.map_eq_some_iff.mp h
    obtain ⟨hs, rfl⟩ := drain_some hu
    exact .registryDrain hr hs
  · next drained todo stage hr =>
    cases todo with
    | nil => exact Option.some.inj h ▸ .registryFailed hr
    | cons i rest => exact Option.some.inj h ▸ .registryFail hr
  · next drained hr => exact Option.some.inj h ▸ .cancel hr

theorem move_reserve {req : Request} (h : s.reserve req = some t) :
    Move lib s (.reserve req) t := by
  unfold reserve at h
  split at h
  · next hf =>
    split at h
    · next tx hs =>
      obtain ⟨hc, _, rfl⟩ := Chan.tryReserve_ok hs
      exact Option.some.inj h ▸ .reserveOk hf hc
    · exact Option.some.inj h ▸ .reserveNo hf
    · exact Option.some.inj h ▸ .reserveNo hf
  · cases h

theorem move_forwardStep (h : s.forwardStep = some t) : Move lib s .forward t := by
  unfold forwardStep at h
  split at h
  · next req hf =>
    obtain rfl := Option.some.inj h
    unfold Session.allocate
    split
    · next hn => exact .exhausted hf hn
    · next hn => exact .allocate hf (Nat.not_lt.mp hn)
  · next req id hf =>
    obtain rfl := Option.some.inj h
    unfold admitStream
    split
    · next hc => exact .gone hf hc
    · next hc =>
      have hc' : s.closed = false := Bool.eq_false_iff.mpr hc
      split
      · next hn => exact .busy hf hc' hn
      · next hn => exact .register hf hc' (Nat.not_le.mp hn)
  · next id hf => exact Option.some.inj h ▸ .open hf
  · next id hf => exact Option.some.inj h ▸ .spawn hf
  · next id hf => exact Option.some.inj h ▸ .install hf
  · next r hf => exact Option.some.inj h ▸ .answered hf
  · cases h

theorem move_uploadStep {i : UInt16} (h : s.uploadStep i = some t) : Move lib s (.upload i) t := by
  unfold uploadStep at h
  simp only at h
  split at h
  · next hu =>
    split at h
    · next b rest hb => exact Option.some.inj h ▸ .readData hu hb
    · next rest hb => exact Option.some.inj h ▸ .readTrailers hu hb
    · next hb => exact Option.some.inj h ▸ .readEnd hu hb
  · next f hu =>
    split at h
    · next hc => exact Option.some.inj h ▸ .sendFailed hu hc
    · next hc =>
      split at h
      · exact Option.some.inj h ▸ .sent hu (Bool.eq_false_iff.mpr hc)
      · cases h
  · next e hu => exact Option.some.inj h ▸ .erred hu
  · next stage hu => exact Option.some.inj h ▸ .uploadFail hu
  · next hu =>
    split at h
    · next tx hs =>
      obtain ⟨hc, _, rfl⟩ := Chan.trySend_ok hs
      exact Option.some.inj h ▸ .uploadEnd hu hc
    · exact Option.some.inj h ▸ .uploadFull hu
    · next hs => exact Option.some.inj h ▸ .uploadClosed hu (Chan.trySend_closed hs)
  · next hu => exact Option.some.inj h ▸ .uploadAbort hu
  · cases h

theorem move_uploadCancel {i : UInt16} (h : s.uploadCancel i = some t) :
    Move lib s (.uploadCancel i) t := by
  unfold uploadCancel at h
  simp only at h
  split at h
  · next ha =>
    split at h
    · next hu => exact Option.some.inj h ▸ .uploadCancel ha (.inl hu)
    · next f hu => exact Option.some.inj h ▸ .uploadCancel ha (.inr ⟨f, hu⟩)
    · cases h
  · cases h

theorem move_guardStep {i : UInt16} (h : s.guardStep i = some t) : Move lib s (.guard i) t := by
  unfold guardStep at h
  simp only at h
  split at h
  · next hg => exact Option.some.inj h ▸ .guardAbortUpload hg
  · next hg => exact Option.some.inj h ▸ .guardRemove hg
  · next hg => exact Option.some.inj h ▸ .guardCheck hg
  · next hg =>
    split at h
    · next tx hs =>
      obtain ⟨hc, _, rfl⟩ := Chan.trySend_ok hs
      exact Option.some.inj h ▸ .guardEnd hg hc
    · exact Option.some.inj h ▸ .guardFull hg
    · next hs => exact Option.some.inj h ▸ .guardClosed hg (Chan.trySend_closed hs)
  · next hg => exact Option.some.inj h ▸ .guardAbort hg
  · cases h

theorem move_write (h : s.write = some t) : Move lib s .write t := by
  unfold write at h
  split at h
  · cases h
  · next hc =>
    obtain ⟨⟨f, tx⟩, hr, rfl⟩ := Option.map_eq_some_iff.mp h
    exact .write (Bool.eq_false_iff.mpr hc) hr

/-- **Inversion.** Every step is one of the moves. -/
theorem move_of_step {a : SessionAction} (h : step lib s a = some t) : Move lib s a t := by
  cases a with
  | recv m now => exact move_recv h
  | loop => exact move_loopStep h
  | tickPing =>
    change s.tickPing = some t at h
    unfold tickPing at h
    split at h
    · next hl => exact move_loopSend hl (.inl rfl) (Option.some.inj h)
    · cases h
  | exit cause =>
    change s.exit cause = some t at h
    unfold exit at h
    split at h
    · next hl => exact Option.some.inj h ▸ .leave hl.1
    · cases h
  | teardown order => exact move_teardownStep h
  | registryClose order => exact move_registryStep h
  | reserve req => exact move_reserve h
  | forward => exact move_forwardStep h
  | upload i => exact move_uploadStep h
  | uploadCancel i => exact move_uploadCancel h
  | guard i => exact move_guardStep h
  | caller i budget =>
    obtain ⟨st, hst, rfl⟩ := Option.map_eq_some_iff.mp h
    exact .caller hst
  | callerDrop i =>
    obtain ⟨st, hst, rfl⟩ := Option.map_eq_some_iff.mp h
    exact .callerDrop hst
  | write => exact move_write h
  | writerEnd => exact Option.some.inj h ▸ .writerEnd

/-- what holds of every new session and is kept by every move holds of every reachable session -/
theorem Reachable.move {P : Session → Prop} (hinit : ∀ id cred now, P (new id cred now))
    (hmove : ∀ s a t, Reachable lib s → P s → Move lib s a t → P t) {s : Session}
    (h : Reachable lib s) : P s := by
  refine Machine.Reachable.invariant_of ?_ ?_ h
  · intro s hs
    obtain ⟨id, cred, now, rfl⟩ := hs
    exact hinit id cred now
  · intro s a t hr hp hstep
    exact hmove s a t hr hp (move_of_step hstep)

end

end Session

end AnvilRing
