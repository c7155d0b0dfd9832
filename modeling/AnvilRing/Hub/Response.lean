import AnvilRing.Hub.Ids

/-!
# The response of a stream

What the caller of a stream reads is what the tether sent for it, or it does not end cleanly.

* `Accepted`, `Split`          the frames of a stream that the hub turned into head and chunks;
* `CallerInv`                  the caller's side: polls, receiver, head, answer;
* `ResponseInv`                the invariant of one stream in a session;
* `no_fabricated_success`      a body that ends cleanly is a whole response.
-/

namespace AnvilRing
open Wire

/-! ## accepted frames -/

/-- The frames `l` are what the hub has made the head and the chunks of: nothing yet, or one valid
head followed by data. -/
def Accepted (lib : HttpLib) (i : UInt16) (st : StreamState) (l : List Frame) : Prop :=
  (st.head = none ∧ st.chunks.log = [] ∧ l = []) ∨
    ∃ raw res, ∃ datas : List Bytes,
      parseHead lib raw = some (res, []) ∧ 200 ≤ res.status ∧ st.head = some res ∧
      st.chunks.log = datas.map .chunk ∧ l = .respHead i raw :: datas.map (.data i)

/-- `fs` is what was accepted and then `rest` -/
def Split (lib : HttpLib) (i : UInt16) (st : StreamState) (fs rest : List Frame) : Prop :=
  ∃ l, fs = l ++ rest ∧ Accepted lib i st l

section
variable {lib : HttpLib} {i : UInt16} {st st' : StreamState} {l l' fs rest rest' : List Frame}

theorem Accepted.length_eq (h : Accepted lib i st l) (h' : Accepted lib i st l') :
    l.length = l'.length := by
  rcases h with ⟨hh, _, rfl⟩ | ⟨raw, res, datas, _, _, hh, hc, rfl⟩
  · rcases h' with ⟨_, _, rfl⟩ | ⟨_, res', _, _, _, hh', _, _⟩
    · rfl
    · rw [hh] at hh'
      cases hh'
  · rcases h' with ⟨hh', _, _⟩ | ⟨_, _, datas', _, _, _, hc', rfl⟩
    · rw [hh] at hh'
      cases hh'
    · have := congrArg List.length (hc.symm.trans hc')
      simp only [List.length_map] at this
      simp [this]

/-- the accepted part has one length only -/
theorem Split.unique (h : Split lib i st fs rest) (h' : Split lib i st fs rest') :
    rest = rest' := by
  obtain ⟨l, rfl, ha⟩ := h
  obtain ⟨l', he, ha'⟩ := h'
  exact (List.append_inj he (ha.length_eq ha')).2

theorem Split.congr (h : Split lib i st fs rest) (hh : st'.head = st.head)
    (hc : st'.chunks.log = st.chunks.log) : Split lib i st' fs rest := by
  obtain ⟨l, he, ha⟩ := h
  refine ⟨l, he, ?_⟩
  unfold Accepted
  rw [hh, hc]
  exact ha

theorem Split.append (h : Split lib i st fs rest) (gs : List Frame) :
    Split lib i st (fs ++ gs) (rest ++ gs) := by
  obtain ⟨l, rfl, ha⟩ := h
  exact ⟨l, List.append_assoc .., ha⟩

/-- a head is accepted as the first frame of its stream -/
theorem Split.head {raw : Bytes} {res : HttpResponse} (h : Split lib i st fs [.respHead i raw])
    (hr : Session.acceptHead lib st raw = some res) :
    Split lib i { st with head := some res } fs [] := by
  unfold Session.acceptHead at hr
  split at hr
  · next res' rest' hp =>
    split at hr
    · next hok =>
      obtain ⟨h200, rfl, hnone⟩ := hok
      obtain rfl := Option.some.inj hr
      obtain ⟨l, rfl, ha⟩ := h
      rcases ha with ⟨_, hc, rfl⟩ | ⟨_, _, _, _, _, hh, _, _⟩
      · exact ⟨[.respHead i raw], rfl, .inr ⟨raw, res', [], hp, h200, rfl, hc, rfl⟩⟩
      · rw [hnone] at hh
        cases hh
    · cases hr
  · cases hr

/-- data is accepted behind the head -/
theorem Split.data {b : Bytes} (h : Split lib i st fs [.data i b]) (hh : st.head.isSome = true) :
    Split lib i { st with chunks := st.chunks.push (.chunk b) } fs [] := by
  obtain ⟨l, rfl, ha⟩ := h
  rcases ha with ⟨hn, _, _⟩ | ⟨raw, res, datas, hp, h200, hs, hc, rfl⟩
  · rw [hn] at hh
    cases hh
  · refine ⟨_, (List.append_nil _).symm, .inr ⟨raw, res, datas ++ [b], hp, h200, hs, ?_, ?_⟩⟩
    · show (st.chunks.push (.chunk b)).log = _
      rw [Chan.log_push, hc, List.map_append]
      rfl
    · rw [List.map_append]
      rfl

/-- only chunks enter the response queue -/
theorem Split.mem_queue (h : Split lib i st fs rest) {x : ChunkOrEnd} (hx : x ∈ st.chunks.queue) :
    ∃ b, x = .chunk b := by
  have hl : x ∈ st.chunks.log := List.mem_append_right _ hx
  obtain ⟨l, _, ha⟩ := h
  rcases ha with ⟨_, hc, _⟩ | ⟨_, _, datas, _, _, _, hc, _⟩
  · rw [hc] at hl
    cases hl
  · rw [hc] at hl
    obtain ⟨b, _, rfl⟩ := List.mem_map.mp hl
    exact ⟨b, rfl⟩

end

theorem acceptHead_some {lib : HttpLib} {st : StreamState} {raw : Bytes} {res : HttpResponse}
    (h : Session.acceptHead lib st raw = some res) : st.head = none := by
  unfold Session.acceptHead at h
  split at h
  · split at h
    · next hok => exact hok.2.2
    · cases h
  · cases h

/-! ## the caller's side -/

/-- What is true of the caller's side of a stream; `done` says that the tether has ended the
stream well behind everything accepted. -/
structure CallerInv (done : Prop) (st : StreamState) : Prop where
  taken : st.chunks.taken = st.yielded.map .chunk
  early : st.callerPc = .absent ∨ st.callerPc = .waitHead ∨ st.callerPc = .checkCompleted →
    st.polls = []
  live : ∀ pc, st.callerPc = .body pc → pc ≠ .empty → .err ∉ st.polls ∧ .eof ∉ st.polls
  empty : st.callerPc = .body .empty → .err ∈ st.polls ∨ st.EndedCleanly
  head : (st.polls ≠ [] ∨ ∃ pc, st.callerPc = .body pc) → st.head.isSome = true
  closed : st.chunks.rxClosed = true → done ∨ st.callerPc = .gone ∨ .err ∈ st.polls
  ended : st.EndedCleanly → done ∧ st.chunks.queue = [] ∧ st.chunks.rxClosed = true
  answer : ∀ a, st.answer = some a →
    (∃ h, st.head = some h ∧ a = StreamState.respond h) ∨ a = StreamState.noHeadResponse

namespace StreamState
variable {st st' : StreamState} {e : PollEvent}

/-- one more poll ends the body only if it returned `Ready(None)` and nothing failed before -/
theorem EndedCleanly.of_snoc (h : st'.EndedCleanly) (hp : st'.polls = st.polls ++ [e]) :
    st.EndedCleanly ∨ (e = .eof ∧ .err ∉ st.polls) := by
  unfold EndedCleanly at h
  rw [hp] at h
  exact EndsCleanly.of_snoc h

theorem EndedCleanly.snoc (h : st.EndedCleanly) (hp : st'.polls = st.polls ++ [e]) :
    st'.EndedCleanly := by
  unfold EndedCleanly
  rw [hp]
  exact EndsCleanly.snoc h e

theorem yielded_snoc (hp : st'.polls = st.polls ++ [e]) :
    st'.yielded = st.yielded ++ e.item.toList := by
  unfold yielded
  rw [hp]
  exact yields_snoc st.polls e

end StreamState

namespace CallerInv
variable {done done' : Prop} {st st' : StreamState}

theorem congr (h : CallerInv done st) (hd : done → done') (hc : st'.chunks = st.chunks)
    (hp : st'.polls = st.polls) (hpc : st'.callerPc = st.callerPc)
    (ha : st'.answer = st.answer) (hh : st'.head = st.head) : CallerInv done' st' := by
  have he : st'.EndedCleanly ↔ st.EndedCleanly := by
    unfold StreamState.EndedCleanly
    rw [hp]
  have hy : st'.yielded = st.yielded := by
    unfold StreamState.yielded
    rw [hp]
  constructor
  · rw [hc, hy]
    exact h.taken
  · rw [hpc, hp]
    exact h.early
  · rw [hpc, hp]
    exact h.live
  · rw [hpc, hp, he]
    exact h.empty
  · rw [hpc, hp, hh]
    exact h.head
  · rw [hc, hpc, hp]
    exact fun hx => (h.closed hx).imp_left hd
  · rw [he, hc]
    exact fun hx => (h.ended hx).imp_left hd
  · rw [ha, hh]
    exact h.answer

theorem done_or_err (h : CallerInv done st) (hg : st.callerPc ≠ .gone)
    (hx : st.chunks.rxClosed = true) : done ∨ .err ∈ st.polls := by
  rcases h.closed hx with hd | hg' | he
  · exact .inl hd
  · exact absurd hg' hg
  · exact .inr he

/-- the caller waits for the head -/
theorem wait (h : CallerInv done st) (hp : st.polls = []) (hg : st.callerPc ≠ .gone)
    {pc : CallerPc} (hpc : pc = .waitHead ∨ pc = .checkCompleted) :
    CallerInv done { st with callerPc := pc } where
  taken := h.taken
  early _ := hp
  live _ hx := by
    rcases hpc with rfl | rfl
    · cases hx
    · cases hx
  empty hx := by
    rcases hpc with rfl | rfl
    · cases hx
    · cases hx
  head hx := by
    rcases hx with hx | ⟨_, hx⟩
    · exact absurd hp hx
    · rcases hpc with rfl | rfl
      · cases hx
      · cases hx
  closed hx := (h.done_or_err hg hx).imp_right .inr
  ended := h.ended
  answer := h.answer

/-- the caller goes away, with the receiver if it has it -/
theorem drop (h : CallerInv done st) {c : Chan ChunkOrEnd}
    (hc : c = st.chunks ∨ c = st.chunks.close) (g : GuardPc) :
    CallerInv done { st with chunks := c, guardPc := g, callerPc := .gone } where
  taken := by
    rcases hc with rfl | rfl
    · exact h.taken
    · exact h.taken
  early := by
    rintro (hx | hx | hx) <;> cases hx
  live := nofun
  empty := nofun
  head hx := by
    rcases hx with hx | ⟨_, hx⟩
    · exact h.head (.inl hx)
    · cases hx
  closed _ := .inr (.inl rfl)
  ended hx := by
    rcases hc with rfl | rfl
    · exact h.ended hx
    · exact ⟨(h.ended hx).1, (h.ended hx).2.1, rfl⟩
  answer := h.answer

/-- the caller goes from one point of a poll to another -/
theorem moveTo (h : CallerInv done st) (pc : BodyPc) (hpc : st.callerPc = .body pc)
    (hne : pc ≠ .empty) (pc' : BodyPc) (hne' : pc' ≠ .empty) :
    CallerInv done { st with callerPc := .body pc' } where
  taken := h.taken
  early := by
    rintro (hx | hx | hx) <;> cases hx
  live _ _ _ := h.live pc hpc hne
  empty := by
    rintro ⟨⟩
    exact absurd rfl hne'
  head _ := h.head (.inr ⟨pc, hpc⟩)
  closed hx := (h.done_or_err (hpc ▸ nofun) hx).imp_right .inr
  ended := h.ended
  answer := h.answer

theorem close (h : CallerInv done st) (hd : done) :
    CallerInv done { st with chunks := st.chunks.close } where
  taken := h.taken
  early := h.early
  live := h.live
  empty := h.empty
  head := h.head
  closed _ := .inl hd
  ended hx := ⟨hd, (h.ended hx).2.1, rfl⟩
  answer := h.answer

/-- a poll that fails: the receiver is dropped -/
theorem fail (h : CallerInv done st) (pc : BodyPc) (hpc : st.callerPc = .body pc)
    (hne : pc ≠ .empty) : CallerInv done { st with
      chunks := st.chunks.close, polls := st.polls ++ [.err], callerPc := .body .empty } where
  taken := by
    rw [StreamState.yielded_snoc (show _ = st.polls ++ [.err] from rfl), List.map_append]
    exact h.taken.trans (List.append_nil _).symm
  early := by
    rintro (hx | hx | hx) <;> cases hx
  live := by
    rintro _ ⟨⟩ hx
    exact absurd rfl hx
  empty _ := .inl (List.mem_append_right _ List.mem_cons_self)
  head _ := h.head (.inr ⟨pc, hpc⟩)
  closed _ := .inr (.inr (List.mem_append_right _ List.mem_cons_self))
  ended hx := by
    rcases hx.of_snoc (show _ = st.polls ++ [.err] from rfl) with hx | ⟨hx, _⟩
    · exact absurd hx.mem (h.live pc hpc hne).2
    · cases hx
  answer := h.answer

/-- a poll that yields a chunk -/
theorem yield (h : CallerInv done st) (pc : BodyPc) (hpc : st.callerPc = .body pc)
    (hne : pc ≠ .empty) {b : Bytes} {c : Chan ChunkOrEnd}
    (hr : st.chunks.recv = some (.chunk b, c)) : CallerInv done { st with
      chunks := c, polls := st.polls ++ [.chunk b], callerPc := .body .idle } := by
  obtain ⟨hq, hc⟩ := Chan.recv_some hr
  have hnot := h.live pc hpc hne
  have hlive : PollEvent.err ∉ st.polls ++ [.chunk b] ∧ .eof ∉ st.polls ++ [.chunk b] := by
    simp [hnot.1, hnot.2]
  constructor
  · rw [StreamState.yielded_snoc (show _ = st.polls ++ [.chunk b] from rfl), List.map_append,
      ← h.taken]
    show c.taken = _
    rw [hc]
    rfl
  · rintro (hx | hx | hx) <;> cases hx
  · exact fun _ _ _ => hlive
  · exact nofun
  · exact fun _ => h.head (.inr ⟨pc, hpc⟩)
  · intro hx
    have hx' : st.chunks.rxClosed = true := by
      rw [hc] at hx
      exact hx
    rcases h.done_or_err (hpc ▸ nofun) hx' with hd | he
    · exact .inl hd
    · exact absurd he hnot.1
  · exact fun hx => absurd hx.mem hlive.2
  · exact h.answer

/-- the receiver is closed and drained: the body ends -/
theorem finish (h : CallerInv done st) (pc : BodyPc) (hpc : st.callerPc = .body pc)
    (hne : pc ≠ .empty) (hr : st.chunks.recv = none) (hx : st.chunks.rxClosed = true) :
    CallerInv done { st with polls := st.polls ++ [.eof], callerPc := .body .empty } := by
  have hq : st.chunks.queue = [] := by
    unfold Chan.recv at hr
    split at hr
    · assumption
    · cases hr
  have hnot := h.live pc hpc hne
  have hd : done := by
    rcases h.done_or_err (hpc ▸ nofun) hx with hd | he
    · exact hd
    · exact absurd he hnot.1
  constructor
  · rw [StreamState.yielded_snoc (show _ = st.polls ++ [.eof] from rfl), List.map_append]
    exact h.taken.trans (List.append_nil _).symm
  · rintro (hx | hx | hx) <;> cases hx
  · rintro _ ⟨⟩ hx
    exact absurd rfl hx
  · exact fun _ => .inr ⟨st.polls, [], rfl, hnot.1⟩
  · exact fun _ => h.head (.inr ⟨pc, hpc⟩)
  · exact fun _ => .inl hd
  · exact fun _ => ⟨hd, hq, hx⟩
  · exact h.answer

/-- polls after the receiver is gone -/
theorem again (h : CallerInv done st) (hpc : st.callerPc = .body .empty) :
    CallerInv done { st with polls := st.polls ++ [.eof] } := by
  constructor
  · rw [StreamState.yielded_snoc (show _ = st.polls ++ [.eof] from rfl), List.map_append]
    exact h.taken.trans (List.append_nil _).symm
  · rw [hpc]
    rintro (hx | hx | hx) <;> cases hx
  · intro pc hx hne
    rw [hpc] at hx
    cases hx
    exact absurd rfl hne
  · intro _
    rcases h.empty hpc with he | he
    · exact .inl (List.mem_append_left _ he)
    · exact .inr (he.snoc rfl)
  · exact fun _ => h.head (.inr ⟨_, hpc⟩)
  · intro hx
    exact (h.closed hx).imp_right (Or.imp_right (List.mem_append_left _))
  · intro hx
    rcases hx.of_snoc (show _ = st.polls ++ [.eof] from rfl) with he | ⟨_, hn⟩
    · exact h.ended he
    · rcases h.empty hpc with he | he
      · exact absurd he hn
      · exact h.ended he
  · exact h.answer

/-- `handle` takes the head: the body is there, and nothing of it was polled yet -/
theorem begin (h : CallerInv done st) (hpc : st.callerPc = .waitHead) {res : HttpResponse}
    (hh : st.head = some res) : CallerInv done { st with
      answer := some (StreamState.respond res), callerPc := .body .idle } := by
  have hp : st.polls = [] := h.early (.inr (.inl hpc))
  constructor
  · exact h.taken
  · rintro (hx | hx | hx) <;> cases hx
  · intro _ _ _
    rw [hp]
    exact ⟨List.not_mem_nil, List.not_mem_nil⟩
  · exact nofun
  · exact fun _ => hh ▸ rfl
  · exact fun hx => (h.done_or_err (hpc ▸ nofun) hx).imp_right .inr
  · exact h.ended
  · rintro _ ⟨⟩
    exact .inl ⟨res, hh, rfl⟩

theorem handle (h : CallerInv done st) (hd : st.outcome = .complete → done)
    (hq : ∀ x ∈ st.chunks.queue, ∃ b, x = .chunk b) {budget : Bool}
    (hs : st.handle budget = some st') : CallerInv done st' := by
  cases StreamState.handled hs with
  | head hpc hh => exact h.begin hpc hh
  | noHead hpc => exact h.wait (h.early (.inr (.inl hpc))) (hpc ▸ nofun) (.inr rfl)
  | headNone =>
    exact { h.drop (.inl rfl) .abortUpload with
      answer := by
        rintro _ ⟨⟩
        exact .inr rfl }
  | waits hpc => exact h.wait (h.early (.inr (.inr hpc))) (hpc ▸ nofun) (.inl rfl)
  | failed hpc => exact h.fail .idle hpc nofun
  | live hpc => exact h.moveTo .idle hpc nofun .polling nofun
  | complete hpc ho => exact (h.close (hd ho)).moveTo .polling hpc nofun .draining nofun
  | «open» hpc => exact h.moveTo .polling hpc nofun .draining nofun
  | chunk hpc hr => exact h.yield .draining hpc nofun hr
  | ended _ hr =>
    -- only chunks enter the queue
    obtain ⟨hq', _⟩ := Chan.recv_some hr
    obtain ⟨b, hb⟩ := hq .end (hq' ▸ List.mem_cons_self)
    cases hb
  | drained hpc hr hx => exact h.finish .draining hpc nofun hr hx
  | pending hpc => exact h.moveTo .draining hpc nofun .idle nofun
  | empty hpc => exact h.again hpc

theorem callerDrop (h : CallerInv done st) (hs : st.callerDrop = some st') :
    CallerInv done st' := by
  unfold StreamState.callerDrop at hs
  split at hs
  · exact Option.some.inj hs ▸ h.drop (.inl rfl) .abortUpload
  · exact Option.some.inj hs ▸ h.drop (.inr rfl) .abortUpload
  · exact Option.some.inj hs ▸ h.drop (.inl rfl) .abortUpload
  · cases hs

end CallerInv

/-! ## one stream of a session -/

/-- the stream that the loop found, or takes out of the map -/
def LoopPc.busy : LoopPc → Option UInt16
  | .respHead id _ => some id
  | .data id _ => some id
  | .terminate id _ _ _ => some id
  | .remove id _ => some id
  | _ => none

/-- the stream that the loop is making something of -/
def LoopPc.accepting : LoopPc → Option UInt16
  | .respHead id _ => some id
  | .data id _ => some id
  | .terminate id .complete _ _ => some id
  | _ => none

/-- the stream that a forward has registered and not handed out yet -/
def ForwardPc.starting : ForwardPc → Option UInt16
  | .admitted id => some id
  | .opened id => some id
  | .spawned id => some id
  | _ => none

theorem LoopPc.accepting_ne {i : UInt16} {l : LoopPc} (h : l.busy ≠ some i) :
    l.accepting ≠ some i := by
  cases l with
  | terminate id v stage reply =>
    cases v with
    | complete => exact h
    | fail => exact nofun
  | respHead | data => exact h
  | _ => exact nofun

/-- the tether ended the stream well right behind what was accepted -/
def EndedWell (lib : HttpLib) (i : UInt16) (st : StreamState) (fs : List Frame) : Prop :=
  ∃ later, Split lib i st fs (.end i [] :: later)

/-- The invariant of stream `i`, whose state is `st`: `fs` are the frames taken up for it, out of
`n` taken up in all, and `mapped` says that it is in the map. -/
structure ResponseInv (lib : HttpLib) (i : UInt16) (st : StreamState) (fs : List Frame) (n : Nat)
    (mapped : Prop) (loop : LoopPc) (forward : ForwardPc) : Prop where
  start_le : st.start ≤ n
  split : ∃ rest, Split lib i st fs rest
  idle : mapped → loop.busy ≠ some i → Split lib i st fs []
  atHead : ∀ raw, loop = .respHead i raw → Split lib i st fs [.respHead i raw]
  atData : ∀ b, loop = .data i b → Split lib i st fs [.data i b]
  atEnd : ∀ stage reply, loop = .terminate i .complete stage reply → Split lib i st fs [.end i []]
  complete : st.outcome = .complete → EndedWell lib i st fs
  caller : CallerInv (EndedWell lib i st fs) st
  starting : forward.starting = some i → st.callerPc = .absent

/-- a stream whose response side nobody touched -/
structure SameResponse (st st' : StreamState) : Prop where
  start : st'.start = st.start
  head : st'.head = st.head
  chunks : st'.chunks = st.chunks
  callerPc : st'.callerPc = st.callerPc
  answer : st'.answer = st.answer
  polls : st'.polls = st.polls
  outcome : st'.outcome = .complete → st.outcome = .complete

theorem SameResponse.refl (st : StreamState) : SameResponse st st :=
  ⟨rfl, rfl, rfl, rfl, rfl, rfl, id⟩

theorem sameResponse_fail (st : StreamState) (stage : TermStage) :
    SameResponse st (st.terminate .fail stage) := by
  cases stage with
  | completed => exact ⟨rfl, rfl, rfl, rfl, rfl, rfl, id⟩
  | upload => exact ⟨rfl, rfl, rfl, rfl, rfl, rfl, id⟩
  | outcome => exact ⟨rfl, rfl, rfl, rfl, rfl, rfl, nofun⟩

namespace ResponseInv
variable {lib : HttpLib} {i : UInt16} {st st' : StreamState} {fs fs' : List Frame} {n n' : Nat}
  {mapped mapped' : Prop} {loop loop' : LoopPc} {fw fw' : ForwardPc}

/-- a move that takes nothing up for the stream and does not work on its response -/
theorem frame (h : ResponseInv lib i st fs n mapped loop fw) (hk : SameResponse st st')
    (hn : n ≤ n') (hm : mapped' → mapped)
    (hl : loop' = loop ∨ loop'.accepting ≠ some i ∧
      (mapped' → loop'.busy ≠ some i → loop.busy ≠ some i))
    (hf : fw'.starting = some i → fw.starting = some i) :
    ResponseInv lib i st' fs n' mapped' loop' fw' := by
  have hsplit : ∀ {rest}, Split lib i st fs rest → Split lib i st' fs rest :=
    fun hx => hx.congr hk.head (hk.chunks ▸ rfl)
  have hend : EndedWell lib i st fs → EndedWell lib i st' fs := fun ⟨later, hx⟩ =>
    ⟨later, hsplit hx⟩
  constructor
  · rw [hk.start]
    exact h.start_le.trans hn
  · exact h.split.imp fun _ => hsplit
  · intro hi hb
    rcases hl with rfl | ⟨_, hl⟩
    · exact hsplit (h.idle (hm hi) hb)
    · exact hsplit (h.idle (hm hi) (hl hi hb))
  · intro raw hx
    rcases hl with rfl | ⟨hl, _⟩
    · exact hsplit (h.atHead raw hx)
    · rw [hx] at hl
      exact absurd rfl hl
  · intro b hx
    rcases hl with rfl | ⟨hl, _⟩
    · exact hsplit (h.atData b hx)
    · rw [hx] at hl
      exact absurd rfl hl
  · intro stage reply hx
    rcases hl with rfl | ⟨hl, _⟩
    · exact hsplit (h.atEnd stage reply hx)
    · rw [hx] at hl
      exact absurd rfl hl
  · exact fun hx => hend (h.complete (hk.outcome hx))
  · exact h.caller.congr hend hk.chunks hk.polls hk.callerPc hk.answer hk.head
  · rw [hk.callerPc]
    exact fun hx => h.starting (hf hx)

/-- a frame of the stream is taken up: the loop found the stream, or wants nothing of it -/
theorem takeUp (h : ResponseInv lib i st fs n mapped loop fw) {f : Frame}
    (hb : loop.busy ≠ some i) (hn : n ≤ n')
    (hm : mapped → loop'.busy = some i ∧ (∀ raw, loop' = .respHead i raw → f = .respHead i raw) ∧
      (∀ b, loop' = .data i b → f = .data i b) ∧
      ∀ stage reply, loop' = .terminate i .complete stage reply → f = .end i [])
    (hu : ¬ mapped → loop'.accepting ≠ some i) :
    ResponseInv lib i st (fs ++ [f]) n' mapped loop' fw := by
  have hend : EndedWell lib i st fs → EndedWell lib i st (fs ++ [f]) := fun ⟨later, hx⟩ =>
    ⟨later ++ [f], hx.append [f]⟩
  by_cases hi : mapped
  · have hsplit : Split lib i st (fs ++ [f]) [f] := (h.idle hi hb).append [f]
    obtain ⟨hbusy, hh, hd, he⟩ := hm hi
    constructor
    · exact h.start_le.trans hn
    · exact ⟨_, hsplit⟩
    · exact fun _ hx => absurd hbusy hx
    · exact fun raw hx => hh raw hx ▸ hsplit
    · exact fun b hx => hd b hx ▸ hsplit
    · exact fun stage reply hx => he stage reply hx ▸ hsplit
    · exact fun hx => hend (h.complete hx)
    · exact h.caller.congr hend rfl rfl rfl rfl rfl
    · exact h.starting
  · obtain ⟨rest, hrest⟩ := h.split
    have hna := hu hi
    constructor
    · exact h.start_le.trans hn
    · exact ⟨_, hrest.append [f]⟩
    · exact fun hx => absurd hx hi
    · rintro raw rfl
      exact absurd rfl hna
    · rintro b rfl
      exact absurd rfl hna
    · rintro stage reply rfl
      exact absurd rfl hna
    · exact fun hx => hend (h.complete hx)
    · exact h.caller.congr hend rfl rfl rfl rfl rfl
    · exact h.starting

theorem headOk {raw : Bytes} {res : HttpResponse}
    (h : ResponseInv lib i st fs n mapped (.respHead i raw) fw)
    (hr : Session.acceptHead lib st raw = some res) :
    ResponseInv lib i { st with head := some res } fs n mapped .select fw := by
  have hopen : ¬ EndedWell lib i st fs := by
    rintro ⟨later, hx⟩
    cases hx.unique (h.atHead raw rfl)
  have hsplit := (h.atHead raw rfl).head hr
  constructor
  · exact h.start_le
  · exact ⟨_, hsplit⟩
  · exact fun _ _ => hsplit
  · exact nofun
  · exact nofun
  · exact nofun
  · exact fun hx => absurd (h.complete hx) hopen
  · exact {
      taken := h.caller.taken
      early := h.caller.early
      live := h.caller.live
      empty := h.caller.empty
      head := fun _ => rfl
      closed := fun hx => (h.caller.closed hx).imp_left fun hd => absurd hd hopen
      ended := fun hx => absurd (h.caller.ended hx).1 hopen
      answer := by
        intro a ha
        rcases h.caller.answer a ha with ⟨hd, hh, _⟩ | hn
        · rw [acceptHead_some hr] at hh
          cases hh
        · exact .inr hn }
  · exact h.starting

theorem dataOk {b : Bytes} (h : ResponseInv lib i st fs n mapped (.data i b) fw)
    (hh : st.head.isSome = true) (hc : st.chunks.rxClosed = false) :
    ResponseInv lib i { st with chunks := st.chunks.push (.chunk b) } fs n mapped .select fw := by
  have hopen : ¬ EndedWell lib i st fs := by
    rintro ⟨later, hx⟩
    cases hx.unique (h.atData b rfl)
  have hsplit := (h.atData b rfl).data hh
  constructor
  · exact h.start_le
  · exact ⟨_, hsplit⟩
  · exact fun _ _ => hsplit
  · exact nofun
  · exact nofun
  · exact nofun
  · exact fun hx => absurd (h.complete hx) hopen
  · exact {
      taken := h.caller.taken
      early := h.caller.early
      live := h.caller.live
      empty := h.caller.empty
      head := h.caller.head
      closed := fun hx => by
        rw [Chan.push_rxClosed, hc] at hx
        cases hx
      ended := fun hx => absurd (h.caller.ended hx).1 hopen
      answer := h.caller.answer }
  · exact h.starting

/-- one effect of `complete` -/
theorem completing {stage : TermStage} {reply : Option Bytes}
    (h : ResponseInv lib i st fs n mapped (.terminate i .complete stage reply) fw) :
    ResponseInv lib i (st.terminate .complete stage) fs n mapped
      (stage.next.elim (.remove i reply) fun next => .terminate i .complete next reply) fw := by
  have hsplit : ∀ {rest}, Split lib i st fs rest →
      Split lib i (st.terminate .complete stage) fs rest := by
    intro rest hx
    rw [StreamState.terminate_eq]
    exact hx.congr rfl rfl
  have hend := hsplit (h.atEnd stage reply rfl)
  constructor
  · rw [StreamState.terminate_eq]
    exact h.start_le
  · exact ⟨_, hend⟩
  · intro _ hx
    cases stage with
    | completed => exact absurd rfl hx
    | upload => exact absurd rfl hx
    | outcome => exact absurd rfl hx
  · intro raw hx
    cases stage with
    | completed => cases hx
    | upload => cases hx
    | outcome => cases hx
  · intro b hx
    cases stage with
    | completed => cases hx
    | upload => cases hx
    | outcome => cases hx
  · exact fun _ _ _ => hend
  · exact fun _ => ⟨[], hend⟩
  · refine h.caller.congr (fun ⟨later, hx⟩ => ⟨later, hsplit hx⟩) ?_ ?_ ?_ ?_ ?_ <;>
      rw [StreamState.terminate_eq]
  · rw [StreamState.terminate_eq]
    exact h.starting

/-- a fresh stream: nothing was taken up for it -/
theorem fresh (req : Request) (ht : loop.target ≠ some i) :
    ResponseInv lib i (.fresh req n) [] n mapped loop fw := by
  have hsplit : Split lib i (.fresh req n) [] [] := ⟨[], rfl, .inl ⟨rfl, rfl, rfl⟩⟩
  constructor
  · exact le_rfl
  · exact ⟨_, hsplit⟩
  · exact fun _ _ => hsplit
  · rintro raw rfl
    exact absurd rfl ht
  · rintro b rfl
    exact absurd rfl ht
  · rintro stage reply rfl
    exact absurd rfl ht
  · exact nofun
  · exact {
      taken := rfl
      early := fun _ => rfl
      live := nofun
      empty := nofun
      head := by
        rintro (hx | ⟨_, hx⟩)
        · exact absurd rfl hx
        · cases hx
      closed := nofun
      ended := fun hx => absurd hx.mem List.not_mem_nil
      answer := nofun }
  · exact fun _ => rfl

/-- a step of the caller: it changes nothing that was accepted -/
theorem callerMove (h : ResponseInv lib i st fs n mapped loop fw) (hstart : st'.start = st.start)
    (hhead : st'.head = st.head) (hlog : st'.chunks.log = st.chunks.log)
    (hout : st'.outcome = .complete → st.outcome = .complete)
    (hc : CallerInv (EndedWell lib i st fs) st') (hf : fw'.starting ≠ some i) :
    ResponseInv lib i st' fs n mapped loop fw' := by
  have hsplit : ∀ {rest}, Split lib i st fs rest → Split lib i st' fs rest :=
    fun hx => hx.congr hhead hlog
  have hend : EndedWell lib i st fs → EndedWell lib i st' fs := fun ⟨later, hx⟩ =>
    ⟨later, hsplit hx⟩
  constructor
  · rw [hstart]
    exact h.start_le
  · exact h.split.imp fun _ => hsplit
  · exact fun hi hb => hsplit (h.idle hi hb)
  · exact fun raw hx => hsplit (h.atHead raw hx)
  · exact fun b hx => hsplit (h.atData b hx)
  · exact fun stage reply hx => hsplit (h.atEnd stage reply hx)
  · exact fun hx => hend (h.complete (hout hx))
  · exact hc.congr hend rfl rfl rfl rfl rfl
  · exact fun hx => absurd hx hf

end ResponseInv

/-! ## every stream of a session -/

namespace Session
variable {lib : HttpLib} {s t : Session} {a : SessionAction} {i j : UInt16}

/-- every stream satisfies its invariant -/
def Responses (lib : HttpLib) (s : Session) : Prop :=
  ∀ i, ResponseInv lib i (s.state i) (s.since i) s.received.length (i ∈ s.streams) s.loop s.forward

theorem since_setState {st : StreamState} (hst : st.start = (s.state j).start) (i : UInt16) :
    (s.setState j st).since i = s.since i := by
  unfold since
  rw [setState_apply StreamState.start s hst]
  rfl

theorem since_takeUp (f : Frame) (l : LoopPc) (h : (s.state i).start ≤ s.received.length) :
    ({ s with loop := l, received := s.received ++ [f] } : Session).since i =
      s.since i ++ if concerns i f then [f] else [] := by
  unfold since
  rw [List.drop_append_of_le_length h, List.filter_append, List.filter_singleton]
  cases concerns i f <;> rfl

theorem takeUp_busy_ne {f : Frame} (hf : concerns i f = false) : (s.takeUp f).busy ≠ some i := by
  cases f <;> simp only [concerns, beq_eq_false_iff_ne, ne_eq] at hf
  case respHead id raw =>
    show (if id ∈ s.streams then LoopPc.respHead id raw else .select).busy ≠ some i
    split
    · exact fun hx => hf (Option.some.inj hx)
    · exact nofun
  case data id b =>
    show (if id ∈ s.streams then LoopPc.data id b else .remove id _).busy ≠ some i
    split
    · exact fun hx => hf (Option.some.inj hx)
    · exact fun hx => hf (Option.some.inj hx)
  case «end» id r =>
    show (if id ∈ s.streams then LoopPc.terminate id _ _ _ else .select).busy ≠ some i
    split
    · exact fun hx => hf (Option.some.inj hx)
    · exact nofun
  all_goals exact nofun

/-- a frame whose stream is in the map is worked on as what it is -/
theorem takeUp_of_mem {f : Frame} (hf : concerns i f = true) (hi : i ∈ s.streams) :
    (s.takeUp f).busy = some i ∧ (∀ raw, s.takeUp f = .respHead i raw → f = .respHead i raw) ∧
      (∀ b, s.takeUp f = .data i b → f = .data i b) ∧
      ∀ stage reply, s.takeUp f = .terminate i .complete stage reply → f = .end i [] := by
  cases f <;> simp only [concerns, beq_iff_eq, Bool.false_eq_true] at hf
  case respHead id raw =>
    subst hf
    rw [show s.takeUp (.respHead id raw) = .respHead id raw from if_pos hi]
    refine ⟨rfl, ?_, nofun, nofun⟩
    rintro _ ⟨⟩
    rfl
  case data id b =>
    subst hf
    rw [show s.takeUp (.data id b) = .data id b from if_pos hi]
    refine ⟨rfl, nofun, ?_, nofun⟩
    rintro _ ⟨⟩
    rfl
  case «end» id r =>
    subst hf
    rw [show s.takeUp (.end id r) =
      .terminate id (if r = [] then .complete else .fail) .completed none from if_pos hi]
    refine ⟨rfl, nofun, nofun, ?_⟩
    intro stage reply hx
    by_cases h0 : r = []
    · rw [h0]
    · rw [if_neg h0] at hx
      cases hx

/-- a frame without a stream asks for nothing more than a removal -/
theorem takeUp_of_notMem {f : Frame} (hf : concerns i f = true) (hi : i ∉ s.streams) :
    (s.takeUp f).accepting ≠ some i := by
  cases f <;> simp only [concerns, beq_iff_eq, Bool.false_eq_true] at hf
  case respHead id raw =>
    subst hf
    rw [show s.takeUp (.respHead id raw) = .select from if_neg hi]
    exact nofun
  case data id b =>
    subst hf
    rw [show s.takeUp (.data id b) = .remove id (some callerUnavailable) from if_neg hi]
    exact nofun
  case «end» id r =>
    subst hf
    rw [show s.takeUp (.end id r) = .select from if_neg hi]
    exact nofun

theorem Responses.takeUp (h : Responses lib s) {f : Frame} (hl : s.loop = .frame f) :
    Responses lib { s with loop := s.takeUp f, received := s.received ++ [f] } := by
  intro i
  have hn : s.received.length ≤ (s.received ++ [f]).length := by simp
  have hb : s.loop.busy ≠ some i := by
    rw [hl]
    exact nofun
  show ResponseInv lib i (s.state i) (Session.since _ i) _ (i ∈ s.streams) (s.takeUp f) s.forward
  rw [since_takeUp f _ (h i).start_le]
  cases hf : concerns i f with
  | false =>
    have hne := takeUp_busy_ne (s := s) hf
    rw [if_neg Bool.false_ne_true, List.append_nil]
    exact (h i).frame (.refl _) hn id (.inr ⟨LoopPc.accepting_ne hne, fun _ _ => hb⟩) id
  | true => exact (h i).takeUp hb hn (takeUp_of_mem hf) (takeUp_of_notMem hf)

/-- the frame rule for a move that takes no frame up -/
theorem Responses.quiet (h : Responses lib s) (hk : ∀ i, SameResponse (s.state i) (t.state i))
    (hr : t.received = s.received) (hs : t.streams ⊆ s.streams)
    (hl : t.loop = s.loop ∨ t.loop.accepting = none ∧ ∀ i ∈ t.streams,
      t.loop.busy ≠ some i → s.loop.busy ≠ some i)
    (hf : t.forward = s.forward ∨ t.forward.starting = none ∨
      t.forward.starting = s.forward.starting) : Responses lib t := by
  intro i
  have hsince : t.since i = s.since i := by
    unfold since
    rw [hr, (hk i).start]
  rw [hsince, hr]
  refine (h i).frame (hk i) le_rfl (fun hi => hs hi) ?_ ?_
  · rcases hl with hl | ⟨ha, hb⟩
    · exact .inl hl
    · exact .inr ⟨ha ▸ nofun, hb i⟩
  · rcases hf with hf | hf | hf
    · exact fun hx => hf ▸ hx
    · exact fun hx => by rw [hf] at hx; cases hx
    · exact fun hx => hf ▸ hx

theorem sameResponse_setState {st : StreamState} (h : SameResponse (s.state j) st) (i : UInt16) :
    SameResponse (s.state i) ((s.setState j st).state i) :=
  forall_setState (P := fun i st => SameResponse (s.state i) st) (fun _ => .refl _) h i

/-- a move on stream `j`, seen from `j` and from the others -/
theorem Responses.update (h : Responses lib s) {st : StreamState} {loop : LoopPc}
    {fw : ForwardPc} (hst : st.start = (s.state j).start)
    (hj : ResponseInv lib j st (s.since j) s.received.length (j ∈ s.streams) loop fw)
    (hl : ∀ i, i ≠ j → loop = s.loop ∨ loop.accepting ≠ some i ∧
      (i ∈ s.streams → loop.busy ≠ some i → s.loop.busy ≠ some i))
    (hf : ∀ i, i ≠ j → fw.starting = some i → s.forward.starting = some i) :
    Responses lib { s.setState j st with loop := loop, forward := fw } := by
  intro i
  show ResponseInv lib i ((s.setState j st).state i) ((s.setState j st).since i) s.received.length
    (i ∈ s.streams) loop fw
  rw [since_setState hst]
  by_cases hi : i = j
  · subst hi
    rw [setState_self]
    exact hj
  · rw [setState_of_ne s st hi]
    exact (h i).frame (.refl _) le_rfl id (hl i hi) (hf i hi)

theorem Responses.register (h : Responses lib s) (hid : s.IdInv) {req : Request}
    (hf : s.forward = .allocated req j) :
    Responses lib { s.setState j (StreamState.fresh req s.received.length) with
      streams := insert j s.streams, forward := .admitted j } := by
  have htarget : s.loop.target ≠ some j := by
    intro hx
    have := hid.target j hx
    rw [hid.allocated req j hf] at this
    cases this
  intro i
  show ResponseInv lib i ((s.setState j _).state i) ((s.setState j _).since i) s.received.length
    (i ∈ insert j s.streams) s.loop (.admitted j)
  by_cases hi : i = j
  · subst hi
    have hsince : (s.setState i (StreamState.fresh req s.received.length)).since i = [] := by
      unfold since
      rw [setState_self]
      show List.filter _ (s.received.drop s.received.length) = []
      rw [List.drop_length]
      rfl
    rw [setState_self, hsince]
    exact .fresh req htarget
  · have hsince : (s.setState j (StreamState.fresh req s.received.length)).since i =
        s.since i := by
      unfold since
      rw [setState_of_ne s _ hi]
      rfl
    rw [setState_of_ne s _ hi, hsince]
    refine (h i).frame (.refl _) le_rfl ?_ (.inl rfl) ?_
    · exact fun hx => (Finset.mem_insert.mp hx).resolve_left hi
    · exact fun hx => absurd (Option.some.inj hx).symm hi

theorem Responses.move (h : Responses lib s) (hid : s.IdInv) (hm : Move lib s a t) :
    Responses lib t := by
  have hrefl : ∀ i, SameResponse (s.state i) (s.state i) := fun i => .refl _
  cases hm with
  | quiet | alive | ownFailed | registryFailed | cancel | write | writerEnd =>
    exact h.quiet hrefl rfl subset_rfl (.inl rfl) (.inl rfl)
  | frame hl | leave hl | control hl | reply hl | noReply hl | ownReturned hl | detached hl =>
    refine h.quiet hrefl rfl subset_rfl (.inr ⟨rfl, fun _ _ _ => ?_⟩) (.inl rfl)
    rw [hl]
    exact nofun
  | takeUp hl => exact h.takeUp hl
  | @headOk id raw res hl hr =>
    refine h.update rfl ((hl ▸ h id).headOk hr) ?_ fun _ _ hx => hx
    intro i hi
    right
    rw [hl]
    exact ⟨nofun, fun _ _ hx => hi (Option.some.inj hx).symm⟩
  | @dataOk id b hl hh hc =>
    refine h.update rfl ((hl ▸ h id).dataOk hh hc) ?_ fun _ _ hx => hx
    intro i hi
    right
    rw [hl]
    exact ⟨nofun, fun _ _ hx => hi (Option.some.inj hx).symm⟩
  | headBad hl | dataBad hl =>
    refine h.quiet hrefl rfl subset_rfl (.inr ⟨rfl, fun _ _ hx => ?_⟩) (.inl rfl)
    rw [hl]
    exact hx
  | @terminate id v stage reply hl =>
    cases v with
    | complete =>
      refine h.update ?_ (hl ▸ h id).completing ?_ fun _ _ hx => hx
      · rw [StreamState.terminate_eq]
      · intro i hi
        right
        rw [hl]
        cases stage with
        | completed => exact ⟨fun hx => hi (Option.some.inj hx).symm, fun _ hx => hx⟩
        | upload => exact ⟨fun hx => hi (Option.some.inj hx).symm, fun _ hx => hx⟩
        | outcome => exact ⟨nofun, fun _ hx => hx⟩
    | fail =>
      refine h.quiet (sameResponse_setState (sameResponse_fail _ stage)) rfl subset_rfl
        (.inr ?_) (.inl rfl)
      rw [hl]
      cases stage with
      | completed => exact ⟨rfl, fun _ _ hx => hx⟩
      | upload => exact ⟨rfl, fun _ _ hx => hx⟩
      | outcome => exact ⟨rfl, fun _ _ hx => hx⟩
  | @remove id reply hl =>
    refine h.quiet hrefl rfl (Finset.erase_subset _ _) (.inr ⟨?_, fun i hi _ => ?_⟩) (.inl rfl)
    · cases reply with
      | none => rfl
      | some reason => rfl
    · rw [hl]
      exact fun hx => (Finset.mem_erase.mp hi).1 (Option.some.inj hx).symm
  | ownDrain | registryDrain =>
    exact h.quiet hrefl rfl (Finset.empty_subset _) (.inl rfl) (.inl rfl)
  | ownFail | registryFail =>
    exact h.quiet (sameResponse_setState (sameResponse_fail _ _)) rfl subset_rfl (.inl rfl)
      (.inl rfl)
  | reserveOk | reserveNo | exhausted | allocate | gone | busy | answered =>
    exact h.quiet hrefl rfl subset_rfl (.inl rfl) (.inr (.inl rfl))
  | register hf => exact h.register hid hf
  | «open» hf => exact h.quiet hrefl rfl subset_rfl (.inl rfl) (.inr (.inr (hf ▸ rfl)))
  | spawn hf =>
    exact h.quiet (sameResponse_setState ⟨rfl, rfl, rfl, rfl, rfl, rfl, id⟩) rfl subset_rfl
      (.inl rfl) (.inr (.inr (hf ▸ rfl)))
  | @install id hf =>
    have hpc : (s.state id).callerPc = .absent := (h id).starting (by rw [hf]; rfl)
    have hp : (s.state id).polls = [] := (h id).caller.early (.inl hpc)
    have heq := StreamState.installUpload_eq (s.state id)
    have hc : CallerInv (EndedWell lib id (s.state id) (s.since id))
        (s.state id).installUpload := by
      refine (h id).caller.congr (fun hd => hd) ?_ ?_ ?_ ?_ ?_ <;> rw [heq]
    refine h.update ?_ ((h id).callerMove ?_ ?_ ?_ ?_ (hc.wait ?_ ?_ (.inl rfl)) nofun)
      (fun _ _ => .inl rfl) nofun
    · rw [heq]
    · rw [heq]
    · rw [heq]
    · rw [heq]
    · rw [heq]
      exact fun hx => hx
    · rw [heq]
      exact hp
    · rw [heq, hpc]
      exact nofun
  | readData | readTrailers | readEnd | sent | sendFailed | erred | uploadEnd | uploadFull
  | uploadClosed | uploadAbort | uploadCancel | guardAbortUpload | guardCheck | guardEnd
  | guardFull | guardClosed | guardAbort =>
    exact h.quiet (sameResponse_setState ⟨rfl, rfl, rfl, rfl, rfl, rfl, id⟩) rfl subset_rfl
      (.inl rfl) (.inl rfl)
  | @uploadFail i stage hu =>
    have hk := sameResponse_fail (s.state i) stage
    exact h.quiet (sameResponse_setState
      ⟨hk.start, hk.head, hk.chunks, hk.callerPc, hk.answer, hk.polls, hk.outcome⟩) rfl subset_rfl
      (.inl rfl) (.inl rfl)
  | guardRemove =>
    exact h.quiet (sameResponse_setState ⟨rfl, rfl, rfl, rfl, rfl, rfl, id⟩) rfl
      (Finset.erase_subset _ _) (.inl rfl) (.inl rfl)
  | @caller i budget st hh =>
    obtain ⟨rest, hrest⟩ := (h i).split
    have hstart : s.forward.starting ≠ some i := by
      intro hx
      have hpc := (h i).starting hx
      unfold StreamState.handle at hh
      rw [hpc] at hh
      cases hh
    have hc := (h i).caller.handle (h i).complete (fun _ => hrest.mem_queue) hh
    have heq := StreamState.handle_eq hh
    have hst : st.start = (s.state i).start := by rw [heq]
    refine h.update hst ((h i).callerMove hst ?_ (StreamState.handle_log hh) ?_ hc hstart)
      (fun _ _ => .inl rfl) fun _ _ hx => hx
    · rw [heq]
    · rw [heq]
      exact fun hx => hx
  | @callerDrop i st hh =>
    have hstart : s.forward.starting ≠ some i := by
      intro hx
      have hpc := (h i).starting hx
      unfold StreamState.callerDrop at hh
      rw [hpc] at hh
      cases hh
    have hc := (h i).caller.callerDrop hh
    have heq := StreamState.callerDrop_eq hh
    have hst : st.start = (s.state i).start := by rw [heq]
    refine h.update hst ((h i).callerMove hst ?_ (StreamState.callerDrop_log hh) ?_ hc hstart)
      (fun _ _ => .inl rfl) fun _ _ hx => hx
    · rw [heq]
    · rw [heq]
      exact fun hx => hx

theorem responses_new (id : String) (cred : Bytes) (now : Nat) :
    Responses lib (new id cred now) := fun i => {
  start_le := le_rfl
  split := ⟨[], [], rfl, .inl ⟨rfl, rfl, rfl⟩⟩
  idle := fun hi => absurd hi (Finset.notMem_empty i)
  atHead := nofun
  atData := nofun
  atEnd := nofun
  complete := nofun
  caller := {
    taken := rfl
    early := fun _ => rfl
    live := nofun
    empty := nofun
    head := by
      rintro (hx | ⟨_, hx⟩)
      · exact absurd rfl hx
      · cases hx
    closed := nofun
    ended := fun hx => absurd hx.mem List.not_mem_nil
    answer := nofun }
  starting := nofun }

theorem Reachable.responses (h : Reachable lib s) : Responses lib s :=
  h.move responses_new fun _ _ _ hr hs hm => hs.move hr.idInv hm

end Session

/-! ## no fabricated success -/

/-- **No fabricated success.**  In every state that a run of a hub session can reach: if the body
of stream `i` ended cleanly, then the frames taken up for `i` are one valid final head, the data
that the body yielded, chunk by chunk, and an END without a reason; whatever came later changed
nothing.  A success status comes from a head that the tether sent for the stream; neither a missing
head nor a refused forward is answered with one. -/
theorem no_fabricated_success {lib : HttpLib} {s : Session} (h : Session.Reachable lib s)
    (i : UInt16) :
    ((s.state i).EndedCleanly → ∃ raw res later,
      parseHead lib raw = some (res, []) ∧ 200 ≤ res.status ∧ (s.state i).head = some res ∧
      s.since i = .respHead i raw :: ((s.state i).yielded.map (.data i) ++ .end i [] :: later)) ∧
    (∀ a, (s.state i).answer = some a → 200 ≤ a.status ∧ a.status < 300 → ∃ raw res,
      .respHead i raw ∈ s.since i ∧ parseHead lib raw = some (res, []) ∧
      (s.state i).head = some res ∧ res.status = a.status) ∧
    ∀ e : ForwardError, ¬ (200 ≤ e.status ∧ e.status < 300) := by
  have hi := h.responses i
  refine ⟨?_, ?_, ?_⟩
  · intro hend
    obtain ⟨⟨later, l, hl, ha⟩, hq, _⟩ := hi.caller.ended hend
    have hhead := hi.caller.head (.inl (List.ne_nil_of_mem hend.mem))
    rcases ha with ⟨hn, _, _⟩ | ⟨raw, res, datas, hp, h200, hh, hlog, rfl⟩
    · rw [hn] at hhead
      cases hhead
    · -- nothing is left in the queue: what was pushed is what was yielded
      have hy : (s.state i).yielded = datas := by
        rw [Chan.log, hq, List.append_nil, hi.caller.taken] at hlog
        exact (List.map_injective_iff.mpr fun _ _ hx => ChunkOrEnd.chunk.inj hx) hlog
      refine ⟨raw, res, later, hp, h200, hh, ?_⟩
      rw [hl, hy]
      rfl
  · intro a ha h2
    rcases hi.caller.answer a ha with ⟨res, hh, rfl⟩ | rfl
    · have hs : some res.status = some (StreamState.respond res).status :=
        callerStatusFor_success h2
      obtain ⟨rest, l, hl, hacc⟩ := hi.split
      rcases hacc with ⟨hn, _, _⟩ | ⟨raw, res', datas, hp, _, hh', _, rfl⟩
      · rw [hn] at hh
        cases hh
      · obtain rfl : res' = res := Option.some.inj (hh'.symm.trans hh)
        refine ⟨raw, res', ?_, hp, hh, Option.some.inj hs⟩
        rw [hl]
        exact List.mem_append_left _ List.mem_cons_self
    · exact absurd h2 callerStatusFor_none
  · intro e
    cases e <;> decide

/-- `httparse` on the one head of the run below -/
def okLib : HttpLib where
  parseResponse b := if b = ascii "HTTP/1.1 200 OK\r\n\r\n" then some ⟨19, some 200, []⟩ else none
  fieldOk _ := true

/-- one request, answered with a head, one chunk and an END -/
def okRun : List SessionAction :=
  [.reserve ⟨[], [], true⟩, .forward, .forward, .forward, .forward, .forward,
    .recv (wsMsg (.respHead 1 (ascii "HTTP/1.1 200 OK\r\n\r\n"))) 0, .loop, .loop,
    .recv (wsMsg (.data 1 (ascii "hi"))) 0, .loop, .loop,
    .recv (wsMsg (.end 1 [])) 0, .loop, .loop, .loop, .loop, .loop,
    .caller 1 true, .caller 1 true, .caller 1 true, .caller 1 true, .caller 1 true, .caller 1 true,
    .caller 1 true]

theorem okRun_isSome :
    (Machine.run (Session.step okLib) (Session.new "t" [] 0) okRun).isSome = true := by
  decide

theorem no_fabricated_success_ok : ∃ s, Session.Reachable okLib s ∧ (s.state 1).EndedCleanly ∧
    (s.state 1).yielded = [ascii "hi"] ∧ ∃ raw res later,
      parseHead okLib raw = some (res, []) ∧ 200 ≤ res.status ∧ (s.state 1).head = some res ∧
      s.since 1 = .respHead 1 raw :: ((s.state 1).yielded.map (.data 1) ++ .end 1 [] :: later) := by
  have hr : Session.Reachable okLib (Option.get _ okRun_isSome) :=
    (Machine.Reachable.init ⟨"t", [], 0, rfl⟩).run (Option.some_get okRun_isSome).symm
  have hend : ((Option.get _ okRun_isSome).state 1).EndedCleanly :=
    ⟨[.chunk (ascii "hi")], [], by decide +kernel, by decide⟩
  exact ⟨_, hr, hend, by decide +kernel, (no_fabricated_success hr 1).1 hend⟩

end AnvilRing
