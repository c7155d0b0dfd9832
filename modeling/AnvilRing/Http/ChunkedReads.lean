import AnvilRing.Http.Chunked

/-!
# What the cut of a stream into reads changes

The decoder on any bytes, well formed or not: which streams fail does not depend on the cut, what
was handed out before the failure does, for a read that fails hands out nothing of what it decoded.
And what calls after a failure make of it.

* `Faulty`                   a stream whose framing breaks, chunk by chunk;
* `ReadsAgree`               a cut of a stream is read as the stream in one piece is;
* `front`                    the seven ways in which a stream begins;
* `scan_faulty_iff`          the scan breaks where the framing does;
* `reads_agree_iff`          the streams that no cut changes;
* `calls`, `ErrorsKept`      calls to `push` and `feed_eof`, and an error that is not taken back;
* `errors_kept_iff`          the calls that keep every error.
-/

namespace AnvilRing
open Wire

/-! ## faults in the framing -/

/-- the first size line is complete and states no size -/
def BadLine (w : Bytes) : Prop := ∃ line rest e, takeLine w = some (line, rest) ∧
  chunkSize line = .error e

/-- a size line that states no size, or a payload with two other bytes than CRLF behind it, behind
any number of sound chunks -/
inductive Faulty : Bytes → Prop where
  | line {w : Bytes} (h : BadLine w) : Faulty w
  | crLf {w line payload more : Bytes} {a b : UInt8}
      (h : takeLine w = some (line, payload ++ a :: b :: more)) (hne : payload ≠ [])
      (hn : chunkSize line = .ok payload.length) (hab : ¬ (a = 13 ∧ b = 10)) : Faulty w
  | later {w line payload more : Bytes} (h : takeLine w = some (line, payload ++ 13 :: 10 :: more))
      (hne : payload ≠ []) (hn : chunkSize line = .ok payload.length) (hmore : Faulty more) :
      Faulty w

section
variable {w line rest payload more : Bytes} {a b : UInt8} {e : ChunkError}

theorem scan_takeLine (h : takeLine w = some (line, rest)) :
    (Scan.size []).run w = (Scan.endLine line).run rest :=
  Scan.run_line_closed rfl h

theorem scan_badLine (h : takeLine w = some (line, rest)) (he : chunkSize line = .error e) :
    (Scan.size []).run w = (.bad e, []) := by
  rw [scan_takeLine h, Scan.endLine_error he, Scan.run_bad]

/-- the scan of a chunk's payload and of what is behind it -/
theorem scan_behind {tail : Bytes} (h : takeLine w = some (line, payload ++ tail))
    (hne : payload ≠ []) (hn : chunkSize line = .ok payload.length) :
    (Scan.size []).run w =
      (((Scan.crLf none).run tail).1, payload ++ ((Scan.crLf none).run tail).2) := by
  have hpos : payload.length ≠ 0 := fun h => hne (List.length_eq_zero_iff.mp h)
  rw [scan_takeLine h, Scan.endLine_body hn hpos, ← Scan.afterBody_pos hpos, Scan.run_append,
    Scan.run_afterBody le_rfl, Nat.sub_self]
  rfl

/-- the scan of a chunk and the two bytes behind it -/
theorem scan_chunk (h : takeLine w = some (line, payload ++ a :: b :: more)) (hne : payload ≠ [])
    (hn : chunkSize line = .ok payload.length) :
    (Scan.size []).run w =
      (((if a = 13 ∧ b = 10 then Scan.size [] else .bad missingCrlf).run more).1,
        payload ++ ((if a = 13 ∧ b = 10 then Scan.size [] else .bad missingCrlf).run more).2) :=
  scan_behind h hne hn

/-- the scan of a payload that is whole -/
theorem scan_payload (h : takeLine w = some (line, payload)) (hne : payload ≠ [])
    (hn : chunkSize line = .ok payload.length) : (Scan.size []).run w = (.crLf none, payload) := by
  rw [← List.append_nil payload] at h
  rw [scan_behind h hne hn]
  show (Scan.crLf none, payload ++ []) = _
  rw [List.append_nil]

/-- the scan of a payload and one byte behind it -/
theorem scan_byte (h : takeLine w = some (line, payload ++ [a])) (hne : payload ≠ [])
    (hn : chunkSize line = .ok payload.length) :
    (Scan.size []).run w = (.crLf (some a), payload) := by
  rw [scan_behind h hne hn]
  show (Scan.crLf (some a), payload ++ []) = _
  rw [List.append_nil]

/-- the scan of a payload that is not whole -/
theorem scan_body {n : Nat} (h : takeLine w = some (line, rest)) (hn : chunkSize line = .ok n)
    (hlt : rest.length < n) : (Scan.size []).run w = (.body (n - rest.length), rest) := by
  have hpos : n ≠ 0 := by omega
  rw [scan_takeLine h, Scan.endLine_body hn hpos, ← Scan.afterBody_pos hpos,
    Scan.run_afterBody hlt.le, Scan.afterBody_pos (by omega)]

theorem scan_last (h : takeLine w = some (line, rest)) (hn : chunkSize line = .ok 0) :
    (Scan.size []).run w = (.done, []) := by
  rw [scan_takeLine h, Scan.endLine_zero hn, Scan.run_done]

theorem scan_of_faulty (h : Faulty w) : ((Scan.size []).run w).1.isBad = true := by
  induction h with
  | line h =>
    obtain ⟨line, rest, e, hline, he⟩ := h
    rw [scan_badLine hline he]
    rfl
  | crLf h hne hn hab =>
    rw [scan_chunk h hne hn, if_neg hab, Scan.run_bad]
    rfl
  | later h hne hn _ ih =>
    rw [scan_chunk h hne hn, if_pos ⟨rfl, rfl⟩]
    exact ih

/-- how a stream begins: in an open size line, with a size line that states nothing or 0, or with a
chunk, of which a part is there, all, all and one byte, all and two -/
inductive Front (w : Bytes) : Prop where
  | line (h : takeLine w = none)
  | bad {line rest : Bytes} {e : ChunkError} (h : takeLine w = some (line, rest))
      (he : chunkSize line = .error e)
  | last {line rest : Bytes} (h : takeLine w = some (line, rest)) (hn : chunkSize line = .ok 0)
  | body {line rest : Bytes} {n : Nat} (h : takeLine w = some (line, rest))
      (hn : chunkSize line = .ok n) (hlt : rest.length < n)
  | payload {line payload : Bytes} (h : takeLine w = some (line, payload)) (hne : payload ≠ [])
      (hn : chunkSize line = .ok payload.length)
  | byte {line payload : Bytes} {a : UInt8} (h : takeLine w = some (line, payload ++ [a]))
      (hne : payload ≠ []) (hn : chunkSize line = .ok payload.length)
  | chunk {line payload more : Bytes} {a b : UInt8}
      (h : takeLine w = some (line, payload ++ a :: b :: more)) (hne : payload ≠ [])
      (hn : chunkSize line = .ok payload.length)

theorem front (w : Bytes) : Front w := by
  cases hw : takeLine w with
  | none => exact .line hw
  | some p =>
    obtain ⟨line, rest⟩ := p
    cases hn : chunkSize line with
    | error e => exact .bad hw hn
    | ok n =>
      by_cases h0 : n = 0
      · exact .last hw (h0 ▸ hn)
      by_cases hlt : rest.length < n
      · exact .body hw hn hlt
      -- the payload is whole; what is behind it
      have hlen : (rest.take n).length = n := List.length_take_of_le (by omega)
      have hne : rest.take n ≠ [] := by
        intro he
        rw [he] at hlen
        exact h0 hlen.symm
      rw [← List.take_append_drop n rest] at hw
      rw [← hlen] at hn
      rcases hd : rest.drop n with _ | ⟨a, _ | ⟨b, more⟩⟩
      · rw [hd, List.append_nil] at hw
        exact .payload hw hne hn
      · rw [hd] at hw
        exact .byte hw hne hn
      · rw [hd] at hw
        exact .chunk hw hne hn

/-- a fault in the scan is a fault in the first chunk, or in what is behind it -/
theorem fault_cases (h : ((Scan.size []).run w).1.isBad = true) :
    BadLine w ∨ ∃ line payload a b more, takeLine w = some (line, payload ++ a :: b :: more) ∧
      payload ≠ [] ∧ chunkSize line = .ok payload.length := by
  cases front w with
  | line hw =>
    rw [@Scan.run_line_open [] w hw] at h
    cases h
  | bad hw he => exact .inl ⟨_, _, _, hw, he⟩
  | last hw hn =>
    rw [scan_last hw hn] at h
    cases h
  | body hw hn hlt =>
    rw [scan_body hw hn hlt] at h
    cases h
  | payload hw hne hn =>
    rw [scan_payload hw hne hn] at h
    cases h
  | byte hw hne hn =>
    rw [scan_byte hw hne hn] at h
    cases h
  | chunk hw hne hn => exact .inr ⟨_, _, _, _, _, hw, hne, hn⟩

theorem faulty_of_scan (w : Bytes) (h : ((Scan.size []).run w).1.isBad = true) : Faulty w := by
  rcases fault_cases h with hbad | ⟨line, payload, a, b, more, hw, hne, hn⟩
  · exact .line hbad
  · by_cases hab : a = 13 ∧ b = 10
    · rw [scan_chunk hw hne hn, if_pos hab] at h
      obtain ⟨rfl, rfl⟩ := hab
      have hshort : more.length < w.length := by
        rw [eq_of_takeLine hw]
        simp
        omega
      exact .later hw hne hn (faulty_of_scan more h)
    · exact .crLf hw hne hn hab
termination_by w.length

/-- **the scan breaks where the framing does** -/
theorem scan_faulty_iff (w : Bytes) : ((Scan.size []).run w).1.isBad = true ↔ Faulty w :=
  ⟨faulty_of_scan w, scan_of_faulty⟩

end

/-! ## reads -/

/-- a read failed -/
def Errs (results : List (Except ChunkError Decoded)) : Prop := ∃ e, Except.error e ∈ results

/-- what was handed out before the first failure -/
def handedOut : List (Except ChunkError Decoded) → Bytes
  | .ok r :: results => r.out ++ handedOut results
  | _ => []

/-- what the last read said of the end of the body -/
def finalDone (results : List (Except ChunkError Decoded)) : Bool :=
  match results.getLast? with
  | some (.ok r) => r.done
  | _ => false

/-- the reads fail if the stream in one piece does; if they do not, they hand out the same and leave
the decoder alike; if they do, the same was handed out before -/
def ReadsAgree (w : Bytes) (reads : List Bytes) : Prop :=
  let whole := ChunkedDecoder.pushAll {} [w]
  let cut := ChunkedDecoder.pushAll {} reads
  (Errs whole.1 ↔ Errs cut.1) ∧
    (¬ Errs whole.1 → handedOut cut.1 = handedOut whole.1 ∧ finalDone cut.1 = finalDone whole.1 ∧
      cut.2.mode = whole.2.mode ∧ (whole.2.mode ≠ .done → cut.2.buf = whole.2.buf)) ∧
    (Errs whole.1 → handedOut cut.1 = handedOut whole.1)

section
variable {s : Scan} {reads : List Bytes} {rs : List Decoded} {d d' : ChunkedDecoder} {w : Bytes}

theorem not_errs_ok : ¬ Errs (rs.map .ok) := by
  rintro ⟨e, he⟩
  obtain ⟨r, _, hr⟩ := List.mem_map.mp he
  cases hr

theorem handedOut_ok_append (rs : List Decoded) (results : List (Except ChunkError Decoded)) :
    handedOut (rs.map .ok ++ results) = rs.flatMap Decoded.out ++ handedOut results := by
  induction rs with
  | nil => rfl
  | cons r rs ih =>
    rw [List.flatMap_cons, List.append_assoc, ← ih]
    rfl

theorem handedOut_ok : handedOut (rs.map .ok) = rs.flatMap Decoded.out := by
  have h := handedOut_ok_append rs []
  rw [List.append_nil] at h
  exact h.trans (List.append_nil _)

/-- the last read says where the scan is -/
theorem finalDone_results (hs : s ≠ .done) :
    finalDone ((s.results reads).map .ok) = decide ((s.run reads.flatten).1 = .done) := by
  induction reads using List.reverseRecOn with
  | nil => exact (decide_eq_false hs).symm
  | append_singleton reads bytes _ =>
    rw [Scan.results_append, List.map_append, List.flatten_append, Scan.run_append]
    show finalDone (_ ++ [_]) = _
    rw [finalDone, List.getLast?_concat, List.flatten_singleton]

/-- a decoder between two reads is what the scan says, but for what it has buffered behind the
end -/
theorem Rests.unique (h : Rests d s) (h' : Rests d' s) :
    d'.mode = d.mode ∧ (d.mode ≠ .done → d'.buf = d.buf) := by
  cases s with
  | size line =>
    obtain ⟨rfl, _⟩ := h
    obtain ⟨rfl, _⟩ := h'
    exact ⟨rfl, fun _ => rfl⟩
  | body n =>
    obtain ⟨rfl, _⟩ := h
    obtain ⟨rfl, _⟩ := h'
    exact ⟨rfl, fun _ => rfl⟩
  | crLf first =>
    cases first with
    | none =>
      obtain rfl := h
      obtain rfl := h'
      exact ⟨rfl, fun _ => rfl⟩
    | some b =>
      obtain rfl := h
      obtain rfl := h'
      exact ⟨rfl, fun _ => rfl⟩
  | done => exact ⟨Eq.trans h' (Eq.symm h), fun hne => absurd h hne⟩
  | bad e => exact h.elim

/-- the read that fails: what was handed out before is what the scan had written before that
read -/
theorem pushAll_bad (hs : s.isBad = false) (h : (s.run reads.flatten).1.isBad = true) :
    ∃ before bytes after e, reads = before ++ bytes :: after ∧
      (s.pushAll reads).1 = (s.results before).map .ok ++
        .error e :: (Scan.pushAll .done after).1 := by
  induction reads generalizing s with
  | nil =>
    rw [List.flatten_nil, Scan.run, Transducer.run_nil, hs] at h
    cases h
  | cons bytes reads ih =>
    cases hb : (s.run bytes).1.isBad with
    | true =>
      refine ⟨[], bytes, reads, ?_⟩
      rw [Scan.pushAll]
      generalize s.run bytes = r at hb ⊢
      obtain ⟨t, out⟩ := r
      cases t with
      | bad e => exact ⟨e, rfl, rfl⟩
      | size _ => cases hb
      | body _ => cases hb
      | crLf _ => cases hb
      | done => cases hb
    | false =>
      rw [Scan.run_flatten_cons] at h
      obtain ⟨before, b, after, e, rfl, hpush⟩ := ih hb h
      refine ⟨bytes :: before, b, after, e, rfl, ?_⟩
      rw [Scan.pushAll, Scan.settle_good hb, hpush, Scan.reply_good hb]
      rfl

/-- a stream without a fault: every cut of it hands out the same and ends alike -/
theorem reads_agree_sound (h : reads.flatten = w)
    (hgood : ((Scan.size []).run w).1.isBad = false) : ReadsAgree w reads := by
  have hone : [w].flatten = w := List.flatten_singleton
  have hcut := pushAll_scan rests_new reads
  have hwhole := pushAll_scan rests_new [w]
  rw [Scan.pushAll_good (by rw [h]; exact hgood), h] at hcut
  rw [Scan.pushAll_good (by rw [hone]; exact hgood), hone] at hwhole
  have hne : Scan.size [] ≠ .done := fun h => (by cases h)
  unfold ReadsAgree
  simp only [hcut.1, hwhole.1]
  refine ⟨⟨fun h => absurd h not_errs_ok, fun h => absurd h not_errs_ok⟩, fun _ => ?_,
    fun h => absurd h not_errs_ok⟩
  refine ⟨?_, ?_, hwhole.2.unique hcut.2⟩
  · rw [handedOut_ok, handedOut_ok, Scan.out_results, Scan.out_results, h, hone]
  · rw [finalDone_results hne, finalDone_results hne, h, hone]

/-- a stream that breaks: every cut of it fails, with what was written before the failing read -/
theorem pushAll_faulty (h : reads.flatten = w) (hbad : ((Scan.size []).run w).1.isBad = true) :
    Errs (ChunkedDecoder.pushAll {} reads).1 ∧
      ∃ front back, w = front ++ back ∧
        handedOut (ChunkedDecoder.pushAll {} reads).1 = ((Scan.size []).run front).2 := by
  rw [← h] at hbad
  obtain ⟨before, bytes, after, e, rfl, hpush⟩ := pushAll_bad rfl hbad
  rw [List.flatten_append] at h
  rw [(pushAll_scan rests_new _).1, hpush]
  refine ⟨⟨e, List.mem_append_right _ List.mem_cons_self⟩, _, _, h.symm, ?_⟩
  rw [handedOut_ok_append, Scan.out_results]
  exact List.append_nil _

/-- reads fail exactly if the scan of their bytes meets a fault -/
theorem errs_iff (reads : List Bytes) :
    Errs (ChunkedDecoder.pushAll {} reads).1 ↔ ((Scan.size []).run reads.flatten).1.isBad = true := by
  constructor
  · intro h
    by_contra hb
    rw [Bool.not_eq_true] at hb
    rw [(pushAll_scan rests_new reads).1, Scan.pushAll_good hb] at h
    exact not_errs_ok h
  · intro hb
    exact (pushAll_faulty rfl hb).1

/-- **what is accepted does not depend on the cut** -/
theorem accepted_alike (h : reads.flatten = w) :
    Errs (ChunkedDecoder.pushAll {} [w]).1 ↔ Errs (ChunkedDecoder.pushAll {} reads).1 := by
  rw [errs_iff, errs_iff, h, List.flatten_singleton]

/-- a stream whose first size line is bad: every cut of it fails, and hands out nothing -/
theorem reads_agree_badLine (h : reads.flatten = w) (hbad : BadLine w) : ReadsAgree w reads := by
  obtain ⟨line, rest, e, hline, he⟩ := hbad
  have hrun := scan_badLine hline he
  have hisBad : ((Scan.size []).run w).1.isBad = true := by
    rw [hrun]
    rfl
  have hnothing : ∀ reads' : List Bytes, reads'.flatten = w →
      handedOut (ChunkedDecoder.pushAll {} reads').1 = [] := by
    intro reads' h'
    obtain ⟨_, front, back, rfl, hout⟩ := pushAll_faulty h' hisBad
    -- the scan wrote nothing at all
    rw [Scan.run_append] at hrun
    rw [hout, (List.append_eq_nil_iff.mp (Prod.mk.inj hrun).2).1]
  have hfails := (pushAll_faulty List.flatten_singleton hisBad).1
  refine ⟨accepted_alike h, fun hno => absurd hfails hno, fun _ => ?_⟩
  rw [hnothing reads h, hnothing [w] List.flatten_singleton]

/-- a stream that fails behind a payload, cut behind that payload -/
theorem reads_differ {line payload more : Bytes} {a b : UInt8}
    (hw : takeLine w = some (line, payload ++ a :: b :: more)) (hne : payload ≠ [])
    (hn : chunkSize line = .ok payload.length) (hbad : ((Scan.size []).run w).1.isBad = true) :
    ¬ ReadsAgree w [line ++ crlf ++ payload, a :: b :: more] := by
  have hfirst : (Scan.size []).run (line ++ crlf ++ payload) = (.crLf none, payload) :=
    scan_payload (takeLine_line hw payload) hne hn
  have hsplit : w = line ++ crlf ++ payload ++ a :: b :: more := by
    rw [eq_of_takeLine hw]
    exact (List.append_assoc _ _ _).symm
  intro hagree
  obtain ⟨e, out, hrun⟩ : ∃ e out, (Scan.size []).run w = (.bad e, out) := by
    generalize (Scan.size []).run w = r at hbad
    obtain ⟨t, out⟩ := r
    cases t with
    | bad e => exact ⟨e, out, rfl⟩
    | size _ => cases hbad
    | body _ => cases hbad
    | crLf _ => cases hbad
    | done => cases hbad
  have hwhole : (ChunkedDecoder.pushAll {} [w]).1 = [.error e] := by
    rw [(pushAll_scan rests_new _).1, Scan.pushAll, hrun]
    rfl
  have hsecond : ((Scan.crLf none).run (a :: b :: more)).1 = .bad e := by
    have h := congrArg Prod.fst hrun
    rw [hsplit, Scan.run_append, hfirst] at h
    exact h
  have hcut : handedOut (ChunkedDecoder.pushAll {} [line ++ crlf ++ payload, a :: b :: more]).1 =
      payload := by
    rw [(pushAll_scan rests_new _).1, Scan.pushAll, hfirst]
    show payload ++ handedOut (Scan.pushAll (.crLf none) [a :: b :: more]).1 = _
    rw [Scan.pushAll]
    generalize (Scan.crLf none).run (a :: b :: more) = r at hsecond
    obtain ⟨t, out⟩ := r
    obtain rfl : t = .bad e := hsecond
    exact List.append_nil _
  have herrs : Errs (ChunkedDecoder.pushAll {} [w]).1 := by
    rw [hwhole]
    exact ⟨e, List.mem_singleton_self _⟩
  have hout := hagree.2.2 herrs
  rw [hcut, hwhole] at hout
  exact hne hout

/-- **the streams that no cut changes** are those whose framing does not break, and those that break
in the first size line, before any payload -/
theorem reads_agree_iff (w : Bytes) :
    (∀ reads : List Bytes, reads.flatten = w → ReadsAgree w reads) ↔ (¬ Faulty w ∨ BadLine w) := by
  refine ⟨fun h => ?_, fun h reads hw => ?_⟩
  · by_cases hf : Faulty w
    · have hscan := scan_of_faulty hf
      rcases fault_cases hscan with hbad | ⟨line, payload, a, b, more, hline, hne, hn⟩
      · exact .inr hbad
      · refine absurd (h _ ?_) (reads_differ hline hne hn hscan)
        rw [eq_of_takeLine hline]
        simp
    · exact .inl hf
  · rcases h with hsound | hbad
    · apply reads_agree_sound hw
      cases hb : ((Scan.size []).run w).1.isBad with
      | false => rfl
      | true => exact absurd (faulty_of_scan w hb) hsound
    · exact reads_agree_badLine hw hbad

/-- a payload byte and then no CRLF: in one read it is lost, in two it is handed out -/
theorem cut_loses_payload :
    ¬ ∀ (w : Bytes) (reads : List Bytes), reads.flatten = w → ReadsAgree w reads := by
  intro h
  have hagree := h (ascii "1\r\naXX") [ascii "1\r\na", ascii "XX"] (by decide)
  have hout := hagree.2.2 ⟨missingCrlf, by decide⟩
  exact absurd hout (by decide)

end

/-! ## calls -/

/-- what the tether may call -/
inductive Call where
  | push (bytes : Bytes)
  | feedEof
  deriving DecidableEq, Repr

inductive Reply where
  | push (r : Except ChunkError Decoded)
  | eof (r : Except ChunkError Bytes)

def Reply.isMalformed : Reply → Bool
  | .push (.error _) => true
  | .eof (.error _) => true
  | _ => false

/-- the reply says that the body is complete -/
def Reply.claimsEnd : Reply → Bool
  | .push (.ok r) => r.done
  | .eof (.ok _) => true
  | _ => false

def ChunkedDecoder.call (d : ChunkedDecoder) : Call → Reply × ChunkedDecoder
  | .push bytes => (.push (d.push bytes).1, (d.push bytes).2)
  | .feedEof => (.eof d.feedEof.1, d.feedEof.2)

def ChunkedDecoder.calls : ChunkedDecoder → List Call → List Reply
  | _, [] => []
  | d, c :: cs => (d.call c).1 :: calls (d.call c).2 cs

/-- behind a reply that says malformed, none says that the body is complete -/
def ErrorsKept (replies : List Reply) : Prop :=
  replies.Pairwise fun a b => a.isMalformed = true → b.claimsEnd = false

namespace Scan

/-- the engine's close -/
def close : Scan → Except ChunkError Bytes × Scan
  | .size line => if line = [] then (.ok [], .size []) else (.error eofMidLine, .size [])
  | .body n => (.error eofMidBody, .body n)
  | .crLf _ => (.ok [], .done)
  | .done => (.ok [], .done)
  | .bad _ => (.ok [], .done)

def call (s : Scan) : Call → Reply × Scan
  | .push bytes => (.push (reply (s.run bytes)), (s.run bytes).1.settle)
  | .feedEof => (.eof s.close.1, s.close.2)

def calls : Scan → List Call → List Reply
  | _, [] => []
  | s, c :: cs => (s.call c).1 :: calls (s.call c).2 cs

/-- calls behind an error that bring the framing to no end: no push comes to the end of a last size
line, no close comes where no size line and no payload is open, and nothing follows a push that
meets a fault -/
def Mute : Scan → List Call → Prop
  | _, [] => True
  | s, .push bytes :: cs =>
    if (s.run bytes).1.isBad then cs = []
    else (s.run bytes).1 ≠ .done ∧ Mute (s.run bytes).1 cs
  | .size line, .feedEof :: cs => line ≠ [] ∧ Mute (.size []) cs
  | .body n, .feedEof :: cs => Mute (.body n) cs
  | .crLf _, .feedEof :: _ => False
  | .done, .feedEof :: _ => False
  | .bad _, .feedEof :: _ => False

/-- calls that follow no push that meets a fault, and that are mute behind a close in a size line or
in a payload -/
def Heeds : Scan → List Call → Prop
  | _, [] => True
  | s, .push bytes :: cs =>
    if (s.run bytes).1.isBad then cs = [] else Heeds (s.run bytes).1 cs
  | .size line, .feedEof :: cs => if line = [] then Heeds (.size []) cs else Mute (.size []) cs
  | .body n, .feedEof :: cs => Mute (.body n) cs
  | .crLf _, .feedEof :: cs => Heeds .done cs
  | .done, .feedEof :: cs => Heeds .done cs
  | .bad _, .feedEof :: cs => Heeds .done cs

end Scan

section
variable {d : ChunkedDecoder} {s : Scan} {cs : List Call}

theorem feedEof_scan (h : Rests d s) : d.feedEof.1 = s.close.1 ∧ Rests d.feedEof.2 s.close.2 := by
  cases s with
  | size line =>
    obtain ⟨rfl, hline⟩ := h
    unfold ChunkedDecoder.feedEof Scan.close
    by_cases hl : line = []
    · subst hl
      exact ⟨rfl, rfl, rfl⟩
    · simp only [if_neg hl]
      exact ⟨trivial, rfl, rfl⟩
  | body n =>
    obtain ⟨rfl, hn⟩ := h
    exact ⟨rfl, rfl, hn⟩
  | crLf first =>
    cases first with
    | none =>
      obtain rfl := h
      exact ⟨rfl, rfl⟩
    | some b =>
      obtain rfl := h
      exact ⟨rfl, rfl⟩
  | done =>
    have hmode : d.mode = .done := h
    unfold ChunkedDecoder.feedEof
    rw [hmode]
    exact ⟨rfl, hmode⟩
  | bad e => exact h.elim

theorem calls_scan (h : Rests d s) : d.calls cs = s.calls cs := by
  induction cs generalizing d s with
  | nil => rfl
  | cons c cs ih =>
    have hcall : (d.call c).1 = (s.call c).1 ∧ Rests (d.call c).2 (s.call c).2 := by
      cases c with
      | push bytes =>
        obtain ⟨hreply, hrests⟩ := push_scan h bytes
        exact ⟨congrArg Reply.push hreply, hrests⟩
      | feedEof =>
        obtain ⟨hreply, hrests⟩ := feedEof_scan h
        exact ⟨congrArg Reply.eof hreply, hrests⟩
    rw [ChunkedDecoder.calls, Scan.calls, hcall.1, ih hcall.2]

theorem errorsKept_cons_ok {r : Reply} {rs : List Reply} (h : r.isMalformed = false) :
    ErrorsKept (r :: rs) ↔ ErrorsKept rs := by
  rw [ErrorsKept, List.pairwise_cons]
  refine and_iff_right fun b _ hr => ?_
  rw [h] at hr
  cases hr

theorem errorsKept_cons_malformed {r : Reply} {rs : List Reply} (h : r.isMalformed = true) :
    ErrorsKept (r :: rs) ↔ ∀ b ∈ rs, b.claimsEnd = false := by
  rw [ErrorsKept, List.pairwise_cons]
  refine ⟨fun hk b hb => hk.1 b hb h, fun hk => ⟨fun b hb _ => hk b hb, ?_⟩⟩
  exact List.pairwise_of_forall_mem_list fun _ _ b hb _ => hk b hb

theorem Scan.reply_bad {r : Scan × Bytes} (h : r.1.isBad = true) :
    (Reply.push (reply r)).isMalformed = true ∧ (Reply.push (reply r)).claimsEnd = false ∧
      r.1.settle = .done := by
  obtain ⟨t, out⟩ := r
  cases t with
  | bad e => exact ⟨rfl, rfl, rfl⟩
  | size _ => cases h
  | body _ => cases h
  | crLf _ => cases h
  | done => cases h

/-- behind the end, or behind a fault, every call says that the body is complete -/
theorem Scan.done_claims : (∀ r ∈ Scan.done.calls cs, r.claimsEnd = false) ↔ cs = [] := by
  refine ⟨fun h => ?_, fun h => ?_⟩
  · cases cs with
    | nil => rfl
    | cons c cs =>
      have hc := h _ List.mem_cons_self
      cases c with
      | push bytes =>
        rw [Scan.call, Scan.run_done] at hc
        cases hc
      | feedEof => cases hc
  · subst h
    intro r hr
    cases hr

theorem Scan.mute_iff (hs : s.isBad = false) :
    s.Mute cs ↔ ∀ r ∈ s.calls cs, r.claimsEnd = false := by
  induction cs generalizing s with
  | nil => exact ⟨fun _ r hr => (by cases hr), fun _ => trivial⟩
  | cons c cs ih =>
    rw [Scan.calls, List.forall_mem_cons]
    cases c with
    | push bytes =>
      rw [Scan.Mute, Scan.call]
      by_cases hb : (s.run bytes).1.isBad = true
      · obtain ⟨_, hclaims, hsettle⟩ := reply_bad hb
        rw [if_pos hb, hsettle, done_claims]
        exact (and_iff_right hclaims).symm
      · have hgood := Bool.eq_false_iff.mpr hb
        rw [if_neg hb, reply_good hgood, settle_good hgood, ih hgood]
        exact and_congr_left' decide_eq_false_iff_not.symm
    | feedEof =>
      cases s with
      | size line =>
        rw [Scan.Mute, Scan.call, Scan.close]
        by_cases hl : line = []
        · rw [if_pos hl]
          exact ⟨fun h => absurd hl h.1, fun h => (by cases h.1)⟩
        · rw [if_neg hl, ih rfl]
          exact ⟨fun h => ⟨rfl, h.2⟩, fun h => ⟨hl, h.2⟩⟩
      | body n =>
        rw [Scan.Mute, ih rfl]
        exact (and_iff_right rfl).symm
      | crLf first => exact ⟨fun h => h.elim, fun h => (by cases h.1)⟩
      | done => exact ⟨fun h => h.elim, fun h => (by cases h.1)⟩
      | bad e => cases hs

theorem Scan.heeds_iff (hs : s.isBad = false) : s.Heeds cs ↔ ErrorsKept (s.calls cs) := by
  induction cs generalizing s with
  | nil => exact ⟨fun _ => List.Pairwise.nil, fun _ => trivial⟩
  | cons c cs ih =>
    rw [Scan.calls]
    cases c with
    | push bytes =>
      rw [Scan.Heeds, Scan.call]
      by_cases hb : (s.run bytes).1.isBad = true
      · obtain ⟨hmalformed, _, hsettle⟩ := reply_bad hb
        rw [if_pos hb, errorsKept_cons_malformed hmalformed, hsettle, done_claims]
      · have hgood := Bool.eq_false_iff.mpr hb
        rw [if_neg hb, reply_good hgood, settle_good hgood, errorsKept_cons_ok rfl, ih hgood]
    | feedEof =>
      cases s with
      | size line =>
        rw [Scan.Heeds, Scan.call, Scan.close]
        by_cases hl : line = []
        · rw [if_pos hl, if_pos hl, errorsKept_cons_ok rfl, ih rfl]
        · rw [if_neg hl, if_neg hl, errorsKept_cons_malformed rfl, mute_iff rfl]
      | body n =>
        rw [Scan.Heeds, Scan.call, Scan.close, errorsKept_cons_malformed rfl, mute_iff rfl]
      | crLf first => rw [Scan.Heeds, Scan.call, Scan.close, errorsKept_cons_ok rfl, ih rfl]
      | done => rw [Scan.Heeds, Scan.call, Scan.close, errorsKept_cons_ok rfl, ih rfl]
      | bad e => cases hs

end

/-- **the calls that keep every error**: no call follows a push that meets a fault, and the calls
behind a failed close come to no end -/
theorem errors_kept_iff (cs : List Call) :
    ErrorsKept (ChunkedDecoder.calls {} cs) ↔ (Scan.size []).Heeds cs := by
  rw [calls_scan rests_new, Scan.heeds_iff rfl]

/-- a bad size line, and the next read reports the end of the body -/
theorem error_forgotten : ¬ ∀ cs : List Call, ErrorsKept (ChunkedDecoder.calls {} cs) := by
  intro h
  have hkept := h [.push (ascii "xyz\r\n"), .push [], .feedEof]
  obtain ⟨hfirst, _⟩ := List.pairwise_cons.mp hkept
  have hdone := hfirst _ List.mem_cons_self rfl
  cases hdone

end AnvilRing
