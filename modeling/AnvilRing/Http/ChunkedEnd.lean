import AnvilRing.Http.ChunkedReads

/-!
# Where a chunked body may end

`feed_eof` when the engine closes: which bodies it takes for complete, and which of them are.

* `Ended w`                  a size line that states 0 has been read;
* `Gap w`                    the bytes stop between two chunks, behind a payload or one byte later;
* `scan_done_iff`, `scan_idle_iff`   the scan behind the bytes says which it is;
* `feedEof_ok_iff`           `feed_eof` takes both for complete;
* `eof_exact_iff`            so it is right exactly where the bytes do not stop in a gap.
-/

namespace AnvilRing
open Wire

/-- the size line of the last chunk is complete, behind any number of sound chunks -/
inductive Ended : Bytes → Prop where
  | last {w line rest : Bytes} (h : takeLine w = some (line, rest)) (hn : chunkSize line = .ok 0) :
      Ended w
  | later {w line payload more : Bytes} (h : takeLine w = some (line, payload ++ 13 :: 10 :: more))
      (hne : payload ≠ []) (hn : chunkSize line = .ok payload.length) (hmore : Ended more) :
      Ended w

/-- the bytes stop where neither a size line nor a payload is open, and no last chunk was read:
between two chunks, behind a payload, or one byte behind it -/
inductive Gap : Bytes → Prop where
  | between : Gap []
  | payload {w line payload : Bytes} (h : takeLine w = some (line, payload)) (hne : payload ≠ [])
      (hn : chunkSize line = .ok payload.length) : Gap w
  | byte {w line payload : Bytes} {a : UInt8} (h : takeLine w = some (line, payload ++ [a]))
      (hne : payload ≠ []) (hn : chunkSize line = .ok payload.length) : Gap w
  | later {w line payload more : Bytes} (h : takeLine w = some (line, payload ++ 13 :: 10 :: more))
      (hne : payload ≠ []) (hn : chunkSize line = .ok payload.length) (hmore : Gap more) : Gap w

/-- nothing is open -/
def Scan.idle : Scan → Bool
  | .size line => line.isEmpty
  | .crLf _ => true
  | _ => false

section
variable {w line rest payload more : Bytes} {a b : UInt8}

/-- the scan goes on behind a sound chunk as at the start -/
theorem scan_later (h : takeLine w = some (line, payload ++ 13 :: 10 :: more)) (hne : payload ≠ [])
    (hn : chunkSize line = .ok payload.length) :
    ((Scan.size []).run w).1 = ((Scan.size []).run more).1 := by
  rw [scan_chunk h hne hn, if_pos ⟨rfl, rfl⟩]

/-- two other bytes behind a payload are a fault -/
theorem scan_broken (h : takeLine w = some (line, payload ++ a :: b :: more)) (hne : payload ≠ [])
    (hn : chunkSize line = .ok payload.length) (hab : ¬ (a = 13 ∧ b = 10)) :
    ((Scan.size []).run w).1 = .bad missingCrlf := by
  rw [scan_chunk h hne hn, if_neg hab, Scan.run_bad]

theorem length_later (h : takeLine w = some (line, payload ++ a :: b :: more)) :
    more.length < w.length := by
  rw [eq_of_takeLine h]
  simp only [List.length_append, List.length_cons]
  omega

theorem scan_of_ended (h : Ended w) : ((Scan.size []).run w).1 = .done := by
  induction h with
  | last h hn => rw [scan_last h hn]
  | later h hne hn _ ih =>
    rw [scan_later h hne hn]
    exact ih

theorem scan_of_gap (h : Gap w) : ((Scan.size []).run w).1.idle = true := by
  induction h with
  | between => rfl
  | payload h hne hn =>
    rw [scan_payload h hne hn]
    rfl
  | byte h hne hn =>
    rw [scan_byte h hne hn]
    rfl
  | later h hne hn _ ih =>
    rw [scan_later h hne hn]
    exact ih

/-- the scan that is done or idle got there in one of these ways -/
theorem ended_or_gap (w : Bytes) :
    (((Scan.size []).run w).1 = .done → Ended w) ∧
      (((Scan.size []).run w).1.idle = true → Gap w) := by
  cases front w with
  | line hw =>
    rw [@Scan.run_line_open [] w hw]
    refine ⟨fun h => (by cases h), fun h => ?_⟩
    obtain rfl : w = [] := List.isEmpty_iff.mp h
    exact .between
  | bad hw he =>
    rw [scan_badLine hw he]
    exact ⟨fun h => (by cases h), fun h => (by cases h)⟩
  | last hw hn =>
    rw [scan_last hw hn]
    exact ⟨fun _ => .last hw hn, fun h => (by cases h)⟩
  | body hw hn hlt =>
    rw [scan_body hw hn hlt]
    exact ⟨fun h => (by cases h), fun h => (by cases h)⟩
  | payload hw hne hn =>
    rw [scan_payload hw hne hn]
    exact ⟨fun h => (by cases h), fun _ => .payload hw hne hn⟩
  | byte hw hne hn =>
    rw [scan_byte hw hne hn]
    exact ⟨fun h => (by cases h), fun _ => .byte hw hne hn⟩
  | @chunk line payload more a b hw hne hn =>
    by_cases hab : a = 13 ∧ b = 10
    · obtain ⟨rfl, rfl⟩ := hab
      have hshort := length_later hw
      obtain ⟨hended, hgap⟩ := ended_or_gap more
      rw [scan_later hw hne hn]
      exact ⟨fun h => .later hw hne hn (hended h), fun h => .later hw hne hn (hgap h)⟩
    · rw [scan_broken hw hne hn hab]
      exact ⟨fun h => (by cases h), fun h => (by cases h)⟩
termination_by w.length

theorem scan_done_iff (w : Bytes) : ((Scan.size []).run w).1 = .done ↔ Ended w :=
  ⟨(ended_or_gap w).1, scan_of_ended⟩

theorem scan_idle_iff (w : Bytes) : ((Scan.size []).run w).1.idle = true ↔ Gap w :=
  ⟨(ended_or_gap w).2, scan_of_gap⟩

/-- no stream is at its end and in a gap -/
theorem not_gap_of_ended (h : Ended w) : ¬ Gap w := by
  intro hg
  have hidle := scan_of_gap hg
  rw [scan_of_ended h] at hidle
  cases hidle

end

/-! ## the close -/

section
variable {s : Scan} {reads : List Bytes}

theorem close_ok_iff (hs : s.isBad = false) :
    (∃ out, s.close.1 = .ok out) ↔ s = .done ∨ s.idle = true := by
  cases s with
  | size line =>
    rw [Scan.close]
    by_cases hl : line = []
    · subst hl
      exact ⟨fun _ => .inr rfl, fun _ => ⟨[], rfl⟩⟩
    · rw [if_neg hl]
      constructor
      · intro h
        obtain ⟨out, h⟩ := h
        cases h
      · intro h
        rcases h with h | h
        · cases h
        · exact absurd (List.isEmpty_iff.mp h) hl
  | body n =>
    constructor
    · intro h
      obtain ⟨out, h⟩ := h
      cases h
    · intro h
      rcases h with h | h
      · cases h
      · cases h
  | crLf first => exact ⟨fun _ => .inr rfl, fun _ => ⟨[], rfl⟩⟩
  | done => exact ⟨fun _ => .inl rfl, fun _ => ⟨[], rfl⟩⟩
  | bad e => cases hs

/-- what reads that meet no fault leave behind is where the scan of their bytes is -/
theorem rests_of_reads (h : ¬ Errs (ChunkedDecoder.pushAll {} reads).1) :
    ((Scan.size []).run reads.flatten).1.isBad = false ∧
      Rests (ChunkedDecoder.pushAll {} reads).2 ((Scan.size []).run reads.flatten).1 := by
  rw [errs_iff, Bool.not_eq_true] at h
  refine ⟨h, ?_⟩
  have hrests := (pushAll_scan rests_new reads).2
  rw [Scan.pushAll_good h] at hrests
  exact hrests

/-- the close is taken for the end of the body behind the last chunk, and in every gap -/
theorem feedEof_ok_iff (h : ¬ Errs (ChunkedDecoder.pushAll {} reads).1) :
    (∃ out, (ChunkedDecoder.pushAll {} reads).2.feedEof.1 = .ok out) ↔
      Ended reads.flatten ∨ Gap reads.flatten := by
  obtain ⟨hgood, hrests⟩ := rests_of_reads h
  rw [(feedEof_scan hrests).1, close_ok_iff hgood, scan_done_iff, scan_idle_iff]

/-- **The close is an end of the body exactly behind the last chunk, unless the bytes stop in a gap
between two chunks.** -/
theorem eof_exact_iff (h : ¬ Errs (ChunkedDecoder.pushAll {} reads).1) :
    ((∃ out, (ChunkedDecoder.pushAll {} reads).2.feedEof.1 = .ok out) ↔ Ended reads.flatten) ↔
      ¬ Gap reads.flatten := by
  rw [feedEof_ok_iff h]
  constructor
  · intro hexact hgap
    exact not_gap_of_ended (hexact.mp (.inr hgap)) hgap
  · intro hgap
    exact ⟨fun hx => hx.resolve_right hgap, .inl⟩

/-- a payload that is cut short -/
theorem eof_exact_iff_short :
    ((∃ out, (ChunkedDecoder.pushAll {} [ascii "5\r\nh", ascii "el"]).2.feedEof.1 = .ok out) ↔
        Ended [ascii "5\r\nh", ascii "el"].flatten) ↔ ¬ Gap [ascii "5\r\nh", ascii "el"].flatten := by
  refine eof_exact_iff ?_
  rw [errs_iff]
  decide

/-- a body that is cut off behind its first payload is taken for complete -/
theorem cut_body_complete : ¬ ∀ reads : List Bytes, ¬ Errs (ChunkedDecoder.pushAll {} reads).1 →
    ((∃ out, (ChunkedDecoder.pushAll {} reads).2.feedEof.1 = .ok out) ↔ Ended reads.flatten) := by
  intro h
  have hline : takeLine [ascii "5\r\nhello"].flatten = some (ascii "5", ascii "hello") := by decide
  have hgap : Gap [ascii "5\r\nhello"].flatten := .payload hline (by decide) (by decide)
  have hno : ¬ Errs (ChunkedDecoder.pushAll {} [ascii "5\r\nhello"]).1 := by
    rw [errs_iff]
    decide
  have hend := (h _ hno).mp ((feedEof_ok_iff hno).mpr (.inr hgap))
  exact not_gap_of_ended hend hgap

end

end AnvilRing
