import AnvilRing.Http.Chunked

/-!
# The size line

Which size lines the decoder takes, and which of them the chunk grammar has: hexadecimal digits,
blanks around them, an extension behind a semicolon.

* `statedSize`               the size that a line states by the grammar;
* `ReadsLine line verdict`   a decoder that waits in the line comes to this verdict on it;
* `Lax line`                 a size behind a plus sign or between other whitespace than blanks;
* `readsLine_of_stated`, `readsLine_of_lax`   what the code makes of the lines of the grammar, and
                             of the lax ones;
* `size_line_exact_iff`      the code reads a line by the grammar unless it is lax.
-/

namespace AnvilRing
open Wire

/-- the size by the grammar: one hexadecimal digit or more, with a value that fits `usize`, without
the blanks around them and the extension behind them -/
def statedSize (line : Bytes) : Option Nat :=
  let hex := trimOws (line.takeWhile (· != 59))
  if isHexText hex = true ∧ hexNum hex < usizeBound then some (hexNum hex) else none

/-- A decoder that waits in the line, and gets the bytes that complete it and whatever is behind it,
refuses it, or ends the body, or goes on with a chunk of this length. -/
def ReadsLine (line : Bytes) (verdict : Option Nat) : Prop :=
  ∀ front bytes rest : Bytes, takeLine front = none → front ++ bytes = line ++ crlf ++ rest →
    match verdict with
    | none => ∃ what, (ChunkedDecoder.push { buf := front } bytes).1 = .error (.malformed what)
    | some 0 => (ChunkedDecoder.push { buf := front } bytes).1 = .ok { out := [], done := true }
    | some (n + 1) => (ChunkedDecoder.push { buf := front } bytes).1 =
        (ChunkedDecoder.push { mode := .body (n + 1) } rest).1

/-- a size that fits, with a plus sign in front of it or between other whitespace than spaces and
tabs -/
def Lax (line : Bytes) : Prop :=
  ∃ front sign digits back n, line.takeWhile (· != 59) = front ++ (sign ++ digits) ++ back ∧
    MadeOf whiteSpace front ∧ MadeOf whiteSpace back ∧ (sign = [] ∨ sign = [43]) ∧
    Spells digits n ∧ n < usizeBound ∧
    (sign = [43] ∨ front.all isOws = false ∨ back.all isOws = false)

section
variable {line hex front digits back : Bytes} {n : Nat}

theorem statedSize_some_iff : statedSize line = some n ↔
    Spells (trimOws (line.takeWhile (· != 59))) n ∧ n < usizeBound := by
  rw [spells_iff, statedSize]
  constructor
  · intro h
    split at h
    · next hx =>
      obtain rfl := Option.some.inj h
      exact ⟨⟨hx.1, rfl⟩, hx.2⟩
    · cases h
  · intro ⟨⟨htext, hnum⟩, hn⟩
    rw [hnum, if_pos ⟨htext, hn⟩]

/-- what the code takes for a size -/
theorem chunkSize_ok_iff : chunkSize line = .ok n ↔
    utf8Valid (line.takeWhile (· != 59)) = true ∧
      hexBelow usizeBound (trim (line.takeWhile (· != 59))) = some n := by
  unfold chunkSize
  constructor
  · intro h
    simp only at h
    split at h
    · next hutf =>
      split at h
      · next m hm =>
        obtain rfl := Except.ok.inj h
        exact ⟨hutf, hm⟩
      · cases h
    · cases h
  · intro ⟨hutf, hhex⟩
    simp only [hutf, if_true, hhex]

theorem utf8Valid_digits (h : ∀ b ∈ hex, b = 43 ∨ hexVal b ≠ none) : utf8Valid hex = true := by
  apply utf8Valid_of_ascii
  intro b hb
  rcases h b hb with rfl | hd
  · decide
  · have hbounds := hexVal_bounds hd
    omega

/-- the code reads a size through any whitespace and behind a plus sign -/
theorem chunkSize_of_size (hline : line.takeWhile (· != 59) = front ++ hex ++ back)
    (hfront : MadeOf whiteSpace front) (hback : MadeOf whiteSpace back) (hn : n < usizeBound)
    (hs : Spells hex n ∨ ∃ digits, hex = 43 :: digits ∧ Spells digits n) :
    chunkSize line = .ok n := by
  have hfirm : Firm hex := by
    rcases hs with hs | ⟨digits, rfl, hs⟩
    · exact hs.firm
    · exact hs.firm_plus
  have hascii : ∀ b ∈ hex, b = 43 ∨ hexVal b ≠ none := by
    intro b hb
    rcases hs with hs | ⟨digits, rfl, hs⟩
    · exact .inr (hs.digits b hb)
    · exact (List.mem_cons.mp hb).imp_right (hs.digits b)
  rw [chunkSize_ok_iff, hline, trim_madeOf hfirm hfront hback, hexBelow_some_iff, List.append_assoc,
    utf8Valid_append (utf8Valid_madeOf hfront), utf8Valid_append (utf8Valid_digits hascii),
    utf8Valid_madeOf hback]
  exact ⟨rfl, hn, hs⟩

theorem madeOf_of_all (h : front.all isOws = true) : MadeOf whiteSpace front := by
  apply madeOf_blanks
  intro b hb
  have hows := List.all_eq_true.mp h b hb
  simpa [isOws] using hows

/-- a size by the grammar is read -/
theorem chunkSize_of_stated (h : statedSize line = some n) : chunkSize line = .ok n := by
  obtain ⟨hs, hn⟩ := statedSize_some_iff.mp h
  obtain ⟨front, back, hfront, hback, hsplit⟩ := trimOws_split (line.takeWhile (· != 59))
  exact chunkSize_of_size hsplit (madeOf_of_all hfront) (madeOf_of_all hback) hn (.inl hs)

/-- no byte of whitespace is a digit -/
theorem hexVal_of_madeOf (h : MadeOf whiteSpace front) : ∀ b ∈ front, hexVal b = none := by
  have hall : ∀ c ∈ whiteSpace, (c.all fun b => (hexVal b).isNone) = true := by decide
  obtain ⟨cs, hcs, rfl⟩ := h
  intro b hb
  obtain ⟨c, hc, hb⟩ := List.mem_flatten.mp hb
  exact Option.isNone_iff_eq_none.mp (List.all_eq_true.mp (hall c (hcs c hc)) b hb)

/-- a lax size is read -/
theorem Lax.chunkSize (h : Lax line) : ∃ n, chunkSize line = .ok n := by
  obtain ⟨front, sign, digits, back, n, hline, hfront, hback, hsign, hs, hn, _⟩ := h
  refine ⟨n, chunkSize_of_size hline hfront hback hn ?_⟩
  rcases hsign with rfl | rfl
  · exact .inl hs
  · exact .inr ⟨digits, rfl, hs⟩

/-- but is none by the grammar: a byte is left that is no digit -/
theorem Lax.statedSize (h : Lax line) : statedSize line = none := by
  obtain ⟨front, sign, digits, back, n, hline, hfront, hback, _, _, _, hlax⟩ := h
  obtain ⟨b, hb, hows, hnone⟩ : ∃ b ∈ line.takeWhile (· != 59), isOws b = false ∧
      hexVal b = none := by
    rw [hline]
    rcases hlax with rfl | hf | hb
    · exact ⟨43, by simp, rfl, rfl⟩
    · obtain ⟨b, hb, hows⟩ := List.all_eq_false.mp hf
      exact ⟨b, by simp [hb], by simpa using hows, hexVal_of_madeOf hfront b hb⟩
    · obtain ⟨b, hb, hows⟩ := List.all_eq_false.mp hb
      exact ⟨b, by simp [hb], by simpa using hows, hexVal_of_madeOf hback b hb⟩
  cases hstated : AnvilRing.statedSize line with
  | none => rfl
  | some m =>
    have hs := (statedSize_some_iff.mp hstated).1
    rcases mem_trimOws_or hb with hx | hx
    · rw [hows] at hx
      cases hx
    · exact absurd hnone (hs.digits b hx)

/-- what the code reads is a size by the grammar, or lax -/
theorem stated_or_lax (h : chunkSize line = .ok n) : statedSize line = some n ∨ Lax line := by
  obtain ⟨_, hhex⟩ := chunkSize_ok_iff.mp h
  obtain ⟨hn, hs⟩ := hexBelow_some_iff.mp hhex
  obtain ⟨front, back, hfront, hback, hsplit⟩ := trim_split (line.takeWhile (· != 59))
  rcases hs with hs | ⟨digits, hplus, hs⟩
  · by_cases hblank : front.all isOws = true ∧ back.all isOws = true
    · have hows : ∀ b ∈ trim (line.takeWhile (· != 59)), isOws b = false := by
        intro b hb
        have hd := hexVal_bounds (hs.digits b hb)
        unfold isOws
        simp only [Bool.or_eq_false_iff, beq_eq_false_iff_ne]
        refine ⟨?_, ?_⟩
        · rintro rfl
          exact absurd hd (by decide)
        · rintro rfl
          exact absurd hd (by decide)
      have htrim := trimOws_append hblank.1 hblank.2 hs.1 hows
      rw [← hsplit] at htrim
      rw [← htrim] at hs
      exact .inl (statedSize_some_iff.mpr ⟨hs, hn⟩)
    · refine .inr ⟨front, [], _, back, n, hsplit, hfront, hback, .inl rfl, hs, hn, .inr ?_⟩
      rw [Classical.not_and_iff_not_or_not, Bool.not_eq_true, Bool.not_eq_true] at hblank
      exact hblank
  · rw [hplus] at hsplit
    exact .inr ⟨front, [43], digits, back, n, hsplit, hfront, hback, .inr rfl, hs, hn, .inl rfl⟩

end

/-! ## the verdict of a decoder -/

section
variable {line : Bytes} {n : Nat}

/-- a decoder that completes the line is where the line ends -/
theorem push_line (hline : takeLine line = none) {front bytes rest : Bytes}
    (hfront : takeLine front = none) (hsplit : front ++ bytes = line ++ crlf ++ rest) :
    (ChunkedDecoder.push { buf := front } bytes).1 =
      Scan.reply ((Scan.endLine line).run rest) := by
  have hrests : Rests { buf := front } (.size front) := ⟨rfl, hfront⟩
  have hfound := takeLine_of_none hline rest
  rw [← hsplit] at hfound
  rw [(push_scan hrests bytes).1, Scan.run_line_closed hfront hfound]

theorem readsLine_of_error (hline : takeLine line = none) {e : ChunkError}
    (h : chunkSize line = .error e) : ReadsLine line none := by
  intro front bytes rest hfront hsplit
  obtain ⟨what⟩ := e
  refine ⟨what, ?_⟩
  rw [push_line hline hfront hsplit, Scan.endLine_error h, Scan.run_bad]
  rfl

theorem readsLine_of_ok (hline : takeLine line = none) (h : chunkSize line = .ok n) :
    ReadsLine line (some n) := by
  intro front bytes rest hfront hsplit
  have hpush := push_line hline hfront hsplit
  cases n with
  | zero =>
    rw [Scan.endLine_zero h, Scan.run_done] at hpush
    exact hpush
  | succ n =>
    have hrests : Rests { mode := .body (n + 1) } (.body (n + 1)) := ⟨rfl, Nat.succ_pos n⟩
    rw [Scan.endLine_body h (Nat.succ_ne_zero n)] at hpush
    show _ = _
    rw [hpush, (push_scan hrests rest).1]

/-- a line that is read is not refused -/
theorem not_readsLine_none (hline : takeLine line = none) (h : chunkSize line = .ok n) :
    ¬ ReadsLine line none := by
  intro hnone
  have hbytes : [] ++ (line ++ crlf) = line ++ crlf ++ [] := (List.append_nil _).symm
  obtain ⟨what, herr⟩ := hnone [] (line ++ crlf) [] rfl hbytes
  rw [push_line hline rfl hbytes] at herr
  by_cases h0 : n = 0
  · subst h0
    rw [Scan.endLine_zero h] at herr
    cases herr
  · rw [Scan.endLine_body h h0] at herr
    cases herr

/-- **A size line is read by the grammar, unless it is lax**: then it is taken though the grammar has
no such line. -/
theorem size_line_exact_iff (hline : takeLine line = none) :
    ReadsLine line (statedSize line) ↔ ¬ Lax line := by
  constructor
  · intro hreads hlax
    obtain ⟨n, hn⟩ := hlax.chunkSize
    rw [hlax.statedSize] at hreads
    exact not_readsLine_none hline hn hreads
  · intro hlax
    cases hsize : chunkSize line with
    | error e =>
      have hnone : statedSize line = none := by
        cases hstated : statedSize line with
        | none => rfl
        | some n =>
          rw [chunkSize_of_stated hstated] at hsize
          cases hsize
      rw [hnone]
      exact readsLine_of_error hline hsize
    | ok n =>
      rw [(stated_or_lax hsize).resolve_right hlax]
      exact readsLine_of_ok hline hsize

/-- blanks, digits of both cases, an extension -/
theorem size_line_exact_iff_ext :
    ReadsLine (ascii " 1a\tF;x=y") (statedSize (ascii " 1a\tF;x=y")) ↔ ¬ Lax (ascii " 1a\tF;x=y") :=
  size_line_exact_iff (by decide)

/-- a plus sign is no digit, and the line is taken -/
theorem plus_sign_taken : ¬ ∀ line : Bytes, takeLine line = none →
    ReadsLine line (statedSize line) := by
  intro h
  have hreads := h (ascii "+5") (by decide)
  have hlax : Lax (ascii "+5") :=
    ⟨[], [43], [53], [], 5, rfl, madeOf_nil, madeOf_nil, .inr rfl, spells_iff.mpr (by decide),
      by decide, .inl rfl⟩
  obtain ⟨n, hn⟩ := hlax.chunkSize
  rw [hlax.statedSize] at hreads
  exact not_readsLine_none (by decide) hn hreads

end

end AnvilRing
