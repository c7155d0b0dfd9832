import AnvilRing.Http.HeadEnd
import AnvilRing.Lib.Text

/-!
# Reframing a response head

`reframe_head_for_tunnel` takes the Transfer-Encoding lines that say only `chunked` out of an
engine's head.  It finds the end of the head, cuts at every CR, and writes the kept parts anew.

* `reframeHeadForTunnel`     as the code computes it; `none` is a slice or a subtraction out of
                             range;
* `withoutFraming`           the head without the framing lines, all else as it was;
* `reframe_complete`, `reframe_incomplete`   what the code returns, for every input;
* `CleanBlock`               every CR stands before a LF, and the first line is no framing line;
* `reframe_exact_iff`        the code only deletes exactly where the head is clean.
-/

namespace AnvilRing
open Wire

/-! ## the code -/

/-- `&bytes[from..to]`, `none` out of range -/
def slice (bytes : Bytes) (first last : Nat) : Option Bytes :=
  if first ≤ last ∧ last ≤ bytes.length then some ((bytes.take last).drop first) else none

/-- `-` on `usize`, `none` below 0 -/
def checkedSub (a b : Nat) : Option Nat := if b ≤ a then some (a - b) else none

/-- the name is Transfer-Encoding -/
def isTe (name : Bytes) : Bool :=
  utf8Valid name && eqIgnoreAsciiCase (trim name) (ascii "transfer-encoding")

def onlyChunked (value : Bytes) : Bool :=
  utf8Valid value && (value != [] &&
    (value.splitOn 44).all fun t => eqIgnoreAsciiCase (trim t) (ascii "chunked"))

/-- the `match` on the colon -/
def keepLine (line : Bytes) : Option Bool :=
  match line.findIdx? (· == 58) with
  | some colon => do
    let name ← slice line 0 colon
    let value ← slice line (colon + 1) line.length
    some (!(isTe name && onlyChunked value))
  | none => some true

/-- one part between CRs, with its position -/
def reframeLine (out : Bytes) (part : Bytes × Nat) : Option Bytes := do
  let line := if part.2 = 0 then part.1 else stripLf part.1
  let keep ← keepLine line
  if keep then some ((if 0 < part.2 then out ++ crlf else out) ++ line) else some out

/-- `reframe_head_for_tunnel` -/
def reframeHeadForTunnel (head : Bytes) : Option Bytes :=
  match findHeaderEnd head with
  | none => some head
  | some last =>
    -- `saturating_sub`, and `get`, which is `None` out of range
    if slice head (last - 4) last ≠ some blankLine then some head
    else do
      let blockEnd ← checkedSub last 4
      let block ← slice head 0 blockEnd
      let out ← (block.splitOn 13).zipIdx.foldlM reframeLine []
      some (out ++ blankLine)

/-! ## what it is for -/

/-- the line describes a framing that is gone: its name is Transfer-Encoding, and all the codings in
its value are `chunked` -/
def isFramingLine (line : Bytes) : Bool :=
  match cut 58 line with
  | some (name, value) =>
    utf8Valid name && eqIgnoreAsciiCase (trim name) (ascii "transfer-encoding") &&
      (utf8Valid value &&
        (value.splitOn 44).all fun coding => eqIgnoreAsciiCase (trim coding) (ascii "chunked"))
  | none => false

/-- the lines of a head without the framing lines behind the first -/
def keptLines : List Bytes → List Bytes
  | [] => []
  | first :: lines => first :: lines.filter fun line => !isFramingLine line

def withoutFraming (block : Bytes) : Bytes := crlf.intercalate (keptLines (crlfLines block))

/-- the first CRLFCRLF is the one at the end -/
def EndsFirst (block : Bytes) : Prop :=
  ∀ front rest, block ++ blankLine = front ++ blankLine ++ rest → rest = []

/-- A complete head loses its framing lines and nothing else, so that every line that is left was
there before; what holds no CRLFCRLF comes back as it is; nothing is out of range. -/
structure ReframesExactly (head : Bytes) : Prop where
  deletes : ∀ block, head = block ++ blankLine → EndsFirst block →
    reframeHeadForTunnel head = some (withoutFraming block ++ blankLine)
  lines : ∀ block, head = block ++ blankLine → EndsFirst block →
    ∀ out, reframeHeadForTunnel head = some out → (crlfLines out).Sublist (crlfLines head)
  untouched : ¬ blankLine <:+: head → reframeHeadForTunnel head = some head
  safe : reframeHeadForTunnel head ≠ none

/-- no line holds a CR, and the first is no framing line -/
def CleanBlock (block : Bytes) : Prop :=
  (∀ line ∈ crlfLines block, 13 ∉ line) ∧
    ∀ first ∈ (crlfLines block).head?, isFramingLine first = false

/-! ## one line -/

section
variable {line value name bytes : Bytes}

theorem slice_whole (bytes more : Bytes) : slice (bytes ++ more) 0 bytes.length = some bytes := by
  rw [slice, if_pos ⟨Nat.zero_le _, by simp⟩, List.take_left, List.drop_zero]

theorem slice_rest (front rest : Bytes) :
    slice (front ++ rest) front.length (front ++ rest).length = some rest := by
  rw [slice, if_pos ⟨by simp, le_rfl⟩, List.take_length, List.drop_left]

theorem onlyChunked_eq (value : Bytes) : onlyChunked value = (utf8Valid value &&
    (value.splitOn 44).all fun t => eqIgnoreAsciiCase (trim t) (ascii "chunked")) := by
  rw [onlyChunked]
  cases value with
  | nil => rfl
  | cons b value => rfl

/-- `find` on the colon, and the text cut there -/
theorem cut_of_findIdx? {colon : Nat} (h : line.findIdx? (· == 58) = some colon) :
    ∃ name value, cut 58 line = some (name, value) ∧ line = name ++ 58 :: value ∧
      colon = name.length := by
  obtain ⟨hlt, hat, hfirst⟩ := List.findIdx?_eq_some_iff_getElem.mp h
  have hsplit : line = line.take colon ++ 58 :: line.drop (colon + 1) := by
    rw [← beq_iff_eq.mp hat, ← List.drop_eq_getElem_cons hlt, List.take_append_drop]
  refine ⟨line.take colon, line.drop (colon + 1), ?_, hsplit, ?_⟩
  · conv => lhs; rw [hsplit]
    apply cut_append
    intro b hb
    obtain ⟨i, hi, rfl⟩ := List.getElem_of_mem hb
    rw [List.length_take] at hi
    rw [List.getElem_take]
    simpa using hfirst i (by omega)
  · rw [List.length_take_of_le hlt.le]

/-- a line is dropped exactly if it is a framing line -/
theorem keepLine_eq (line : Bytes) : keepLine line = some (!isFramingLine line) := by
  unfold keepLine isFramingLine
  cases hcolon : line.findIdx? (· == 58) with
  | none =>
    have hno : ∀ b ∈ line, b ≠ 58 := by
      intro b hb he
      have hx := List.findIdx?_eq_none_iff.mp hcolon b hb
      rw [he] at hx
      cases hx
    rw [cut_eq_none hno]
    rfl
  | some colon =>
    obtain ⟨name, value, hcut, hline, rfl⟩ := cut_of_findIdx? hcolon
    have hname : slice line 0 name.length = some name := by
      rw [hline]
      exact slice_whole _ _
    have hvalue : slice line (name.length + 1) line.length = some value := by
      have hrest := slice_rest (name ++ [58]) value
      rw [List.append_assoc, List.length_append] at hrest
      rw [hline]
      exact hrest
    rw [hcut]
    show (slice line 0 name.length).bind _ = _
    rw [hname]
    show (slice line (name.length + 1) line.length).bind _ = _
    rw [hvalue]
    show some _ = some _
    rw [onlyChunked_eq]
    rfl

/-- no colon, no framing line -/
theorem isFramingLine_of_no_colon (h : 58 ∉ line) : isFramingLine line = false := by
  have hno : ∀ b ∈ line, b ≠ 58 := by
    intro b hb he
    rw [he] at hb
    exact h hb
  unfold isFramingLine
  rw [cut_eq_none hno]

/-- no byte of whitespace or of `chunked` is a colon -/
theorem not_colon_of_chunked {coding : Bytes}
    (h : eqIgnoreAsciiCase (trim coding) (ascii "chunked") = true) : 58 ∉ coding := by
  have hspace : ∀ c ∈ whiteSpace, 58 ∉ c := by decide
  obtain ⟨front, back, ⟨cs, hcs, rfl⟩, ⟨ds, hds, rfl⟩, hsplit⟩ := trim_split coding
  have hmade : ∀ cs : List Bytes, (∀ c ∈ cs, c ∈ whiteSpace) → 58 ∉ cs.flatten := by
    intro cs hcs hmem
    obtain ⟨c, hc, hb⟩ := List.mem_flatten.mp hmem
    exact hspace c (hcs c hc) hb
  have htrim : 58 ∉ trim coding := by
    intro hmem
    rw [eqIgnoreAsciiCase, beq_iff_eq] at h
    have hlow : asciiLower 58 ∈ (ascii "chunked").map asciiLower := by
      rw [← h]
      exact List.mem_map_of_mem hmem
    exact absurd hlow (by decide)
  rw [hsplit]
  simp only [List.mem_append, not_or]
  exact ⟨⟨hmade cs hcs, htrim⟩, hmade ds hds⟩

/-- a framing line holds one colon -/
theorem count_colon (h : isFramingLine line = true) : line.count 58 = 1 := by
  unfold isFramingLine at h
  split at h
  · next name value hcut =>
    have hvalue : 58 ∉ value := by
      rw [Bool.and_eq_true, Bool.and_eq_true, Bool.and_eq_true, List.all_eq_true] at h
      intro hmem
      rcases mem_splitOn_or 44 hmem with he | ⟨coding, hcoding, hb⟩
      · cases he
      · exact not_colon_of_chunked (h.2.2 coding hcoding) hb
    have hname : 58 ∉ name := by
      unfold cut at hcut
      split at hcut
      · cases hcut
      · obtain ⟨rfl, _⟩ := Prod.mk.inj (Option.some.inj hcut)
        intro hmem
        have hx := List.mem_takeWhile_imp hmem
        simp at hx
    rw [eq_of_cut hcut, List.count_append, List.count_cons_self, List.count_eq_zero.mpr hname,
      List.count_eq_zero.mpr hvalue]
  · cases h

/-- when a framing line is cut at its CRs, a part without the colon is left -/
theorem exists_part_kept (h : isFramingLine line = true) (hcr : 13 ∈ line) :
    ∃ part ∈ line.splitOn 13, isFramingLine part = false := by
  obtain ⟨front, back, rfl⟩ := List.append_of_mem hcr
  have hcount := count_colon h
  rw [List.splitOn_append_cons_self]
  rw [List.count_append, List.count_cons_of_ne (by decide)] at hcount
  -- the colon is in front of the CR or behind it
  have hpart : ∀ text : Bytes, 58 ∉ text → ∃ part ∈ text.splitOn 13, isFramingLine part = false := by
    intro text hno
    obtain ⟨part, hp⟩ := List.exists_mem_of_ne_nil _ (List.splitOn_ne_nil 13 text)
    exact ⟨part, hp, isFramingLine_of_no_colon fun hb => hno (mem_of_mem_splitOn hp hb).1⟩
  by_cases hfront : 58 ∈ front
  · have hpos := List.count_pos_iff.mpr hfront
    obtain ⟨part, hp, hkept⟩ := hpart back (List.count_eq_zero.mp (by omega))
    exact ⟨part, List.mem_append_right _ hp, hkept⟩
  · obtain ⟨part, hp, hkept⟩ := hpart front hfront
    exact ⟨part, List.mem_append_left _ hp, hkept⟩

end

/-! ## the whole head -/

/-- the loop over the parts: the first as it is, a CRLF before each other one that is kept -/
def emit : List Bytes → Bytes
  | [] => []
  | first :: parts => (if isFramingLine first then [] else first) ++
      (parts.filter fun part => !isFramingLine part).flatMap fun part => crlf ++ part

section
variable {block head : Bytes} {parts lines : List Bytes}

theorem reframeLine_eq (out part : Bytes) (i : Nat) :
    reframeLine out (part, i) =
      let line := if i = 0 then part else stripLf part
      some (if isFramingLine line then out
        else (if 0 < i then out ++ crlf else out) ++ line) := by
  unfold reframeLine
  simp only [keepLine_eq]
  show (if (!isFramingLine _) = true then _ else _) = _
  cases isFramingLine (if i = 0 then part else stripLf part) with
  | true => rfl
  | false => rfl

theorem foldlM_reframeLine (parts : List Bytes) (out : Bytes) (i : Nat) :
    (parts.zipIdx (i + 1)).foldlM reframeLine out =
      some (out ++ ((parts.map stripLf).filter fun part => !isFramingLine part).flatMap
        fun part => crlf ++ part) := by
  induction parts generalizing out i with
  | nil => exact congrArg some (List.append_nil out).symm
  | cons part parts ih =>
    rw [List.zipIdx_cons, List.foldlM_cons, reframeLine_eq]
    show (parts.zipIdx (i + 1 + 1)).foldlM reframeLine _ = _
    rw [ih, if_neg (Nat.succ_ne_zero i), if_pos (Nat.succ_pos i), List.map_cons]
    cases hf : isFramingLine (stripLf part) with
    | true =>
      rw [List.filter_cons_of_neg (by rw [hf]; decide)]
      rfl
    | false =>
      rw [List.filter_cons_of_pos (by rw [hf]; rfl), List.flatMap_cons, if_neg Bool.false_ne_true]
      simp only [List.append_assoc]

/-- the loop -/
theorem foldlM_splitOn (block : Bytes) :
    (block.splitOn 13).zipIdx.foldlM reframeLine [] = some (emit (crParts block)) := by
  obtain ⟨first, parts, hparts⟩ := List.exists_cons_of_ne_nil (List.splitOn_ne_nil 13 block)
  rw [crParts, hparts, List.zipIdx_cons, List.foldlM_cons, reframeLine_eq]
  show (parts.zipIdx (0 + 1)).foldlM reframeLine _ = _
  rw [foldlM_reframeLine, if_pos rfl, if_neg (Nat.lt_irrefl 0)]
  rfl

/-- a head with a blank line comes back with what is in front of the first one, written anew -/
theorem reframe_complete {i : Nat} (h : indexOf blankLine head = some i) :
    reframeHeadForTunnel head = some (emit (crParts (head.take i)) ++ blankLine) := by
  obtain ⟨hat, _⟩ := (indexOf_some_iff (by decide)).mp h
  have hend : findHeaderEnd head = some (i + 4) := findHeaderEnd_iff.mpr (.inl ⟨i, h, rfl⟩)
  obtain ⟨rest, hrest⟩ := hat
  have hsplit : head = head.take i ++ blankLine ++ rest := by
    rw [List.append_assoc, hrest, List.take_append_drop]
  have hlen := congrArg List.length hrest
  rw [List.length_append, List.length_drop, show blankLine.length = 4 from rfl] at hlen
  have hi : (head.take i).length = i := List.length_take_of_le (by omega)
  have hblank : slice head i (i + 4) = some blankLine := by
    rw [slice, if_pos ⟨by omega, by omega⟩, List.drop_take, ← hrest, Nat.add_sub_cancel_left]
    rfl
  have hblock : slice head 0 i = some (head.take i) := by
    rw [slice, if_pos ⟨Nat.zero_le i, by omega⟩, List.drop_zero]
  unfold reframeHeadForTunnel
  rw [hend]
  simp only [Nat.add_sub_cancel, hblank, ne_eq, not_true_eq_false, if_false]
  rw [checkedSub, if_pos (Nat.le_add_left 4 i), Nat.add_sub_cancel]
  show (slice head 0 i).bind _ = _
  rw [hblock]
  show ((head.take i |>.splitOn 13).zipIdx.foldlM reframeLine []).bind _ = _
  rw [foldlM_splitOn]
  rfl

/-- any other text comes back as it is -/
theorem reframe_incomplete (h : indexOf blankLine head = none) :
    reframeHeadForTunnel head = some head := by
  unfold reframeHeadForTunnel
  cases findHeaderEnd head with
  | none => rfl
  | some last =>
    refine if_pos fun hx => ?_
    unfold slice at hx
    split at hx
    · have hno := (indexOf_eq_none_iff (by decide)).mp h (last - 4)
      apply hno
      rw [← Option.some.inj hx, List.drop_take]
      exact List.take_prefix _ _
    · cases hx

theorem endsFirst_iff :
    EndsFirst block ↔ indexOf blankLine (block ++ blankLine) = some block.length := by
  rw [indexOf_some_iff (by decide), List.drop_left]
  constructor
  · intro h
    refine ⟨List.prefix_refl _, fun j hj ⟨rest, hrest⟩ => ?_⟩
    have hsplit : block ++ blankLine = (block ++ blankLine).take j ++ blankLine ++ rest := by
      rw [List.append_assoc, hrest, List.take_append_drop]
    have hlen := congrArg List.length hrest
    rw [h _ _ hsplit, List.append_nil, List.length_drop, List.length_append] at hlen
    omega
  · intro ⟨_, hfirst⟩ front rest hsplit
    have hle : block.length ≤ front.length := by
      refine Nat.le_of_not_lt fun hlt => hfirst _ hlt ⟨rest, ?_⟩
      rw [hsplit, List.append_assoc, List.drop_left]
    have hlen := congrArg List.length hsplit
    rw [List.length_append, List.length_append, List.length_append] at hlen
    exact List.length_eq_zero_iff.mp (by omega)

theorem reframe_block (h : EndsFirst block) :
    reframeHeadForTunnel (block ++ blankLine) = some (emit (crParts block) ++ blankLine) := by
  rw [reframe_complete (endsFirst_iff.mp h), List.take_left]

/-! ## what is deleted -/

theorem intercalate_flatMap (first : Bytes) (lines : List Bytes) :
    crlf.intercalate (first :: lines) = first ++ lines.flatMap fun line => crlf ++ line := by
  induction lines generalizing first with
  | nil => rw [List.intercalate_singleton, List.flatMap_nil, List.append_nil]
  | cons next lines ih =>
    rw [List.intercalate_cons_cons, ih, List.flatMap_cons, List.append_assoc, List.append_assoc]

/-- a text whose first part is kept is the kept parts put together -/
theorem emit_kept {first : Bytes} (h : isFramingLine first = false) (parts : List Bytes) :
    emit (first :: parts) = crlf.intercalate (keptLines (first :: parts)) := by
  rw [emit, if_neg (Bool.eq_false_iff.mp h), keptLines, intercalate_flatMap]

theorem takeLine_of_no_cr {line : Bytes} (h : 13 ∉ line) : takeLine line = none := by
  cases hl : takeLine line with
  | none => rfl
  | some p =>
    obtain ⟨front, rest⟩ := p
    rw [eq_of_takeLine hl] at h
    exact absurd (by simp [crlf]) h

theorem mem_keptLines {line : Bytes} (h : line ∈ keptLines lines) : line ∈ lines := by
  cases lines with
  | nil => cases h
  | cons first lines =>
    rcases List.mem_cons.mp h with rfl | h
    · exact List.mem_cons_self
    · exact List.mem_cons_of_mem _ (List.mem_filter.mp h).1

theorem crlfLines_keptLines (hne : lines ≠ []) (h : ∀ line ∈ lines, takeLine line = none) :
    crlfLines (crlf.intercalate (keptLines lines)) = keptLines lines := by
  obtain ⟨first, rest, rfl⟩ := List.exists_cons_of_ne_nil hne
  exact crlfLines_join (List.cons_ne_nil _ _) fun line hl => h line (mem_keptLines hl)

theorem crlfLines_withoutFraming (block : Bytes) :
    crlfLines (withoutFraming block) = keptLines (crlfLines block) :=
  crlfLines_keptLines (crlfLines_ne_nil block) fun _ hl => takeLine_of_mem hl

theorem crlfLines_blankLine (text : Bytes) :
    crlfLines (text ++ blankLine) = crlfLines text ++ [[], []] := by
  have hsplit : text ++ blankLine = text ++ crlf ++ (crlf ++ []) := by
    rw [List.append_assoc]
    rfl
  rw [hsplit, crlfLines_append]
  rfl

/-- nothing but lines is deleted, and none is new -/
theorem withoutFraming_sublist (block : Bytes) :
    (crlfLines (withoutFraming block ++ blankLine)).Sublist (crlfLines (block ++ blankLine)) := by
  rw [crlfLines_blankLine, crlfLines_blankLine, crlfLines_withoutFraming]
  apply List.Sublist.append_right
  obtain ⟨first, lines, hlines⟩ := List.exists_cons_of_ne_nil (crlfLines_ne_nil block)
  rw [hlines]
  exact List.Sublist.cons_cons first List.filter_sublist

/-- in a clean head the parts between CRs are the lines -/
theorem crParts_clean (h : ∀ line ∈ crlfLines block, 13 ∉ line) :
    crParts block = crlfLines block := by
  rw [flatMap_splitOn_crlfLines]
  have hsingle : ((crlfLines block).flatMap fun line => line.splitOn 13) =
      (crlfLines block).flatMap fun line => [line] :=
    List.flatMap_congr fun line hl => List.splitOn_eq_singleton (h line hl)
  rw [hsingle, List.flatMap_singleton']

theorem emit_clean (h : CleanBlock block) : emit (crParts block) = withoutFraming block := by
  obtain ⟨hcr, hfirst⟩ := h
  rw [crParts_clean hcr, withoutFraming]
  obtain ⟨first, lines, hlines⟩ := List.exists_cons_of_ne_nil (crlfLines_ne_nil block)
  rw [hlines] at hfirst ⊢
  exact emit_kept (hfirst first rfl) lines

/-- the kept parts of lines are no fewer than the kept lines, and more if a line that is deleted
holds a CR -/
theorem kept_parts_le (hkept : ∀ line ∈ lines, isFramingLine line = false → 13 ∉ line) :
    (lines.filter fun line => !isFramingLine line).length ≤
        ((lines.flatMap fun line => line.splitOn 13).filter
          fun part => !isFramingLine part).length ∧
      ((∃ line ∈ lines, 13 ∈ line) →
        (lines.filter fun line => !isFramingLine line).length <
          ((lines.flatMap fun line => line.splitOn 13).filter
            fun part => !isFramingLine part).length) := by
  induction lines with
  | nil => exact ⟨le_rfl, fun ⟨_, h, _⟩ => (by cases h)⟩
  | cons line lines ih =>
    obtain ⟨hline, hlines⟩ := List.forall_mem_cons.mp hkept
    obtain ⟨hle, hlt⟩ := ih hlines
    rw [List.flatMap_cons, List.filter_append, List.length_append]
    cases hf : isFramingLine line with
    | false =>
      have hno := hline hf
      have hfilter : ([line].filter fun part => !isFramingLine part) = [line] :=
        List.filter_cons_of_pos (by rw [hf]; rfl)
      rw [List.splitOn_eq_singleton hno, hfilter, List.filter_cons_of_pos (by rw [hf]; rfl),
        List.length_cons, List.length_singleton]
      refine ⟨by omega, fun ⟨l, hl, hcr⟩ => ?_⟩
      rcases List.mem_cons.mp hl with rfl | hl
      · exact absurd hcr hno
      · have hmore := hlt ⟨l, hl, hcr⟩
        omega
    | true =>
      rw [List.filter_cons_of_neg (by rw [hf]; decide)]
      refine ⟨by omega, fun ⟨l, hl, hcr⟩ => ?_⟩
      rcases List.mem_cons.mp hl with rfl | hl
      · obtain ⟨part, hp, hpart⟩ := exists_part_kept hf hcr
        have hmem : part ∈ (l.splitOn 13).filter fun part => !isFramingLine part :=
          List.mem_filter.mpr ⟨hp, by rw [hpart]; rfl⟩
        have hpos := List.length_pos_of_mem hmem
        omega
      · have hmore := hlt ⟨l, hl, hcr⟩
        omega

/-- no part holds a CR -/
theorem mem_crParts {part : Bytes} (h : part ∈ crParts block) : 13 ∉ part := by
  rw [flatMap_splitOn_crlfLines] at h
  obtain ⟨line, _, hp⟩ := List.mem_flatMap.mp h
  intro hb
  exact (mem_of_mem_splitOn hp hb).2 rfl

/-- what is written when the first part is dropped begins with a CR, if at all -/
theorem emit_dropped {first : Bytes} (h : isFramingLine first = true) (parts : List Bytes) :
    (emit (first :: parts)).head? ∈ [none, some 13] := by
  rw [emit, if_pos h]
  cases (parts.filter fun part => !isFramingLine part) with
  | nil => exact List.mem_cons_self
  | cons part parts => exact List.mem_cons_of_mem _ List.mem_cons_self

/-- a head that loses its first line is not as it was -/
theorem emit_ne_of_dropped {first part : Bytes} {more : List Bytes}
    (hjoin : [13].intercalate (part :: more) = first) (hcr : 13 ∉ part)
    (hpart : isFramingLine part = true) (parts : List Bytes) :
    emit (part :: parts) ≠ crlf.intercalate (keptLines (first :: lines)) := by
  have hne : part ≠ [] := by
    rintro rfl
    cases hpart
  obtain ⟨b, rest, rfl⟩ := List.exists_cons_of_ne_nil hne
  have hb : b ≠ 13 := fun he => hcr (by rw [he]; exact List.mem_cons_self)
  -- the first line begins with the part, and that with no CR
  obtain ⟨tail, rfl⟩ : ∃ tail, first = b :: tail := by
    rw [← hjoin]
    cases more with
    | nil => exact ⟨rest, List.intercalate_singleton⟩
    | cons next more => exact ⟨_, rfl⟩
  intro h
  have hhead := emit_dropped hpart parts
  rw [h, keptLines, intercalate_flatMap] at hhead
  simp [hb] at hhead

/-- lines whose kept parts are the kept lines hold no CR -/
theorem no_cr_of_kept (hno : ∀ line ∈ lines, ∀ part ∈ line.splitOn 13, 13 ∉ part)
    (h : ((lines.flatMap fun line => line.splitOn 13).filter fun part => !isFramingLine part) =
      lines.filter fun line => !isFramingLine line) : ∀ line ∈ lines, 13 ∉ line := by
  have hkept : ∀ line ∈ lines, isFramingLine line = false → 13 ∉ line := by
    intro line hl hf
    have hmem : line ∈ lines.filter fun line => !isFramingLine line :=
      List.mem_filter.mpr ⟨hl, by rw [hf]; rfl⟩
    rw [← h] at hmem
    obtain ⟨line', hl', hp⟩ := List.mem_flatMap.mp (List.mem_filter.mp hmem).1
    exact hno line' hl' line hp
  intro line hl hb
  have hlt := (kept_parts_le hkept).2 ⟨line, hl, hb⟩
  rw [h] at hlt
  exact Nat.lt_irrefl _ hlt

/-- **a head that is written anew as it was, but for the framing lines, is clean** -/
theorem clean_of_emit (h : emit (crParts block) = withoutFraming block) : CleanBlock block := by
  have hno : ∀ line : Bytes, ∀ part ∈ line.splitOn 13, 13 ∉ part :=
    fun line part hp hb => (mem_of_mem_splitOn hp hb).2 rfl
  have hparts := flatMap_splitOn_crlfLines block
  obtain ⟨first, lines, hlines⟩ := List.exists_cons_of_ne_nil (crlfLines_ne_nil block)
  obtain ⟨part, more, hfirst⟩ := List.exists_cons_of_ne_nil (List.splitOn_ne_nil 13 first)
  have hpart := hno first part (by rw [hfirst]; exact List.mem_cons_self)
  rw [withoutFraming, hlines] at h
  rw [hlines, List.flatMap_cons, hfirst, List.cons_append] at hparts
  rw [hparts] at h
  cases hf : isFramingLine part with
  | true =>
    have hjoin : [13].intercalate (part :: more) = first := by
      rw [← hfirst]
      exact List.intercalate_splitOn 13
    exact absurd h (emit_ne_of_dropped hjoin hpart hf _)
  | false =>
    have hkept : keptLines (part :: (more ++ lines.flatMap fun line => line.splitOn 13)) =
        keptLines (first :: lines) := by
      have hcut := congrArg crlfLines h
      rw [emit_kept hf, ← hparts, ← hlines, crlfLines_keptLines, crlfLines_keptLines] at hcut
      · rw [← hparts, ← hlines]
        exact hcut
      · exact crlfLines_ne_nil block
      · exact fun line hl => takeLine_of_mem hl
      · rw [hparts]
        exact List.cons_ne_nil _ _
      · exact fun line hl => takeLine_of_no_cr (mem_crParts hl)
    obtain ⟨hpf, htail⟩ := List.cons.inj hkept
    -- the first line is its first part, so it holds no CR and has no other
    rw [hpf] at hpart hf
    rw [List.splitOn_eq_singleton hpart] at hfirst
    obtain ⟨_, rfl⟩ := List.cons.inj hfirst
    have hcr := no_cr_of_kept (fun line _ => hno line) htail
    refine ⟨?_, fun f hhead => ?_⟩
    · rw [hlines]
      exact List.forall_mem_cons.mpr ⟨hpart, hcr⟩
    · rw [hlines] at hhead
      obtain rfl := Option.some.inj hhead
      exact hf

/-- a result, whatever the input -/
theorem reframe_safe (head : Bytes) : reframeHeadForTunnel head ≠ none := by
  cases h : indexOf blankLine head with
  | none =>
    rw [reframe_incomplete h]
    exact Option.some_ne_none _
  | some i =>
    rw [reframe_complete h]
    exact Option.some_ne_none _

/-- **Reframing only deletes, unless the head is complete and a CR in it stands before no LF, or its
first line reads as a framing line.** -/
theorem reframe_exact_iff (head : Bytes) : ReframesExactly head ↔
    ∀ block, head = block ++ blankLine → EndsFirst block → CleanBlock block := by
  constructor
  · intro hr block hhead hends
    have hdel := hr.deletes block hhead hends
    rw [hhead, reframe_block hends] at hdel
    exact clean_of_emit (List.append_cancel_right (Option.some.inj hdel))
  · intro hclean
    have hdel : ∀ block, head = block ++ blankLine → EndsFirst block →
        reframeHeadForTunnel head = some (withoutFraming block ++ blankLine) := by
      intro block hhead hends
      have hemit := emit_clean (hclean block hhead hends)
      rw [hhead, reframe_block hends, hemit]
    refine ⟨hdel, fun block hhead hends out hout => ?_, fun hno => ?_, reframe_safe head⟩
    · rw [hdel block hhead hends] at hout
      obtain rfl := Option.some.inj hout
      rw [hhead]
      exact withoutFraming_sublist block
    · apply reframe_incomplete
      rw [indexOf_eq_none_iff (by decide)]
      exact not_exists.mp (mt infix_iff_drop.mpr hno)

/-- a head with a CR in a value -/
def looseCr : Bytes := ascii "HTTP/1.1 200 OK\r\nx-a: b\rset-cookie: c"

/-- it comes back with a field of its own behind the CR -/
theorem loose_cr_makes_field : ¬ ∀ head : Bytes, ReframesExactly head := by
  intro h
  have hends : EndsFirst looseCr := endsFirst_iff.mpr (by decide +kernel)
  have hout := (h _).deletes looseCr rfl hends
  rw [reframe_block hends] at hout
  exact absurd hout (by decide +kernel)

end

end AnvilRing
