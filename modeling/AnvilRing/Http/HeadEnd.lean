import AnvilRing.Http.Response
import AnvilRing.Lib.Lines

/-!
# Where a response head ends

The hub has two ways to the end of a head: `find_header_end` searches for a blank line, `parse_head`
reads lines with `httparse`.

* `findHeaderEnd`            as the code computes it;
* `HttpLib.EndsAtEmptyLine`  `httparse` skips empty lines and ends the head at the first empty one
                             behind a line;
* `HeadSpan bytes m e`       what is known of the bytes around a head from `m` to `e`;
* `EndsAgree bytes`          the head ends in CRLFCRLF or LFLF, and nothing else is found before;
* `head_ends_agree_iff`      then, and only then, both find the same end.
-/

namespace AnvilRing
open Wire

/-! ## the code -/

/-- `find_subslice` -/
def findSubslice (hay needle : Bytes) : Option Nat := indexOf needle hay

/-- CRLF CRLF -/
def blankLine : Bytes := ascii "\r\n\r\n"

/-- LF LF -/
def bareBlankLine : Bytes := ascii "\n\n"

/-- `find_header_end` -/
def findHeaderEnd (bytes : Bytes) : Option Nat :=
  match findSubslice bytes blankLine with
  | some i => some (i + 4)
  | none =>
    match findSubslice bytes bareBlankLine with
    | some i => some (i + 2)
    | none => none

/-! ## the lines of a head -/

/-- what is behind the head: empty lines are skipped, and the first empty line behind a line ends
it -/
def headRest (bytes : Bytes) : Option Bytes := afterEmptyLine (skipEmptyLines bytes)

/-- `httparse` skips leading empty lines, takes lines that end in LF or in CRLF, and comes to the
end of a head at its first empty line -/
def HttpLib.EndsAtEmptyLine (lib : HttpLib) : Prop :=
  ∀ bytes parsed, lib.parseResponse bytes = some parsed →
    headRest bytes = some (bytes.drop parsed.end)

/-- empty lines up to `lead`, a head that ends in `mark`, and what is behind it -/
def HeadEnds (bytes lead mark rest : Bytes) : Prop :=
  ∃ front, bytes = lead ++ (front ++ mark ++ rest) ∧
    skipEmptyLines bytes = front ++ mark ++ rest ∧
    afterEmptyLine (front ++ mark ++ rest) = some rest

/-- The head ends in CRLFCRLF and the empty lines before it hold none, or it ends in LFLF, the empty
lines before it hold none, and CRLFCRLF is nowhere in the bytes, the body included. -/
def EndsAgree (bytes : Bytes) : Prop :=
  (∃ lead rest, HeadEnds bytes lead blankLine rest ∧ ¬ blankLine <:+: lead) ∨
    ∃ lead rest, HeadEnds bytes lead bareBlankLine rest ∧ ¬ bareBlankLine <:+: lead ∧
      ¬ blankLine <:+: bytes

/-! ## the bytes around a head -/

/-- empty lines up to `m`, a head up to `e` -/
structure HeadSpan (bytes : Bytes) (m e : Nat) : Prop where
  lt : m < e
  lead : ∀ k, k + 1 = m → bytes[k]? = some 10
  start_lf : bytes[m]? ≠ some 10
  start_crlf : ¬ (bytes[m]? = some 13 ∧ bytes[m + 1]? = some 10)
  lf : ∀ p, m ≤ p → bytes[p]? = some 10 → bytes[p + 1]? = some 10 → e ≤ p + 2
  crlf : ∀ p, m ≤ p → bytes[p]? = some 10 → bytes[p + 1]? = some 13 → bytes[p + 2]? = some 10 →
    e ≤ p + 3

/-- where a mark occurs, it is among the empty lines or not before the end of the head -/
def Marks (mark bytes : Bytes) (m e : Nat) : Prop :=
  ∀ p, mark <+: bytes.drop p → p + mark.length ≤ m ∨ m ≤ p ∧ e ≤ p + mark.length

section
variable {bytes lead rest mark : Bytes} {m e p : Nat} {lib : HttpLib} {res : HttpResponse}

theorem prefix_drop_getElem (h : mark <+: bytes.drop p) {k : Nat} (hk : k < mark.length) :
    bytes[p + k]? = mark[k]? := by
  obtain ⟨back, hback⟩ := h
  rw [← List.getElem?_drop, ← hback, List.getElem?_append_left hk]

/-- a text behind another one, byte by byte -/
theorem getElem?_behind {text : Bytes} (h : bytes = lead ++ text) (i : Nat) :
    bytes[lead.length + i]? = text[i]? := by
  rw [h, List.getElem?_append_right (Nat.le_add_right _ _), Nat.add_sub_cancel_left]

/-- what the lines of a head say of its bytes -/
theorem headSpan_of_lines {text : Bytes} {k w : Nat} (hsplit : bytes = lead ++ text)
    (hlast : ∀ i, i + 1 = lead.length → lead[i]? = some 10) (hlf : text[0]? ≠ some 10)
    (hcrlf : ¬ (text[0]? = some 13 ∧ text[1]? = some 10)) (hat : EmptyAt text k w)
    (hfirst : ∀ j v, EmptyAt text j v → k ≤ j) :
    HeadSpan bytes lead.length (lead.length + (k + w)) := by
  have hget := getElem?_behind hsplit
  have hget0 : bytes[lead.length]? = text[0]? := hget 0
  have hbounds := hat.bounds
  constructor
  · omega
  · intro i hi
    have hi' := hlast i hi
    have hlt := (List.getElem?_eq_some_iff.mp hi').1
    rw [hsplit, List.getElem?_append_left hlt]
    exact hi'
  · rw [hget0]
    exact hlf
  · rw [hget0, hget]
    exact hcrlf
  · intro p hp h0 h1
    obtain ⟨i, rfl⟩ := Nat.exists_eq_add_of_le hp
    rw [hget] at h0
    rw [Nat.add_assoc, hget] at h1
    have hle := hfirst i 2 ⟨h0, .inl ⟨rfl, h1⟩⟩
    -- at `k` itself the empty line is the bare one
    rcases Nat.lt_or_eq_of_le hle with hlt | rfl
    · omega
    · rcases hat.2 with ⟨rfl, _⟩ | ⟨_, hcr, _⟩
      · omega
      · rw [h1] at hcr
        cases hcr
  · intro p hp h0 h1 h2
    obtain ⟨i, rfl⟩ := Nat.exists_eq_add_of_le hp
    rw [hget] at h0
    rw [Nat.add_assoc, hget] at h1 h2
    have hle := hfirst i 3 ⟨h0, .inr ⟨rfl, h1, h2⟩⟩
    omega

theorem headRest_span (h : headRest bytes = some rest) :
    ∃ lead e, bytes = lead ++ skipEmptyLines bytes ∧ HeadSpan bytes lead.length e ∧
      e ≤ bytes.length ∧ rest = bytes.drop e := by
  obtain ⟨lead, hsplit, hlast, hlf, hcrlf⟩ := skipEmptyLines_split bytes
  obtain ⟨k, w, hat, hrest, hfirst⟩ := afterEmptyLine_first h
  have hlen := congrArg List.length hsplit
  have hbounds := hat.bounds
  rw [List.length_append] at hlen
  refine ⟨lead, lead.length + (k + w), hsplit,
    headSpan_of_lines hsplit hlast hlf hcrlf hat hfirst, by omega, ?_⟩
  rw [← List.drop_drop, hrest]
  conv => rhs; rw [hsplit, List.drop_left]

theorem HeadSpan.blankLine (h : HeadSpan bytes m e) : Marks blankLine bytes m e := by
  intro p hp
  have h0 : bytes[p]? = some 13 := prefix_drop_getElem (k := 0) hp (by decide)
  have h1 : bytes[p + 1]? = some 10 := prefix_drop_getElem hp (by decide)
  have h2 : bytes[p + 2]? = some 13 := prefix_drop_getElem hp (by decide)
  have h3 : bytes[p + 3]? = some 10 := prefix_drop_getElem hp (by decide)
  show p + 4 ≤ m ∨ m ≤ p ∧ e ≤ p + 4
  by_cases hm : m ≤ p
  · exact .inr ⟨hm, h.crlf (p + 1) (by omega) h1 h2 h3⟩
  · -- a mark across the start of the head would have it begin with an empty line
    refine .inl (Nat.le_of_not_lt fun hlt => ?_)
    obtain rfl | rfl | rfl : m = p + 1 ∨ m = p + 2 ∨ m = p + 3 := by omega
    · rw [h.lead p rfl] at h0
      cases h0
    · exact h.start_crlf ⟨h2, h3⟩
    · rw [h.lead (p + 2) rfl] at h2
      cases h2

theorem HeadSpan.bareBlankLine (h : HeadSpan bytes m e) : Marks bareBlankLine bytes m e := by
  intro p hp
  have h0 : bytes[p]? = some 10 := prefix_drop_getElem (k := 0) hp (by decide)
  have h1 : bytes[p + 1]? = some 10 := prefix_drop_getElem hp (by decide)
  show p + 2 ≤ m ∨ m ≤ p ∧ e ≤ p + 2
  by_cases hm : m ≤ p
  · exact .inr ⟨hm, h.lf p hm h0 h1⟩
  · refine .inl (Nat.le_of_not_lt fun hlt => ?_)
    obtain rfl : m = p + 1 := by omega
    exact h.start_lf h1

/-- the search ends at the end of the head exactly if the mark ends there and is not among the empty
lines -/
theorem Marks.indexOf_iff (hm : Marks mark bytes m e) (hne : mark ≠ []) (hlt : m < e) :
    (∃ i, indexOf mark bytes = some i ∧ i + mark.length = e) ↔
      (∃ p, m ≤ p ∧ p + mark.length = e ∧ mark <+: bytes.drop p) ∧
        ∀ p, mark <+: bytes.drop p → ¬ p + mark.length ≤ m := by
  constructor
  · intro ⟨i, hi, he⟩
    obtain ⟨hat, hfirst⟩ := (indexOf_some_iff hne).mp hi
    refine ⟨⟨i, ?_, he, hat⟩, fun p hp hle => hfirst p (by omega) hp⟩
    rcases hm i hat with hx | hx
    · omega
    · exact hx.1
  · intro ⟨⟨p, _, hpe, hp⟩, hlead⟩
    cases hi : indexOf mark bytes with
    | none => exact absurd hp ((indexOf_eq_none_iff hne).mp hi p)
    | some i =>
      obtain ⟨hat, hfirst⟩ := (indexOf_some_iff hne).mp hi
      have hle : i ≤ p := Nat.le_of_not_lt fun hlt => hfirst p hlt hp
      have hend := ((hm i hat).resolve_left (hlead i hat)).2
      exact ⟨i, rfl, by omega⟩

/-- a mark among the first bytes -/
theorem infix_lead_iff (more : Bytes) : mark <:+: lead ↔
    ∃ p, mark <+: (lead ++ more).drop p ∧ p + mark.length ≤ lead.length := by
  constructor
  · intro ⟨front, back, hx⟩
    refine ⟨front.length, ⟨back ++ more, ?_⟩, ?_⟩
    · rw [← hx]
      simp only [List.append_assoc, List.drop_left]
    · rw [← hx, List.length_append, List.length_append]
      omega
  · intro ⟨p, hp, hle⟩
    rw [List.drop_append_of_le_length (by omega)] at hp
    have hshort : mark.length ≤ (lead.drop p).length := by
      rw [List.length_drop]
      omega
    exact infix_iff_drop.mpr ⟨p, List.prefix_of_prefix_length_le hp (List.prefix_append _ _) hshort⟩

/-- the end of the head, found as a mark -/
theorem headEnds_iff (hsplit : bytes = lead ++ skipEmptyLines bytes)
    (hrest : headRest bytes = some rest) (hle : e ≤ bytes.length) (he : rest = bytes.drop e) :
    HeadEnds bytes lead mark rest ↔
      ∃ p, lead.length ≤ p ∧ p + mark.length = e ∧ mark <+: bytes.drop p := by
  constructor
  · intro ⟨front, hbytes, _, _⟩
    refine ⟨lead.length + front.length, Nat.le_add_right _ _, ?_, rest, ?_⟩
    · have hlen := congrArg List.length hbytes
      have hdrop := congrArg List.length he
      rw [List.length_drop] at hdrop
      simp only [List.length_append] at hlen
      omega
    · rw [hbytes, List.append_assoc, ← List.append_assoc lead front, ← List.length_append,
        List.drop_left]
  · intro ⟨p, hp, hpe, back, hback⟩
    obtain ⟨i, rfl⟩ := Nat.exists_eq_add_of_le hp
    have hskip : bytes.drop lead.length = skipEmptyLines bytes := by
      conv => lhs; rw [hsplit]
      exact List.drop_left
    have hbody : rest = back := by
      rw [he, ← hpe, ← List.drop_drop, ← hback, List.drop_left]
    have htext : skipEmptyLines bytes = (skipEmptyLines bytes).take i ++ mark ++ rest := by
      rw [hbody, List.append_assoc, hback, ← List.drop_drop, hskip, List.take_append_drop]
    rw [headRest] at hrest
    refine ⟨(skipEmptyLines bytes).take i, ?_, htext, ?_⟩
    · rw [← htext]
      exact hsplit
    · rw [← htext]
      exact hrest

theorem findHeaderEnd_iff : findHeaderEnd bytes = some e ↔
    (∃ i, indexOf blankLine bytes = some i ∧ i + blankLine.length = e) ∨
      indexOf blankLine bytes = none ∧
        ∃ i, indexOf bareBlankLine bytes = some i ∧ i + bareBlankLine.length = e := by
  unfold findHeaderEnd findSubslice
  cases indexOf blankLine bytes with
  | some i => simp [show blankLine.length = 4 from rfl]
  | none =>
    cases indexOf bareBlankLine bytes with
    | some i => simp [show bareBlankLine.length = 2 from rfl]
    | none => simp

/-- the first empty lines and the rest are what they are -/
theorem HeadEnds.unique {lead' rest' : Bytes} (h : HeadEnds bytes lead' mark rest')
    (hsplit : bytes = lead ++ skipEmptyLines bytes) (hrest : headRest bytes = some rest) :
    lead' = lead ∧ rest' = rest := by
  obtain ⟨front, hbytes, hskip, hafter⟩ := h
  rw [← hskip] at hbytes hafter
  refine ⟨List.append_cancel_right (hbytes.symm.trans hsplit), ?_⟩
  rw [headRest, hafter] at hrest
  exact Option.some.inj hrest

theorem findHeaderEnd_le (h : findHeaderEnd bytes = some e) : e ≤ bytes.length := by
  have hle : ∀ {mark : Bytes} {i : Nat}, mark ≠ [] → indexOf mark bytes = some i →
      i + mark.length ≤ bytes.length := by
    intro mark i hne hi
    have hlen := ((indexOf_some_iff hne).mp hi).1.length_le
    have hpos := List.length_pos_iff.mpr hne
    rw [List.length_drop] at hlen
    omega
  rcases findHeaderEnd_iff.mp h with ⟨i, hi, rfl⟩ | ⟨_, i, hi, rfl⟩
  · exact hle (by decide) hi
  · exact hle (by decide) hi

/-- the search for a mark ends at the end of the head -/
theorem indexOf_headEnds_iff (hm : Marks mark bytes lead.length e) (hne : mark ≠ [])
    (hsplit : bytes = lead ++ skipEmptyLines bytes) (hrest : headRest bytes = some rest)
    (hlt : lead.length < e) (hle : e ≤ bytes.length) (he : rest = bytes.drop e) :
    (∃ i, indexOf mark bytes = some i ∧ i + mark.length = e) ↔
      ∃ lead rest, HeadEnds bytes lead mark rest ∧ ¬ mark <:+: lead := by
  have hlead : (∀ p, mark <+: bytes.drop p → ¬ p + mark.length ≤ lead.length) ↔
      ¬ mark <:+: lead := by
    rw [infix_lead_iff (skipEmptyLines bytes), ← hsplit]
    simp only [not_exists, not_and]
  rw [hm.indexOf_iff hne hlt, hlead, ← headEnds_iff hsplit hrest hle he]
  constructor
  · intro ⟨hends, hno⟩
    exact ⟨lead, rest, hends, hno⟩
  · intro ⟨lead', rest', hends, hno⟩
    obtain ⟨rfl, rfl⟩ := hends.unique hsplit hrest
    exact ⟨hends, hno⟩

/-- the offset is determined by what is behind it -/
theorem findHeaderEnd_drop_iff (hle : e ≤ bytes.length) :
    (∃ e', findHeaderEnd bytes = some e' ∧ bytes.drop e = bytes.drop e') ↔
      findHeaderEnd bytes = some e := by
  constructor
  · intro ⟨e', he', hdrop⟩
    have hle' := findHeaderEnd_le he'
    have hlen := congrArg List.length hdrop
    rw [List.length_drop, List.length_drop] at hlen
    obtain rfl : e = e' := by omega
    exact he'
  · intro h
    exact ⟨e, h, rfl⟩

/-- the search and the lines agree on the end of a head -/
theorem findHeaderEnd_rest_iff (hrest : headRest bytes = some rest) :
    (∃ e, findHeaderEnd bytes = some e ∧ rest = bytes.drop e) ↔ EndsAgree bytes := by
  obtain ⟨lead, e, hsplit, hspan, hle, he⟩ := headRest_span hrest
  have hnone : indexOf blankLine bytes = none ↔ ¬ blankLine <:+: bytes := by
    rw [indexOf_eq_none_iff (by decide), infix_iff_drop, not_exists]
  have hblank := indexOf_headEnds_iff hspan.blankLine (by decide) hsplit hrest hspan.lt hle he
  have hbare := indexOf_headEnds_iff hspan.bareBlankLine (by decide) hsplit hrest hspan.lt hle he
  rw [he, findHeaderEnd_drop_iff hle, findHeaderEnd_iff, hblank, hbare, hnone]
  unfold EndsAgree
  refine or_congr_right ⟨fun h => ?_, fun h => ?_⟩
  · obtain ⟨hno, lead', rest', hends, hlead⟩ := h
    exact ⟨lead', rest', hends, hlead, hno⟩
  · obtain ⟨lead', rest', hends, hlead, hno⟩ := h
    exact ⟨hno, lead', rest', hends, hlead⟩

/-- what `parse_head` leaves is what is behind the head -/
theorem headRest_of_parseHead (hlib : lib.EndsAtEmptyLine)
    (h : parseHead lib bytes = some (res, rest)) : headRest bytes = some rest := by
  unfold parseHead at h
  split at h
  · cases h
  · next parsed hparsed =>
    split at h
    · split at h
      · cases h
      · split at h
        · obtain ⟨_, rfl⟩ := Prod.mk.inj (Option.some.inj h)
          exact hlib bytes parsed hparsed
        · cases h
    · cases h

end

/-! ## a library that takes both line ends -/

/-- without the CR that it ends in -/
def stripCr (line : Bytes) : Bytes := if line.getLast? = some 13 then line.dropLast else line

/-- the head with CRLF behind every line -/
def crlfHead (head : Bytes) : Bytes := crlf.intercalate ((head.splitOn 10).map stripCr)

/-- the head grammar behind empty lines, for lines that end in LF or in CRLF -/
def lenientLib : HttpLib where
  parseResponse bytes :=
    match headRest bytes with
    | none => none
    | some rest =>
      let size := bytes.length - rest.length
      match readResponse headerSlots (crlfHead (skipEmptyLines (bytes.take size))) with
      | some (code, fields, []) => some ⟨size, some code, fields⟩
      | _ => none
  fieldOk f := isHeaderName f.1 && isHeaderValue f.2

theorem lenientLib_endsAtEmptyLine : lenientLib.EndsAtEmptyLine := by
  intro bytes parsed h
  obtain ⟨rest, hrest, hend⟩ : ∃ rest, headRest bytes = some rest ∧
      parsed.end = bytes.length - rest.length := by
    unfold lenientLib at h
    simp only at h
    split at h
    · cases h
    · next rest hrest =>
      refine ⟨rest, hrest, ?_⟩
      split at h
      · obtain rfl := Option.some.inj h
        rfl
      · cases h
  obtain ⟨_, e, _, _, hle, he⟩ := headRest_span hrest
  have hlen := congrArg List.length he
  rw [List.length_drop] at hlen
  rw [hrest, he, hend, show bytes.length - rest.length = e by omega]

/-- **`find_header_end` and `parse_head` agree on where the body starts exactly if the head ends in
CRLFCRLF or LFLF and nothing like it is found before.** -/
theorem head_ends_agree_iff {lib : HttpLib} (hlib : lib.EndsAtEmptyLine) {bytes rest : Bytes}
    {res : HttpResponse} (h : parseHead lib bytes = some (res, rest)) :
    (∃ e, findHeaderEnd bytes = some e ∧ rest = bytes.drop e) ↔ EndsAgree bytes :=
  findHeaderEnd_rest_iff (headRest_of_parseHead hlib h)

theorem head_ends_agree_iff_mixed :
    (∃ e, findHeaderEnd (ascii "HTTP/1.1 200 OK\r\nx-a: 1\n\r\nb") = some e ∧
        ascii "b" = (ascii "HTTP/1.1 200 OK\r\nx-a: 1\n\r\nb").drop e) ↔
      EndsAgree (ascii "HTTP/1.1 200 OK\r\nx-a: 1\n\r\nb") :=
  head_ends_agree_iff lenientLib_endsAtEmptyLine
    (show parseHead lenientLib (ascii "HTTP/1.1 200 OK\r\nx-a: 1\n\r\nb")
      = some (⟨200, [(ascii "x-a", ascii "1")]⟩, ascii "b") by decide +kernel)

/-- a head with bare line ends, and a blank line in the body: the search takes it for the end -/
theorem body_taken_for_head : ¬ ∀ lib : HttpLib, lib.EndsAtEmptyLine → ∀ bytes res rest,
    parseHead lib bytes = some (res, rest) →
      ∃ e, findHeaderEnd bytes = some e ∧ rest = bytes.drop e := by
  intro h
  have hparse : parseHead lenientLib (ascii "HTTP/1.1 200 OK\n\na\r\n\r\nb")
      = some (⟨200, []⟩, ascii "a\r\n\r\nb") := by decide +kernel
  obtain ⟨e, hfound, hrest⟩ := h lenientLib lenientLib_endsAtEmptyLine _ _ _ hparse
  have he : findHeaderEnd (ascii "HTTP/1.1 200 OK\n\na\r\n\r\nb") = some 22 := by decide +kernel
  rw [he] at hfound
  obtain rfl := Option.some.inj hfound
  exact absurd hrest (by decide +kernel)

end AnvilRing
