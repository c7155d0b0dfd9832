import AnvilRing.Message
import AnvilRing.Lib.HttpHead
import Mathlib.Data.List.Dedup

/-!
# Header maps

`http::HeaderMap` with what the forwarding paths do to one, and `strip_hop_by_hop`.

* `HeaderMap`            fields under legal names with legal values;
* `stripHopByHop`        `strip_hop_by_hop`, with the number it returns;
* `mem_strip`            what is left: the fields under no stripped name;
* `strip_of_disjoint`    a map without such names is left alone.
-/

namespace AnvilRing
open Wire

/-- a `HeaderName`: a token in lower case -/
def isHeaderName (name : Bytes) : Bool := isToken name && name.all fun b => asciiLower b == b

/-- a `HeaderValue` -/
def isHeaderValue (value : Bytes) : Bool := value.all isFieldByte

/-- `HeaderValue::to_str` succeeds: visible ASCII, space and tab -/
def toStrOk (value : Bytes) : Bool :=
  value.all fun b => b == 9 || (32 ≤ b.toNat && b.toNat ≤ 126)

/-- the values under a name, in order -/
def valuesOf (name : Bytes) (fs : List Field) : List Bytes :=
  (fs.filter fun f => f.1 == name).map Prod.snd

/-- The fields in the order of the map's iterator.  The values of a name are in the order in which
they were added; the order between names is the crate's own, and nothing here rests on it. -/
@[ext] structure HeaderMap where
  fields : List Field
  valid : ∀ f ∈ fields, isHeaderName f.1 = true ∧ isHeaderValue f.2 = true

namespace HeaderMap

def getAll (h : HeaderMap) (name : Bytes) : List Bytes := valuesOf name h.fields

def containsKey (h : HeaderMap) (name : Bytes) : Bool := h.fields.any fun f => f.1 == name

/-- every value of the name goes; the first one is returned -/
def remove (h : HeaderMap) (name : Bytes) : Option Bytes × HeaderMap :=
  ((h.getAll name).head?, {
    fields := h.fields.filter fun f => f.1 != name
    valid := fun f hf => h.valid f (List.mem_filter.mp hf).1 })

/-- the value replaces all values of the name -/
def insert (h : HeaderMap) (name value : Bytes) (hn : isHeaderName name = true)
    (hv : isHeaderValue value = true) : HeaderMap where
  fields := (h.fields.filter fun f => f.1 != name) ++ [(name, value)]
  valid f hf := by
    rcases List.mem_append.mp hf with hf | hf
    · exact h.valid f (List.mem_filter.mp hf).1
    · rw [List.mem_singleton.mp hf]
      exact ⟨hn, hv⟩

end HeaderMap

section
variable {h : HeaderMap} {name other value : Bytes}

theorem valuesOf_eq_nil_iff {fs : List Field} : valuesOf name fs = [] ↔ ∀ f ∈ fs, f.1 ≠ name := by
  simp [valuesOf]

theorem valuesOf_append (fs gs : List Field) :
    valuesOf name (fs ++ gs) = valuesOf name fs ++ valuesOf name gs := by
  simp [valuesOf]

theorem valuesOf_filter_ne (fs : List Field) :
    valuesOf other (fs.filter fun f => f.1 != name)
      = if other = name then [] else valuesOf other fs := by
  split
  · next he =>
    refine valuesOf_eq_nil_iff.mpr fun f hf => ?_
    have hne := (List.mem_filter.mp hf).2
    rw [he]
    exact bne_iff_ne.mp hne
  · next he =>
    rw [valuesOf, valuesOf, List.filter_filter]
    congr 1
    apply List.filter_congr
    intro f _
    by_cases hf : f.1 = other
    · simp [hf, he]
    · simp [hf]

namespace HeaderMap

theorem getAll_remove (h : HeaderMap) :
    (h.remove name).2.getAll other = if other = name then [] else h.getAll other :=
  valuesOf_filter_ne h.fields

theorem getAll_insert (h : HeaderMap) (hn : isHeaderName name = true)
    (hv : isHeaderValue value = true) :
    (h.insert name value hn hv).getAll other
      = if other = name then [value] else h.getAll other := by
  show valuesOf other (_ ++ [(name, value)]) = _
  rw [valuesOf_append, valuesOf_filter_ne]
  by_cases he : other = name
  · rw [if_pos he, if_pos he, he]
    simp [valuesOf]
  · have hne : valuesOf other [(name, value)] = [] := by simpa [valuesOf] using Ne.symm he
    rw [if_neg he, if_neg he, hne, List.append_nil]
    rfl

theorem containsKey_iff : h.containsKey name = true ↔ h.getAll name ≠ [] := by
  rw [containsKey, getAll, ne_eq, valuesOf_eq_nil_iff]
  simp

end HeaderMap

end

/-! ## strip_hop_by_hop -/

/-- `conditional`: the names that the readable Connection values list -/
def conditional (h : HeaderMap) : List Bytes :=
  let tokens := ((h.getAll (ascii "connection")).filter toStrOk).flatMap fun value =>
    (value.splitOn 44).map fun token => (trimOws token).map asciiLower
  (tokens.filter fun t => t != []).dedup

/-- `removed += headers.remove(name).into_iter().count()` -/
def stripName (acc : Nat × HeaderMap) (name : Bytes) : Nat × HeaderMap :=
  let (gone, rest) := acc.2.remove name
  (acc.1 + gone.toList.length, rest)

/-- `strip_hop_by_hop`: the number it returns and the map it leaves -/
def stripHopByHop (h : HeaderMap) : Nat × HeaderMap :=
  -- a token that is no name in lower case names no field
  ((conditional h).filter isHeaderName).foldl stripName (alwaysStrip.foldl stripName (0, h))

/-- the names that `strip_hop_by_hop` removes from a map -/
def strippedNames (h : HeaderMap) : List Bytes :=
  alwaysStrip ++ (conditional h).filter isHeaderName

section
variable {h : HeaderMap} {name value : Bytes} {f : Field}

theorem fields_foldl_stripName (names : List Bytes) (acc : Nat × HeaderMap) :
    (names.foldl stripName acc).2.fields = acc.2.fields.filter fun f => f.1 ∉ names := by
  induction names generalizing acc with
  | nil => simp
  | cons n names ih =>
    rw [List.foldl_cons, ih]
    show (acc.2.fields.filter fun f => f.1 != n).filter _ = _
    rw [List.filter_filter]
    apply List.filter_congr
    intro f _
    by_cases he : f.1 = n
    · simp [he]
    · simp [he]

theorem strip_fields (h : HeaderMap) :
    (stripHopByHop h).2.fields = h.fields.filter fun f => f.1 ∉ strippedNames h := by
  rw [stripHopByHop, fields_foldl_stripName, fields_foldl_stripName, List.filter_filter]
  apply List.filter_congr
  intro f _
  simp [strippedNames, Bool.and_comm]

/-- a field is left exactly if its name is not stripped -/
theorem mem_strip :
    f ∈ (stripHopByHop h).2.fields ↔ f ∈ h.fields ∧ f.1 ∉ strippedNames h := by
  rw [strip_fields, List.mem_filter, decide_eq_true_eq]

theorem mem_strippedNames_of_always (hn : name ∈ alwaysStrip) : name ∈ strippedNames h :=
  List.mem_append_left _ hn

/-- without a Connection field nothing is named -/
theorem conditional_eq_nil (hc : h.getAll (ascii "connection") = []) : conditional h = [] := by
  rw [conditional, hc]
  rfl

/-- a map without any of the fixed names is left alone -/
theorem strip_of_disjoint (hd : ∀ f ∈ h.fields, f.1 ∉ alwaysStrip) : (stripHopByHop h).2 = h := by
  have hc : conditional h = [] := by
    apply conditional_eq_nil
    refine valuesOf_eq_nil_iff.mpr fun f hf he => hd f hf ?_
    rw [he]
    exact List.mem_cons_self
  apply HeaderMap.ext
  rw [strip_fields, strippedNames, hc, List.filter_eq_self]
  intro f hf
  simpa using hd f hf

theorem strip_disjoint (hf : f ∈ (stripHopByHop h).2.fields) : f.1 ∉ alwaysStrip :=
  fun hn => (mem_strip.mp hf).2 (mem_strippedNames_of_always hn)

/-- the map that stripping leaves has nothing more to strip -/
theorem strip_strip (h : HeaderMap) :
    (stripHopByHop (stripHopByHop h).2).2 = (stripHopByHop h).2 :=
  strip_of_disjoint fun _ hf => strip_disjoint hf

/-- a legal name is its own lower case -/
theorem map_asciiLower (hn : isHeaderName name = true) : name.map asciiLower = name := by
  rw [isHeaderName, Bool.and_eq_true, List.all_eq_true] at hn
  conv => rhs; rw [← List.map_id name]
  exact List.map_congr_left fun b hb => by simpa using hn.2 b hb

/-- among legal names `is_hop_by_hop` holds of the fixed names only -/
theorem isHopByHop_iff (hn : isHeaderName name = true) :
    isHopByHop name = true ↔ name ∈ alwaysStrip := by
  have hlow : ∀ n ∈ alwaysStrip, isHeaderName n = true := by decide
  rw [isHopByHop, List.any_eq_true]
  constructor
  · rintro ⟨n, hmem, he⟩
    rw [eqIgnoreAsciiCase, map_asciiLower (hlow n hmem), map_asciiLower hn, beq_iff_eq] at he
    rw [← he]
    exact hmem
  · intro hmem
    exact ⟨name, hmem, by simp [eqIgnoreAsciiCase]⟩

theorem HeaderMap.fieldOk (hf : f ∈ h.fields) : FieldOk f := by
  obtain ⟨hn, hv⟩ := h.valid f hf
  rw [isHeaderName, Bool.and_eq_true] at hn
  exact ⟨hn.1, hv⟩

end

/-! ## how a head is written -/

/-- the loop over a map and the empty line behind it, in `encode_request_head` and in
`forward_engine` -/
def writeFields (head : Bytes) (headers : HeaderMap) : Bytes :=
  headers.fields.foldl
    (fun out f => out ++ f.1 ++ ascii ": " ++ f.2 ++ ascii "\r\n") head ++ ascii "\r\n"

theorem writeFields_eq (line : Bytes) (h : HeaderMap) :
    writeFields (line ++ ascii "\r\n") h = writeHead line h.fields := by
  have hfold : ∀ (fs : List Field) (out : Bytes),
      fs.foldl (fun out f => out ++ f.1 ++ ascii ": " ++ f.2 ++ ascii "\r\n") out
        = out ++ fieldLines fs := by
    intro fs
    induction fs with
    | nil => exact fun out => (List.append_nil out).symm
    | cons f fs ih =>
      intro out
      rw [List.foldl_cons, ih]
      simp only [fieldLines, fieldLine, List.flatMap_cons, List.append_assoc]
      rfl
  rw [writeFields, hfold]
  rfl

end AnvilRing
