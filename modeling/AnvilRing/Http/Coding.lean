import AnvilRing.Http.Response
import AnvilRing.Http.Strip

/-!
# Which bodies are called chunked

`is_chunked` looks at the first Transfer-Encoding line of a response; `forward_engine` goes through
all of them.

* `isChunked`                as the code computes it;
* `codings`                  the codings of all lines, in order, as `forward_engine` reads them;
* `codings_of_lines`         they do not depend on how a list is distributed over lines;
* `detects_codings_iff`      the maps on which `is_chunked` sees what all lines say;
* `detects_of_checked`       so it does where the check of `forward_engine` passes.
-/

namespace AnvilRing
open Wire

/-- `is_chunked`; `str::trim` of what `to_str` reads takes spaces and tabs -/
def isChunked (headers : HeaderMap) : Bool :=
  match (headers.getAll (ascii "transfer-encoding")).head? with
  | some value =>
    toStrOk value && (value.splitOn 44).any fun token =>
      eqIgnoreAsciiCase (trimOws token) (ascii "chunked")
  | none => false

/-- the codings that the Transfer-Encoding lines list together -/
def codings (headers : HeaderMap) : List Bytes :=
  (headers.getAll (ascii "transfer-encoding")).flatMap fun value => value.splitOn 44

/-- the coding is `chunked`, but for case and the whitespace around it -/
def SaysChunked (coding : Bytes) : Prop :=
  eqIgnoreAsciiCase (trimOws coding) (ascii "chunked") = true

/-- `is_chunked` says whether `chunked` is among the codings, and none is passed over -/
structure DetectsCodings (h : HeaderMap) : Prop where
  exact : isChunked h = true ↔ ∃ coding ∈ codings h, SaysChunked coding
  none_missed : isChunked h = false → ∀ coding ∈ codings h, ¬ SaysChunked coding

section
variable {h : HeaderMap}

/-- a list that is distributed over lines, in whatever way, is read as the list -/
theorem codings_of_lines {groups : List (List Bytes)} (hne : ∀ group ∈ groups, group ≠ [])
    (hcomma : ∀ group ∈ groups, ∀ coding ∈ group, 44 ∉ coding)
    (hlines : h.getAll (ascii "transfer-encoding") = groups.map ([44].intercalate ·)) :
    codings h = groups.flatten := by
  rw [codings, hlines, List.flatMap_map, ← List.flatMap_id]
  apply List.flatMap_congr
  intro group hgroup
  exact List.splitOn_intercalate 44 (hcomma group hgroup) (hne group hgroup)

theorem isChunked_iff : isChunked h = true ↔
    ∃ first, (h.getAll (ascii "transfer-encoding")).head? = some first ∧ toStrOk first = true ∧
      Lists first (ascii "chunked") := by
  unfold isChunked
  cases (h.getAll (ascii "transfer-encoding")).head? with
  | none => simp
  | some value => simp [Lists]

/-- a coding of the list is one of a line -/
theorem exists_coding_iff : (∃ coding ∈ codings h, SaysChunked coding) ↔
    ∃ value ∈ h.getAll (ascii "transfer-encoding"), Lists value (ascii "chunked") := by
  constructor
  · intro ⟨coding, hmem, hc⟩
    obtain ⟨value, hvalue, hcoding⟩ := List.mem_flatMap.mp hmem
    exact ⟨value, hvalue, coding, hcoding, hc⟩
  · intro ⟨value, hvalue, coding, hcoding, hc⟩
    exact ⟨coding, List.mem_flatMap.mpr ⟨value, hvalue, hcoding⟩, hc⟩

theorem exists_coding_of_isChunked (hc : isChunked h = true) :
    ∃ coding ∈ codings h, SaysChunked coding := by
  obtain ⟨first, hfirst, _, hlists⟩ := isChunked_iff.mp hc
  exact exists_coding_iff.mpr ⟨first, List.mem_of_head? hfirst, hlists⟩

theorem detects_of_first
    (hfirst : ∀ value ∈ h.getAll (ascii "transfer-encoding"), Lists value (ascii "chunked") →
      ∃ first, (h.getAll (ascii "transfer-encoding")).head? = some first ∧
        toStrOk first = true ∧ Lists first (ascii "chunked")) : DetectsCodings h := by
  have hexact : (∃ coding ∈ codings h, SaysChunked coding) → isChunked h = true := by
    intro hc
    obtain ⟨value, hvalue, hlists⟩ := exists_coding_iff.mp hc
    exact isChunked_iff.mpr (hfirst value hvalue hlists)
  refine ⟨⟨exists_coding_of_isChunked, hexact⟩, fun hno coding hmem hc => ?_⟩
  have hyes := hexact ⟨coding, hmem, hc⟩
  rw [hno] at hyes
  cases hyes

/-- where the check of `forward_engine` passes, every line lists `chunked` and can be read -/
theorem detects_of_checked
    (hc : checkCodings (h.getAll (ascii "transfer-encoding")) = .ok ()) : DetectsCodings h := by
  refine detects_of_first fun value hvalue hlists => ?_
  cases hall : h.getAll (ascii "transfer-encoding") with
  | nil =>
    rw [hall] at hvalue
    cases hvalue
  | cons first values =>
    have hfirst : ChunkedOnly first := by
      apply checkCodings_ok.mp hc
      rw [hall]
      exact List.mem_cons_self
    obtain ⟨coding, hcoding⟩ := List.exists_mem_of_ne_nil _ (List.splitOn_ne_nil 44 first)
    exact ⟨first, rfl, hfirst.toStrOk, coding, hcoding, hfirst coding hcoding⟩

end

/-- **Detection is exact, unless a line lists `chunked` and the first line is unreadable or does not
list it.** -/
theorem detects_codings_iff (h : HeaderMap) : DetectsCodings h ↔
    ∀ value ∈ h.getAll (ascii "transfer-encoding"), Lists value (ascii "chunked") →
      ∃ first, (h.getAll (ascii "transfer-encoding")).head? = some first ∧
        toStrOk first = true ∧ Lists first (ascii "chunked") := by
  constructor
  · intro hd value hvalue hlists
    apply isChunked_iff.mp
    exact hd.exact.mpr (exists_coding_iff.mpr ⟨value, hvalue, hlists⟩)
  · exact detects_of_first

/-- two codings on two lines -/
def twoCodings : HeaderMap where
  fields := [(ascii "transfer-encoding", ascii "gzip"),
    (ascii "transfer-encoding", ascii "chunked")]
  valid := by decide

/-- the second line is not looked at -/
theorem second_line_missed : ¬ ∀ h : HeaderMap, DetectsCodings h := by
  intro h
  have hmissed := (h twoCodings).none_missed (by decide)
  exact hmissed (ascii "chunked") (by decide) rfl

end AnvilRing
