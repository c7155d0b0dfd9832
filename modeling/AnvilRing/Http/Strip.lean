import AnvilRing.Http.Headers

/-!
# What stripping a header map comes to

`strip_hop_by_hop` removes the fixed names and the names that Connection lists, as far as it can
read them: a Connection value with a byte above ASCII is passed over.

* `NamedBy`                  a Connection value of the map names the field;
* `mem_conditional`          the names that the code collects;
* `strip_exact_iff`          when stripping leaves no field that Connection names;
* `foldl_stripName_sum`      the values that are left and the number that is returned;
* `strip_count_iff`          when that number is the number of the values that are gone.
-/

namespace AnvilRing
open Wire

/-- `name` is a token of the value, but for case and the whitespace around it -/
def Lists (value name : Bytes) : Prop :=
  ∃ token ∈ value.splitOn 44, eqIgnoreAsciiCase (trimOws token) name = true

/-- a Connection value of the map lists the name -/
def NamedBy (h : HeaderMap) (name : Bytes) : Prop :=
  ∃ value ∈ h.getAll (ascii "connection"), Lists value name

/-- one that `to_str` reads does -/
def ReadablyNamedBy (h : HeaderMap) (name : Bytes) : Prop :=
  ∃ value ∈ h.getAll (ascii "connection"), toStrOk value = true ∧ Lists value name

instance (value name : Bytes) : Decidable (Lists value name) :=
  inferInstanceAs (Decidable (∃ token ∈ _, _ = true))

instance (h : HeaderMap) (name : Bytes) : Decidable (NamedBy h name) :=
  inferInstanceAs (Decidable (∃ value ∈ _, _))

instance (h : HeaderMap) (name : Bytes) : Decidable (ReadablyNamedBy h name) :=
  inferInstanceAs (Decidable (∃ value ∈ _, _ ∧ _))

section
variable {h : HeaderMap} {name : Bytes}

theorem ReadablyNamedBy.named (hr : ReadablyNamedBy h name) : NamedBy h name := by
  obtain ⟨value, hv, _, hl⟩ := hr
  exact ⟨value, hv, hl⟩

/-- a legal name is what a token comes to if it is the token's lower case -/
theorem lists_iff {value : Bytes} (hn : isHeaderName name = true) :
    Lists value name ↔ ∃ token ∈ value.splitOn 44, (trimOws token).map asciiLower = name := by
  unfold Lists eqIgnoreAsciiCase
  simp only [map_asciiLower hn, beq_iff_eq]

theorem ne_nil_of_isHeaderName (hn : isHeaderName name = true) : name ≠ [] := by
  rintro rfl
  exact absurd hn (by decide)

/-- the names that the code collects are those that a readable value lists -/
theorem mem_conditional (hn : isHeaderName name = true) :
    name ∈ conditional h ↔ ReadablyNamedBy h name := by
  have hne := ne_nil_of_isHeaderName hn
  unfold conditional ReadablyNamedBy
  simp only [List.mem_dedup, List.mem_filter, List.mem_flatMap, List.mem_map, bne_iff_ne,
    lists_iff hn]
  constructor
  · intro hx
    obtain ⟨⟨value, ⟨hv, hread⟩, token, htoken, he⟩, _⟩ := hx
    exact ⟨value, hv, hread, token, htoken, he⟩
  · intro hx
    obtain ⟨value, hv, hread, token, htoken, he⟩ := hx
    exact ⟨⟨value, ⟨hv, hread⟩, token, htoken, he⟩, hne⟩

theorem mem_strippedNames (hn : isHeaderName name = true) :
    name ∈ strippedNames h ↔ name ∈ alwaysStrip ∨ ReadablyNamedBy h name := by
  rw [strippedNames, List.mem_append, List.mem_filter, mem_conditional hn, and_iff_left hn]

/-- the values under a name that is not stripped stay, in order -/
theorem getAll_strip_of_not_mem (hn : name ∉ strippedNames h) :
    (stripHopByHop h).2.getAll name = h.getAll name := by
  unfold HeaderMap.getAll valuesOf
  rw [strip_fields, List.filter_filter]
  congr 1
  apply List.filter_congr
  intro f _
  by_cases he : f.1 = name
  · simp [he, hn]
  · simp [he]

end

/-- stripping `h` is exact: none of the fixed names and none that Connection listed is left, every
other field keeps its values in order, and stripping again changes nothing -/
structure StripsExactly (h : HeaderMap) : Prop where
  fixed : ∀ f ∈ (stripHopByHop h).2.fields, f.1 ∉ alwaysStrip
  named : ∀ f ∈ (stripHopByHop h).2.fields, ¬ NamedBy h f.1
  kept : ∀ name, name ∉ alwaysStrip → ¬ NamedBy h name →
    (stripHopByHop h).2.getAll name = h.getAll name
  again : (stripHopByHop (stripHopByHop h).2).2 = (stripHopByHop h).2

/-- **Stripping is exact, unless a field is listed only by Connection values with a byte above
ASCII.** -/
theorem strip_exact_iff (h : HeaderMap) : StripsExactly h ↔
    ∀ f ∈ h.fields, NamedBy h f.1 → f.1 ∈ alwaysStrip ∨ ReadablyNamedBy h f.1 := by
  constructor
  · intro hs f hf hnamed
    rw [← mem_strippedNames (h.valid f hf).1]
    by_contra hkept
    exact hs.named f (mem_strip.mpr ⟨hf, hkept⟩) hnamed
  · intro hread
    refine ⟨fun _ hf => strip_disjoint hf, ?_, ?_, strip_strip h⟩
    · intro f hf hnamed
      obtain ⟨hmem, hkept⟩ := mem_strip.mp hf
      exact hkept ((mem_strippedNames (h.valid f hmem).1).mpr (hread f hmem hnamed))
    · intro name hfixed hnamed
      by_cases hx : h.getAll name = []
      · -- a name without values has none after stripping either
        rw [hx, HeaderMap.getAll, valuesOf_eq_nil_iff]
        intro f hf
        exact valuesOf_eq_nil_iff.mp hx f (mem_strip.mp hf).1
      · obtain ⟨f, hf, rfl⟩ : ∃ f ∈ h.fields, f.1 = name := by
          by_contra hno
          exact hx (valuesOf_eq_nil_iff.mpr fun f hf he => hno ⟨f, hf, he⟩)
        apply getAll_strip_of_not_mem
        rw [mem_strippedNames (h.valid f hf).1]
        intro hs
        exact hs.elim hfixed fun hr => hnamed hr.named

/-- a Connection value that lists a private field, and ends in a byte above ASCII -/
def unreadableConnection : HeaderMap where
  fields := [(ascii "connection", ascii "x-private, caf" ++ [0xE9]), (ascii "x-private", ascii "p")]
  valid := by decide

/-- the private field is passed on -/
theorem unreadable_connection_leaks :
    (stripHopByHop unreadableConnection).2.fields = [(ascii "x-private", ascii "p")] ∧
      ¬ StripsExactly unreadableConnection := by
  have hleft : (stripHopByHop unreadableConnection).2.fields
      = [(ascii "x-private", ascii "p")] := by
    decide
  refine ⟨hleft, fun hs => ?_⟩
  have hmem : (ascii "x-private", ascii "p") ∈ (stripHopByHop unreadableConnection).2.fields := by
    rw [hleft]
    exact List.mem_cons_self
  exact hs.named _ hmem (by decide)

/-! ## the number that is returned -/

/-- `strip_hop_by_hop` when its set hands out the collected names in this order -/
def stripInOrder (h : HeaderMap) (order : List Bytes) : Nat × HeaderMap :=
  (order.filter isHeaderName).foldl stripName (alwaysStrip.foldl stripName (0, h))

/-- the number is that of the values which are gone -/
def CountsRemoved (h : HeaderMap) (out : Nat × HeaderMap) : Prop :=
  out.1 + out.2.fields.length = h.fields.length

section
variable {h : HeaderMap} {acc : Nat × HeaderMap} {name : Bytes}

theorem length_remove (h : HeaderMap) (name : Bytes) :
    (h.remove name).2.fields.length + (h.getAll name).length = h.fields.length := by
  have hsplit := List.length_eq_length_filter_add (l := h.fields) fun f => f.1 != name
  simp only [bne, Bool.not_not] at hsplit
  show (h.fields.filter fun f => f.1 != name).length + (List.map _ _).length = _
  rw [List.length_map]
  exact hsplit.symm

/-- `remove` yields one value of those that go -/
theorem stripName_fst (acc : Nat × HeaderMap) (name : Bytes) :
    (stripName acc name).1 = acc.1 + min 1 (acc.2.getAll name).length := by
  show acc.1 + (acc.2.getAll name).head?.toList.length = _
  cases acc.2.getAll name with
  | nil => rfl
  | cons value values =>
    rw [List.length_cons, Nat.min_eq_left (Nat.le_add_left 1 _)]
    rfl

theorem getAll_stripName (acc : Nat × HeaderMap) (name other : Bytes) :
    (stripName acc name).2.getAll other = if other = name then [] else acc.2.getAll other :=
  HeaderMap.getAll_remove acc.2

/-- one name: the sum falls by the values that the count passes over -/
theorem stripName_sum (acc : Nat × HeaderMap) (name : Bytes) :
    (stripName acc name).1 + (stripName acc name).2.fields.length +
      ((acc.2.getAll name).length - 1) = acc.1 + acc.2.fields.length := by
  have hlen : (stripName acc name).2.fields.length + (acc.2.getAll name).length =
      acc.2.fields.length := length_remove acc.2 name
  rw [stripName_fst]
  omega

/-- the loops never count too much, and they count all if no name had a second value -/
theorem foldl_stripName_sum (names : List Bytes) (acc : Nat × HeaderMap) :
    (names.foldl stripName acc).1 + (names.foldl stripName acc).2.fields.length ≤
        acc.1 + acc.2.fields.length ∧
      ((names.foldl stripName acc).1 + (names.foldl stripName acc).2.fields.length =
        acc.1 + acc.2.fields.length ↔ ∀ name ∈ names, (acc.2.getAll name).length ≤ 1) := by
  induction names generalizing acc with
  | nil => simp
  | cons n names ih =>
    obtain ⟨hle, hiff⟩ := ih (stripName acc n)
    have hsum := stripName_sum acc n
    -- a name that comes again has no value left
    have hrest : (acc.2.getAll n).length ≤ 1 →
        ((∀ name ∈ names, ((stripName acc n).2.getAll name).length ≤ 1) ↔
          ∀ name ∈ names, (acc.2.getAll name).length ≤ 1) := by
      intro hn
      refine forall₂_congr fun name _ => ?_
      rw [getAll_stripName]
      by_cases he : name = n
      · rw [if_pos he, he]
        exact ⟨fun _ => hn, fun _ => Nat.zero_le 1⟩
      · rw [if_neg he]
    rw [List.foldl_cons, List.forall_mem_cons]
    refine ⟨by omega, fun heq => ?_, fun ⟨hn, hnames⟩ => ?_⟩
    · have hn : (acc.2.getAll n).length ≤ 1 := by omega
      exact ⟨hn, (hrest hn).mp (hiff.mp (by omega))⟩
    · have hall := hiff.mpr ((hrest hn).mpr hnames)
      omega

theorem stripName_comm (acc : Nat × HeaderMap) (a b : Bytes) :
    stripName (stripName acc a) b = stripName (stripName acc b) a := by
  by_cases hab : a = b
  · rw [hab]
  · refine Prod.ext ?_ (HeaderMap.ext ?_)
    · rw [stripName_fst, stripName_fst, stripName_fst, stripName_fst, getAll_stripName,
        getAll_stripName, if_neg hab, if_neg (Ne.symm hab), Nat.add_right_comm]
    · show ((acc.2.fields.filter _).filter _) = ((acc.2.fields.filter _).filter _)
      rw [List.filter_filter, List.filter_filter]
      exact List.filter_congr fun f _ => Bool.and_comm _ _

/-- the order in which the set hands out its names changes nothing -/
theorem stripInOrder_eq {order : List Bytes} (hp : order.Perm (conditional h)) :
    stripInOrder h order = stripHopByHop h :=
  (hp.filter isHeaderName).foldl_eq' (fun a _ b _ acc => stripName_comm acc a b) _

end

/-- **The number is that of the values removed, unless a name that is removed had several values**,
whatever the order in which the set hands out its names -/
theorem strip_count_iff (h : HeaderMap) :
    (∀ order : List Bytes, order.Perm (conditional h) → CountsRemoved h (stripInOrder h order)) ↔
      ∀ name ∈ strippedNames h, (h.getAll name).length ≤ 1 := by
  have hfold : stripHopByHop h = (strippedNames h).foldl stripName (0, h) :=
    (List.foldl_append ..).symm
  have hcount : CountsRemoved h (stripHopByHop h) ↔
      ∀ name ∈ strippedNames h, (h.getAll name).length ≤ 1 := by
    have hsum := (foldl_stripName_sum (strippedNames h) (0, h)).2
    rw [← hfold, Nat.zero_add] at hsum
    exact hsum
  rw [← hcount]
  constructor
  · intro hall
    exact hall (conditional h) (List.Perm.refl _)
  · intro hc order hp
    rw [stripInOrder_eq hp]
    exact hc

/-- two Connection values -/
def twoConnections : HeaderMap where
  fields := [(ascii "connection", ascii "close"), (ascii "connection", ascii "keep-alive")]
  valid := by decide

/-- both are removed, one is counted -/
theorem two_connections_miscounted : ¬ ∀ (h : HeaderMap) (order : List Bytes),
    order.Perm (conditional h) → CountsRemoved h (stripInOrder h order) := by
  intro h
  have hcount := h twoConnections _ (List.Perm.refl _)
  unfold CountsRemoved at hcount
  exact absurd hcount (by decide)

end AnvilRing
