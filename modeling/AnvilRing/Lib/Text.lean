import AnvilRing.Lib.Bytes

/-!
# Text in UTF-8: whitespace around it, hexadecimal numbers

* `trim`                 a text without the White_Space characters around it;
* `hexBelow bound`       the reader of an unsigned number in radix 16: digits of either case, a plus
                         sign before them, nothing from `bound` on;
* `Spells text n`        the text is a spelling of `n` in hexadecimal digits;
* `hexBelow_spelled`     every spelling of a number below the bound is read;
* `trim_spelled`         a spelling with spaces and tabs behind it is trimmed to the spelling.
-/

namespace Wire

/-! ## whitespace -/

/-- the characters with the property White_Space -/
def whiteSpace : List Bytes :=
  [[0x09], [0x0A], [0x0B], [0x0C], [0x0D], [0x20], [0xC2, 0x85], [0xC2, 0xA0], [0xE1, 0x9A, 0x80],
    [0xE2, 0x80, 0x80], [0xE2, 0x80, 0x81], [0xE2, 0x80, 0x82], [0xE2, 0x80, 0x83],
    [0xE2, 0x80, 0x84], [0xE2, 0x80, 0x85], [0xE2, 0x80, 0x86], [0xE2, 0x80, 0x87],
    [0xE2, 0x80, 0x88], [0xE2, 0x80, 0x89], [0xE2, 0x80, 0x8A], [0xE2, 0x80, 0xA8],
    [0xE2, 0x80, 0xA9], [0xE2, 0x80, 0xAF], [0xE2, 0x81, 0x9F], [0xE3, 0x80, 0x80]]

/-- without the leading characters that are in the list, `fuel` of them at most -/
def dropChars (chars : List Bytes) : Nat → Bytes → Bytes
  | 0, bs => bs
  | fuel + 1, bs =>
    match chars.find? fun c => c.isPrefixOf bs with
    | some c => dropChars chars fuel (bs.drop c.length)
    | none => bs

def trimStart (bs : Bytes) : Bytes := dropChars whiteSpace bs.length bs

def trimEnd (bs : Bytes) : Bytes :=
  (dropChars (whiteSpace.map List.reverse) bs.length bs.reverse).reverse

def trim (bs : Bytes) : Bytes := trimEnd (trimStart bs)

/-! ## hexadecimal numbers -/

def hexVal (b : UInt8) : Option Nat :=
  if 48 ≤ b.toNat ∧ b.toNat ≤ 57 then some (b.toNat - 48)
  else if 65 ≤ b.toNat ∧ b.toNat ≤ 70 then some (b.toNat - 55)
  else if 97 ≤ b.toNat ∧ b.toNat ≤ 102 then some (b.toNat - 87)
  else none

/-- one more digit on the value read so far; nothing from `bound` on -/
def pushHex (bound acc : Nat) (b : UInt8) : Option Nat := do
  let d ← hexVal b
  if acc * 16 + d < bound then some (acc * 16 + d) else none

/-- the text without a plus sign in front of it; a sign alone is left -/
def dropPlus : Bytes → Bytes
  | 43 :: b :: bs => b :: bs
  | bs => bs

def hexBelow (bound : Nat) (bs : Bytes) : Option Nat :=
  if bs = [] then none else (dropPlus bs).foldlM (pushHex bound) 0

/-- the text spells `n`: digits of either case, zeros in front as they may be -/
def Spells (text : Bytes) (n : Nat) : Prop :=
  text ≠ [] ∧ ∃ ds : List Nat, text.map hexVal = ds.map some ∧ Nat.ofDigits 16 ds.reverse = n

section
variable {text ws : Bytes} {n bound : Nat} {b : UInt8}

theorem hexVal_space (h : b.toNat = 32 ∨ b.toNat = 9 ∨ b.toNat = 43) : hexVal b = none := by
  rcases h with h | h | h <;> simp [hexVal, h]

theorem hexVal_bounds (h : hexVal b ≠ none) : 48 ≤ b.toNat ∧ b.toNat ≤ 102 := by
  unfold hexVal at h
  split at h
  · omega
  · split at h
    · omega
    · split at h
      · omega
      · exact absurd rfl h

/-- what is spelled is made of digits -/
theorem Spells.digits (h : Spells text n) : ∀ b ∈ text, hexVal b ≠ none := by
  obtain ⟨_, ds, hds, _⟩ := h
  intro b hb he
  have hm : hexVal b ∈ ds.map some := by
    rw [← hds]
    exact List.mem_map_of_mem hb
  obtain ⟨d, _, hd⟩ := List.mem_map.mp hm
  rw [he] at hd
  cases hd

/-- the digits are read while their value stays below the bound -/
theorem foldlM_pushHex {ds : List Nat} (hds : text.map hexVal = ds.map some)
    (hb : Nat.ofDigits 16 ds.reverse < bound) :
    text.foldlM (pushHex bound) 0 = some (Nat.ofDigits 16 ds.reverse) := by
  induction text using List.reverseRecOn generalizing ds with
  | nil =>
    obtain rfl := List.map_eq_nil_iff.mp hds.symm
    rfl
  | append_singleton text b ih =>
    rw [List.map_append, List.map_singleton] at hds
    obtain ⟨front, last, rfl, hfront, hlast⟩ := List.map_eq_append_iff.mp hds.symm
    obtain ⟨d, rfl, hd⟩ := List.map_eq_singleton_iff.mp hlast
    rw [List.reverse_append, List.reverse_singleton, List.singleton_append,
      Nat.ofDigits_cons] at hb ⊢
    have hval : Nat.ofDigits 16 front.reverse * 16 + d
        = d + 16 * Nat.ofDigits 16 front.reverse := by ring
    rw [List.foldlM_append, ih hfront.symm (by omega)]
    show (pushHex bound (Nat.ofDigits 16 front.reverse) b >>= pure) = _
    rw [pushHex, ← hd]
    show ((if _ then _ else _) >>= pure) = _
    rw [hval, if_pos hb]
    rfl

/-- what is read are digits, and their value is below the bound -/
theorem spells_of_foldlM (hne : text ≠ []) (h : text.foldlM (pushHex bound) 0 = some n) :
    Spells text n ∧ n < bound := by
  induction text using List.reverseRecOn generalizing n with
  | nil => exact absurd rfl hne
  | append_singleton text b ih =>
    rw [List.foldlM_append] at h
    obtain ⟨acc, hacc, h⟩ := Option.bind_eq_some_iff.mp h
    rw [List.foldlM_cons] at h
    obtain ⟨m, hm, h⟩ := Option.bind_eq_some_iff.mp h
    obtain rfl := Option.some.inj h
    obtain ⟨d, hd, hm⟩ := Option.bind_eq_some_iff.mp hm
    -- the digits before this one, if there are any
    obtain ⟨ds, hds, hval⟩ : ∃ ds : List Nat, text.map hexVal = ds.map some ∧
        Nat.ofDigits 16 ds.reverse = acc := by
      cases text with
      | nil => exact ⟨[], rfl, Option.some.inj hacc⟩
      | cons a text =>
        obtain ⟨⟨_, ds, hds, hval⟩, _⟩ := ih (List.cons_ne_nil a text) hacc
        exact ⟨ds, hds, hval⟩
    split at hm
    · next hlt =>
      obtain rfl := Option.some.inj hm
      refine ⟨⟨hne, ds ++ [d], ?_, ?_⟩, hlt⟩
      · rw [List.map_append, List.map_append, hds, List.map_singleton, List.map_singleton, hd]
      · rw [List.reverse_append, List.reverse_singleton, List.singleton_append, Nat.ofDigits_cons,
          hval]
        ring
    · cases hm

/-- the text is made of digits -/
def isHexText (text : Bytes) : Bool := text != [] && text.all fun b => (hexVal b).isSome

/-- the value of digits in radix 16 -/
def hexNum (text : Bytes) : Nat := Nat.ofDigits 16 (text.map fun b => (hexVal b).getD 0).reverse

theorem spells_iff : Spells text n ↔ isHexText text = true ∧ hexNum text = n := by
  rw [isHexText, Bool.and_eq_true, bne_iff_ne, List.all_eq_true]
  constructor
  · intro h
    have hdigits := h.digits
    obtain ⟨hne, ds, hds, hval⟩ := h
    have hmap : (text.map fun b => (hexVal b).getD 0) = ds := by
      have hget := congrArg (List.map fun o : Option Nat => o.getD 0) hds
      rw [List.map_map, List.map_map] at hget
      exact hget.trans (List.map_id ds)
    refine ⟨⟨hne, fun b hb => Option.isSome_iff_ne_none.mpr (hdigits b hb)⟩, ?_⟩
    rw [hexNum, hmap, hval]
  · intro ⟨⟨hne, hall⟩, hval⟩
    refine ⟨hne, _, ?_, hval⟩
    rw [List.map_map]
    apply List.map_congr_left
    intro b hb
    obtain ⟨d, hd⟩ := Option.isSome_iff_exists.mp (hall b hb)
    simp [hd]

theorem hexBelow_spelled (h : Spells text n) (hn : n < bound) : hexBelow bound text = some n := by
  have hplus : dropPlus text = text := by
    unfold dropPlus
    split
    · have hd := h.digits 43 List.mem_cons_self
      exact absurd (hexVal_space (.inr (.inr rfl))) hd
    · rfl
  obtain ⟨hne, ds, hds, rfl⟩ := h
  rw [hexBelow, if_neg hne, hplus, foldlM_pushHex hds hn]

theorem dropPlus_cases (text : Bytes) :
    dropPlus text = text ∨ text = 43 :: dropPlus text ∧ dropPlus text ≠ [] := by
  unfold dropPlus
  split
  · exact .inr ⟨rfl, List.cons_ne_nil _ _⟩
  · exact .inl rfl

theorem hexBelow_plus (h : Spells text n) (hn : n < bound) :
    hexBelow bound (43 :: text) = some n := by
  obtain ⟨b, rest, rfl⟩ := List.exists_cons_of_ne_nil h.1
  obtain ⟨hne, ds, hds, rfl⟩ := h
  rw [hexBelow, if_neg (List.cons_ne_nil _ _)]
  exact foldlM_pushHex hds hn

/-- **what the reader takes**: digits with a value below the bound, or a plus sign and these -/
theorem hexBelow_some_iff : hexBelow bound text = some n ↔
    n < bound ∧ (Spells text n ∨ ∃ ds, text = 43 :: ds ∧ Spells ds n) := by
  constructor
  · intro h
    unfold hexBelow at h
    split at h
    · cases h
    · next hne =>
      rcases dropPlus_cases text with hdrop | ⟨htext, hdne⟩
      · rw [hdrop] at h
        obtain ⟨hs, hn⟩ := spells_of_foldlM hne h
        exact ⟨hn, .inl hs⟩
      · obtain ⟨hs, hn⟩ := spells_of_foldlM hdne h
        exact ⟨hn, .inr ⟨_, htext, hs⟩⟩
  · intro ⟨hn, h⟩
    rcases h with hs | ⟨ds, rfl, hs⟩
    · exact hexBelow_spelled hs hn
    · exact hexBelow_plus hs hn

/-! ## trimming -/

/-- a text put together from characters of the list -/
def MadeOf (chars : List Bytes) (text : Bytes) : Prop :=
  ∃ cs : List Bytes, (∀ c ∈ cs, c ∈ chars) ∧ text = cs.flatten

/-- no character of the list is empty or begins with the byte -/
def Apart (chars : List Bytes) (b : UInt8) : Prop := ∀ c ∈ chars, c ≠ [] ∧ c.head? ≠ some b

instance (chars : List Bytes) (b : UInt8) : Decidable (Apart chars b) :=
  inferInstanceAs (Decidable (∀ c ∈ chars, _ ∧ _))

/-- no character of the list begins another one -/
def PrefixFree (chars : List Bytes) : Prop := ∀ c ∈ chars, ∀ c' ∈ chars, c <+: c' → c = c'

instance (chars : List Bytes) : Decidable (PrefixFree chars) :=
  inferInstanceAs (Decidable (∀ c ∈ chars, ∀ c' ∈ chars, _ → _))

theorem prefixFree_whiteSpace : PrefixFree whiteSpace := by decide

theorem prefixFree_reversed : PrefixFree (whiteSpace.map List.reverse) := by decide

section
variable {chars : List Bytes} {front : Bytes}

theorem madeOf_nil : MadeOf chars [] := ⟨[], fun c hc => (by cases hc), rfl⟩

theorem MadeOf.reverse (h : MadeOf chars front) :
    MadeOf (chars.map List.reverse) front.reverse := by
  obtain ⟨cs, hcs, rfl⟩ := h
  refine ⟨(cs.map List.reverse).reverse, fun c hc => ?_, List.reverse_flatten⟩
  obtain ⟨c, hmem, rfl⟩ := List.mem_map.mp (List.mem_reverse.mp hc)
  exact List.mem_map_of_mem (hcs c hmem)

/-- what is dropped is made of the characters -/
theorem dropChars_split (chars : List Bytes) (fuel : Nat) (bs : Bytes) :
    ∃ front, MadeOf chars front ∧ bs = front ++ dropChars chars fuel bs := by
  induction fuel generalizing bs with
  | zero => exact ⟨[], madeOf_nil, rfl⟩
  | succ fuel ih =>
    unfold dropChars
    split
    · next c hfind =>
      obtain ⟨front, ⟨cs, hcs, rfl⟩, hsplit⟩ := ih (bs.drop c.length)
      have hfound := List.find?_some (p := fun c : Bytes => c.isPrefixOf bs) hfind
      have hc : c <+: bs := List.isPrefixOf_iff_prefix.mp hfound
      refine ⟨c ++ cs.flatten, ⟨c :: cs, ?_, rfl⟩, ?_⟩
      · exact List.forall_mem_cons.mpr ⟨List.mem_of_find?_eq_some hfind, hcs⟩
      · rw [List.append_assoc, ← hsplit]
        exact List.prefix_iff_eq_append.mp hc |>.symm
    · exact ⟨[], madeOf_nil, rfl⟩

theorem dropChars_apart (hb : Apart chars b) (fuel : Nat) (bs : Bytes) :
    dropChars chars fuel (b :: bs) = b :: bs := by
  have hnone : (chars.find? fun c => c.isPrefixOf (b :: bs)) = none := by
    apply List.find?_eq_none.mpr
    intro c hc hp
    obtain ⟨hne, hhead⟩ := hb c hc
    cases c with
    | nil => exact hne rfl
    | cons a c =>
      obtain ⟨rfl, _⟩ := List.cons_prefix_cons.mp (List.isPrefixOf_iff_prefix.mp hp)
      exact hhead rfl
  cases fuel with
  | zero => rfl
  | succ fuel =>
    unfold dropChars
    rw [hnone]

/-- all characters in front of another byte are dropped -/
theorem dropChars_madeOf (hfree : PrefixFree chars) (hb : Apart chars b)
    (hfront : MadeOf chars front) (bs : Bytes) {fuel : Nat} (hfuel : front.length ≤ fuel) :
    dropChars chars fuel (front ++ b :: bs) = b :: bs := by
  obtain ⟨cs, hcs, rfl⟩ := hfront
  induction cs generalizing fuel with
  | nil => exact dropChars_apart hb fuel bs
  | cons c cs ih =>
    obtain ⟨hc, hcs⟩ := List.forall_mem_cons.mp hcs
    have hpos : 0 < c.length := List.length_pos_iff.mpr (hb c hc).1
    rw [List.flatten_cons, List.length_append] at hfuel
    rw [List.flatten_cons, List.append_assoc]
    -- the first character of the list that the text begins with is the one that it begins with
    have hpre : c <+: c ++ (cs.flatten ++ b :: bs) := List.prefix_append _ _
    have hfind : (chars.find? fun c' => c'.isPrefixOf (c ++ (cs.flatten ++ b :: bs))) = some c := by
      cases hf : chars.find? fun c' => c'.isPrefixOf (c ++ (cs.flatten ++ b :: bs)) with
      | none =>
        have hno := List.find?_eq_none.mp hf c hc
        exact absurd (List.isPrefixOf_iff_prefix.mpr hpre) hno
      | some c' =>
        have hmem := List.mem_of_find?_eq_some hf
        have hfound := List.find?_some
          (p := fun c' : Bytes => c'.isPrefixOf (c ++ (cs.flatten ++ b :: bs))) hf
        have hpre' := List.isPrefixOf_iff_prefix.mp hfound
        rcases List.prefix_or_prefix_of_prefix hpre hpre' with hp | hp
        · rw [hfree c hc c' hmem hp]
        · rw [hfree c' hmem c hc hp]
    cases fuel with
    | zero => omega
    | succ fuel =>
      unfold dropChars
      rw [hfind]
      simp only [List.drop_left]
      exact ih hcs (by omega)

end

/-- a text with neither end in a White_Space character -/
def Firm (text : Bytes) : Prop :=
  (∃ b rest, text = b :: rest ∧ Apart whiteSpace b) ∧
    ∃ rest b, text = rest ++ [b] ∧ Apart (whiteSpace.map List.reverse) b

/-- whitespace is well-formed text -/
theorem utf8Valid_madeOf {text : Bytes} (h : MadeOf whiteSpace text) : utf8Valid text = true := by
  obtain ⟨cs, hcs, rfl⟩ := h
  have hvalid : ∀ c ∈ whiteSpace, utf8Valid c = true := by decide
  induction cs with
  | nil => rfl
  | cons c cs ih =>
    obtain ⟨hc, hcs⟩ := List.forall_mem_cons.mp hcs
    rw [List.flatten_cons, utf8Valid_append (hvalid c hc)]
    exact ih hcs

/-- what `trim` takes away -/
theorem trim_split (bs : Bytes) : ∃ front back, MadeOf whiteSpace front ∧ MadeOf whiteSpace back ∧
    bs = front ++ trim bs ++ back := by
  obtain ⟨front, hfront, hsplit⟩ := dropChars_split whiteSpace bs.length bs
  obtain ⟨back, hback, hend⟩ := dropChars_split (whiteSpace.map List.reverse)
    (trimStart bs).length (trimStart bs).reverse
  have hrev : (whiteSpace.map List.reverse).map List.reverse = whiteSpace := by decide
  have hmade := hback.reverse
  rw [hrev] at hmade
  refine ⟨front, back.reverse, hfront, hmade, ?_⟩
  have hstart := congrArg List.reverse hend
  rw [List.reverse_reverse, List.reverse_append] at hstart
  conv => lhs; rw [hsplit]
  rw [List.append_assoc]
  exact congrArg (front ++ ·) hstart

theorem trim_madeOf {front back : Bytes} (h : Firm text) (hfront : MadeOf whiteSpace front)
    (hback : MadeOf whiteSpace back) : trim (front ++ text ++ back) = text := by
  obtain ⟨⟨b, rest, hb, hapart⟩, rest', l, hl, hapart'⟩ := h
  have hstart : trimStart (front ++ text ++ back) = text ++ back := by
    rw [trimStart, List.append_assoc, hb]
    refine dropChars_madeOf prefixFree_whiteSpace hapart hfront _ ?_
    rw [List.length_append]
    exact Nat.le_add_right _ _
  have hend : dropChars (whiteSpace.map List.reverse) (text ++ back).length
      (back.reverse ++ l :: rest'.reverse) = l :: rest'.reverse := by
    refine dropChars_madeOf prefixFree_reversed hapart' hback.reverse _ ?_
    rw [List.length_reverse, List.length_append]
    exact Nat.le_add_left _ _
  rw [trim, hstart, trimEnd, List.reverse_append]
  rw [hl] at hend ⊢
  rw [List.reverse_append, List.reverse_singleton, List.singleton_append, hend, List.reverse_cons,
    List.reverse_reverse]

/-! ## trimming a number -/

/-- no character of the list begins with a digit -/
def NoDigits (chars : List Bytes) : Prop := ∀ c ∈ chars, c ≠ [] ∧ c.head?.bind hexVal = none

theorem noDigits_whiteSpace : NoDigits whiteSpace := by
  unfold NoDigits
  decide

theorem noDigits_reversed : NoDigits (whiteSpace.map List.reverse) := by
  unfold NoDigits
  decide

theorem NoDigits.apart {chars : List Bytes} (h : NoDigits chars) (hb : hexVal b ≠ none) :
    Apart chars b := by
  intro c hc
  obtain ⟨hne, hhead⟩ := h c hc
  refine ⟨hne, fun he => ?_⟩
  rw [he] at hhead
  exact hb hhead

/-- a number is no whitespace at either end -/
theorem Spells.firm (h : Spells text n) : Firm text := by
  have hd := h.digits
  obtain ⟨b, rest, hb⟩ := List.exists_cons_of_ne_nil h.1
  obtain ⟨front, last, hl⟩ := (List.eq_nil_or_concat' text).resolve_left h.1
  refine ⟨⟨b, rest, hb, noDigits_whiteSpace.apart (hd b ?_)⟩, front, last, hl,
    noDigits_reversed.apart (hd last ?_)⟩
  · rw [hb]
    exact List.mem_cons_self
  · rw [hl]
    exact List.mem_append_right _ (List.mem_singleton_self last)

/-- nor is one behind a plus sign -/
theorem Spells.firm_plus (h : Spells text n) : Firm (43 :: text) := by
  obtain ⟨_, front, last, rfl, hlast⟩ := h.firm
  exact ⟨⟨43, _, rfl, by decide⟩, 43 :: front, last, rfl, hlast⟩

/-- spaces and tabs are characters of whitespace -/
theorem madeOf_blanks (h : ∀ b ∈ ws, b = 32 ∨ b = 9) : MadeOf whiteSpace ws := by
  refine ⟨ws.map fun b => [b], fun c hc => ?_, ?_⟩
  · obtain ⟨b, hb, rfl⟩ := List.mem_map.mp hc
    rcases h b hb with rfl | rfl
    · decide
    · decide
  · rw [← List.flatMap_def, List.flatMap_singleton']

theorem trim_spelled (h : Spells text n) (hws : ∀ a ∈ ws, a = 32 ∨ a = 9) :
    trim (text ++ ws) = text :=
  trim_madeOf h.firm madeOf_nil (madeOf_blanks hws)

end

end Wire
