import Mathlib.Data.Nat.Digits.Lemmas
import Mathlib.Tactic.Ring

/-!
# Byte strings: big-endian words, decimal text, UTF-8

Facts about byte strings that a wire codec rests on, for any width and any bound:

* `ascii`, `eqIgnoreAsciiCase`   ASCII text, and its comparison without case;
* `toBe w n`, `ofBe`      the `w` low bytes of `n`, most significant first, and back (`ofBe_toBe`,
                          `toBe_ofBe`);
* `decimal n`             the ASCII decimal text of `n` (no leading zero, `0` is `"0"`);
* `digitsBelow bound`     the reader of a digit string that refuses at the first prefix whose value
                          reaches `bound`; `digitsBelow_decimal` reads a decimal text back, and
                          `eq_decimal` says which strings are one;
* `utf8Valid`             well-formed UTF-8; ASCII text is (`utf8Valid_of_ascii`).
-/

namespace Wire

abbrev Bytes := List UInt8

/-! ## ASCII -/

/-- the bytes of an ASCII text -/
def ascii (s : String) : Bytes := s.toList.map fun c => UInt8.ofNat c.toNat

def asciiLower (b : UInt8) : UInt8 := if 65 ≤ b.toNat ∧ b.toNat ≤ 90 then b + 32 else b

def eqIgnoreAsciiCase (a b : Bytes) : Bool := a.map asciiLower == b.map asciiLower

/-! ## big-endian words -/

def toBe : Nat → Nat → Bytes
  | 0, _ => []
  | w + 1, n => toBe w (n / 256) ++ [UInt8.ofNat n]

def ofBe (bs : Bytes) : Nat := bs.foldl (fun acc b => acc * 256 + b.toNat) 0

@[simp] theorem length_toBe (w n : Nat) : (toBe w n).length = w := by
  induction w generalizing n with
  | zero => rfl
  | succ w ih => simp [toBe, ih]

theorem ofBe_snoc (bs : Bytes) (b : UInt8) : ofBe (bs ++ [b]) = ofBe bs * 256 + b.toNat := by
  simp [ofBe, List.foldl_append]

/-- the word read back is the number written, cut to the width -/
theorem ofBe_toBe (w n : Nat) : ofBe (toBe w n) = n % 256 ^ w := by
  induction w generalizing n with
  | zero => simp [toBe, ofBe, Nat.mod_one]
  | succ w ih =>
    have hb : (UInt8.ofNat n).toNat = n % 256 := by simp
    rw [toBe, ofBe_snoc, ih, hb, pow_succ, Nat.mul_comm (256 ^ w) 256, Nat.mod_mul]
    ring

theorem ofBe_toBe_of_lt {w n : Nat} (h : n < 256 ^ w) : ofBe (toBe w n) = n := by
  rw [ofBe_toBe, Nat.mod_eq_of_lt h]

/-- a word is written back as the bytes that it was read from -/
theorem toBe_ofBe (bs : Bytes) : toBe bs.length (ofBe bs) = bs := by
  induction bs using List.reverseRecOn with
  | nil => rfl
  | append_singleton bs b ih =>
    have hb : b.toNat < 256 := b.toNat_lt
    have hdiv : (ofBe bs * 256 + b.toNat) / 256 = ofBe bs := by omega
    have hmod : UInt8.ofNat (ofBe bs * 256 + b.toNat) = b := by
      apply UInt8.toNat_inj.mp
      rw [UInt8.toNat_ofNat']
      omega
    rw [List.length_append, List.length_singleton, ofBe_snoc, toBe, hdiv, hmod, ih]

theorem ofBe_lt (bs : Bytes) : ofBe bs < 256 ^ bs.length := by
  induction bs using List.reverseRecOn with
  | nil => exact Nat.one_pos
  | append_singleton bs b ih =>
    have hb : b.toNat < 256 := b.toNat_lt
    rw [ofBe_snoc, List.length_append, List.length_singleton, pow_succ]
    omega

/-! ## decimal text -/

/-- the ASCII code of a decimal digit -/
def asciiDigit (d : Nat) : UInt8 := UInt8.ofNat (48 + d)

def isAsciiDigit (b : UInt8) : Bool := 48 ≤ b.toNat && b.toNat ≤ 57

def decimal (n : Nat) : Bytes :=
  if n = 0 then [asciiDigit 0] else (Nat.digits 10 n).reverse.map asciiDigit

theorem asciiDigit_toNat {d : Nat} (h : d < 10) : (asciiDigit d).toNat = 48 + d := by
  simp only [asciiDigit, UInt8.toNat_ofNat']
  omega

theorem isAsciiDigit_asciiDigit {d : Nat} (h : d < 10) : isAsciiDigit (asciiDigit d) = true := by
  simp only [isAsciiDigit, asciiDigit_toNat h, Bool.and_eq_true, decide_eq_true_eq]
  omega

/-- one more digit on the value read so far; nothing from `bound` on -/
def pushDigit (bound acc : Nat) (b : UInt8) : Option Nat :=
  if isAsciiDigit b ∧ acc * 10 + (b.toNat - 48) < bound then some (acc * 10 + (b.toNat - 48))
  else none

def digitsBelow (bound : Nat) (bs : Bytes) : Option Nat := bs.foldlM (pushDigit bound) 0

theorem pushDigit_asciiDigit {bound acc d : Nat} (hd : d < 10) (hb : acc * 10 + d < bound) :
    pushDigit bound acc (asciiDigit d) = some (acc * 10 + d) := by
  have e : 48 + d - 48 = d := by omega
  rw [pushDigit, asciiDigit_toNat hd, isAsciiDigit_asciiDigit hd, e, if_pos ⟨rfl, hb⟩]

/-- the digits of a number below the bound are read back, most significant first -/
theorem digitsBelow_digits (bound : Nat) (ds : List Nat) (hd : ∀ d ∈ ds, d < 10)
    (hb : Nat.ofDigits 10 ds < bound) :
    digitsBelow bound (ds.reverse.map asciiDigit) = some (Nat.ofDigits 10 ds) := by
  induction ds with
  | nil => rfl
  | cons d ds ih =>
    rw [Nat.ofDigits_cons] at hb ⊢
    have hlt : Nat.ofDigits 10 ds < bound := by omega
    have ih' := ih (fun e he => hd e (List.mem_cons_of_mem _ he)) hlt
    have e : d + 10 * Nat.ofDigits 10 ds = Nat.ofDigits 10 ds * 10 + d := by ring
    rw [digitsBelow] at ih'
    rw [List.reverse_cons, List.map_append, digitsBelow, List.foldlM_append, ih']
    show (pushDigit bound (Nat.ofDigits 10 ds) (asciiDigit d) >>= pure) = _
    rw [pushDigit_asciiDigit (hd d List.mem_cons_self) (by simpa [e] using hb)]
    simp [e]

theorem digitsBelow_decimal {bound n : Nat} (h : n < bound) :
    digitsBelow bound (decimal n) = some n := by
  by_cases hn : n = 0
  · subst hn
    have h0 : digitsBelow bound ([0].reverse.map asciiDigit) = some 0 :=
      digitsBelow_digits bound [0] (by simp) (by simpa using h)
    exact h0
  · have hd : ∀ d ∈ Nat.digits 10 n, d < 10 := fun d hd => Nat.digits_lt_base (by norm_num) hd
    rw [decimal, if_neg hn, digitsBelow_digits bound _ hd (by rwa [Nat.ofDigits_digits]),
      Nat.ofDigits_digits]

theorem asciiDigit_sub {b : UInt8} (h : isAsciiDigit b = true) :
    b.toNat - 48 < 10 ∧ asciiDigit (b.toNat - 48) = b := by
  simp only [isAsciiDigit, Bool.and_eq_true, decide_eq_true_eq] at h
  refine ⟨by omega, ?_⟩
  rw [asciiDigit, Nat.add_sub_cancel' h.1, UInt8.ofNat_toNat]

/-- what the reader accepts is a string of digits, and their value is read -/
theorem exists_digits {bound n : Nat} {bs : Bytes} (h : digitsBelow bound bs = some n) :
    ∃ ds, bs = ds.reverse.map asciiDigit ∧ (∀ d ∈ ds, d < 10) ∧ n = Nat.ofDigits 10 ds := by
  induction bs using List.reverseRecOn generalizing n with
  | nil =>
    obtain rfl := Option.some.inj h
    exact ⟨[], rfl, by simp, rfl⟩
  | append_singleton bs b ih =>
    rw [digitsBelow, List.foldlM_append] at h
    obtain ⟨acc, hacc, h⟩ := Option.bind_eq_some_iff.mp h
    obtain ⟨ds, hbs, hds, hval⟩ := ih hacc
    rw [List.foldlM_cons] at h
    obtain ⟨m, hm, h⟩ := Option.bind_eq_some_iff.mp h
    obtain rfl := Option.some.inj h
    unfold pushDigit at hm
    split at hm
    · next hb =>
      obtain rfl := Option.some.inj hm
      obtain ⟨hlt, hdigit⟩ := asciiDigit_sub hb.1
      refine ⟨(b.toNat - 48) :: ds, ?_, ?_, ?_⟩
      · rw [List.reverse_cons, List.map_append, ← hbs, List.map_singleton, hdigit]
      · exact List.forall_mem_cons.mpr ⟨hlt, hds⟩
      · rw [Nat.ofDigits_cons, hval]
        ring
    · cases hm

/-- the reader stays below its bound -/
theorem digitsBelow_lt {bound n : Nat} {bs : Bytes} (h : digitsBelow bound bs = some n)
    (hne : bs ≠ []) : n < bound := by
  obtain ⟨init, b, rfl⟩ := (List.eq_nil_or_concat' bs).resolve_left hne
  rw [digitsBelow, List.foldlM_append] at h
  obtain ⟨acc, _, h⟩ := Option.bind_eq_some_iff.mp h
  rw [List.foldlM_cons] at h
  obtain ⟨m, hm, h⟩ := Option.bind_eq_some_iff.mp h
  obtain rfl := Option.some.inj h
  unfold pushDigit at hm
  split at hm
  · next hb => exact Option.some.inj hm ▸ hb.2
  · cases hm

/-- a digit string without a leading zero is the decimal text of its value -/
theorem eq_decimal {bound n : Nat} {bs : Bytes} (h : digitsBelow bound bs = some n)
    (hne : bs ≠ []) (hz : bs.head? = some 48 → bs = [48]) : bs = decimal n := by
  obtain ⟨ds, rfl, hds, rfl⟩ := exists_digits h
  have hds0 : ds ≠ [] := by
    rintro rfl
    exact hne rfl
  by_cases hlast : ds.getLast hds0 = 0
  · -- the most significant digit is a zero, so it is the only one
    have hhead : (ds.reverse.map asciiDigit).head? = some 48 := by
      rw [List.head?_map, List.head?_reverse, List.getLast?_eq_some_getLast hds0, hlast]
      rfl
    have hlen := congrArg List.length (hz hhead)
    rw [List.length_map, List.length_reverse, List.length_singleton] at hlen
    obtain ⟨d, rfl⟩ := List.length_eq_one_iff.mp hlen
    obtain rfl : d = 0 := hlast
    rfl
  · have hdig : Nat.digits 10 (Nat.ofDigits 10 ds) = ds :=
      Nat.digits_ofDigits 10 (by norm_num) ds hds fun _ => hlast
    have hn : Nat.ofDigits 10 ds ≠ 0 := by
      intro h0
      rw [h0, Nat.digits_zero] at hdig
      exact hds0 hdig.symm
    rw [decimal, if_neg hn, hdig]

/-- a decimal text begins with a zero only if it is `0` -/
theorem decimal_head {n : Nat} (h : (decimal n).head? = some 48) : decimal n = [48] := by
  by_cases hn : n = 0
  · rw [hn]
    rfl
  · have hne : Nat.digits 10 n ≠ [] := Nat.digits_ne_nil_iff_ne_zero.mpr hn
    rw [decimal, if_neg hn, List.head?_map, List.head?_reverse,
      List.getLast?_eq_some_getLast hne] at h
    have hlt : (Nat.digits 10 n).getLast hne < 10 :=
      Nat.digits_lt_base (by norm_num) (List.getLast_mem hne)
    have hval := congrArg UInt8.toNat (Option.some.inj h)
    rw [asciiDigit_toNat hlt] at hval
    exact absurd (show (Nat.digits 10 n).getLast hne = 0 from Nat.add_left_cancel hval)
      (Nat.getLast_digit_ne_zero 10 hn)

theorem mem_decimal {n : Nat} {b : UInt8} (h : b ∈ decimal n) : isAsciiDigit b = true := by
  rw [decimal] at h
  split at h
  · rw [List.mem_singleton] at h
    rw [h]
    exact isAsciiDigit_asciiDigit (by norm_num)
  · obtain ⟨d, hd, rfl⟩ := List.mem_map.mp h
    exact isAsciiDigit_asciiDigit (Nat.digits_lt_base (by norm_num) (List.mem_reverse.mp hd))

theorem decimal_ne_nil (n : Nat) : decimal n ≠ [] := by
  rw [decimal]
  split
  · simp
  · next h => simpa [Nat.digits_eq_nil_iff_eq_zero] using h

/-- a number below `10 ^ k` takes at most `k` digits (one for zero) -/
theorem length_decimal_le {n k : Nat} (hk : 0 < k) (h : n < 10 ^ k) : (decimal n).length ≤ k := by
  rw [decimal]
  split
  · exact hk
  · next hn =>
    rw [List.length_map, List.length_reverse, Nat.digits_length_le_iff (by norm_num)]
    exact h

/-! ## UTF-8 -/

/-- a continuation byte -/
def utf8Cont (b : UInt8) : Bool := 0x80 ≤ b.toNat && b.toNat ≤ 0xBF

/-- the second byte of a sequence led by `a`: no overlong form, no surrogate, nothing past
U+10FFFF -/
def utf8Second (a b : UInt8) : Bool :=
  utf8Cont b && (a.toNat != 0xE0 || 0xA0 ≤ b.toNat) && (a.toNat != 0xED || b.toNat ≤ 0x9F)
    && (a.toNat != 0xF0 || 0x90 ≤ b.toNat) && (a.toNat != 0xF4 || b.toNat ≤ 0x8F)

/-- well-formed UTF-8: sequences of one to four bytes, told apart by their first -/
def utf8Valid : Bytes → Bool
  | [] => true
  | a :: rest =>
    if a.toNat < 0x80 then utf8Valid rest
    else if 0xC2 ≤ a.toNat ∧ a.toNat ≤ 0xDF then
      match rest with
      | b :: r => utf8Cont b && utf8Valid r
      | _ => false
    else if 0xE0 ≤ a.toNat ∧ a.toNat ≤ 0xEF then
      match rest with
      | b :: c :: r => utf8Second a b && utf8Cont c && utf8Valid r
      | _ => false
    else if 0xF0 ≤ a.toNat ∧ a.toNat ≤ 0xF4 then
      match rest with
      | b :: c :: d :: r => utf8Second a b && utf8Cont c && utf8Cont d && utf8Valid r
      | _ => false
    else false

theorem utf8Valid_of_ascii (bs : Bytes) (h : ∀ b ∈ bs, b.toNat < 0x80) : utf8Valid bs = true := by
  induction bs with
  | nil => rfl
  | cons b bs ih =>
    unfold utf8Valid
    rw [if_pos (h b List.mem_cons_self)]
    exact ih (fun c hc => h c (List.mem_cons_of_mem _ hc))

/-- what follows well-formed text is well-formed for itself -/
theorem utf8Valid_append {a : Bytes} (h : utf8Valid a = true) (b : Bytes) :
    utf8Valid (a ++ b) = utf8Valid b := by
  fun_induction utf8Valid a with
  | case1 => rfl
  | case2 a rest hlt ih =>
    show utf8Valid (a :: (rest ++ b)) = _
    conv => lhs; unfold utf8Valid
    rw [if_pos hlt]
    exact ih h
  | case3 a hlt h2 c r ih =>
    rw [Bool.and_eq_true] at h
    show utf8Valid (a :: c :: (r ++ b)) = _
    rw [utf8Valid, if_neg hlt, if_pos h2]
    simp only [h.1, Bool.true_and]
    exact ih h.2
  | case5 a hlt h2 h3 c d r ih =>
    rw [Bool.and_eq_true] at h
    show utf8Valid (a :: c :: d :: (r ++ b)) = _
    rw [utf8Valid, if_neg hlt, if_neg h2, if_pos h3]
    simp only [h.1, Bool.true_and]
    exact ih h.2
  | case7 a hlt h2 h3 h4 c d e r ih =>
    rw [Bool.and_eq_true] at h
    show utf8Valid (a :: c :: d :: e :: (r ++ b)) = _
    rw [utf8Valid, if_neg hlt, if_neg h2, if_neg h3, if_pos h4]
    simp only [h.1, Bool.true_and]
    exact ih h.2
  | _ => cases h
theorem utf8Valid_decimal (n : Nat) : utf8Valid (decimal n) = true := by
  apply utf8Valid_of_ascii
  intro b hb
  have h := mem_decimal hb
  simp only [isAsciiDigit, Bool.and_eq_true, decide_eq_true_eq] at h
  omega

end Wire
