import AnvilRing.Lib.HttpHead

/-!
# Texts and their lines

Search in a text, and the two ways of cutting it into lines.

* `indexOf needle bs`          where the needle is found first (`indexOf_some_iff`);
* `crlfLines`                  the lines between CRLFs; `crlfLines_append` and `crlfLines_join` say
                               how they compose;
* `flatMap_splitOn_crlfLines`  cutting at every CR instead;
* `skipEmptyLines`, `afterEmptyLine`   lines that end in LF or in CRLF, up to the first empty one.
-/

namespace Wire

/-! ## search -/

/-- the position of the first occurrence; a needle is not empty -/
def indexOf (needle : Bytes) : Bytes → Option Nat
  | [] => none
  | b :: bs => if needle.isPrefixOf (b :: bs) then some 0 else (indexOf needle bs).map (· + 1)

section
variable {needle bs : Bytes} {i : Nat}

theorem indexOf_eq_none_iff (hne : needle ≠ []) :
    indexOf needle bs = none ↔ ∀ j, ¬ needle <+: bs.drop j := by
  induction bs with
  | nil =>
    refine ⟨fun _ j hp => ?_, fun _ => rfl⟩
    rw [List.drop_nil] at hp
    exact hne (List.prefix_nil.mp hp)
  | cons b bs ih =>
    rw [indexOf]
    by_cases hp : needle <+: b :: bs
    · rw [if_pos (List.isPrefixOf_iff_prefix.mpr hp)]
      exact ⟨fun h => (by cases h), fun h => absurd hp (h 0)⟩
    · rw [if_neg (mt List.isPrefixOf_iff_prefix.mp hp), Option.map_eq_none_iff, ih]
      refine ⟨fun h j => ?_, fun h j => h (j + 1)⟩
      cases j with
      | zero => exact hp
      | succ j => exact h j

theorem indexOf_some_iff (hne : needle ≠ []) :
    indexOf needle bs = some i ↔ needle <+: bs.drop i ∧ ∀ j < i, ¬ needle <+: bs.drop j := by
  induction bs generalizing i with
  | nil =>
    refine ⟨fun h => (by cases h), fun ⟨hp, _⟩ => ?_⟩
    rw [List.drop_nil] at hp
    exact absurd (List.prefix_nil.mp hp) hne
  | cons b bs ih =>
    rw [indexOf]
    by_cases hp : needle <+: b :: bs
    · rw [if_pos (List.isPrefixOf_iff_prefix.mpr hp)]
      constructor
      · intro h
        obtain rfl := Option.some.inj h
        exact ⟨hp, fun j hj => absurd hj (Nat.not_lt_zero j)⟩
      · intro ⟨_, hfirst⟩
        cases i with
        | zero => rfl
        | succ i => exact absurd hp (hfirst 0 (Nat.succ_pos i))
    · rw [if_neg (mt List.isPrefixOf_iff_prefix.mp hp)]
      constructor
      · intro h
        obtain ⟨k, hk, rfl⟩ := Option.map_eq_some_iff.mp h
        obtain ⟨hat, hfirst⟩ := ih.mp hk
        refine ⟨hat, fun j hj => ?_⟩
        cases j with
        | zero => exact hp
        | succ j => exact hfirst j (Nat.lt_of_succ_lt_succ hj)
      · intro ⟨hat, hfirst⟩
        cases i with
        | zero => exact absurd hat hp
        | succ i =>
          rw [ih.mpr ⟨hat, fun j hj => hfirst (j + 1) (Nat.succ_lt_succ hj)⟩]
          rfl

theorem infix_iff_drop : needle <:+: bs ↔ ∃ j, needle <+: bs.drop j := by
  constructor
  · intro ⟨front, back, h⟩
    refine ⟨front.length, back, ?_⟩
    rw [← h, List.append_assoc, List.drop_left]
  · intro ⟨j, back, h⟩
    refine ⟨bs.take j, back, ?_⟩
    rw [List.append_assoc, h, List.take_append_drop]

end

/-! ## lines that end in CRLF -/

/-- the lines of a text, cut at every CRLF -/
def crlfLines : Bytes → List Bytes
  | [] => [[]]
  | [b] => [[b]]
  | a :: b :: bs =>
    if a = 13 ∧ b = 10 then [] :: crlfLines bs else (crlfLines (b :: bs)).modifyHead (a :: ·)

section
variable {bs line rest more : Bytes} {ls : List Bytes} {sep b : UInt8}

/-- line by line -/
theorem crlfLines_eq (bs : Bytes) : crlfLines bs =
    match takeLine bs with
    | none => [bs]
    | some (line, rest) => line :: crlfLines rest := by
  fun_induction crlfLines bs with
  | case1 => rfl
  | case2 b => rfl
  | case3 a b bs hx ih => rw [takeLine, if_pos hx]
  | case4 a b bs hx ih =>
    rw [ih, takeLine, if_neg hx]
    cases takeLine (b :: bs) with
    | none => rfl
    | some p => rfl

theorem crlfLines_of_none (h : takeLine bs = none) : crlfLines bs = [bs] := by
  rw [crlfLines_eq, h]

theorem crlfLines_of_some (h : takeLine bs = some (line, rest)) :
    crlfLines bs = line :: crlfLines rest := by
  rw [crlfLines_eq, h]

theorem crlfLines_ne_nil (bs : Bytes) : crlfLines bs ≠ [] := by
  rw [crlfLines_eq]
  split
  · exact List.cons_ne_nil _ _
  · exact List.cons_ne_nil _ _

/-- a line that was read holds no CRLF -/
theorem takeLine_none_of_some (h : takeLine bs = some (line, rest)) : takeLine line = none := by
  cases hl : takeLine line with
  | none => rfl
  | some p =>
    obtain ⟨line', rest'⟩ := p
    have hagain := takeLine_append_some hl (crlf ++ rest)
    rw [← List.append_assoc, ← eq_of_takeLine h, h] at hagain
    have hlen := congrArg List.length (Prod.mk.inj (Option.some.inj hagain)).2
    rw [List.length_append, List.length_append, show crlf.length = 2 from rfl] at hlen
    omega

theorem takeLine_of_mem {bs : Bytes} (h : line ∈ crlfLines bs) : takeLine line = none := by
  cases hbs : takeLine bs with
  | none =>
    rw [crlfLines_of_none hbs, List.mem_singleton] at h
    rw [h]
    exact hbs
  | some p =>
    obtain ⟨first, rest⟩ := p
    rw [crlfLines_of_some hbs] at h
    rcases List.mem_cons.mp h with rfl | h
    · exact takeLine_none_of_some hbs
    · have hlen := length_of_takeLine hbs
      exact takeLine_of_mem h
termination_by bs.length
decreasing_by omega

/-- two texts with a CRLF between them -/
theorem crlfLines_append (bs more : Bytes) :
    crlfLines (bs ++ crlf ++ more) = crlfLines bs ++ crlfLines more := by
  cases hbs : takeLine bs with
  | none => rw [crlfLines_of_some (takeLine_of_none hbs more), crlfLines_of_none hbs]; rfl
  | some p =>
    obtain ⟨line, rest⟩ := p
    have hlen := length_of_takeLine hbs
    have hlong := takeLine_append_some hbs (crlf ++ more)
    rw [← List.append_assoc, ← List.append_assoc] at hlong
    rw [crlfLines_of_some hlong, crlfLines_of_some hbs, crlfLines_append rest more]
    rfl
termination_by bs.length
decreasing_by omega

/-- lines that are put together are the lines of the text -/
theorem crlfLines_join (hne : ls ≠ []) (h : ∀ line ∈ ls, takeLine line = none) :
    crlfLines (crlf.intercalate ls) = ls := by
  induction ls with
  | nil => exact absurd rfl hne
  | cons line ls ih =>
    obtain ⟨hline, hls⟩ := List.forall_mem_cons.mp h
    cases ls with
    | nil => rw [List.intercalate_singleton, crlfLines_of_none hline]
    | cons next ls =>
      rw [List.intercalate_cons_cons, crlfLines_append, crlfLines_of_none hline,
        ih (List.cons_ne_nil _ _) hls]
      rfl

/-! ## cutting at every CR -/

/-- a byte of a part is one of the text, and not the separator -/
theorem mem_of_mem_splitOn {part : Bytes} (hp : part ∈ bs.splitOn sep) (hb : b ∈ part) :
    b ∈ bs ∧ b ≠ sep := by
  induction bs generalizing part with
  | nil =>
    rw [List.splitOn_nil, List.mem_singleton] at hp
    rw [hp] at hb
    cases hb
  | cons a bs ih =>
    rw [List.splitOn_cons_eq_if_modifyHead] at hp
    split at hp
    · rcases List.mem_cons.mp hp with rfl | hp
      · cases hb
      · exact (ih hp hb).imp_left (List.mem_cons_of_mem a)
    · next ha =>
      obtain ⟨first, parts, hparts⟩ := List.exists_cons_of_ne_nil (List.splitOn_ne_nil sep bs)
      rw [hparts, List.modifyHead_cons] at hp
      rw [hparts] at ih
      rcases List.mem_cons.mp hp with rfl | hp
      · rcases List.mem_cons.mp hb with rfl | hb
        · exact ⟨List.mem_cons_self, fun he => ha (beq_iff_eq.mpr he)⟩
        · exact (ih List.mem_cons_self hb).imp_left (List.mem_cons_of_mem a)
      · exact (ih (List.mem_cons_of_mem _ hp) hb).imp_left (List.mem_cons_of_mem a)

/-- without the LF that it begins with -/
def stripLf : Bytes → Bytes
  | 10 :: bs => bs
  | bs => bs

theorem stripLf_cons_ne (h : b ≠ 10) : stripLf (b :: bs) = b :: bs := by
  unfold stripLf
  split
  · next he =>
    obtain ⟨rfl, _⟩ := List.cons.inj he
    exact absurd rfl h
  · rfl

/-- the parts between CRs, without the LF that a CR had behind it -/
def crParts (bs : Bytes) : List Bytes :=
  match bs.splitOn 13 with
  | [] => []
  | first :: parts => first :: parts.map stripLf

theorem crParts_cons_of_ne (h : b ≠ 13) : crParts (b :: bs) = (crParts bs).modifyHead (b :: ·) := by
  have hb : (b == 13) = false := beq_eq_false_iff_ne.mpr h
  unfold crParts
  rw [List.splitOn_cons_eq_if_modifyHead, hb]
  obtain ⟨first, parts, hparts⟩ := List.exists_cons_of_ne_nil (List.splitOn_ne_nil 13 bs)
  rw [hparts]
  rfl

/-- the parts between CRs are those of the lines -/
theorem flatMap_splitOn_crlfLines (bs : Bytes) :
    crParts bs = (crlfLines bs).flatMap fun line => line.splitOn 13 := by
  fun_induction crlfLines bs with
  | case1 => rfl
  | case2 b =>
    by_cases hb : b = 13
    · subst hb
      rfl
    · have hparts : [b].splitOn 13 = [[b]] :=
        List.splitOn_eq_singleton fun h => hb (List.mem_singleton.mp h).symm
      rw [crParts, List.flatMap_singleton, hparts]
      rfl
  | case3 a b bs hx ih =>
    obtain ⟨rfl, rfl⟩ := hx
    rw [List.flatMap_cons, ← ih, crParts, crParts]
    obtain ⟨first, parts, hparts⟩ := List.exists_cons_of_ne_nil (List.splitOn_ne_nil 13 bs)
    rw [List.splitOn_cons_eq_if_modifyHead, if_pos (beq_self_eq_true 13),
      List.splitOn_cons_eq_if_modifyHead, if_neg (by decide), hparts]
    rfl
  | case4 a b bs hx ih =>
    obtain ⟨line, lines, hlines⟩ := List.exists_cons_of_ne_nil (crlfLines_ne_nil (b :: bs))
    rw [hlines] at ih ⊢
    rw [List.flatMap_cons] at ih
    rw [List.modifyHead_cons, List.flatMap_cons, List.splitOn_cons_eq_if_modifyHead]
    by_cases ha : a = 13
    · -- a CR without a LF: the next part begins with the byte behind it, or is empty
      subst ha
      have hb : b ≠ 10 := fun he => hx ⟨rfl, he⟩
      rw [if_pos (beq_self_eq_true 13), List.cons_append, ← ih, crParts, crParts,
        List.splitOn_cons_eq_if_modifyHead, if_pos (beq_self_eq_true 13)]
      obtain ⟨first, parts, hparts⟩ := List.exists_cons_of_ne_nil (List.splitOn_ne_nil 13 (b :: bs))
      have hfirst : stripLf first = first := by
        rw [List.splitOn_cons_eq_if_modifyHead] at hparts
        split at hparts
        · obtain ⟨rfl, _⟩ := List.cons.inj hparts
          rfl
        · obtain ⟨f, ps, hps⟩ := List.exists_cons_of_ne_nil (List.splitOn_ne_nil 13 bs)
          rw [hps, List.modifyHead_cons] at hparts
          obtain ⟨rfl, _⟩ := List.cons.inj hparts
          exact stripLf_cons_ne hb
      rw [hparts]
      show [] :: stripLf first :: parts.map stripLf = _
      rw [hfirst]
    · rw [crParts_cons_of_ne ha, ih, if_neg (fun he => ha (beq_iff_eq.mp he))]
      obtain ⟨first, parts, hparts⟩ := List.exists_cons_of_ne_nil (List.splitOn_ne_nil 13 line)
      rw [hparts]
      rfl

end

/-! ## lines that end in LF or in CRLF -/

/-- without the empty lines in front -/
def skipEmptyLines : Bytes → Bytes
  | 10 :: bs => skipEmptyLines bs
  | 13 :: 10 :: bs => skipEmptyLines bs
  | bs => bs

/-- what is behind the first empty line that follows a line -/
def afterEmptyLine : Bytes → Option Bytes
  | [] => none
  | 10 :: 10 :: bs => some bs
  | 10 :: 13 :: 10 :: bs => some bs
  | _ :: bs => afterEmptyLine bs

/-- a line ends at `k`, and an empty one behind it takes the text up to `k + w` -/
def EmptyAt (bs : Bytes) (k w : Nat) : Prop :=
  bs[k]? = some 10 ∧ (w = 2 ∧ bs[k + 1]? = some 10 ∨
    w = 3 ∧ bs[k + 1]? = some 13 ∧ bs[k + 2]? = some 10)

section
variable {bs rest : Bytes} {a : UInt8} {k w : Nat}

theorem emptyAt_cons : EmptyAt (a :: bs) (k + 1) w ↔ EmptyAt bs k w := by
  unfold EmptyAt
  simp only [List.getElem?_cons_succ, Nat.add_right_comm k 1]

/-- the bytes of the place are there -/
theorem EmptyAt.bounds (h : EmptyAt bs k w) : 2 ≤ w ∧ w ≤ 3 ∧ k + w ≤ bs.length := by
  rcases h.2 with ⟨rfl, h1⟩ | ⟨rfl, _, h2⟩
  · have hlt := (List.getElem?_eq_some_iff.mp h1).1
    omega
  · have hlt := (List.getElem?_eq_some_iff.mp h2).1
    omega

theorem skipEmptyLines_split (bs : Bytes) : ∃ lead, bs = lead ++ skipEmptyLines bs ∧
    (∀ k, k + 1 = lead.length → lead[k]? = some 10) ∧
    (skipEmptyLines bs)[0]? ≠ some 10 ∧
    ¬ ((skipEmptyLines bs)[0]? = some 13 ∧ (skipEmptyLines bs)[1]? = some 10) := by
  fun_induction skipEmptyLines bs with
  | case1 bs ih =>
    obtain ⟨lead, hsplit, hlast, hstart⟩ := ih
    refine ⟨10 :: lead, congrArg (10 :: ·) hsplit, fun k hk => ?_, hstart⟩
    cases k with
    | zero => rfl
    | succ k => exact hlast k (Nat.succ.inj hk)
  | case2 bs ih =>
    obtain ⟨lead, hsplit, hlast, hstart⟩ := ih
    refine ⟨13 :: 10 :: lead, congrArg (13 :: 10 :: ·) hsplit, fun k hk => ?_, hstart⟩
    cases k with
    | zero => cases hk
    | succ k =>
      cases k with
      | zero => rfl
      | succ k => exact hlast k (Nat.succ.inj (Nat.succ.inj hk))
  | case3 bs hlf hcrlf =>
    refine ⟨[], rfl, fun k hk => (by cases hk), fun h => ?_, fun ⟨h0, h1⟩ => ?_⟩
    · cases bs with
      | nil => cases h
      | cons b bs => exact hlf bs (congrArg (· :: bs) (Option.some.inj h))
    · rcases bs with _ | ⟨a, _ | ⟨b, bs⟩⟩
      · cases h0
      · cases h1
      · obtain rfl := Option.some.inj h0
        obtain rfl := Option.some.inj h1
        exact hcrlf bs rfl

/-- what is behind is behind the first place where a line ends and an empty one follows -/
theorem afterEmptyLine_first (h : afterEmptyLine bs = some rest) :
    ∃ k w, EmptyAt bs k w ∧ rest = bs.drop (k + w) ∧ ∀ j v, EmptyAt bs j v → k ≤ j := by
  fun_induction afterEmptyLine bs with
  | case1 => cases h
  | case2 bs =>
    obtain rfl := Option.some.inj h
    exact ⟨0, 2, ⟨rfl, .inl ⟨rfl, rfl⟩⟩, rfl, fun j _ _ => Nat.zero_le j⟩
  | case3 bs =>
    obtain rfl := Option.some.inj h
    exact ⟨0, 3, ⟨rfl, .inr ⟨rfl, rfl, rfl⟩⟩, rfl, fun j _ _ => Nat.zero_le j⟩
  | case4 a bs hlf hcrlf ih =>
    obtain ⟨k, w, hat, hrest, hfirst⟩ := ih h
    refine ⟨k + 1, w, emptyAt_cons.mpr hat, ?_, fun j v hj => ?_⟩
    · rw [Nat.add_right_comm]
      exact hrest
    · cases j with
      | zero =>
        -- the text does not begin with such a place
        obtain ⟨h0, h⟩ := hj
        obtain rfl := Option.some.inj h0
        rcases h with ⟨_, h1⟩ | ⟨_, h1, h2⟩
        · cases bs with
          | nil => cases h1
          | cons b bs => exact absurd (congrArg (· :: bs) (Option.some.inj h1)) (hlf bs rfl)
        · rcases bs with _ | ⟨b, _ | ⟨c, bs⟩⟩
          · cases h1
          · cases h2
          · obtain rfl := Option.some.inj h1
            obtain rfl := Option.some.inj h2
            exact absurd rfl (hcrlf bs rfl)
      | succ j => exact Nat.succ_le_succ (hfirst j v (emptyAt_cons.mp hj))

end

end Wire
