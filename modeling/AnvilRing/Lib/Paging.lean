import Mathlib.Data.List.Basic
import Mathlib.Order.Lattice

/-!
# Pages of a growing list

A list is in the order of its keys and grows at its end.  A reader asks for what lies behind a
cursor, some entries at a time, and moves the cursor to the last entry that it got.

* `page key n c`             the first `n` entries behind the cursor `c`;
* `between key a c`          the entries behind `a`, up to `c`;
* `page_eq_nil`              an empty page means that nothing is behind the cursor;
* `between_page`             a page is what lies between the cursor and its last entry;
* `between_append`           what is appended behind the cursor changes nothing in front of it;
* `length_behind_lt`         every page with an entry leaves less behind it.
-/

namespace Paging

variable {α κ : Type*} [LinearOrder κ] (key : α → κ)

def page (n : Nat) (c : κ) (l : List α) : List α := (l.filter fun x => c < key x).take n

def between (a c : κ) (l : List α) : List α := l.filter fun x => a < key x ∧ key x ≤ c

variable {key} {a c : κ} {l new : List α} {n : Nat} {x : α}

theorem between_self (a : κ) (l : List α) : between key a a l = [] := by
  refine List.filter_eq_nil_iff.mpr fun x _ hx => ?_
  obtain ⟨hlt, hle⟩ := of_decide_eq_true hx
  exact absurd hle (not_le.mpr hlt)

theorem page_eq_nil (hn : 0 < n) : page key n c l = [] ↔ ∀ x ∈ l, key x ≤ c := by
  rw [page, List.take_eq_nil_iff, List.filter_eq_nil_iff]
  constructor
  · rintro (h | h)
    · omega
    · intro x hx
      exact not_lt.mp fun hlt => h x hx (decide_eq_true hlt)
  · intro h
    refine .inr fun x hx hlt => ?_
    exact absurd (h x hx) (not_le.mpr (of_decide_eq_true hlt))

/-- a list in the order of its keys falls apart at the cursor -/
theorem split_cursor (hl : l.Pairwise fun x y => key x < key y) (c : κ) :
    l = (l.filter fun x => key x ≤ c) ++ l.filter fun x => c < key x := by
  induction l with
  | nil => rfl
  | cons x l ih =>
    obtain ⟨hx, hl⟩ := List.pairwise_cons.mp hl
    rw [List.filter_cons, List.filter_cons]
    by_cases hc : key x ≤ c
    · rw [if_pos (decide_eq_true hc), if_neg (by simpa using hc), List.cons_append, ← ih hl]
    · -- all the others are behind it as well
      have hnone : l.filter (fun y => key y ≤ c) = [] := by
        refine List.filter_eq_nil_iff.mpr fun y hy hle => hc ?_
        exact (hx y hy).le.trans (of_decide_eq_true hle)
      have hall : l.filter (fun y => c < key y) = l :=
        List.filter_eq_self.mpr fun y hy => decide_eq_true ((not_le.mp hc).trans (hx y hy))
      rw [if_neg (by simpa using hc), hnone, if_pos (by simpa using hc), hall, List.nil_append]

/-- what is appended behind the cursor, or not behind `a`, is not between the two -/
theorem between_append (hnew : ∀ x ∈ new, c < key x ∨ key x ≤ a) :
    between key a c (l ++ new) = between key a c l := by
  have hnone : between key a c new = [] := by
    refine List.filter_eq_nil_iff.mpr fun x hx h => ?_
    obtain ⟨hlt, hle⟩ := of_decide_eq_true h
    obtain hc | ha := hnew x hx
    · exact absurd hle (not_le.mpr hc)
    · exact absurd hlt (not_lt.mpr ha)
  unfold between at hnone ⊢
  rw [List.filter_append, hnone, List.append_nil]

/-- a page is what lies between the cursor and its last entry -/
theorem between_page (hl : l.Pairwise fun x y => key x < key y)
    (hx : (page key n c l).getLast? = some x) (hac : a ≤ c) :
    between key a (key x) l = between key a c l ++ page key n c l := by
  have hmem := List.mem_of_getLast? hx
  have hbehind : c < key x := of_decide_eq_true (List.mem_filter.mp (List.mem_of_mem_take hmem)).2
  -- in front of the cursor, on the page, behind the page
  let front := l.filter fun y => key y ≤ c
  let tail := l.filter fun y => c < key y
  have hsplit : l = front ++ (page key n c l ++ tail.drop n) := by
    rw [page, List.take_append_drop]
    exact split_cursor hl c
  have htail : (page key n c l ++ tail.drop n).Pairwise fun y z => key y < key z := by
    rw [page, List.take_append_drop]
    exact hl.filter _
  obtain ⟨hpage, -, hlast⟩ := List.pairwise_append.mp htail
  have hfront : between key a (key x) front = between key a c front := by
    refine List.filter_congr fun y hy => ?_
    have hle : key y ≤ c := of_decide_eq_true (List.mem_filter.mp hy).2
    rw [decide_eq_decide]
    exact and_congr_right fun _ => ⟨fun _ => hle, fun _ => hle.trans hbehind.le⟩
  have hon : between key a (key x) (page key n c l) = page key n c l := by
    refine List.filter_eq_self.mpr fun y hy => decide_eq_true ?_
    have hlt : c < key y := of_decide_eq_true (List.mem_filter.mp (List.mem_of_mem_take hy)).2
    refine ⟨hac.trans_lt hlt, ?_⟩
    obtain ⟨init, hinit⟩ := List.getLast?_eq_some_iff.mp hx
    rw [hinit] at hpage hy
    obtain hy | hy := List.mem_append.mp hy
    · exact ((List.pairwise_append.mp hpage).2.2 y hy x List.mem_cons_self).le
    · rw [List.mem_singleton.mp hy]
  have hpast : between key a (key x) (tail.drop n) = [] := by
    refine List.filter_eq_nil_iff.mpr fun y hy h => ?_
    exact absurd (of_decide_eq_true h).2 (not_le.mpr (hlast x hmem y hy))
  have hold : between key a c l = between key a c front := by
    conv => lhs; rw [split_cursor hl c]
    exact between_append fun y hy => .inl (of_decide_eq_true (List.mem_filter.mp hy).2)
  calc between key a (key x) l
      = between key a (key x) (front ++ (page key n c l ++ tail.drop n)) := by rw [← hsplit]
    _ = between key a (key x) front ++ (between key a (key x) (page key n c l) ++
          between key a (key x) (tail.drop n)) := by
        simp only [between, List.filter_append]
    _ = between key a c l ++ page key n c l := by
        rw [hfront, hon, hpast, hold, List.append_nil]

/-- behind the last entry of a page there is less than behind the cursor -/
theorem length_behind_lt (hx : (page key n c l).getLast? = some x) :
    (l.filter fun y => key x < key y).length < (l.filter fun y => c < key y).length := by
  have hmem : x ∈ l.filter fun y => c < key y :=
    List.mem_of_mem_take (List.mem_of_getLast? hx)
  have hlt : c < key x := of_decide_eq_true (List.mem_filter.mp hmem).2
  have hsub : l.filter (fun y => key x < key y) =
      (l.filter fun y => c < key y).filter fun y => key x < key y := by
    rw [List.filter_filter]
    refine List.filter_congr fun y _ => ?_
    rw [← Bool.decide_and, decide_eq_decide]
    exact ⟨fun h => ⟨h, hlt.trans h⟩, And.left⟩
  rw [hsub, List.length_filter_lt_length_iff_exists]
  exact ⟨x, hmem, by simp⟩

end Paging
