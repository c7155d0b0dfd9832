import AnvilRing.Lib.Machine
import Mathlib.Algebra.BigOperators.Group.Finset.Basic
import Mathlib.Algebra.Order.BigOperators.Group.Finset

/-!
# Variants

A variant is a measure of a machine that some of its actions make smaller.  Runs of these actions
come to an end, and where one of them is enabled in every state that is not a goal, they end in a
goal.

* `run_variant`     a run of allowed actions is no longer than what it takes off the variant;
* `exists_run_to`   a goal is reached by allowed actions;
* `run_to`          so it is behind every run of allowed actions;
* `sum_update`      a sum over a family of which one member changes.
-/

namespace Machine

variable {σ α : Type*} {step : σ → α → Option σ} {init : σ → Prop} {P Q : σ → Prop} {ok : α → Prop}
  {w : σ → ℕ}

theorem run_variant (hP : ∀ s a t, ok a → P s → step s a = some t → P t)
    (hw : ∀ s a t, ok a → P s → step s a = some t → w t < w s) {s t : σ} {as : List α}
    (hok : ∀ a ∈ as, ok a) (hs : P s) (h : run step s as = some t) : as.length + w t ≤ w s := by
  induction as generalizing s with
  | nil =>
    obtain rfl := Option.some.inj h
    exact (Nat.zero_add _).le
  | cons a as ih =>
    obtain ⟨u, hu, h'⟩ := run_cons_some.mp h
    have ha := hok a List.mem_cons_self
    have hrest := ih (fun b hb => hok b (List.mem_cons_of_mem _ hb)) (hP s a u ha hs hu) h'
    have hless := hw s a u ha hs hu
    rw [List.length_cons]
    omega

/-- where a state that is not a goal has an allowed action, a goal is reached by such actions -/
theorem exists_run_to (hP : ∀ s a t, ok a → P s → step s a = some t → P t)
    (hw : ∀ s a t, ok a → P s → step s a = some t → w t < w s)
    (hprog : ∀ s, P s → ¬ Q s → ∃ a, ok a ∧ (step s a).isSome = true) {s : σ} (hs : P s) :
    ∃ as t, (∀ a ∈ as, ok a) ∧ run step s as = some t ∧ Q t := by
  induction hn : w s using Nat.strong_induction_on generalizing s with
  | _ n ih =>
    by_cases hq : Q s
    · exact ⟨[], s, fun _ ha => (by cases ha), rfl, hq⟩
    · obtain ⟨a, ha, hsome⟩ := hprog s hs hq
      obtain ⟨t, ht⟩ := Option.isSome_iff_exists.mp hsome
      obtain ⟨as, u, hok, hrun, hu⟩ := ih (w t) (hn ▸ hw s a t ha hs ht) (hP s a t ha hs ht) rfl
      refine ⟨a :: as, u, fun b hb => ?_, run_cons_some.mpr ⟨t, ht, hrun⟩, hu⟩
      rcases List.mem_cons.mp hb with rfl | hb
      · exact ha
      · exact hok b hb

/-- every run of allowed actions is bounded, and can be continued to a goal -/
theorem run_to (hP : ∀ s a t, ok a → P s → step s a = some t → P t)
    (hw : ∀ s a t, ok a → P s → step s a = some t → w t < w s)
    (hprog : ∀ s, P s → ¬ Q s → ∃ a, ok a ∧ (step s a).isSome = true) {s t : σ} {as : List α}
    (hok : ∀ a ∈ as, ok a) (hs : P s) (h : run step s as = some t) :
    as.length ≤ w s ∧ ∃ bs u, (∀ a ∈ bs, ok a) ∧ run step t bs = some u ∧ Q u :=
  ⟨Nat.le_of_add_right_le (run_variant hP hw hok hs h),
    exists_run_to hP hw hprog (run_invariant_of hP hok hs h)⟩

end Machine

/-- a sum over a family of which one member changes -/
theorem sum_update {ι β : Type*} [DecidableEq ι] (s : Finset ι) (f : ι → β) (w : ι → β → ℕ) {i : ι}
    (hi : i ∈ s) (x : β) :
    (∑ j ∈ s, w j (Function.update f i x j)) + w i (f i) = (∑ j ∈ s, w j (f j)) + w i x := by
  have hrest : ∑ j ∈ s.erase i, w j (Function.update f i x j) = ∑ j ∈ s.erase i, w j (f j) :=
    Finset.sum_congr rfl fun j hj => by rw [Function.update_of_ne (Finset.ne_of_mem_erase hj)]
  rw [← Finset.add_sum_erase s _ hi, ← Finset.add_sum_erase s (fun j => w j (f j)) hi, hrest,
    Function.update_self]
  omega
