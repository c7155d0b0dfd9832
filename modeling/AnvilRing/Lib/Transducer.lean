import Mathlib.Data.List.Basic

/-!
# Machines that write while they read

A transducer is a step `σ → α → σ × List β`: the next state and what is written at that symbol.

* `run step s xs`            the state after the text `xs`, and all that was written on the way;
* `run_append`               a text read in two parts is read as a whole;
* `run_absorbing`            a state that no symbol changes;
* `Follows step meets s xs`  every symbol of a marked text is read as its mark says;
* `follows_append`, `Follows.written`, `Follows.last`   what a marked text comes to.
-/

namespace Transducer

variable {σ α β μ : Type*} {step : σ → α → σ × List β}

def run (step : σ → α → σ × List β) : σ → List α → σ × List β
  | s, [] => (s, [])
  | s, x :: xs =>
    let next := step s x
    let rest := run step next.1 xs
    (rest.1, next.2 ++ rest.2)

@[simp] theorem run_nil (s : σ) : run step s [] = (s, []) := rfl

theorem run_cons (s : σ) (x : α) (xs : List α) :
    run step s (x :: xs) =
      ((run step (step s x).1 xs).1, (step s x).2 ++ (run step (step s x).1 xs).2) := rfl

theorem run_singleton (s : σ) (x : α) : run step s [x] = step s x := by
  rw [run_cons, run_nil, List.append_nil]

theorem run_append (s : σ) (xs ys : List α) :
    run step s (xs ++ ys) =
      ((run step (run step s xs).1 ys).1,
        (run step s xs).2 ++ (run step (run step s xs).1 ys).2) := by
  induction xs generalizing s with
  | nil => rfl
  | cons x xs ih => rw [List.cons_append, run_cons, ih, run_cons, List.append_assoc]

/-- a state that no symbol changes -/
theorem run_absorbing {s : σ} (h : ∀ x, step s x = (s, [])) (xs : List α) :
    run step s xs = (s, []) := by
  induction xs with
  | nil => rfl
  | cons x xs ih => rw [run_cons, h, ih, List.append_nil]

/-- the step at each symbol is as the symbol's mark says -/
def Follows (step : σ → α → σ × List β) (meets : μ → α → σ × List β → Prop) :
    σ → List (α × μ) → Prop
  | _, [] => True
  | s, (x, m) :: xs => meets m x (step s x) ∧ Follows step meets (step s x).1 xs

section
variable {meets : μ → α → σ × List β → Prop} {s : σ} {xs ys : List (α × μ)}

theorem follows_append :
    Follows step meets s (xs ++ ys) ↔
      Follows step meets s xs ∧ Follows step meets (run step s (xs.map Prod.fst)).1 ys := by
  induction xs generalizing s with
  | nil => exact (and_iff_right trivial).symm
  | cons x xs ih =>
    show _ ∧ Follows step meets (step s x.1).1 (xs ++ ys) ↔ _
    rw [ih, ← and_assoc]
    rfl

/-- what is written is what the marks say -/
theorem Follows.written {want : α × μ → List β}
    (hwant : ∀ m x r, meets m x r → r.2 = want (x, m)) (h : Follows step meets s xs) :
    (run step s (xs.map Prod.fst)).2 = xs.flatMap want := by
  induction xs generalizing s with
  | nil => rfl
  | cons x xs ih =>
    rw [List.map_cons, run_cons, List.flatMap_cons, ih h.2, hwant x.2 x.1 _ h.1]

/-- the state after a text that is not empty is the one its last mark speaks of -/
theorem Follows.last {x : α × μ} (h : Follows step meets s (xs ++ [x])) :
    ∃ out, meets x.2 x.1 ((run step s ((xs ++ [x]).map Prod.fst)).1, out) := by
  have hx := (follows_append.mp h).2.1
  refine ⟨(step (run step s (xs.map Prod.fst)).1 x.1).2, ?_⟩
  rw [List.map_append, run_append, List.map_singleton, run_singleton]
  exact hx

/-- a text whose symbols are all marked alike -/
theorem follows_of_forall {m : μ} {P : σ → Prop} {text : List α}
    (hstep : ∀ s, ∀ x ∈ text, P s → meets m x (step s x) ∧ P (step s x).1) (hs : P s) :
    Follows step meets s (text.map fun x => (x, m)) := by
  induction text generalizing s with
  | nil => exact trivial
  | cons x text ih =>
    obtain ⟨hm, hp⟩ := hstep s x List.mem_cons_self hs
    exact ⟨hm, ih (fun t y hy => hstep t y (List.mem_cons_of_mem _ hy)) hp⟩

end

end Transducer
