import Mathlib.Logic.Basic
import Mathlib.Order.Basic

/-!
# Labelled machines: runs, reachable states, the invariant rule

A machine is a partial step `σ → α → Option σ`: `none` says that the action is not enabled.

* `run step s as`              the state after the actions `as`, if each was enabled in its turn;
* `Reachable step init`        the states of all runs from an initial state;
* `Reachable.invariant`        what holds initially and is kept by every step holds of them all;
* `run_invariant`              the same along one run, from any state;
* `run_trace`                  the same for a property of the state and the actions so far;
* `run_append`                 runs compose;
* `run_first`                  the step with which something begins to hold;
* `ReachableWhen`              the states of the runs whose every step meets a condition;
* `runWhen`                    such a run, for a condition that can be evaluated.
-/

namespace Machine

variable {σ α : Type*} {step : σ → α → Option σ} {init : σ → Prop}

def run (step : σ → α → Option σ) : σ → List α → Option σ
  | s, [] => some s
  | s, a :: as => (step s a).bind fun t => run step t as

inductive Reachable (step : σ → α → Option σ) (init : σ → Prop) : σ → Prop where
  | init {s : σ} (h : init s) : Reachable step init s
  | step {s t : σ} {a : α} (hs : Reachable step init s) (h : step s a = some t) :
      Reachable step init t

theorem run_cons_some {s t : σ} {a : α} {as : List α} :
    run step s (a :: as) = some t ↔ ∃ u, step s a = some u ∧ run step u as = some t :=
  Option.bind_eq_some_iff

theorem run_append (s : σ) (as bs : List α) :
    run step s (as ++ bs) = (run step s as).bind fun t => run step t bs := by
  induction as generalizing s with
  | nil => rfl
  | cons a as ih =>
    rw [List.cons_append, run, run, Option.bind_assoc]
    exact congrArg _ (funext ih)

theorem run_append_some {s t : σ} {as bs : List α} :
    run step s (as ++ bs) = some t ↔ ∃ u, run step s as = some u ∧ run step u bs = some t := by
  rw [run_append]
  exact Option.bind_eq_some_iff

/-- a property kept by every step is kept by a run -/
theorem run_invariant {P : σ → Prop} (hstep : ∀ s a t, P s → step s a = some t → P t)
    {s t : σ} {as : List α} (hs : P s) (h : run step s as = some t) : P t := by
  induction as generalizing s with
  | nil =>
    obtain rfl := Option.some.inj h
    exact hs
  | cons a as ih =>
    obtain ⟨u, hu, h'⟩ := run_cons_some.mp h
    exact ih (hstep s a u hs hu) h'

/-- a property kept by the steps whose action is allowed is kept by a run of allowed actions -/
theorem run_invariant_of {P : σ → Prop} {ok : α → Prop}
    (hstep : ∀ s a t, ok a → P s → step s a = some t → P t)
    {s t : σ} {as : List α} (hok : ∀ a ∈ as, ok a) (hs : P s) (h : run step s as = some t) :
    P t := by
  induction as generalizing s with
  | nil =>
    obtain rfl := Option.some.inj h
    exact hs
  | cons a as ih =>
    obtain ⟨u, hu, h'⟩ := run_cons_some.mp h
    exact ih (fun b hb => hok b (List.mem_cons_of_mem _ hb))
      (hstep s a u (hok a List.mem_cons_self) hs hu) h'

/-- a property of the actions so far and the state is kept along a run -/
theorem run_trace {P : List α → σ → Prop}
    (hstep : ∀ as s a t, P as s → step s a = some t → P (as ++ [a]) t) {s t : σ} {as : List α}
    (hs : P [] s) (h : run step s as = some t) : P as t := by
  suffices hgen : ∀ bs s, P bs s → run step s as = some t → P (bs ++ as) t from hgen [] s hs h
  clear hs h
  induction as with
  | nil =>
    intro bs s hs h
    obtain rfl := Option.some.inj h
    rwa [List.append_nil]
  | cons a as ih =>
    intro bs s hs h
    obtain ⟨u, hu, h'⟩ := run_cons_some.mp h
    have hnext := ih (bs ++ [a]) u (hstep bs s a u hs hu) h'
    rwa [List.append_assoc] at hnext

/-- what does not hold at first and holds at last begins to hold with one of the steps -/
theorem run_first {P : σ → Prop} {s t : σ} {as : List α} (hs : ¬ P s) (ht : P t)
    (h : run step s as = some t) :
    ∃ bs a cs u v, as = bs ++ a :: cs ∧ run step s bs = some u ∧ ¬ P u ∧ step u a = some v ∧ P v ∧
      run step v cs = some t := by
  induction as generalizing s with
  | nil =>
    obtain rfl := Option.some.inj h
    exact absurd ht hs
  | cons a as ih =>
    obtain ⟨u, hu, h'⟩ := run_cons_some.mp h
    by_cases hp : P u
    · exact ⟨[], a, as, s, u, rfl, rfl, hs, hu, hp, h'⟩
    · obtain ⟨bs, b, cs, x, y, rfl, hx, hnx, hy, hpy, hcs⟩ := ih hp h'
      exact ⟨a :: bs, b, cs, x, y, rfl, run_cons_some.mpr ⟨u, hu, hx⟩, hnx, hy, hpy, hcs⟩

theorem Reachable.invariant {P : σ → Prop} (hinit : ∀ s, init s → P s)
    (hstep : ∀ s a t, P s → step s a = some t → P t) {s : σ} (h : Reachable step init s) : P s := by
  induction h with
  | init h => exact hinit _ h
  | step _ h ih => exact hstep _ _ _ ih h

/-- the invariant rule with what is already known of the reachable states -/
theorem Reachable.invariant_of {P : σ → Prop} (hinit : ∀ s, init s → P s)
    (hstep : ∀ s a t, Reachable step init s → P s → step s a = some t → P t) {s : σ}
    (h : Reachable step init s) : P s := by
  induction h with
  | init h => exact hinit _ h
  | step hs h ih => exact hstep _ _ _ hs ih h

theorem Reachable.run {s t : σ} {as : List α} (hs : Reachable step init s)
    (h : Machine.run step s as = some t) : Reachable step init t :=
  run_invariant (fun _ _ _ hs h => hs.step h) hs h

/-- reached by steps that each meet the condition `ok` on the state before it and the action -/
inductive ReachableWhen (step : σ → α → Option σ) (init : σ → Prop) (ok : σ → α → Prop) :
    σ → Prop where
  | init {s : σ} (h : init s) : ReachableWhen step init ok s
  | step {s t : σ} {a : α} (hs : ReachableWhen step init ok s) (hok : ok s a)
      (h : step s a = some t) : ReachableWhen step init ok t

theorem ReachableWhen.reachable {ok : σ → α → Prop} {s : σ} (h : ReachableWhen step init ok s) :
    Reachable step init s := by
  induction h with
  | init h => exact .init h
  | step _ _ h ih => exact ih.step h

theorem ReachableWhen.trans {ok : σ → α → Prop} {s t : σ} (hs : ReachableWhen step init ok s)
    (ht : ReachableWhen step (· = s) ok t) : ReachableWhen step init ok t := by
  induction ht with
  | init h => exact h ▸ hs
  | step _ hok h ih => exact ih.step hok h

/-- a run of actions that meet the condition in every state -/
theorem ReachableWhen.run {ok : σ → α → Prop} {s t : σ} {as : List α}
    (hs : ReachableWhen step init ok s) (hok : ∀ a ∈ as, ∀ s, ok s a)
    (h : Machine.run step s as = some t) : ReachableWhen step init ok t :=
  run_invariant_of (fun s _ _ ha hs h => hs.step (ha s) h) hok hs h

/-- a run whose every step meets the condition in the state that it comes to -/
theorem ReachableWhen.run_of {ok : σ → α → Prop} {s t : σ} {as : List α}
    (hs : ReachableWhen step init ok s) (h : Machine.run step s as = some t)
    (hok : ∀ bs a cs u, as = bs ++ a :: cs → Machine.run step s bs = some u → ok u a) :
    ReachableWhen step init ok t := by
  induction as generalizing s with
  | nil =>
    obtain rfl := Option.some.inj h
    exact hs
  | cons a as ih =>
    obtain ⟨u, hu, h'⟩ := run_cons_some.mp h
    refine ih (hs.step (hok [] a as s rfl rfl) hu) h' fun bs b cs v hsplit hv => ?_
    exact hok (a :: bs) b cs v (congrArg (a :: ·) hsplit) (run_cons_some.mpr ⟨u, hu, hv⟩)

theorem ReachableWhen.invariant_of {ok : σ → α → Prop} {P : σ → Prop} (hinit : ∀ s, init s → P s)
    (hstep : ∀ s a t, Reachable step init s → ok s a → P s → step s a = some t → P t) {s : σ}
    (h : ReachableWhen step init ok s) : P s := by
  induction h with
  | init h => exact hinit _ h
  | step hs hok h ih => exact hstep _ _ _ hs.reachable hok ih h

/-- a run whose every step meets a decidable condition -/
def runWhen (step : σ → α → Option σ) (ok : σ → α → Prop) [∀ s a, Decidable (ok s a)] :
    σ → List α → Option σ
  | s, [] => some s
  | s, a :: as => if ok s a then (step s a).bind fun t => runWhen step ok t as else none

theorem ReachableWhen.runWhen {ok : σ → α → Prop} [∀ s a, Decidable (ok s a)] {s t : σ}
    {as : List α} (hs : ReachableWhen step init ok s)
    (h : Machine.runWhen step ok s as = some t) : ReachableWhen step init ok t := by
  induction as generalizing s with
  | nil =>
    obtain rfl := Option.some.inj h
    exact hs
  | cons a as ih =>
    unfold Machine.runWhen at h
    split at h
    · next hok =>
      obtain ⟨u, hu, h⟩ := Option.bind_eq_some_iff.mp h
      exact ih (hs.step hok hu) h
    · cases h

end Machine
