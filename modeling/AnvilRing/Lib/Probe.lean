import Mathlib.Data.List.Chain
import Mathlib.Data.List.Forall2

/-!
# Probes and the silence between their answers

A party sends probes into a log, and every entry of the log carries the instant at which it was
sent.

* `stamp`        a log with its instants, once it has grown;
* `times`        the instants of the entries of one kind;
* `Spaced`       no instant is much later than the one before it;
* `silence_le`   probes that are spaced, and not underway for long, bound the silence.
-/

namespace Probe
variable {α : Type*} {now : Nat} {old : List (α × Nat)} {log more : List α} {p : α → Bool}

/-! ## stamped logs -/

/-- what `log` has more than `old` was sent now -/
def stamp (now : Nat) (old : List (α × Nat)) (log : List α) : List (α × Nat) :=
  old ++ (log.drop old.length).map fun x => (x, now)

theorem stamp_append (h : old.map Prod.fst = log) (now : Nat) (more : List α) :
    stamp now old (log ++ more) = old ++ more.map fun x => (x, now) := by
  unfold stamp
  rw [← h, ← List.length_map (f := Prod.fst), List.drop_left]

theorem map_fst_stamp (h : old.map Prod.fst = log) (now : Nat) (more : List α) :
    (stamp now old (log ++ more)).map Prod.fst = log ++ more := by
  rw [stamp_append h, List.map_append, h, List.map_map]
  exact congrArg _ (List.map_id' more)

theorem take_stamp (h : old.map Prod.fst = log) (now : Nat) (more : List α) {n : Nat}
    (hn : n ≤ old.length) : (stamp now old (log ++ more)).take n = old.take n := by
  rw [stamp_append h, List.take_append_of_le_length hn]

/-- the entry behind the first ones -/
theorem take_next {x : α} {first rest : List α} (h : old.map Prod.fst = first ++ x :: rest) :
    ∃ t, old.take (first ++ [x]).length = old.take first.length ++ [(x, t)] ∧
      (first ++ [x]).length ≤ old.length := by
  obtain ⟨l, r, rfl, rfl, hr⟩ := List.map_eq_append_iff.mp h
  obtain ⟨e, r', rfl, rfl, rfl⟩ := List.map_eq_cons_iff.mp hr
  refine ⟨e.2, ?_, ?_⟩
  · rw [List.length_append, List.length_map, List.take_left, List.take_length_add_append]
    rfl
  · rw [List.length_append, List.length_append, List.length_map, List.length_cons]
    exact Nat.add_le_add_left (Nat.le_add_left 1 _) _

/-! ## the instants of one kind of entry -/

def times (p : α → Bool) (log : List (α × Nat)) : List Nat :=
  (log.filter fun e => p e.1).map Prod.snd

theorem times_append (p : α → Bool) (log more : List (α × Nat)) :
    times p (log ++ more) = times p log ++ times p more := by
  unfold times
  rw [List.filter_append, List.map_append]

theorem times_single (p : α → Bool) (x : α) (t : Nat) :
    times p [(x, t)] = if p x then [t] else [] := by
  unfold times
  rw [List.filter_singleton]
  show List.map _ (cond (p x) _ _) = _
  cases p x with
  | true => rfl
  | false => rfl

/-- what was sent now was sent now -/
theorem times_now (p : α → Bool) (more : List α) (now : Nat) :
    times p (more.map fun x => (x, now)) = List.replicate (more.filter p).length now := by
  unfold times
  rw [List.filter_map, List.map_map]
  exact List.map_const'

theorem times_take_prefix (p : α → Bool) (log : List (α × Nat)) (n : Nat) :
    times p (log.take n) <+: times p log := ((List.take_prefix n log).filter _).map Prod.snd

theorem drop_times (p : α → Bool) (log : List (α × Nat)) (n : Nat) :
    (times p log).drop (times p (log.take n)).length = times p (log.drop n) := by
  have hx := times_append p (log.take n) (log.drop n)
  rw [List.take_append_drop] at hx
  rw [hx, List.drop_left]

theorem of_mem_times {log : List (α × Nat)} {t : Nat} (h : t ∈ times p log) :
    ∃ x, (x, t) ∈ log ∧ p x = true := by
  obtain ⟨e, he, rfl⟩ := List.mem_map.mp h
  obtain ⟨hm, hp⟩ := List.mem_filter.mp he
  exact ⟨e.1, hm, hp⟩

/-! ## silence -/

/-- every instant is at most `gap` later than the one before it -/
def Spaced (gap : Nat) (times : List Nat) : Prop := times.IsChain fun a b => b ≤ a + gap

theorem Spaced.append {gap : Nat} {times later : List Nat} (h : Spaced gap times)
    (hlater : ∀ t ∈ later, t = now) (hnow : ∀ t ∈ times.getLast?, now ≤ t + gap) :
    Spaced gap (times ++ later) := by
  refine List.isChain_append.mpr ⟨h, ?_, fun t ht u hu => ?_⟩
  · refine List.Pairwise.isChain (List.pairwise_iff_forall_sublist.mpr fun {a b} hab => ?_)
    rw [hlater a (hab.subset List.mem_cons_self),
      hlater b (hab.subset (List.mem_cons_of_mem _ List.mem_cons_self))]
    exact Nat.le_add_right _ _
  · rw [hlater u (List.mem_of_mem_head? hu)]
    exact hnow t ht

/-- **Silence.** The probes `heard` were answered, the last answer no earlier than any of them; the
oldest of the others is underway for at most `delay`, and where there is none the next one is due. -/
theorem silence_le {gap delay start last : Nat} {heard waiting : List Nat}
    (hgap : Spaced gap (start :: (heard ++ waiting))) (hlast : ∀ t ∈ start :: heard, t ≤ last)
    (hwait : ∀ t ∈ waiting.head?, now ≤ t + delay)
    (hnext : waiting = [] → ∀ t ∈ (start :: heard).getLast?, now ≤ t + gap) :
    now ≤ last + gap + delay := by
  have hne : start :: heard ≠ [] := List.cons_ne_nil _ _
  have hmem : (start :: heard).getLast hne ∈ (start :: heard).getLast? :=
    List.getLast?_eq_some_getLast hne
  have hle := hlast _ (List.getLast_mem hne)
  cases waiting with
  | nil =>
    have hx := hnext rfl _ hmem
    omega
  | cons t rest =>
    rw [← List.cons_append] at hgap
    have hx := (List.isChain_append.mp hgap).2.2 _ hmem t rfl
    have hy := hwait t rfl
    omega

end Probe
