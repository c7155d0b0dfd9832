import AnvilRing.Lib.Probe
import Mathlib.Data.List.TakeDrop

/-!
# A keepalive between two parties

One party looks at its clock from time to time and probes the other one, which answers; every
answer is a sign of life for the first, every probe is one for the second.

* `Keepalive.Step`       what one of the parties does at a time;
* `Keepalive.Due`        nothing is overdue at a time (`Due.step`);
* `Keepalive.Paced`      the invariant: the probes keep their pace, the signs of life keep up with
                         them (`Paced.step`, `Paced.wait`);
* `Paced.lastSeen_le`, `Paced.dead_le`   how long either party is without a sign of life at most.
-/

/-- the instants of the probes and of the answers -/
structure Keepalive where
  /-- the probes that were sent -/
  probes : List Nat
  /-- those of them that were taken up -/
  taken : List Nat
  /-- the answers that were sent -/
  answers : List Nat
  /-- those of them that were heard -/
  heard : List Nat
  /-- the probing party looks at its clock again -/
  tick : Nat
  lastProbe : Int
  /-- the probing party's last sign of life -/
  lastSeen : Nat
  /-- the answering party gives up -/
  dead : Nat

namespace Keepalive

/-- how often the first party looks, how old its last probe must be, how long the other one waits -/
structure Pace where
  tick : Nat
  interval : Nat
  timeout : Nat

variable {pace : Pace} {slack delay start now : Nat} {k m : Keepalive}

inductive Step (pace : Pace) (now : Nat) (k : Keepalive) : Keepalive → Prop where
  | rest {d : Nat} (hd : k.dead ≤ d) : Step pace now k { k with dead := d }
  | probe (n : Nat) : Step pace now k { k with probes := k.probes ++ List.replicate n now }
  | tickProbe : Step pace now k
      { k with probes := k.probes ++ [now], lastProbe := now, tick := now + pace.tick }
  | tickRest (h : (now : Int) - k.lastProbe < pace.interval) :
      Step pace now k { k with tick := now + pace.tick }
  | take {t : Nat} (hpre : k.taken ++ [t] <+: k.probes) : Step pace now k
      { k with
        taken := k.taken ++ [t]
        answers := k.answers ++ [now]
        dead := now + pace.timeout }
  | hear {t : Nat} (hpre : k.heard ++ [t] <+: k.answers) :
      Step pace now k { k with heard := k.heard ++ [t], lastSeen := now }

/-- the first party looks in time, and nothing is underway for longer than `delay` -/
structure Due (slack delay now : Nat) (k : Keepalive) : Prop where
  tick : now ≤ k.tick + slack
  probes : ∀ t ∈ k.probes.drop k.taken.length, now ≤ t + delay
  answers : ∀ t ∈ k.answers.drop k.heard.length, now ≤ t + delay

/-- no two probes are further apart -/
def Pace.gap (pace : Pace) (slack : Nat) : Nat := pace.interval + pace.tick + slack

structure Paced (pace : Pace) (slack delay start now : Nat) (k : Keepalive) : Prop where
  past : ∀ t ∈ start :: k.probes, t ≤ now
  spaced : Probe.Spaced (pace.gap slack) (start :: k.probes)
  looks : ∀ t ∈ (start :: k.probes).getLast?, k.tick ≤ t + (pace.interval + pace.tick)
  last : ∀ t ∈ (start :: k.probes).getLast?, k.lastProbe ≤ t
  taken : k.taken <+: k.probes
  heard : k.heard <+: k.answers
  answered : List.Forall₂ (fun t u => u ≤ t + delay) k.taken k.answers
  seen : ∀ t ∈ start :: k.probes.take k.heard.length, t ≤ k.lastSeen
  alive : ∀ t ∈ start :: k.taken, t + pace.timeout ≤ k.dead

theorem Paced.wait (h : k.Paced pace slack delay start now) {now' : Nat} (hle : now ≤ now') :
    k.Paced pace slack delay start now' :=
  { h with past := fun t ht => (h.past t ht).trans hle }

/-! ## one step -/

theorem Paced.heard_length (h : k.Paced pace slack delay start now) :
    k.heard.length ≤ k.probes.length := by
  calc k.heard.length ≤ k.answers.length := h.heard.length_le
    _ = k.taken.length := h.answered.length_eq.symm
    _ ≤ k.probes.length := h.taken.length_le

theorem last_past (h : k.Paced pace slack delay start now) :
    ∀ t ∈ (start :: k.probes).getLast?, t ≤ now :=
  fun t ht => h.past t (List.mem_of_getLast? ht)

/-- probes that were sent now -/
theorem Paced.probe (h : k.Paced pace slack delay start now) (hdue : now ≤ k.tick + slack)
    (n : Nat) :
    Paced pace slack delay start now { k with probes := k.probes ++ List.replicate n now } := by
  have hnow : ∀ t ∈ List.replicate n now, t = now := fun t ht => List.eq_of_mem_replicate ht
  have hlast : ∀ t ∈ (start :: (k.probes ++ List.replicate n now)).getLast?,
      t ∈ (start :: k.probes).getLast? ∨ t = now := by
    intro t ht
    rw [← List.cons_append] at ht
    cases n with
    | zero =>
      rw [List.replicate_zero, List.append_nil] at ht
      exact .inl ht
    | succ n =>
      rw [List.replicate_succ', ← List.append_assoc, List.getLast?_concat] at ht
      exact .inr (Option.some.inj ht).symm
  refine { h with past := ?_, spaced := ?_, looks := ?_, last := ?_, taken := ?_, seen := ?_ }
  · intro t ht
    rw [← List.cons_append] at ht
    rcases List.mem_append.mp ht with ht | ht
    · exact h.past t ht
    · exact (hnow t ht).le
  · show Probe.Spaced _ (start :: k.probes ++ List.replicate n now)
    refine h.spaced.append hnow fun t ht => ?_
    have hx := h.looks t ht
    unfold Pace.gap
    omega
  · intro t ht
    rcases hlast t ht with ht | rfl
    · exact h.looks t ht
    · have hne := List.getLast?_eq_some_getLast (List.cons_ne_nil start k.probes)
      have hx := h.looks _ hne
      have hy := last_past h _ hne
      show k.tick ≤ _
      omega
  · intro t ht
    rcases hlast t ht with ht | rfl
    · exact h.last t ht
    · have hne := List.getLast?_eq_some_getLast (List.cons_ne_nil start k.probes)
      have hx := h.last _ hne
      have hy := last_past h _ hne
      show k.lastProbe ≤ _
      omega
  · exact h.taken.trans (List.prefix_append _ _)
  · intro t ht
    rw [List.take_append_of_le_length h.heard_length] at ht
    exact h.seen t ht

theorem Paced.step (h : k.Paced pace slack delay start now) (hdue : k.Due slack delay now)
    (hs : Step pace now k m) : m.Paced pace slack delay start now := by
  cases hs with
  | rest hd => exact { h with alive := fun t ht => (h.alive t ht).trans hd }
  | probe n => exact h.probe hdue.tick n
  | tickProbe =>
    have hp := h.probe hdue.tick 1
    refine { hp with looks := fun t ht => ?_, last := fun t ht => ?_ }
    · rw [← List.cons_append, List.getLast?_concat] at ht
      obtain rfl := Option.some.inj ht
      show now + pace.tick ≤ now + (pace.interval + pace.tick)
      omega
    · rw [← List.cons_append, List.getLast?_concat] at ht
      obtain rfl := Option.some.inj ht
      exact Int.le_refl _
  | tickRest hrest =>
    refine { h with looks := fun t ht => ?_ }
    have hx := h.last t ht
    show now + pace.tick ≤ t + (pace.interval + pace.tick)
    omega
  | @take t hpre =>
    obtain ⟨more, hmore⟩ := hpre
    have hmem : t ∈ k.probes := by
      rw [← hmore]
      exact List.mem_append_left _ (List.mem_append_right _ List.mem_cons_self)
    have hway : t ∈ k.probes.drop k.taken.length := by
      rw [← hmore, List.append_assoc, List.drop_left]
      exact List.mem_cons_self
    refine { h with taken := ⟨more, hmore⟩, heard := ?_, answered := ?_, alive := ?_ }
    · exact h.heard.trans (List.prefix_append _ _)
    · exact List.rel_append h.answered (.cons (hdue.probes t hway) .nil)
    · intro u hu
      have hle : u ≤ now := by
        rw [← List.cons_append] at hu
        rcases List.mem_append.mp hu with hu | hu
        · refine h.past u (List.cons_subset_cons _ h.taken.subset hu)
        · rw [List.mem_singleton.mp hu]
          exact h.past t (List.mem_cons_of_mem _ hmem)
      exact Nat.add_le_add_right hle _
  | hear hpre =>
    refine { h with heard := hpre, seen := fun t ht => h.past t ?_ }
    exact List.cons_subset_cons _ (List.take_subset _ _) ht

/-- what is sent now is not overdue -/
theorem Due.step (hdue : k.Due slack delay now) (h : k.Paced pace slack delay start now)
    (hs : Step pace now k m) : m.Due slack delay now := by
  have hsent : ∀ (n : Nat) (first all : List Nat), first <+: all →
      (∀ t ∈ all.drop first.length, now ≤ t + delay) →
      ∀ t ∈ (all ++ List.replicate n now).drop first.length, now ≤ t + delay := by
    intro n first all hpre hall t ht
    rw [List.drop_append_of_le_length hpre.length_le] at ht
    rcases List.mem_append.mp ht with ht | ht
    · exact hall t ht
    · rw [List.eq_of_mem_replicate ht]
      exact Nat.le_add_right _ _
  have htaken : ∀ (t : Nat) (first all : List Nat), (∀ t ∈ all.drop first.length, now ≤ t + delay) →
      ∀ u ∈ all.drop (first ++ [t]).length, now ≤ u + delay := by
    intro t first all hall u hu
    rw [List.length_append, ← List.drop_drop] at hu
    exact hall u (List.mem_of_mem_drop hu)
  cases hs with
  | rest hd => exact { hdue with }
  | probe n => exact { hdue with probes := hsent n _ _ h.taken hdue.probes }
  | tickProbe =>
    exact { hdue with
      tick := (Nat.le_add_right _ _).trans (Nat.le_add_right _ _)
      probes := hsent 1 _ _ h.taken hdue.probes }
  | tickRest hrest =>
    exact { hdue with tick := (Nat.le_add_right _ _).trans (Nat.le_add_right _ _) }
  | take hpre =>
    exact { hdue with
      probes := htaken _ _ _ hdue.probes
      answers := hsent 1 _ _ h.heard hdue.answers }
  | hear hpre => exact { hdue with answers := htaken _ _ _ hdue.answers }

/-! ## how long a party is without a sign of life -/

theorem Paced.next_due (h : k.Paced pace slack delay start now) (hdue : k.Due slack delay now) :
    ∀ t ∈ (start :: k.probes).getLast?, now ≤ t + pace.gap slack := by
  intro t ht
  have hx := h.looks t ht
  have hy := hdue.tick
  unfold Pace.gap
  omega

/-- the answering party: from the last probe that it took up -/
theorem Paced.dead_le (h : k.Paced pace slack delay start now) (hdue : k.Due slack delay now) :
    now + pace.timeout ≤ k.dead + pace.gap slack + delay := by
  obtain ⟨waiting, hw⟩ := h.taken
  have hdrop : k.probes.drop k.taken.length = waiting := by
    rw [← hw, List.drop_left]
  have hlast : ∀ t ∈ start :: k.taken, t ≤ k.dead - pace.timeout :=
    fun t ht => Nat.le_sub_of_add_le (h.alive t ht)
  have hle : now ≤ k.dead - pace.timeout + pace.gap slack + delay := by
    have hspaced : Probe.Spaced (pace.gap slack) (start :: (k.taken ++ waiting)) := by
      rw [hw]
      exact h.spaced
    refine Probe.silence_le hspaced hlast ?_ ?_
    · intro t ht
      exact hdue.probes t (hdrop ▸ List.mem_of_head? ht)
    · intro hnil
      rw [hnil, List.append_nil] at hw
      rw [hw]
      exact h.next_due hdue
  have hstart := h.alive start List.mem_cons_self
  omega

/-- the probing party: a probe that was taken up was answered, and the answer is underway -/
theorem Paced.lastSeen_le (h : k.Paced pace slack delay start now) (hdue : k.Due slack delay now) :
    now ≤ k.lastSeen + pace.gap slack + 2 * delay := by
  have hsplit := List.take_append_drop k.heard.length k.probes
  have hspaced : Probe.Spaced (pace.gap slack)
      (start :: (k.probes.take k.heard.length ++ k.probes.drop k.heard.length)) := by
    rw [hsplit]
    exact h.spaced
  refine Probe.silence_le hspaced h.seen ?_ ?_
  · intro t ht
    obtain ⟨waiting, hw⟩ := h.taken
    rw [← hw, List.drop_append_of_le_length
      (h.heard.length_le.trans h.answered.length_eq.ge)] at ht
    have hanswers := List.forall₂_drop k.heard.length h.answered
    cases htaken : k.taken.drop k.heard.length with
    | nil =>
      -- none that was taken up is without its answer
      rw [htaken, List.nil_append] at ht
      have hx := hdue.probes t
        (by rw [← hw, List.drop_left]; exact List.mem_of_head? ht)
      omega
    | cons p rest =>
      rw [htaken] at ht hanswers
      obtain rfl := Option.some.inj ht
      cases hu : k.answers.drop k.heard.length with
      | nil =>
        rw [hu] at hanswers
        cases hanswers
      | cons u more =>
        rw [hu] at hanswers
        cases hanswers with
        | cons hle _ =>
          have hx := hdue.answers u (hu ▸ List.mem_cons_self)
          omega
  · intro hnil
    rw [hnil, List.append_nil] at hsplit
    rw [hsplit]
    exact h.next_due hdue

end Keepalive
