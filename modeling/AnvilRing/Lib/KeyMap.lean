import Mathlib.Data.List.AList
import Mathlib.Data.Finset.Card

/-!
# Hash maps as association lists with distinct keys

`KeyMap κ ν` is Mathlib's `AList` at a constant value type, under the operations of a hash map.
The order of the entries stands for an iteration order that a program must not depend on.

* `get_insert`, `get_remove`, `get_retain`   what each update does to every key;
* `collect`                                  a map built from a list, later entries winning
                                             (`get_collect`, `mem_of_get_collect`);
* `mem_values`                               the values are what some key holds;
* `keySet`                                   the keys as a finite set (`card_keySet`).
-/

def KeyMap (κ ν : Type*) : Type _ := AList (fun _ : κ => ν)

namespace KeyMap

variable {κ ν : Type*}

instance [DecidableEq κ] [DecidableEq ν] : DecidableEq (KeyMap κ ν) :=
  inferInstanceAs (DecidableEq (AList (fun _ : κ => ν)))

def empty : KeyMap κ ν := (∅ : AList (fun _ : κ => ν))

instance : Inhabited (KeyMap κ ν) := ⟨empty⟩

def toList (m : KeyMap κ ν) : List (κ × ν) := m.entries.map fun e => (e.1, e.2)

def values (m : KeyMap κ ν) : List ν := m.entries.map fun e => e.2

/-- the number of entries -/
def size (m : KeyMap κ ν) : Nat := m.entries.length

variable [DecidableEq κ]

def keySet (m : KeyMap κ ν) : Finset κ := (AList.keys m).toFinset

def get (m : KeyMap κ ν) (k : κ) : Option ν := AList.lookup k m

def insert (m : KeyMap κ ν) (k : κ) (v : ν) : KeyMap κ ν := AList.insert k v m

def remove (m : KeyMap κ ν) (k : κ) : KeyMap κ ν := AList.erase k m

/-- keep the entries that pass the test -/
def retain (m : KeyMap κ ν) (p : κ → ν → Bool) : KeyMap κ ν :=
  ⟨m.entries.filter fun e => p e.1 e.2,
    List.Pairwise.sublist (List.Sublist.map _ List.filter_sublist) m.nodupKeys⟩

def collect (l : List (κ × ν)) : KeyMap κ ν := l.foldl (fun m e => m.insert e.1 e.2) empty

@[simp] theorem get_empty (k : κ) : (empty : KeyMap κ ν).get k = none := AList.lookup_empty k

theorem get_insert (m : KeyMap κ ν) (k k' : κ) (v : ν) :
    (m.insert k v).get k' = if k' = k then some v else m.get k' := by
  by_cases h : k' = k
  · subst h
    rw [if_pos rfl]
    exact AList.lookup_insert m
  · rw [if_neg h]
    exact AList.lookup_insert_ne h

theorem get_remove (m : KeyMap κ ν) (k k' : κ) :
    (m.remove k).get k' = if k' = k then none else m.get k' := by
  by_cases h : k' = k
  · subst h
    rw [if_pos rfl]
    exact AList.lookup_erase _ m
  · rw [if_neg h]
    exact AList.lookup_erase_ne h

theorem get_eq_some {m : KeyMap κ ν} {k : κ} {v : ν} :
    m.get k = some v ↔ (⟨k, v⟩ : Sigma fun _ : κ => ν) ∈ m.entries := AList.mem_lookup_iff

theorem get_retain (m : KeyMap κ ν) (p : κ → ν → Bool) (k : κ) :
    (m.retain p).get k = (m.get k).filter (p k) := by
  have hmem : ∀ v, (m.retain p).get k = some v ↔ m.get k = some v ∧ p k v = true := by
    intro v
    rw [get_eq_some, get_eq_some]
    exact List.mem_filter
  apply Option.ext
  intro v
  rw [hmem v, Option.filter_eq_some_iff]

theorem mem_toList {m : KeyMap κ ν} {k : κ} {v : ν} : (k, v) ∈ m.toList ↔ m.get k = some v := by
  rw [get_eq_some, toList, List.mem_map]
  constructor
  · rintro ⟨⟨k', v'⟩, he, heq⟩
    cases heq
    exact he
  · exact fun h => ⟨_, h, rfl⟩

theorem mem_values {m : KeyMap κ ν} {v : ν} : v ∈ m.values ↔ ∃ k, m.get k = some v := by
  rw [values, List.mem_map]
  constructor
  · rintro ⟨⟨k, v'⟩, he, rfl⟩
    exact ⟨k, get_eq_some.mpr he⟩
  · rintro ⟨k, h⟩
    exact ⟨_, get_eq_some.mp h, rfl⟩

theorem mem_keySet {m : KeyMap κ ν} {k : κ} : k ∈ m.keySet ↔ ∃ v, m.get k = some v := by
  rw [keySet, List.mem_toFinset]
  exact (AList.lookup_isSome (s := m)).symm.trans Option.isSome_iff_exists

theorem card_keySet (m : KeyMap κ ν) : m.keySet.card = m.size := by
  rw [keySet, List.toFinset_card_of_nodup (AList.keys_nodup m)]
  exact List.length_map _

theorem size_le {m n : KeyMap κ ν} (h : ∀ k v, n.get k = some v → m.get k = some v) :
    n.size ≤ m.size := by
  rw [← card_keySet, ← card_keySet]
  refine Finset.card_le_card fun k hk => ?_
  obtain ⟨v, hv⟩ := mem_keySet.mp hk
  exact mem_keySet.mpr ⟨v, h k v hv⟩

theorem size_insert_le (m : KeyMap κ ν) (k : κ) (v : ν) : (m.insert k v).size ≤ m.size + 1 := by
  rw [← card_keySet, ← card_keySet]
  refine (Finset.card_le_card fun j hj => ?_).trans (Finset.card_insert_le k m.keySet)
  obtain ⟨w, hw⟩ := mem_keySet.mp hj
  rw [get_insert] at hw
  split at hw
  · next he => exact he ▸ Finset.mem_insert_self _ _
  · exact Finset.mem_insert_of_mem (mem_keySet.mpr ⟨w, hw⟩)

theorem get_foldl_insert (l : List (κ × ν)) (m : KeyMap κ ν) (k : κ) :
    (l.foldl (fun m e => m.insert e.1 e.2) m).get k =
      ((l.reverse.find? fun e => e.1 = k).map Prod.snd).or (m.get k) := by
  induction l generalizing m with
  | nil => rfl
  | cons e l ih =>
    rw [List.foldl_cons, ih, get_insert, List.reverse_cons, List.find?_append]
    cases hf : l.reverse.find? fun e => decide (e.1 = k) with
    | some e' => rfl
    | none =>
      by_cases h : e.1 = k
      · simp [h]
      · have h' : ¬ k = e.1 := fun hc => h hc.symm
        simp [h, h']

/-- the last entry under a key wins -/
theorem get_collect (l : List (κ × ν)) (k : κ) :
    (collect l).get k = (l.reverse.find? fun e => e.1 = k).map Prod.snd := by
  rw [collect, get_foldl_insert]
  simp

theorem mem_of_get_collect {l : List (κ × ν)} {k : κ} {v : ν} (h : (collect l).get k = some v) :
    (k, v) ∈ l := by
  rw [get_collect, Option.map_eq_some_iff] at h
  obtain ⟨⟨k', v'⟩, hf, rfl⟩ := h
  have hk : k' = k := by simpa using List.find?_some hf
  have hm := List.mem_reverse.mp (List.mem_of_find?_eq_some hf)
  rwa [hk] at hm

theorem get_collect_eq_none {l : List (κ × ν)} {k : κ} :
    (collect l).get k = none ↔ ∀ e ∈ l, e.1 ≠ k := by
  rw [get_collect, Option.map_eq_none_iff, List.find?_eq_none]
  simp

/-- with distinct keys every entry is found -/
theorem get_collect_of_nodup {l : List (κ × ν)} (hnd : (l.map Prod.fst).Nodup) {k : κ} {v : ν}
    (h : (k, v) ∈ l) : (collect l).get k = some v := by
  cases hg : (collect l).get k with
  | none => exact absurd rfl (get_collect_eq_none.mp hg (k, v) h)
  | some v' =>
    have hm := mem_of_get_collect hg
    have he : ((k, v) : κ × ν) = (k, v') := List.inj_on_of_nodup_map hnd h hm rfl
    rw [(Prod.mk.inj he).2]

end KeyMap
