import AnvilRing.Lib.KeyMap
import AnvilRing.Lib.Bytes

/-!
# The registry of the hub

The three maps of `Registry` and the operations on them.  A live session is its generation; an
operation returns the generations that it displaced and that its caller still has to close.  Time
is in nanoseconds since the epoch, and `digest` stands for the SHA-256 hex digest.

* `Registry.register`, `replaceRecords`, `revoke`, `attach`, `detach`, `authorize`;
* `Registry.Inv`               what ties `by_credential`, `by_id` and `live` together;
* `Registry.Inv.register` ...  every operation keeps it.
-/

namespace AnvilRing
open Wire

def nanosPerSec : Nat := 1000000000

/-- `Duration::MAX` -/
def durationMax : Nat := (2 ^ 64 - 1) * nanosPerSec + 999999999

/-- the last second that a `SystemTime` can hold -/
def systemTimeMax : Nat := 2 ^ 63 - 1

structure Tether where
  id : String
  label : String
  credentialHash : String
  active : Bool
  expiresAt : Option Nat
  deriving DecidableEq, Repr

/-- what is left of a registration at time `now`; `none` once it is over -/
def Tether.remaining (now : Nat) (t : Tether) : Option Nat :=
  if t.active then
    match t.expiresAt with
    | none => some durationMax
    | some seconds =>
      if seconds ≤ systemTimeMax ∧ now < seconds * nanosPerSec then
        some (seconds * nanosPerSec - now)
      else none
  else none

/-- `admin::Record` -/
structure Record where
  id : String
  label : String
  credentialHash : String
  active : Bool
  expiresAt : Nat
  deriving DecidableEq, Repr

def Record.tether (r : Record) : Tether :=
  { id := r.id, label := r.label, credentialHash := r.credentialHash, active := r.active
    expiresAt := some r.expiresAt }

structure Lease where
  tetherId : String
  ttl : Nat
  deriving DecidableEq, Repr

structure Registry where
  /-- credential hash to tether id -/
  byCredential : KeyMap String String := .empty
  byId : KeyMap String Tether := .empty
  live : KeyMap String Nat := .empty
  nextGeneration : Nat := 1
  lease : Nat

namespace Registry

def new (lease : Nat) : Registry := { lease := max lease (5 * nanosPerSec) }

/-! ## the operations -/

/-- `register`; the generation it displaced -/
def register (digest : Bytes → String) (reg : Registry) (id label : String) (credential : Bytes) :
    Registry × List Nat :=
  let tether : Tether :=
    { id := id, label := label, credentialHash := digest credential, active := true
      expiresAt := none }
  let credentials :=
    match reg.byId.get id with
    | some previous =>
      if reg.byCredential.get previous.credentialHash = some previous.id then
        reg.byCredential.remove previous.credentialHash
      else reg.byCredential
    | none => reg.byCredential
  ({ reg with
      byId := reg.byId.insert id tether
      byCredential := credentials.insert tether.credentialHash id
      live := reg.live.remove id }, (reg.live.get id).toList)

/-- the map that a snapshot puts in the place of `by_id` -/
def replacement (records : List Record) : KeyMap String Tether :=
  .collect (records.map fun r => (r.id, r.tether))

/-- the session of `id` survives the snapshot -/
def unchanged (now : Nat) (next old : KeyMap String Tether) (id : String) : Bool :=
  match next.get id, old.get id with
  | some next, some old =>
    (next.remaining now).isSome && next.credentialHash == old.credentialHash &&
      next.expiresAt == old.expiresAt
  | _, _ => false

/-- `replace_records`; `order` is the order in which `replacement.values()` comes -/
def replaceRecords (now : Nat) (records : List Record) (order : List Tether) (reg : Registry) :
    Registry × List Nat :=
  let next := replacement records
  ({ reg with
      live := reg.live.retain fun id _ => unchanged now next reg.byId id
      byCredential := .collect (order.map fun t => (t.credentialHash, t.id))
      byId := next },
    (reg.live.toList.filter fun e => !unchanged now next reg.byId e.1).map Prod.snd)

def authorize (digest : Bytes → String) (now : Nat) (reg : Registry) (credential : Bytes) :
    Option Lease :=
  (reg.byCredential.get (digest credential)).bind fun id =>
  (reg.byId.get id).bind fun tether =>
  (tether.remaining now).bind fun remaining =>
  if remaining < nanosPerSec then none else some { tetherId := id, ttl := min reg.lease remaining }

/-- `revoke`: whether it changed anything, and the generation it displaced -/
def revoke (reg : Registry) (id : String) : Bool × Registry × List Nat :=
  let changed := (reg.byId.get id).any Tether.active
  let byId :=
    match reg.byId.get id with
    | some t => if t.active then reg.byId.insert id { t with active := false } else reg.byId
    | none => reg.byId
  (changed, { reg with byId := byId, live := reg.live.remove id }, (reg.live.get id).toList)

/-- `attach`: the new generation, and the one it displaced -/
def attach (digest : Bytes → String) (now : Nat) (reg : Registry) (id : String)
    (credential : Bytes) : Option (Nat × Registry × List Nat) :=
  (reg.byId.get id).bind fun tether =>
  if (tether.remaining now).isNone ∨ tether.credentialHash ≠ digest credential ∨
      reg.byCredential.get (digest credential) ≠ some id then none
  else
    some (reg.nextGeneration,
      { reg with
        nextGeneration := reg.nextGeneration + 1
        live := reg.live.insert id reg.nextGeneration },
      (reg.live.get id).toList)

/-- `detach`: only the session that is registered goes -/
def detach (reg : Registry) (id : String) (generation : Nat) : Registry :=
  if reg.live.get id = some generation then { reg with live := reg.live.remove id } else reg

def isActive (now : Nat) (reg : Registry) (id : String) : Bool :=
  (reg.byId.get id).any fun t => (t.remaining now).isSome

/-! ## what a replacement holds -/

theorem get_replacement {records : List Record} {id : String} {t : Tether}
    (h : (replacement records).get id = some t) : ∃ r ∈ records, r.id = id ∧ t = r.tether := by
  have hm := KeyMap.mem_of_get_collect h
  obtain ⟨r, hr, he⟩ := List.mem_map.mp hm
  cases he
  exact ⟨r, hr, rfl, rfl⟩

theorem replacement_keys {records : List Record} {id : String} {t : Tether}
    (h : (replacement records).get id = some t) : t.id = id := by
  obtain ⟨r, _, rfl, rfl⟩ := get_replacement h
  rfl

/-- the new `by_credential` points into the new `by_id` -/
theorem get_byCredential_replaceRecords {now : Nat} {records : List Record} {order : List Tether}
    {reg : Registry} (ho : order.Perm (replacement records).values) {h id : String}
    (hg : (reg.replaceRecords now records order).1.byCredential.get h = some id) :
    ∃ t, (replacement records).get id = some t ∧ t.credentialHash = h := by
  have hm := KeyMap.mem_of_get_collect hg
  obtain ⟨t, ht, he⟩ := List.mem_map.mp hm
  cases he
  obtain ⟨k, hk⟩ := KeyMap.mem_values.mp (ho.mem_iff.mp ht)
  exact ⟨t, replacement_keys hk ▸ hk, rfl⟩

theorem unchanged_iff {now : Nat} {next old : KeyMap String Tether} {id : String} :
    unchanged now next old id = true ↔ ∃ n o, next.get id = some n ∧ old.get id = some o ∧
      (n.remaining now).isSome = true ∧ n.credentialHash = o.credentialHash ∧
      n.expiresAt = o.expiresAt := by
  unfold unchanged
  cases hn : next.get id with
  | none => simp
  | some n =>
    cases ho : old.get id with
    | none => simp
    | some o => simp [and_assoc]

theorem remaining_active {now : Nat} {t : Tether} (h : (t.remaining now).isSome = true) :
    t.active = true := by
  unfold Tether.remaining at h
  cases ha : t.active with
  | true => rfl
  | false => simp [ha] at h

/-! ## what an operation displaces -/

/-- `gens` are the generations that an operation took out of `live` -/
structure Displaces (reg reg' : Registry) (gens : List Nat) : Prop where
  kept : ∀ id g, reg.live.get id = some g → reg'.live.get id = some g ∨ g ∈ gens
  gone : ∀ g ∈ gens, ∃ id, reg.live.get id = some g ∧ reg'.live.get id ≠ some g

theorem displaces_remove {reg reg' : Registry} {id : String}
    (h : reg'.live = reg.live.remove id) : Displaces reg reg' (reg.live.get id).toList where
  kept k g hk := by
    by_cases hkid : k = id
    · right
      rw [← hkid, hk]
      exact List.mem_singleton_self g
    · left
      rw [h, KeyMap.get_remove, if_neg hkid]
      exact hk
  gone g hg := by
    refine ⟨id, Option.mem_toList.mp hg, ?_⟩
    rw [h, KeyMap.get_remove, if_pos rfl]
    exact nofun

theorem displaces_register (digest : Bytes → String) (reg : Registry) (id label : String)
    (credential : Bytes) :
    Displaces reg (reg.register digest id label credential).1
      (reg.register digest id label credential).2 := displaces_remove rfl

theorem displaces_revoke (reg : Registry) (id : String) :
    Displaces reg (reg.revoke id).2.1 (reg.revoke id).2.2 := displaces_remove rfl

theorem displaces_replaceRecords (now : Nat) (records : List Record) (order : List Tether)
    (reg : Registry) :
    Displaces reg (reg.replaceRecords now records order).1
      (reg.replaceRecords now records order).2 where
  kept id g hg := by
    cases hu : unchanged now (replacement records) reg.byId id with
    | true =>
      left
      show (reg.live.retain _).get id = some g
      rw [KeyMap.get_retain, hg]
      exact Option.filter_eq_some_iff.mpr ⟨rfl, hu⟩
    | false =>
      right
      refine List.mem_map.mpr ⟨(id, g), List.mem_filter.mpr ⟨KeyMap.mem_toList.mpr hg, ?_⟩, rfl⟩
      simp [hu]
  gone g hg := by
    obtain ⟨⟨id, g'⟩, he, rfl⟩ := List.mem_map.mp hg
    obtain ⟨hm, hu⟩ := List.mem_filter.mp he
    refine ⟨id, KeyMap.mem_toList.mp hm, ?_⟩
    show (reg.live.retain _).get id ≠ some g'
    rw [KeyMap.get_retain]
    intro hf
    obtain ⟨_, hp⟩ := Option.filter_eq_some_iff.mp hf
    rw [hp] at hu
    cases hu

theorem attach_some {digest : Bytes → String} {now : Nat} {reg reg' : Registry} {id : String}
    {credential : Bytes} {g : Nat} {gens : List Nat}
    (h : reg.attach digest now id credential = some (g, reg', gens)) :
    g = reg.nextGeneration ∧ gens = (reg.live.get id).toList ∧
    reg' = { reg with
      nextGeneration := reg.nextGeneration + 1
      live := reg.live.insert id reg.nextGeneration } ∧
    ∃ t, reg.byId.get id = some t ∧ (t.remaining now).isSome = true ∧
      t.credentialHash = digest credential ∧
      reg.byCredential.get (digest credential) = some id := by
  obtain ⟨t, ht, h⟩ := Option.bind_eq_some_iff.mp h
  split at h
  · cases h
  · next hno =>
    rw [not_or, not_or] at hno
    cases h
    refine ⟨rfl, rfl, rfl, t, ht, ?_, not_not.mp hno.2.1, not_not.mp hno.2.2⟩
    exact Option.ne_none_iff_isSome.mp fun hn => hno.1 (hn ▸ rfl)

/-! ## the invariant -/

/-- `owner g` and `hash g` are the tether id and the credential digest that generation `g`
attached with. -/
structure Inv (reg : Registry) (owner hash : Nat → String) : Prop where
  keys : ∀ id t, reg.byId.get id = some t → t.id = id
  credential : ∀ h id, reg.byCredential.get h = some id →
    ∃ t, reg.byId.get id = some t ∧ t.credentialHash = h
  bound : ∀ id g, reg.live.get id = some g → 0 < g ∧ g < reg.nextGeneration
  owned : ∀ id g, reg.live.get id = some g → owner g = id
  latest : ∀ id g, reg.live.get id = some g → ∀ g', 0 < g' → g' < reg.nextGeneration →
    owner g' = id → g' ≤ g
  record : ∀ id g, reg.live.get id = some g →
    ∃ t, reg.byId.get id = some t ∧ t.active = true ∧ t.credentialHash = hash g
  next : 0 < reg.nextGeneration

section
variable {reg reg' : Registry} {owner hash owner' hash' : Nat → String}

theorem inv_new (lease : Nat) (owner hash : Nat → String) : (new lease).Inv owner hash where
  keys _ _ h := nomatch h
  credential _ _ h := nomatch h
  bound _ _ h := nomatch h
  owned _ _ h := nomatch h
  latest _ _ h := nomatch h
  record _ _ h := nomatch h
  next := Nat.one_pos

/-- an operation that keeps the maps of identities and takes sessions out of `live` -/
theorem Inv.shrink (h : reg.Inv owner hash)
    (hl : ∀ id g, reg'.live.get id = some g → reg.live.get id = some g)
    (hn : reg'.nextGeneration = reg.nextGeneration)
    (hk : ∀ id t, reg'.byId.get id = some t → t.id = id)
    (hc : ∀ h id, reg'.byCredential.get h = some id →
      ∃ t, reg'.byId.get id = some t ∧ t.credentialHash = h)
    (hr : ∀ id g, reg'.live.get id = some g →
      ∃ t, reg'.byId.get id = some t ∧ t.active = true ∧ t.credentialHash = hash g) :
    reg'.Inv owner hash where
  keys := hk
  credential := hc
  bound id g hg := hn ▸ h.bound id g (hl id g hg)
  owned id g hg := h.owned id g (hl id g hg)
  latest id g hg := hn ▸ h.latest id g (hl id g hg)
  record := hr
  next := hn ▸ h.next

/-- `register` hands one digest to `id` and leaves no other with it -/
theorem Inv.get_byCredential_register (h : reg.Inv owner hash) {digest : Bytes → String}
    {id label : String} {credential : Bytes} {hsh k : String}
    (hk : (reg.register digest id label credential).1.byCredential.get hsh = some k) :
    (hsh = digest credential ∧ k = id) ∨ (k ≠ id ∧ reg.byCredential.get hsh = some k) := by
  change KeyMap.get (KeyMap.insert _ (digest credential) id) hsh = some k at hk
  rw [KeyMap.get_insert] at hk
  split at hk
  · next hd => exact .inl ⟨hd, (Option.some.inj hk).symm⟩
  · right
    split at hk
    · next previous hp =>
      split at hk
      · next hown =>
        rw [KeyMap.get_remove] at hk
        split at hk
        · cases hk
        · next hne =>
          refine ⟨?_, hk⟩
          rintro rfl
          obtain ⟨t, ht, hth⟩ := h.credential hsh k hk
          rw [hp] at ht
          cases ht
          exact hne hth.symm
      · next hown =>
        refine ⟨?_, hk⟩
        rintro rfl
        obtain ⟨t, ht, hth⟩ := h.credential hsh k hk
        rw [hp] at ht
        cases ht
        rw [hth, h.keys k previous hp] at hown
        exact hown hk
    · next hp =>
      refine ⟨?_, hk⟩
      rintro rfl
      obtain ⟨t, ht, _⟩ := h.credential hsh k hk
      rw [hp] at ht
      cases ht

theorem get_byId_register (reg : Registry) (digest : Bytes → String) {id k : String}
    (label : String) (credential : Bytes) (hk : k ≠ id) :
    (reg.register digest id label credential).1.byId.get k = reg.byId.get k := by
  show (reg.byId.insert id _).get k = _
  rw [KeyMap.get_insert, if_neg hk]

theorem live_register {digest : Bytes → String} {id k label : String} {credential : Bytes} {g : Nat}
    (hg : (reg.register digest id label credential).1.live.get k = some g) :
    k ≠ id ∧ reg.live.get k = some g := by
  change (reg.live.remove id).get k = some g at hg
  rw [KeyMap.get_remove] at hg
  split at hg
  · cases hg
  · next hk => exact ⟨hk, hg⟩

theorem Inv.register (h : reg.Inv owner hash) (digest : Bytes → String) (id label : String)
    (credential : Bytes) : (reg.register digest id label credential).1.Inv owner hash := by
  refine h.shrink (fun k g hg => (live_register hg).2) rfl ?_ ?_ ?_
  · intro k t ht
    change (reg.byId.insert id _).get k = some t at ht
    rw [KeyMap.get_insert] at ht
    split at ht
    · next hk =>
      cases ht
      exact hk.symm
    · exact h.keys k t ht
  · intro hsh k hk
    rcases h.get_byCredential_register hk with ⟨rfl, rfl⟩ | ⟨hne, hold⟩
    · show ∃ t, (reg.byId.insert k _).get k = some t ∧ _
      rw [KeyMap.get_insert, if_pos rfl]
      exact ⟨_, rfl, rfl⟩
    · rw [get_byId_register reg digest label credential hne]
      exact h.credential hsh k hold
  · intro k g hg
    obtain ⟨hk, hg⟩ := live_register hg
    rw [get_byId_register reg digest label credential hk]
    exact h.record k g hg

theorem live_replaceRecords {now : Nat} {records : List Record} {order : List Tether} {k : String}
    {g : Nat} (hg : (reg.replaceRecords now records order).1.live.get k = some g) :
    reg.live.get k = some g ∧ unchanged now (replacement records) reg.byId k = true := by
  change (reg.live.retain _).get k = some g at hg
  rw [KeyMap.get_retain] at hg
  exact Option.filter_eq_some_iff.mp hg

theorem Inv.replaceRecords (h : reg.Inv owner hash) (now : Nat) (records : List Record)
    {order : List Tether} (ho : order.Perm (replacement records).values) :
    (reg.replaceRecords now records order).1.Inv owner hash := by
  refine h.shrink (fun k g hg => (live_replaceRecords hg).1) rfl
    (fun k t ht => replacement_keys ht) (fun hsh k hk => get_byCredential_replaceRecords ho hk) ?_
  intro k g hg
  obtain ⟨hg, hu⟩ := live_replaceRecords hg
  obtain ⟨n, o, hn, ho', hrem, hh, _⟩ := unchanged_iff.mp hu
  obtain ⟨t, ht, _, hth⟩ := h.record k g hg
  obtain rfl : o = t := Option.some.inj (ho'.symm.trans ht)
  exact ⟨n, hn, remaining_active hrem, hh.trans hth⟩

/-- `revoke` changes one record and only its `active` -/
theorem get_byId_revoke (reg : Registry) (id k : String) :
    (reg.revoke id).2.1.byId.get k = (reg.byId.get k).map fun t =>
      if k = id then { t with active := false } else t := by
  show KeyMap.get (match reg.byId.get id with
    | some t => if t.active then reg.byId.insert id { t with active := false } else reg.byId
    | none => reg.byId) k = _
  by_cases hk : k = id
  · subst hk
    cases ht : reg.byId.get k with
    | none => simp [ht]
    | some t =>
      by_cases ha : t.active = true
      · simp [ha, KeyMap.get_insert]
      · have ha' : { t with active := false } = t := by
          rw [← Bool.eq_false_iff.mpr ha]
        simp [ha, ht, ha']
  · cases ht : reg.byId.get id with
    | none => simp [hk]
    | some t =>
      by_cases ha : t.active = true
      · simp [ha, KeyMap.get_insert, hk]
      · simp [ha, hk]

theorem live_revoke {id k : String} {g : Nat} (hg : (reg.revoke id).2.1.live.get k = some g) :
    k ≠ id ∧ reg.live.get k = some g := by
  change (reg.live.remove id).get k = some g at hg
  rw [KeyMap.get_remove] at hg
  split at hg
  · cases hg
  · next hk => exact ⟨hk, hg⟩

theorem Inv.revoke (h : reg.Inv owner hash) (id : String) :
    (reg.revoke id).2.1.Inv owner hash := by
  refine h.shrink (fun k g hg => (live_revoke hg).2) rfl ?_ ?_ ?_
  · intro k t ht
    rw [get_byId_revoke] at ht
    obtain ⟨t', ht', rfl⟩ := Option.map_eq_some_iff.mp ht
    have hid := h.keys k t' ht'
    split
    · exact hid
    · exact hid
  · intro hsh k hk
    obtain ⟨t, ht, hth⟩ := h.credential hsh k hk
    rw [get_byId_revoke, ht]
    refine ⟨_, rfl, ?_⟩
    split
    · exact hth
    · exact hth
  · intro k g hg
    obtain ⟨hk, hg⟩ := live_revoke hg
    rw [get_byId_revoke]
    obtain ⟨t, ht, ha, hth⟩ := h.record k g hg
    exact ⟨t, by rw [ht, Option.map_some, if_neg hk], ha, hth⟩

theorem live_detach {id k : String} {g g' : Nat} (hg : (reg.detach id g).live.get k = some g') :
    reg.live.get k = some g' := by
  unfold Registry.detach at hg
  split at hg
  · change (reg.live.remove id).get k = some g' at hg
    rw [KeyMap.get_remove] at hg
    split at hg
    · cases hg
    · exact hg
  · exact hg

/-- `detach` works on `live` only -/
theorem detach_eq (reg : Registry) (id : String) (g : Nat) :
    reg.detach id g = { reg with live := (reg.detach id g).live } := by
  unfold Registry.detach
  split <;> rfl

theorem Inv.detach (h : reg.Inv owner hash) (id : String) (g : Nat) :
    (reg.detach id g).Inv owner hash := by
  have heq := detach_eq reg id g
  refine h.shrink (fun k g' hg => live_detach hg) (by rw [heq]) ?_ ?_ ?_
  · rw [heq]
    exact h.keys
  · rw [heq]
    exact h.credential
  · intro k g' hg
    have hr := h.record k g' (live_detach hg)
    rw [heq]
    exact hr

/-- the attached session is the newest of its tether -/
theorem Inv.attach (h : reg.Inv owner hash) {digest : Bytes → String} {now : Nat} {id : String}
    {credential : Bytes} {g : Nat} {gens : List Nat}
    (ha : reg.attach digest now id credential = some (g, reg', gens))
    (hold : ∀ g' < reg.nextGeneration, owner' g' = owner g' ∧ hash' g' = hash g')
    (hnew : owner' reg.nextGeneration = id ∧ hash' reg.nextGeneration = digest credential) :
    reg'.Inv owner' hash' := by
  obtain ⟨rfl, rfl, rfl, t, ht, hrem, hth, _⟩ := attach_some ha
  have hlive : ∀ k g, (reg.live.insert id reg.nextGeneration).get k = some g →
      (k = id ∧ g = reg.nextGeneration) ∨ (k ≠ id ∧ reg.live.get k = some g) := by
    intro k g hg
    rw [KeyMap.get_insert] at hg
    split at hg
    · next hk => exact .inl ⟨hk, (Option.some.inj hg).symm⟩
    · next hk => exact .inr ⟨hk, hg⟩
  constructor
  · exact h.keys
  · exact h.credential
  · intro k g hg
    rcases hlive k g hg with ⟨_, rfl⟩ | ⟨_, hg⟩
    · exact ⟨h.next, Nat.lt_succ_self _⟩
    · exact ⟨(h.bound k g hg).1, Nat.lt_succ_of_lt (h.bound k g hg).2⟩
  · intro k g hg
    rcases hlive k g hg with ⟨rfl, rfl⟩ | ⟨_, hg⟩
    · exact hnew.1
    · rw [(hold g (h.bound k g hg).2).1]
      exact h.owned k g hg
  · intro k g hg g' h0 h1 hown
    rcases hlive k g hg with ⟨_, rfl⟩ | ⟨hk, hg⟩
    · exact Nat.le_of_lt_succ h1
    · rcases Nat.lt_succ_iff_lt_or_eq.mp h1 with h1 | rfl
      · rw [(hold g' h1).1] at hown
        exact h.latest k g hg g' h0 h1 hown
      · rw [hnew.1] at hown
        exact absurd hown.symm hk
  · intro k g hg
    rcases hlive k g hg with ⟨rfl, rfl⟩ | ⟨_, hg⟩
    · exact ⟨t, ht, remaining_active hrem, hth.trans hnew.2.symm⟩
    · rw [(hold g (h.bound k g hg).2).2]
      exact h.record k g hg
  · exact Nat.succ_pos _

end

end Registry

end AnvilRing
