import AnvilRing.Hub.Control
import AnvilRing.Admin.Standing

/-!
# The hub authorizes what the store says

The hub beside the state directory that its operator administers.  One reader at a time takes a
snapshot; `refresh_registrations` puts it in place, or clears the registrations when the read fails
or takes too long.  Administration, refreshes and the hub's own steps interleave freely.

* `Authority.step`        the machine;
* `Reflects`              the registry's maps are those of a history;
* `authorize_reflects`    then a credential is authorized exactly while it stands;
* `authority_refines`     this is so after every refresh, and after a failed one nobody is.
-/

namespace AnvilRing
open Wire

inductive RefreshPc where
  | sleeping
  /-- the blocking read runs; what it returned, with the history it saw -/
  | reading (result : Option (Except AdminError (List Record) × List Commit))
  /-- timed out: the same reader is waited for, and its result dropped -/
  | abandoned

structure Authority where
  store : Durable
  world : World
  refresh : RefreshPc := .sleeping
  /-- history: what was committed, in the order of the transactions -/
  history : List Commit := []
  /-- history: the commits in front of the snapshot in place; none after a failed refresh -/
  applied : Option (List Commit) := none

inductive AuthorityAction where
  | admin (a : AdminCall × List Input)
  /-- the pause is over -/
  | refresh
  /-- the reader opens the store and takes its snapshot, unless that fails -/
  | read (fault : Option AdminError)
  /-- the read was awaited; `order` is the iteration order of the replacement -/
  | finish (order : List Tether)
  | timeout
  | join
  | hub (a : WorldAction)

namespace Authority

/-- `Store::open` and `snapshot` -/
def read (store : Durable) (fault : Option AdminError) : Except AdminError (List Record) :=
  match fault, store.db with
  | some e, _ => .error e
  | none, none => .error .system
  | none, some db => db.snapshot

/-- `replace_records`, once the routing lock is free -/
def replace (digest : Bytes → String) (lib : HttpLib) (s : Authority) (records : List Record)
    (order : List Tether) (applied : Option (List Commit)) (refresh : RefreshPc) :
    Option Authority :=
  (World.step digest lib s.world (.replaceRecords records order)).map fun w =>
    { s with world := w, refresh := refresh, applied := applied }

def finish (digest : Bytes → String) (lib : HttpLib) (s : Authority) (order : List Tether) :
    Option Authority :=
  match s.refresh with
  | .reading (some (.ok records, history)) =>
    s.replace digest lib records order (some history) .sleeping
  | .reading (some (.error _, _)) => s.replace digest lib [] [] none .sleeping
  | _ => none

/-- a hub with a state directory changes its registrations by refreshes alone -/
def hubOwn : WorldAction → Bool
  | .register .. => false
  | .revoke _ => false
  | .replaceRecords .. => false
  | _ => true

def step (digest : Bytes → String) (lib : HttpLib) (s : Authority) :
    AuthorityAction → Option Authority
  | .admin a => (Durable.step digest s.store a).map fun store =>
    { s with store := store, history := s.history ++ s.store.commits digest a }
  | .refresh =>
    match s.refresh with
    | .sleeping => some { s with refresh := .reading none }
    | _ => none
  | .read fault =>
    match s.refresh with
    | .reading none =>
      some { s with refresh := .reading (some (read s.store fault, s.history)) }
    | _ => none
  | .finish order => s.finish digest lib order
  | .timeout =>
    match s.refresh with
    | .reading _ => s.replace digest lib [] [] none .abandoned
    | _ => none
  | .join =>
    match s.refresh with
    | .abandoned => some { s with refresh := .sleeping }
    | _ => none
  | .hub a =>
    if hubOwn a then (World.step digest lib s.world a).map fun w => { s with world := w } else none

/-- a hub that has just started, and a directory that was not initialized -/
def Initial (s : Authority) : Prop :=
  ∃ files w, World.Initial w ∧ s = { store := { files := files }, world := w }

abbrev Reachable (digest : Bytes → String) (lib : HttpLib) (s : Authority) : Prop :=
  Machine.Reachable (step digest lib) Initial s

end Authority

/-! ## the registry of a history -/

/-- the registry holds what stands in the history -/
structure Reflects (digest : Bytes → String) (history : List Commit) (reg : Registry) : Prop where
  standing : ∀ id t, reg.byId.get id = some t → ∃ s, standing history id = some s ∧
    t.credentialHash = digest s.credential ∧ t.active = s.active ∧
    t.expiresAt = some s.expiresAt ∧ s.expiresAt ≤ systemTimeMax
  tether : ∀ id s, AnvilRing.standing history id = some s → ∃ t, reg.byId.get id = some t
  owner : ∀ hash id, reg.byCredential.get hash = some id →
    ∃ t, reg.byId.get id = some t ∧ t.credentialHash = hash
  owned : ∀ id t, reg.byId.get id = some t → reg.byCredential.get t.credentialHash ≠ none

/-- nothing is registered, and no session is live -/
structure Cleared (reg : Registry) : Prop where
  byId : ∀ id, reg.byId.get id = none
  byCredential : ∀ hash, reg.byCredential.get hash = none
  live : ∀ id, reg.live.get id = none

section
variable {digest : Bytes → String} {history : List Commit} {reg : Registry} {c : Bytes} {u : Nat}

theorem Cleared.authorize (h : Cleared reg) : reg.authorize digest u c = none := by
  unfold Registry.authorize
  rw [h.byCredential]
  rfl

/-- the time left of a registration with an expiry -/
theorem remaining_expiring {t : Tether} {e : Nat} (he : t.expiresAt = some e)
    (hmax : e ≤ systemTimeMax) : t.remaining u =
      if t.active = true ∧ u < e * nanosPerSec then some (e * nanosPerSec - u) else none := by
  unfold Tether.remaining
  rw [he]
  by_cases hactive : t.active = true
  · rw [if_pos hactive]
    by_cases hleft : u < e * nanosPerSec
    · rw [if_pos ⟨hactive, hleft⟩]
      exact if_pos ⟨hmax, hleft⟩
    · rw [if_neg fun h => hleft h.2]
      exact if_neg fun h => hleft h.2
  · rw [if_neg hactive, if_neg fun h => hactive h.1]

theorem authorize_tether {t : Tether} {id : String} {e : Nat} {lease : Lease}
    (hid : reg.byCredential.get (digest c) = some id) (ht : reg.byId.get id = some t)
    (he : t.expiresAt = some e) (hmax : e ≤ systemTimeMax) :
    reg.authorize digest u c = some lease ↔
      t.active = true ∧ u + nanosPerSec ≤ e * nanosPerSec ∧
        lease = ⟨id, min reg.lease (e * nanosPerSec - u)⟩ := by
  unfold Registry.authorize
  rw [hid, Option.bind_some, ht, Option.bind_some, remaining_expiring he hmax]
  have hpos : 0 < nanosPerSec := Nat.succ_pos _
  generalize nanosPerSec = second at hpos ⊢
  generalize e * second = expiry
  by_cases hleft : t.active = true ∧ u < expiry
  · rw [if_pos hleft, Option.bind_some]
    by_cases hshort : expiry - u < second
    · rw [if_pos hshort]
      constructor
      · intro h
        cases h
      · intro h
        omega
    · rw [if_neg hshort]
      constructor
      · intro h
        exact ⟨hleft.1, by omega, (Option.some.inj h).symm⟩
      · intro h
        rw [h.2.2]
  · rw [if_neg hleft]
    constructor
    · intro h
      cases h
    · intro h
      exact absurd ⟨h.1, by omega⟩ hleft

/-- the credential of a digest that the registry holds is the presented one -/
theorem Reflects.of_byCredential (hr : Reflects digest history reg)
    (hinj : Set.InjOn digest (insert c {x | x ∈ issuedCredentials history})) {id : String}
    (hid : reg.byCredential.get (digest c) = some id) :
    ∃ t s, reg.byId.get id = some t ∧ AnvilRing.standing history id = some s ∧
      s.credential = c ∧ t.active = s.active ∧ t.expiresAt = some s.expiresAt ∧
      s.expiresAt ≤ systemTimeMax := by
  obtain ⟨t, ht, hhash⟩ := hr.owner _ _ hid
  obtain ⟨s, hs, hdigest, hactive, hexp, hmax⟩ := hr.standing id t ht
  have hissued : s.credential ∈ issuedCredentials history :=
    List.mem_filterMap.mpr ⟨_, issued_of_standing hs, rfl⟩
  have heq : s.credential = c :=
    hinj (Set.mem_insert_of_mem _ hissued) (Set.mem_insert _ _) (hdigest.symm.trans hhash)
  exact ⟨t, s, ht, hs, heq, hactive, hexp, hmax⟩

/-- a credential is authorized exactly while it stands, for its id and its time -/
theorem authorize_reflects (hr : Reflects digest history reg)
    (hinj : Set.InjOn digest (insert c {x | x ∈ issuedCredentials history}))
    (hd : (issuedCredentials history).Nodup) (lease : Lease) :
    reg.authorize digest u c = some lease ↔
      ∃ id e, Stands history id c e ∧ u + nanosPerSec ≤ e * nanosPerSec ∧
        lease = ⟨id, min reg.lease (e * nanosPerSec - u)⟩ := by
  constructor
  · intro h
    obtain ⟨id, hid, -⟩ := Option.bind_eq_some_iff.mp h
    obtain ⟨t, s, ht, hs, rfl, hactive, hexp, hmax⟩ := hr.of_byCredential hinj hid
    obtain ⟨hon, hleft, hlease⟩ := (authorize_tether hid ht hexp hmax).mp h
    refine ⟨id, s.expiresAt, standing_active_iff.mp ?_, hleft, hlease⟩
    rw [hs, ← hactive.symm.trans hon]
  · intro h
    obtain ⟨id, e, hstands, hleft, hlease⟩ := h
    have hs := standing_active_iff.mpr hstands
    obtain ⟨t, ht⟩ := hr.tether id _ hs
    obtain ⟨s, hs', hdigest, hactive, hexp, hmax⟩ := hr.standing id t ht
    obtain rfl := Option.some.inj (hs.symm.trans hs')
    obtain ⟨id', hid'⟩ := Option.ne_none_iff_exists'.mp (hr.owned id t ht)
    rw [hdigest] at hid'
    obtain ⟨-, s', -, hs'', hc, -⟩ := hr.of_byCredential hinj hid'
    have hid : id' = id := by
      have hmem := issued_of_standing hs''
      rw [hc] at hmem
      exact (id_of_credential hd hmem (issued_of_standing hs)).1
    subst hid
    exact (authorize_tether hid' ht hexp hmax).mpr ⟨hactive, hleft, hlease⟩

/-- the record of a row that matches a standing -/
theorem record_standing {r : Registration} {x : Record} {s : Standing}
    (hrecord : r.record = .ok x) (hstored : r.stored = s.stored digest) :
    x.credentialHash = digest s.credential ∧ x.active = s.active ∧ x.expiresAt = s.expiresAt := by
  obtain ⟨-, -, rfl⟩ := record_ok hrecord
  obtain ⟨hhash, hrest⟩ := Prod.mk.inj hstored
  obtain ⟨hactive, hexp⟩ := Prod.mk.inj hrest
  refine ⟨hhash, ?_, ?_⟩
  · show decide (r.active = 1) = s.active
    rw [hactive]
    cases s.active <;> rfl
  · show r.expiresAt.toNat = s.expiresAt
    rw [hexp]
    rfl

/-- a snapshot that is put in place -/
theorem reflects_snapshot {db : Database} {records : List Record} {order : List Tether}
    (hm : Matches digest history db) (hsnap : db.snapshot = .ok records)
    (ho : order.Perm (Registry.replacement records).values) (now : Nat) (reg : Registry) :
    Reflects digest history (reg.replaceRecords now records order).1 := by
  obtain ⟨hnodup, hrow, hrecord⟩ := Database.snapshot_row hsnap
  refine ⟨?_, ?_, ?_, ?_⟩
  · intro id t ht
    obtain ⟨x, hx, rfl, rfl⟩ := Registry.get_replacement ht
    obtain ⟨r, hr, hrx⟩ := hrow x hx
    have hrows := hm.rows x.id
    rw [hr] at hrows
    obtain ⟨s, hs, hstored⟩ := Option.map_eq_some_iff.mp hrows.symm
    obtain ⟨hhash, hactive, hexp⟩ := record_standing hrx hstored.symm
    exact ⟨s, hs, hhash, hactive, congrArg some hexp, hm.range _ s hs⟩
  · intro id s hs
    have hrows := hm.rows id
    rw [hs] at hrows
    obtain ⟨r, hr, -⟩ := Option.map_eq_some_iff.mp hrows
    obtain ⟨x, hx, rfl, -⟩ := hrecord id r hr
    refine ⟨x.tether, KeyMap.get_collect_of_nodup ?_ (List.mem_map.mpr ⟨x, hx, rfl⟩)⟩
    rw [List.map_map]
    exact hnodup
  · intro hash id hid
    exact Registry.get_byCredential_replaceRecords ho hid
  · intro id t ht hnone
    have hmem : t ∈ order := ho.mem_iff.mpr (KeyMap.mem_values.mpr ⟨id, ht⟩)
    exact KeyMap.get_collect_eq_none.mp hnone (t.credentialHash, t.id)
      (List.mem_map.mpr ⟨t, hmem, rfl⟩) rfl

/-- `clear_records` -/
theorem cleared_replaceRecords (now : Nat) (reg : Registry) :
    Cleared (reg.replaceRecords now [] []).1 where
  byId _ := rfl
  byCredential _ := rfl
  live id := by
    show (reg.live.retain _).get id = none
    rw [KeyMap.get_retain]
    cases reg.live.get id <;> rfl

theorem Reflects.congr {reg' : Registry} (h : Reflects digest history reg)
    (hid : reg'.byId = reg.byId) (hcredential : reg'.byCredential = reg.byCredential) :
    Reflects digest history reg' := by
  obtain ⟨hstanding, htether, howner, howned⟩ := h
  rw [← hid, ← hcredential] at howner howned
  rw [← hid] at hstanding htether
  exact ⟨hstanding, htether, howner, howned⟩

end

/-! ## the hub's own steps -/

namespace World
variable {digest : Bytes → String} {lib : HttpLib} {w v : World} {a : WorldAction}

theorem detach_maps (reg : Registry) (id : String) (g : Nat) :
    (reg.detach id g).byId = reg.byId ∧ (reg.detach id g).byCredential = reg.byCredential ∧
      ∀ k, (reg.detach id g).live.get k = reg.live.get k ∨ (reg.detach id g).live.get k = none := by
  unfold Registry.detach
  split
  · refine ⟨rfl, rfl, fun k => ?_⟩
    show (reg.live.remove id).get k = _ ∨ (reg.live.remove id).get k = _
    rw [KeyMap.get_remove]
    by_cases hk : k = id
    · exact .inr (if_pos hk)
    · exact .inl (if_neg hk)
  · exact ⟨rfl, rfl, fun _ => .inl rfl⟩

/-- only the registrations' own operations touch their two maps -/
theorem Move.maps (hm : Move digest lib w a v) (hown : Authority.hubOwn a = true) :
    v.reg.byId = w.reg.byId ∧ v.reg.byCredential = w.reg.byCredential := by
  cases hm with
  | register | replaceRecords | revoke => cases hown
  | attach _ ha =>
    obtain ⟨-, -, rfl, -⟩ := Registry.attach_some ha
    exact ⟨rfl, rfl⟩
  | session =>
    show Registry.byId (if _ then _ else _) = _ ∧ Registry.byCredential (if _ then _ else _) = _
    split
    · obtain ⟨hid, hcredential, -⟩ := detach_maps w.reg _ _
      exact ⟨hid, hcredential⟩
    · exact ⟨rfl, rfl⟩
  | _ => exact ⟨rfl, rfl⟩

/-- where nothing is registered no session can attach -/
theorem Move.cleared (hm : Move digest lib w a v) (hown : Authority.hubOwn a = true)
    (h : Cleared w.reg) : Cleared v.reg := by
  obtain ⟨hid, hcredential⟩ := hm.maps hown
  refine ⟨hid ▸ h.byId, hcredential ▸ h.byCredential, ?_⟩
  intro k
  cases hm with
  | register | replaceRecords | revoke => cases hown
  | attach _ ha =>
    obtain ⟨-, -, -, t, ht, -⟩ := Registry.attach_some ha
    rw [h.byId] at ht
    cases ht
  | session =>
    show KeyMap.get (Registry.live (if _ then _ else _)) k = none
    split
    · obtain ⟨-, -, hlive⟩ := detach_maps w.reg _ _
      obtain heq | hnone := hlive k
      · exact heq.trans (h.live k)
      · exact hnone
    · exact h.live k
  | _ => exact h.live k

end World

/-! ## the invariant -/

namespace Authority
variable {digest : Bytes → String} {lib : HttpLib} {s t : Authority}

structure Inv (digest : Bytes → String) (s : Authority) : Prop where
  store : MatchesFile digest s.history s.store.db
  read : ∀ records history, s.refresh = .reading (some (.ok records, history)) →
    ∃ db, Matches digest history db ∧ db.snapshot = .ok records
  reflects : ∀ history, s.applied = some history → Reflects digest history s.world.reg
  cleared : s.applied = none → Cleared s.world.reg

theorem inv_initial (h : Initial s) : Inv digest s := by
  obtain ⟨files, w, ⟨lease, now, rfl⟩, rfl⟩ := h
  refine ⟨rfl, ?_, ?_, ?_⟩
  · intro _ _ h
    cases h
  · intro _ h
    cases h
  · intro _
    exact ⟨fun _ => rfl, fun _ => rfl, fun _ => rfl⟩

/-- a successful read has the store's rows -/
theorem read_ok {store : Durable} {fault : Option AdminError} {records : List Record}
    {history : List Commit} (hm : MatchesFile digest history store.db)
    (h : Authority.read store fault = .ok records) :
    ∃ db, Matches digest history db ∧ db.snapshot = .ok records := by
  unfold Authority.read at h
  split at h
  · cases h
  · cases h
  · next db hdb =>
    rw [hdb] at hm
    exact ⟨db, hm, h⟩

theorem replace_some {records : List Record} {order : List Tether}
    {applied : Option (List Commit)} {refresh : RefreshPc}
    (h : s.replace digest lib records order applied refresh = some t) :
    ∃ w, World.Move digest lib s.world (.replaceRecords records order) w ∧
      t = { s with world := w, refresh := refresh, applied := applied } := by
  obtain ⟨w, hw, rfl⟩ := Option.map_eq_some_iff.mp h
  exact ⟨w, World.move_of_step hw, rfl⟩

/-- what a step can do; `wait` is a refresh that begins, or one that is given up -/
inductive Move (digest : Bytes → String) (lib : HttpLib) (s : Authority) : Authority → Prop where
  | admin {a : AdminCall × List Input} {store : Durable}
      (h : Durable.step digest s.store a = some store) : Move digest lib s
        { s with store := store, history := s.history ++ s.store.commits digest a }
  | wait {refresh : RefreshPc} (hr : ∀ x, refresh ≠ .reading (some x)) :
      Move digest lib s { s with refresh := refresh }
  | read {fault : Option AdminError} : Move digest lib s
      { s with refresh := .reading (some (Authority.read s.store fault, s.history)) }
  | apply {records : List Record} {history : List Commit} {order : List Tether} {w : World}
      (hr : s.refresh = .reading (some (.ok records, history)))
      (hw : World.Move digest lib s.world (.replaceRecords records order) w) : Move digest lib s
        { s with world := w, refresh := .sleeping, applied := some history }
  | clear {refresh : RefreshPc} {w : World} (hr : ∀ x, refresh ≠ .reading (some x))
      (hw : World.Move digest lib s.world (.replaceRecords [] []) w) :
      Move digest lib s { s with world := w, refresh := refresh, applied := none }
  | hub {a : WorldAction} {w : World} (hown : hubOwn a = true)
      (hw : World.step digest lib s.world a = some w) : Move digest lib s { s with world := w }

theorem move_finish {order : List Tether} (h : s.finish digest lib order = some t) :
    Move digest lib s t := by
  unfold Authority.finish at h
  split at h
  · next records history hread =>
    obtain ⟨w, hw, rfl⟩ := replace_some h
    exact .apply hread hw
  · obtain ⟨w, hw, rfl⟩ := replace_some h
    exact .clear (fun _ hx => by cases hx) hw
  · cases h

/-- **Inversion.** Every step is one of these. -/
theorem move_of_step {a : AuthorityAction} (h : Authority.step digest lib s a = some t) :
    Move digest lib s t := by
  cases a with
  | admin a =>
    obtain ⟨store, hstore, rfl⟩ := Option.map_eq_some_iff.mp h
    exact .admin hstore
  | refresh =>
    simp only [Authority.step] at h
    split at h
    · exact Option.some.inj h ▸ .wait fun _ hx => by cases hx
    · cases h
  | read fault =>
    simp only [Authority.step] at h
    split at h
    · exact Option.some.inj h ▸ .read
    · cases h
  | finish order => exact move_finish h
  | timeout =>
    simp only [Authority.step] at h
    split at h
    · obtain ⟨w, hw, rfl⟩ := replace_some h
      exact .clear (fun _ hx => by cases hx) hw
    · cases h
  | join =>
    simp only [Authority.step] at h
    split at h
    · exact Option.some.inj h ▸ .wait fun _ hx => by cases hx
    · cases h
  | hub a =>
    simp only [Authority.step] at h
    split at h
    · next hown =>
      obtain ⟨w, hw, rfl⟩ := Option.map_eq_some_iff.mp h
      exact .hub hown hw
    · cases h

theorem Inv.hub (hi : Inv digest s) {a : WorldAction} {w : World} (hown : hubOwn a = true)
    (hw : World.step digest lib s.world a = some w) : Inv digest { s with world := w } := by
  have hm := World.move_of_step hw
  obtain ⟨hid, hcredential⟩ := hm.maps hown
  refine ⟨hi.store, hi.read, ?_, ?_⟩
  · intro history h
    exact (hi.reflects history h).congr hid hcredential
  · intro h
    exact hm.cleared hown (hi.cleared h)

theorem Inv.step {a : AuthorityAction} (hi : Inv digest s)
    (h : Authority.step digest lib s a = some t) : Inv digest t := by
  cases move_of_step h with
  | admin hstore =>
    exact ⟨hi.store.change (Durable.step_change hstore), hi.read, hi.reflects, hi.cleared⟩
  | wait hr => exact ⟨hi.store, fun _ _ h => absurd h (hr _), hi.reflects, hi.cleared⟩
  | read =>
    refine ⟨hi.store, ?_, hi.reflects, hi.cleared⟩
    intro records history hread
    obtain ⟨hresult, rfl⟩ := Prod.mk.inj (Option.some.inj (RefreshPc.reading.inj hread))
    exact read_ok hi.store hresult
  | apply hread hw =>
    obtain ⟨db, hm, hsnap⟩ := hi.read _ _ hread
    cases hw with
    | replaceRecords _ ho =>
      refine ⟨hi.store, ?_, ?_, ?_⟩
      · intro _ _ h
        cases h
      · intro _ h
        obtain rfl := Option.some.inj h
        exact reflects_snapshot hm hsnap ho _ _
      · intro h
        cases h
  | clear hr hw =>
    cases hw
    refine ⟨hi.store, fun _ _ h => absurd h (hr _), ?_, ?_⟩
    · intro _ h
      cases h
    · intro _
      exact cleared_replaceRecords _ _
  | hub hown hw => exact hi.hub hown hw

theorem Reachable.inv (h : Reachable digest lib s) : Inv digest s :=
  Machine.Reachable.invariant (fun _ h => inv_initial h) (fun _ _ _ hi h => hi.step h) h

end Authority

/-! ## the refinement -/

/-- after a refresh that applied a snapshot a credential is authorized exactly while it stands in
the history in front of it, and has a second left; after one that failed nobody is, and no session
is live.  The digest is to tell the presented credential and the issued ones apart. -/
theorem authority_refines {digest : Bytes → String} {lib : HttpLib} {s : Authority}
    (h : Authority.Reachable digest lib s) :
    (∀ history, s.applied = some history → (issuedCredentials history).Nodup →
      ∀ c, Set.InjOn digest (insert c {x | x ∈ issuedCredentials history}) → ∀ u lease,
        (s.world.reg.authorize digest u c = some lease ↔
          ∃ id e, Stands history id c e ∧ u + nanosPerSec ≤ e * nanosPerSec ∧
            lease = ⟨id, min s.world.reg.lease (e * nanosPerSec - u)⟩)) ∧
    (s.applied = none → (∀ c u, s.world.reg.authorize digest u c = none) ∧
      ∀ id, s.world.reg.live.get id = none) := by
  have hi := h.inv
  constructor
  · intro history happlied hd c hinj u lease
    exact authorize_reflects (hi.reflects history happlied) hinj hd lease
  · intro hnone
    have hcleared := hi.cleared hnone
    exact ⟨fun c u => hcleared.authorize, hcleared.live⟩

/-- a registration is refreshed into a hub that has just started -/
def refreshRun : List AuthorityAction :=
  [.admin (.init, List.replicate 11 quiet),
    .admin (.register "alpha" "rental" 60 "first", List.replicate 15 quiet), .refresh, .read none,
    .finish [⟨"alpha", "rental", zeroDigest (List.replicate 64 48), true, some 1060⟩]]

def refreshStart : Authority := { store := { files := fun _ => none }, world := freshHub }

theorem refreshRun_isSome :
    (Machine.run (Authority.step zeroDigest okLib) refreshStart refreshRun).isSome = true := by
  decide +kernel

theorem reachable_refreshRun :
    Authority.Reachable zeroDigest okLib (Option.get _ refreshRun_isSome) := by
  have hstart : Authority.Reachable zeroDigest okLib refreshStart :=
    Machine.Reachable.init ⟨fun _ => none, freshHub, ⟨_, _, rfl⟩, rfl⟩
  exact Machine.Reachable.run hstart (Option.some_get refreshRun_isSome).symm

/-- a second after its issuance the credential has 59 seconds left -/
theorem authority_refines_alpha : ∃ s : Authority, Authority.Reachable zeroDigest okLib s ∧
    s.world.reg.authorize zeroDigest (1001 * nanosPerSec) (List.replicate 64 48) =
      some ⟨"alpha", 59 * nanosPerSec⟩ := by
  refine ⟨_, reachable_refreshRun, ?_⟩
  have happlied : (Option.get _ refreshRun_isSome).applied =
      some [.issued "alpha" (List.replicate 64 48) 1060] := by
    decide +kernel
  have hinj : Set.InjOn zeroDigest (insert (List.replicate 64 48)
      {x | x ∈ issuedCredentials [.issued "alpha" (List.replicate 64 48) 1060]}) := by
    have hall : ∀ x ∈ insert (List.replicate 64 48)
        {x | x ∈ issuedCredentials [.issued "alpha" (List.replicate 64 48) 1060]},
        x = List.replicate 64 48 := by
      intro x hx
      obtain rfl | hx := hx
      · rfl
      · exact List.mem_singleton.mp hx
    intro x hx y hy _
    exact (hall x hx).trans (hall y hy).symm
  refine ((authority_refines reachable_refreshRun).1 _ happlied (by decide) _ hinj _ _).mpr ?_
  exact ⟨"alpha", 1060, ⟨[], [], rfl, fun _ hx => nomatch hx⟩, by decide +kernel,
    by decide +kernel⟩

end AnvilRing
