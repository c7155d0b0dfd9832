import AnvilRing.Hub.Control

/-!
# Revoking the owner of a credential

`register` lets a second tether take over a credential by the map alone: a session that the first
one attached with it lives on.  Revoking the owner then ends the credential, but not that session.

* `World.Owns`                     every live session's digest belongs to its own tether;
* `revoke_ends_credential`         when a revocation ends every session of the credential;
* `revoke_leaves_shared_session`   the history in which it does not.
-/

namespace AnvilRing
open Wire

namespace World
variable {digest : Bytes → String} {lib : HttpLib} {w v : World} {a : WorldAction} {c : Bytes}

/-- the action puts credential `c` into the registry -/
def Installs (digest : Bytes → String) (c : Bytes) : WorldAction → Prop
  | .register _ _ credential => digest credential = digest c
  | .replaceRecords records _ => ∃ r ∈ records, r.active = true ∧ r.credentialHash = digest c
  | _ => False

/-- what a revocation of the owner of `c` is to achieve: no live session was attached with `c`, and
`c` authorizes nobody until it is installed again -/
def CredentialEnded (digest : Bytes → String) (lib : HttpLib) (c : Bytes) (v : World) : Prop :=
  (∀ id g, v.reg.live.get id = some g → (v.sess g).credential ≠ c) ∧
    ∀ as u, (∀ a ∈ as, ¬ Installs digest c a) → Machine.run (step digest lib) v as = some u →
      u.reg.authorize digest u.now c = none

/-- The action shares no digest with a live session: a registration takes over the digest of no
other tether that is connected, and in a snapshot no other record has the digest of a session that
the snapshot keeps. -/
def Exclusive (digest : Bytes → String) (w : World) : WorldAction → Prop
  | .register id _ credential => ∀ k g t, k ≠ id → w.reg.live.get k = some g →
      w.reg.byId.get k = some t → t.credentialHash ≠ digest credential
  | .replaceRecords records _ => ∀ k g n, w.reg.live.get k = some g →
      Registry.unchanged w.now (Registry.replacement records) w.reg.byId k = true →
      (Registry.replacement records).get k = some n →
      ∀ k' n', k' ≠ k → (Registry.replacement records).get k' = some n' →
        n'.credentialHash ≠ n.credentialHash
  | _ => True

/-! ## the credential itself -/

/-- whoever holds digest `hash` is revoked -/
def Dead (hash : String) (reg : Registry) : Prop :=
  ∀ k t, reg.byCredential.get hash = some k → reg.byId.get k = some t → t.active = false

theorem Dead.authorize (h : Dead (digest c) w.reg) : w.reg.authorize digest w.now c = none := by
  cases ha : w.reg.authorize digest w.now c with
  | none => rfl
  | some lease =>
    obtain ⟨k, hk, ha⟩ := Option.bind_eq_some_iff.mp ha
    obtain ⟨t, ht, ha⟩ := Option.bind_eq_some_iff.mp ha
    obtain ⟨r, hr, _⟩ := Option.bind_eq_some_iff.mp ha
    have hact := Registry.remaining_active (Option.isSome_of_eq_some hr)
    rw [h k t hk ht] at hact
    cases hact

theorem Dead.move (h : Dead (digest c) w.reg) (hi : w.Inv digest) (hm : Move digest lib w a v)
    (ha : ¬ Installs digest c a) : Dead (digest c) v.reg := by
  intro k t hk ht
  cases hm with
  | @register id label credential hl =>
    change (w.reg.register digest id label credential).1.byCredential.get _ = some k at hk
    change (w.reg.register digest id label credential).1.byId.get k = some t at ht
    rcases hi.registry.get_byCredential_register hk with ⟨hd, _⟩ | ⟨hne, hold⟩
    · exact absurd hd.symm ha
    · rw [Registry.get_byId_register w.reg digest label credential hne] at ht
      exact h k t hold ht
  | replaceRecords hl ho =>
    obtain ⟨t', ht', hh⟩ := Registry.get_byCredential_replaceRecords ho hk
    obtain ⟨r, hr, _, rfl⟩ := Registry.get_replacement ht'
    obtain rfl : r.tether = t := Option.some.inj (ht'.symm.trans ht)
    exact Bool.eq_false_iff.mpr fun hact => ha ⟨r, hr, hact, hh⟩
  | @revoke id hl =>
    change (w.reg.revoke id).2.1.byId.get k = some t at ht
    rw [Registry.get_byId_revoke] at ht
    obtain ⟨t', ht', rfl⟩ := Option.map_eq_some_iff.mp ht
    split
    · rfl
    · exact h k t' hk ht'
  | attach hl hatt =>
    obtain ⟨_, _, rfl, _⟩ := Registry.attach_some hatt
    exact h k t hk ht
  | session =>
    change KeyMap.get (if _ then _ else _ : Registry).byCredential _ = some k at hk
    change KeyMap.get (if _ then _ else _ : Registry).byId k = some t at ht
    split at hk
    · next hx =>
      rw [if_pos hx] at ht
      rw [Registry.detach_eq] at hk ht
      exact h k t hk ht
    · next hx =>
      rw [if_neg hx] at ht
      exact h k t hk ht
  | _ => exact h k t hk ht

theorem Dead.run (h : Dead (digest c) w.reg) (hr : Reachable digest lib w)
    {as : List WorldAction} (has : ∀ a ∈ as, ¬ Installs digest c a) {u : World}
    (hrun : Machine.run (step digest lib) w as = some u) : Dead (digest c) u.reg := by
  refine (Machine.run_invariant_of (P := fun u => Reachable digest lib u ∧ Dead (digest c) u.reg)
    ?_ has ⟨hr, h⟩ hrun).2
  intro s a t hok hs hstep
  have ht : Reachable digest lib t := hs.1.step hstep
  exact ⟨ht, hs.2.move hs.1.inv (move_of_step hstep) hok⟩

/-- revoking the owner of `c` kills the credential -/
theorem dead_revoke {lease : Lease} (ha : w.reg.authorize digest w.now c = some lease) :
    Dead (digest c) (w.reg.revoke lease.tetherId).2.1 := by
  obtain ⟨id, hid, ha⟩ := Option.bind_eq_some_iff.mp ha
  obtain ⟨t, ht, ha⟩ := Option.bind_eq_some_iff.mp ha
  obtain ⟨r, hr, ha⟩ := Option.bind_eq_some_iff.mp ha
  have hlease : lease.tetherId = id := by
    split at ha
    · cases ha
    · exact congrArg Lease.tetherId (Option.some.inj ha).symm
  intro k t' hk ht'
  obtain rfl : id = k := Option.some.inj (hid.symm.trans hk)
  rw [Registry.get_byId_revoke, ht, hlease] at ht'
  obtain rfl := Option.some.inj ht'
  simp

theorem authorize_owner {lease : Lease} (ha : w.reg.authorize digest w.now c = some lease) :
    w.reg.byCredential.get (digest c) = some lease.tetherId := by
  obtain ⟨id, hid, ha⟩ := Option.bind_eq_some_iff.mp ha
  obtain ⟨t, ht, ha⟩ := Option.bind_eq_some_iff.mp ha
  obtain ⟨r, hr, ha⟩ := Option.bind_eq_some_iff.mp ha
  split at ha
  · cases ha
  · obtain rfl := Option.some.inj ha
    exact hid

/-! ## the sessions of the credential -/

/-- every live session's digest belongs to its own tether -/
def Owns (w : World) : Prop :=
  ∀ k g t, w.reg.live.get k = some g → w.reg.byId.get k = some t →
    w.reg.byCredential.get t.credentialHash = some k

theorem Owns.move (h : Owns w) (hi : w.Inv digest) (hm : Move digest lib w a v)
    (ha : Exclusive digest w a) : Owns v := by
  intro k g t hg ht
  cases hm with
  | @register id label credential hl =>
    obtain ⟨hk, hg⟩ := Registry.live_register hg
    change (w.reg.register digest id label credential).1.byId.get k = some t at ht
    rw [Registry.get_byId_register w.reg digest label credential hk] at ht
    have hown := h k g t hg ht
    show KeyMap.get (KeyMap.insert _ (digest credential) id) t.credentialHash = some k
    rw [KeyMap.get_insert, if_neg (ha k g t hk hg ht)]
    split
    · next previous hp =>
      split
      · next hprev =>
        rw [KeyMap.get_remove]
        split
        · next hhash =>
          rw [hhash, hprev] at hown
          rw [hi.registry.keys id previous hp] at hown
          exact absurd (Option.some.inj hown).symm hk
        · exact hown
      · exact hown
    · exact hown
  | @replaceRecords records order hl ho =>
    obtain ⟨hg, hu⟩ := Registry.live_replaceRecords hg
    show (KeyMap.collect (order.map fun t => (t.credentialHash, t.id))).get t.credentialHash
      = some k
    have hmem : t ∈ order := ho.mem_iff.mpr (KeyMap.mem_values.mpr ⟨k, ht⟩)
    cases hget : (KeyMap.collect (order.map fun t => (t.credentialHash, t.id))).get
        t.credentialHash with
    | none =>
      exact absurd rfl
        (KeyMap.get_collect_eq_none.mp hget _ (List.mem_map.mpr ⟨t, hmem, rfl⟩))
    | some k' =>
      obtain ⟨t', ht', hh⟩ :=
        @Registry.get_byCredential_replaceRecords w.now records order w.reg ho _ k' hget
      by_cases hkk : k' = k
      · rw [hkk]
      · exact absurd hh (ha k g t hg hu ht k' t' hkk ht')
  | @revoke id hl =>
    obtain ⟨hk, hg⟩ := Registry.live_revoke hg
    change (w.reg.revoke id).2.1.byId.get k = some t at ht
    rw [Registry.get_byId_revoke] at ht
    obtain ⟨t', ht', rfl⟩ := Option.map_eq_some_iff.mp ht
    rw [if_neg hk]
    exact h k g t' hg ht'
  | attach hl hatt =>
    obtain ⟨rfl, _, rfl, t', ht', _, hh, hc⟩ := Registry.attach_some hatt
    change (w.reg.live.insert _ _).get k = some g at hg
    rw [KeyMap.get_insert] at hg
    split at hg
    · next hk =>
      subst hk
      obtain rfl : t' = t := Option.some.inj (ht'.symm.trans ht)
      rw [hh]
      exact hc
    · exact h k g t hg ht
  | session =>
    change KeyMap.get (if _ then _ else _ : Registry).live k = some g at hg
    change KeyMap.get (if _ then _ else _ : Registry).byId k = some t at ht
    show KeyMap.get (if _ then _ else _ : Registry).byCredential _ = some k
    split at hg
    · next hx =>
      rw [if_pos hx] at ht ⊢
      have hg' := Registry.live_detach hg
      rw [Registry.detach_eq] at ht ⊢
      exact h k g t hg' ht
    · next hx =>
      rw [if_neg hx] at ht ⊢
      exact h k g t hg ht
  | _ => exact h k g t hg ht

theorem owns_initial (lease now : Nat) :
    Owns { reg := .new lease, sess := fun _ => Session.new "" [] now, now := now } :=
  fun _ _ _ hg => nomatch hg

/-- a run whose steps share no digest with a live session keeps every session its digest -/
theorem owns_of_exclusive
    (h : Machine.ReachableWhen (step digest lib) Initial (Exclusive digest) w) : Owns w := by
  refine h.invariant_of ?_ ?_
  · intro w hw
    obtain ⟨lease, now, rfl⟩ := hw
    exact owns_initial lease now
  · intro w a v hr hok hp hstep
    exact hp.move (Reachable.inv hr) (move_of_step hstep) hok

end World

/-- **Revoking the owner of a credential.**  Where no two connected credentials have one digest,
the revocation ends the credential, its sessions included, exactly if no other tether is connected
whose record has the digest.  It always does in a run in which no registration and no snapshot
hands the digest of a connected tether to another one. -/
theorem revoke_ends_credential {digest : Bytes → String} {lib : HttpLib} {w v : World}
    (h : World.Reachable digest lib w) {c : Bytes} {lease : Lease}
    (ha : w.reg.authorize digest w.now c = some lease)
    (hs : World.step digest lib w (.revoke lease.tetherId) = some v)
    (hd : ∀ id g, w.reg.live.get id = some g → digest (w.sess g).credential = digest c →
      (w.sess g).credential = c) :
    (World.CredentialEnded digest lib c v ↔ ∀ id g t, id ≠ lease.tetherId →
      w.reg.live.get id = some g → w.reg.byId.get id = some t → t.credentialHash ≠ digest c) ∧
    (Machine.ReachableWhen (World.step digest lib) World.Initial (World.Exclusive digest) w →
      World.CredentialEnded digest lib c v) := by
  have hv : World.Reachable digest lib v := h.step hs
  have hm := World.move_of_step hs
  cases hm with
  | revoke hl =>
    have hiff : World.CredentialEnded digest lib c
        (w.controlled (w.reg.revoke lease.tetherId).2.1 (w.reg.revoke lease.tetherId).2.2) ↔
        ∀ id g t, id ≠ lease.tetherId → w.reg.live.get id = some g → w.reg.byId.get id = some t →
          t.credentialHash ≠ digest c := by
      constructor
      · intro hend id g t hid hg ht hh
        obtain ⟨t', ht', _, hh'⟩ := h.inv.registry.record id g hg
        obtain rfl : t' = t := Option.some.inj (ht'.symm.trans ht)
        refine hend.1 id g ?_ (hd id g hg (hh'.symm.trans hh))
        show (w.reg.live.remove lease.tetherId).get id = some g
        rw [KeyMap.get_remove, if_neg hid]
        exact hg
      · intro hno
        refine ⟨?_, ?_⟩
        · intro id g hg hc
          obtain ⟨hid, hg⟩ := Registry.live_revoke hg
          obtain ⟨t, ht, _, hh⟩ := h.inv.registry.record id g hg
          refine hno id g t hid hg ht ?_
          rw [hh]
          exact congrArg digest hc
        · intro as u has hrun
          have hdead := World.dead_revoke ha
          exact (World.Dead.run hdead hv has hrun).authorize
    refine ⟨hiff, fun hx => hiff.mpr ?_⟩
    intro id g t hid hg ht hh
    have hown := World.owns_of_exclusive hx id g t hg ht
    rw [hh, World.authorize_owner ha] at hown
    exact hid (Option.some.inj hown).symm

/-! ## the two histories -/

theorem twoDigests_first {c : Bytes} (h : twoDigests c = twoDigests (ascii "first")) :
    c = ascii "first" := by
  unfold twoDigests at h
  split at h
  · assumption
  · split at h
    · exact absurd h (by decide)
    · exact absurd h (by decide)

/-- a tether with a credential of its own is about to be revoked -/
def ownedRun : List WorldAction := revokeRun.take 4

theorem ownedRun_isSome :
    (Machine.run (World.step twoDigests okLib) freshHub ownedRun).isSome = true := by
  decide

theorem reachable_ownedRun : World.Reachable twoDigests okLib (Option.get _ ownedRun_isSome) :=
  (Machine.Reachable.init ⟨_, _, rfl⟩).run (Option.some_get ownedRun_isSome).symm

theorem revoke_ownedRun_isSome :
    (World.step twoDigests okLib (Option.get _ ownedRun_isSome) (.revoke "a")).isSome = true := by
  decide

theorem live_ownedRun : (Option.get _ ownedRun_isSome).reg.live.toList = [("a", 1)] := by
  decide

theorem authorize_ownedRun : (Option.get _ ownedRun_isSome).reg.authorize twoDigests
    (Option.get _ ownedRun_isSome).now (ascii "first") = some ⟨"a", 900 * nanosPerSec⟩ := by
  decide

theorem revoke_ends_credential_owned : ∃ w v, World.Reachable twoDigests okLib w ∧
    w.reg.live.get "a" = some 1 ∧ (w.sess 1).credential = ascii "first" ∧
    World.step twoDigests okLib w (.revoke "a") = some v ∧
    World.CredentialEnded twoDigests okLib (ascii "first") v := by
  refine ⟨_, _, reachable_ownedRun, by decide +kernel, by decide +kernel,
    (Option.some_get revoke_ownedRun_isSome).symm, ?_⟩
  refine (revoke_ends_credential reachable_ownedRun authorize_ownedRun
    (Option.some_get revoke_ownedRun_isSome).symm (fun _ _ _ h => ?_)).1.mpr ?_
  · exact twoDigests_first h
  · intro id g t hid hg _
    have hm := KeyMap.mem_toList.mpr hg
    rw [live_ownedRun] at hm
    exact absurd (congrArg Prod.fst (List.mem_singleton.mp hm)) hid

/-- two tethers register one credential; the first one attached before the second registered -/
def sharedRun : List WorldAction :=
  [.register "r1" "first" (ascii "shared"), .close [], .attach "r1" (ascii "shared"), .close [],
    .register "r2" "second" (ascii "shared"), .close []]

theorem sharedRun_isSome :
    (Machine.run (World.step twoDigests okLib) freshHub sharedRun).isSome = true := by
  decide

theorem reachable_sharedRun : World.Reachable twoDigests okLib (Option.get _ sharedRun_isSome) :=
  (Machine.Reachable.init ⟨_, _, rfl⟩).run (Option.some_get sharedRun_isSome).symm

theorem revoke_sharedRun_isSome :
    (World.step twoDigests okLib (Option.get _ sharedRun_isSome) (.revoke "r2")).isSome = true := by
  decide

/-- the second tether owns the credential and is revoked; the session of the first one lives on -/
theorem revoke_leaves_shared_session : ∃ w v, World.Reachable twoDigests okLib w ∧
    w.reg.authorize twoDigests w.now (ascii "shared") = some ⟨"r2", 900 * nanosPerSec⟩ ∧
    World.step twoDigests okLib w (.revoke "r2") = some v ∧
    v.reg.live.get "r1" = some 1 ∧ (v.sess 1).credential = ascii "shared" ∧
    ¬ World.CredentialEnded twoDigests okLib (ascii "shared") v := by
  refine ⟨_, _, reachable_sharedRun, by decide +kernel,
    (Option.some_get revoke_sharedRun_isSome).symm, by decide +kernel, by decide +kernel, ?_⟩
  intro h
  exact h.1 "r1" 1 (by decide +kernel) (by decide +kernel)

end AnvilRing
