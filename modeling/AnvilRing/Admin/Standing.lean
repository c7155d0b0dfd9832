import AnvilRing.Admin.Calls

/-!
# Which credential stands

The history of the commits of a state directory, and the registrations that it leaves.

* `Standing`             the last credential issued for an id, and whether it was revoked since;
* `standing`             the fold of the history (`standing_active_iff` reads it off the history);
* `Matches`              the registrations are those of a history;
* `MatchesFile.change`   a call keeps it, with what it commits.
-/

namespace AnvilRing
open Wire

def Commit.id : Commit → String
  | .issued id _ _ => id
  | .revoked id => id

/-- the credential that it issues -/
def Commit.credential : Commit → Option Bytes
  | .issued _ credential _ => some credential
  | .revoked _ => none

/-- the credentials of a history, in the order of their commits -/
def issuedCredentials (history : List Commit) : List Bytes := history.filterMap Commit.credential

/-! ## what stands under an id -/

structure Standing where
  credential : Bytes
  expiresAt : Nat
  active : Bool
  deriving DecidableEq, Repr

/-- a commit for the id itself -/
def Standing.after : Option Standing → Commit → Option Standing
  | _, .issued _ credential expiresAt => some ⟨credential, expiresAt, true⟩
  | o, .revoked _ => o.map fun s => { s with active := false }

def standingStep (id : String) (o : Option Standing) (c : Commit) : Option Standing :=
  if c.id = id then Standing.after o c else o

def standing (history : List Commit) (id : String) : Option Standing :=
  history.foldl (standingStep id) none

/-- the last issuance of `id`, of this credential, has not been revoked -/
def Stands (history : List Commit) (id : String) (credential : Bytes) (expiresAt : Nat) : Prop :=
  ∃ before after, history = before ++ .issued id credential expiresAt :: after ∧
    ∀ c ∈ after, c.id ≠ id

section
variable {history : List Commit} {id : String} {credential : Bytes} {expiresAt : Nat}
  {s : Standing}

theorem standing_snoc (history : List Commit) (c : Commit) (id : String) :
    standing (history ++ [c]) id = standingStep id (standing history id) c := by
  unfold standing
  rw [List.foldl_append]
  rfl

theorem standing_issued (history : List Commit) (k id : String) (credential : Bytes)
    (expiresAt : Nat) : standing (history ++ [.issued k credential expiresAt]) id =
      if k = id then some ⟨credential, expiresAt, true⟩ else standing history id :=
  standing_snoc history _ id

theorem standing_revoked (history : List Commit) (k id : String) :
    standing (history ++ [.revoked k]) id =
      if k = id then (standing history id).map fun s => { s with active := false }
      else standing history id :=
  standing_snoc history _ id

/-- what stands was issued -/
theorem issued_of_standing (h : standing history id = some s) :
    .issued id s.credential s.expiresAt ∈ history := by
  induction history using List.reverseRecOn generalizing s with
  | nil => cases h
  | append_singleton history c ih =>
    rw [standing_snoc, standingStep] at h
    split at h
    · next hid =>
      cases c with
      | issued k credential expiresAt =>
        obtain rfl := Option.some.inj h
        obtain rfl : k = id := hid
        exact List.mem_append_right _ (List.mem_singleton_self _)
      | revoked k =>
        obtain ⟨s', hs', rfl⟩ := Option.map_eq_some_iff.mp h
        have hmem := ih hs'
        exact List.mem_append_left _ hmem
    · exact List.mem_append_left _ (ih h)

/-- an entry of a history is its last one, or stands in front of it -/
theorem append_singleton_eq {α : Type} {l before after : List α} {a x : α}
    (h : l ++ [a] = before ++ x :: after) :
    after = [] ∧ l = before ∧ a = x ∨
      ∃ after', after = after' ++ [a] ∧ l = before ++ x :: after' := by
  obtain rfl | ⟨after', last, rfl⟩ := List.eq_nil_or_concat after
  · obtain ⟨hl, ha⟩ := List.append_inj' h rfl
    exact .inl ⟨rfl, hl, List.head_eq_of_cons_eq ha⟩
  · rw [List.concat_eq_append, ← List.cons_append, ← List.append_assoc] at h
    obtain ⟨hl, ha⟩ := List.append_inj' h rfl
    obtain rfl := List.head_eq_of_cons_eq ha
    exact .inr ⟨after', List.concat_eq_append, hl⟩

/-- an active standing is an issuance that nothing for its id followed -/
theorem standing_active_iff :
    standing history id = some ⟨credential, expiresAt, true⟩ ↔
      Stands history id credential expiresAt := by
  induction history using List.reverseRecOn with
  | nil =>
    constructor
    · intro h
      cases h
    · intro h
      obtain ⟨before, after, heq, -⟩ := h
      simp at heq
  | append_singleton history c ih =>
    rw [standing_snoc, standingStep]
    by_cases hid : c.id = id
    · rw [if_pos hid]
      constructor
      · intro h
        cases c with
        | issued k credential' expiresAt' =>
          obtain ⟨rfl, rfl⟩ : credential' = credential ∧ expiresAt' = expiresAt := by
            have heq := Option.some.inj h
            exact ⟨congrArg Standing.credential heq, congrArg Standing.expiresAt heq⟩
          obtain rfl : k = id := hid
          exact ⟨history, [], rfl, fun _ hc => nomatch hc⟩
        | revoked k =>
          obtain ⟨s, -, heq⟩ := Option.map_eq_some_iff.mp h
          exact absurd (congrArg Standing.active heq) Bool.false_ne_true
      · intro h
        obtain ⟨before, after, heq, hafter⟩ := h
        obtain ⟨-, -, rfl⟩ | ⟨after', rfl, -⟩ := append_singleton_eq heq
        · rfl
        · exact absurd hid (hafter c (List.mem_append_right _ (List.mem_singleton_self c)))
    · rw [if_neg hid, ih]
      constructor
      · intro h
        obtain ⟨before, after, rfl, hafter⟩ := h
        refine ⟨before, after ++ [c], by simp, ?_⟩
        intro x hx
        obtain hx | hx := List.mem_append.mp hx
        · exact hafter x hx
        · obtain rfl := List.mem_singleton.mp hx
          exact hid
      · intro h
        obtain ⟨before, after, heq, hafter⟩ := h
        obtain ⟨-, -, rfl⟩ | ⟨after', rfl, rfl⟩ := append_singleton_eq heq
        · exact absurd rfl hid
        · exact ⟨before, after', rfl, fun x hx => hafter x (List.mem_append_left _ hx)⟩

/-- pairwise distinct credentials name one id each -/
theorem id_of_credential (hd : (issuedCredentials history).Nodup) {id id' : String}
    {e e' : Nat} (h : .issued id credential e ∈ history)
    (h' : .issued id' credential e' ∈ history) : id = id' ∧ e = e' := by
  induction history with
  | nil => cases h
  | cons c history ih =>
    have hmem : ∀ {k : String} {n : Nat}, .issued k credential n ∈ history →
        credential ∈ issuedCredentials history := fun hk =>
      List.mem_filterMap.mpr ⟨_, hk, rfl⟩
    obtain rfl | ht := List.mem_cons.mp h
    · obtain heq | ht' := List.mem_cons.mp h'
      · cases heq
        exact ⟨rfl, rfl⟩
      · exact absurd (hmem ht') (List.nodup_cons.mp hd).1
    · obtain rfl | ht' := List.mem_cons.mp h'
      · exact absurd (hmem ht) (List.nodup_cons.mp hd).1
      · refine ih (hd.sublist ?_) ht ht'
        exact (List.sublist_cons_self c history).filterMap _

end

/-! ## the table holds what stands -/

/-- credential_hash, active, expires_at -/
def Registration.stored (r : Registration) : String × Int × Int :=
  (r.credentialHash, r.active, r.expiresAt)

/-- the row that a standing is stored as -/
def Standing.stored (digest : Bytes → String) (s : Standing) : String × Int × Int :=
  (digest s.credential, if s.active then 1 else 0, s.expiresAt)

/-- the registrations are those of the history -/
structure Matches (digest : Bytes → String) (history : List Commit) (db : Database) : Prop where
  rows : ∀ id, (db.row id).map Registration.stored =
    (standing history id).map (Standing.stored digest)
  range : ∀ id s, standing history id = some s → s.expiresAt ≤ i64Max

/-- without a database nothing has been committed -/
def MatchesFile (digest : Bytes → String) (history : List Commit) : Option Database → Prop
  | none => history = []
  | some db => Matches digest history db

section
variable {digest : Bytes → String} {history : List Commit} {db db' : Database}

theorem matches_empty (h : db.registrations = []) : Matches digest [] db where
  rows id := by
    unfold Database.row
    rw [h]
    rfl
  range _ _ hs := nomatch hs

theorem matches_fresh {o : Option Database} (h : Fresh o) : MatchesFile digest [] o := by
  cases o with
  | none => rfl
  | some db =>
    obtain rfl | hinit := h db rfl
    · exact matches_empty rfl
    · exact matches_empty hinit.registrations

theorem Matches.issued {call : IssueCall} {credential : Bytes} {expiresAt : Nat}
    (hm : Matches digest history db) (h : Issued digest call credential expiresAt db db') :
    Matches digest (history ++ [.issued call.id credential expiresAt]) db' where
  rows id := by
    by_cases hid : call.id = id
    · obtain ⟨r, hr, hhash, hactive, hexp⟩ := h.stored.row_self
      subst hid
      rw [standing_issued, if_pos rfl, hr]
      refine congrArg some ?_
      show (r.credentialHash, r.active, r.expiresAt) = _
      rw [hhash, hactive, hexp]
      rfl
    · rw [standing_issued, if_neg hid, h.stored.row_other fun hx => hid hx.symm]
      exact hm.rows id
  range id s hs := by
    rw [standing_issued] at hs
    split at hs
    · obtain rfl := Option.some.inj hs
      exact h.range
    · exact hm.range id s hs

theorem Matches.revoked {id : String} (hm : Matches digest history db) (h : Revoked id db db') :
    Matches digest (history ++ [.revoked id]) db' where
  rows k := by
    have hrow : db'.row k = (db.row k).map (disableRow id) := by
      refine Database.row_of_map (fun r => ?_) h.registrations k
      unfold disableRow
      split <;> rfl
    have hold := hm.rows k
    rw [hrow]
    by_cases hid : id = k
    · subst hid
      rw [standing_revoked, if_pos rfl]
      cases hr : db.row id with
      | none =>
        rw [hr] at hold
        rw [Option.map_eq_none_iff.mp hold.symm]
        rfl
      | some r =>
        rw [hr] at hold
        obtain ⟨s, hs, hstored⟩ := Option.map_eq_some_iff.mp hold.symm
        obtain ⟨hhash, hrest⟩ := Prod.mk.inj hstored
        rw [hs]
        show some (disableRow id r).stored = some (digest s.credential, 0, (s.expiresAt : Int))
        unfold disableRow
        rw [if_pos (Database.row_id hr), hhash, (Prod.mk.inj hrest).2]
        rfl
    · rw [standing_revoked, if_neg hid, ← hold]
      cases hr : db.row k with
      | none => rfl
      | some r =>
        have hne : ¬ r.id = id := fun hx => hid (hx.symm.trans (Database.row_id hr))
        exact congrArg (fun x => some (Registration.stored x)) (if_neg hne)
  range k s hs := by
    rw [standing_revoked] at hs
    split at hs
    · obtain ⟨s', hs', rfl⟩ := Option.map_eq_some_iff.mp hs
      exact hm.range k s' hs'
    · exact hm.range k s hs

theorem MatchesFile.change {o o' : Option Database} {commits : List Commit}
    (hm : MatchesFile digest history o) (h : Durable.Change digest o o' commits) :
    MatchesFile digest (history ++ commits) o' := by
  cases h with
  | none => rwa [List.append_nil]
  | fresh h =>
    obtain rfl : history = [] := hm
    exact matches_fresh h
  | issued h => exact Matches.issued hm h
  | revoked h => exact Matches.revoked hm h

end

end AnvilRing
