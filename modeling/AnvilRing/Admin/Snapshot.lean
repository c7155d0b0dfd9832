import AnvilRing.Admin.Calls

/-!
# A snapshot never fails on what was written

`issue` checks its arguments, the tables have constraints of their own, and `snapshot` checks every
row again.  Here it is shown that a row that the first two let pass passes the third.

* `Registration.Valid`        the row passes the checks of `snapshot`;
* `Issue.Sound`               an issuance writes only such rows, and no more than the limit;
* `Durable.FromInit`          a directory that `init` made, and what any calls make of it;
* `snapshot_complete`         its snapshot has every registration once, ordered by id.
-/

namespace AnvilRing
open Wire

/-! ## the reader -/

/-- the text is 64 lowercase hexadecimal digits, as `{:x}` writes a SHA-256 digest -/
def HexDigest (text : String) : Prop :=
  text.utf8ByteSize = 64 ∧ text.toList.all isHexChar = true

/-- the row passes the checks of `snapshot` -/
structure Registration.Valid (r : Registration) : Prop where
  id : validateId r.id = .ok ()
  label : validateLabel r.label = .ok ()
  credentialHash : HexDigest r.credentialHash
  active : r.active = 0 ∨ r.active = 1
  expiresAt : 0 < r.expiresAt

/-- the record of a valid row -/
def Registration.toRecord (r : Registration) : Record where
  id := r.id
  label := r.label
  credentialHash := r.credentialHash
  active := r.active = 1
  expiresAt := r.expiresAt.toNat

theorem Registration.Valid.record {r : Registration} (h : r.Valid) : r.record = .ok r.toRecord := by
  have hstate : ¬ (r.active ≠ 0 ∧ r.active ≠ 1) := by
    intro hx
    obtain h0 | h1 := h.active
    · exact hx.1 h0
    · exact hx.2 h1
  have hexp := h.expiresAt
  unfold Registration.record
  rw [if_neg (by omega), if_neg hstate, h.id, h.label]
  refine if_neg ?_
  rw [h.credentialHash.1, h.credentialHash.2]
  simp
  omega

/-- the loop takes valid rows, as long as they are within the limit -/
theorem collectRecords_valid {rows : List Registration} {records : List Record}
    (h : ∀ r ∈ rows, r.Valid) (hlen : records.length + rows.length ≤ maxRegistrations) :
    collectRecords rows records = .ok (records ++ rows.map Registration.toRecord) := by
  induction rows generalizing records with
  | nil =>
    rw [List.map_nil, List.append_nil]
    rfl
  | cons r rows ih =>
    rw [List.length_cons] at hlen
    have hshort : (records ++ [r.toRecord]).length ≤ maxRegistrations := by
      rw [List.length_append, List.length_singleton]
      omega
    rw [collectRecords, (h r List.mem_cons_self).record]
    show (if _ then _ else _) = _
    rw [if_neg (Nat.not_lt.mpr hshort), ih, List.append_assoc]
    · rfl
    · exact fun x hx => h x (List.mem_cons_of_mem _ hx)
    · rw [List.length_append, List.length_singleton]
      omega

/-- the tables that `snapshot` reads without an error -/
structure Database.Readable (db : Database) : Prop where
  valid : ∀ r ∈ db.registrations, r.Valid
  count : db.registrations.length ≤ maxRegistrations

section
variable {db db' : Database}

theorem readable_empty (h : db.registrations = []) : db.Readable := by
  constructor
  · intro r hr
    rw [h] at hr
    cases hr
  · rw [h]
    exact Nat.zero_le _

theorem Database.Readable.congr (h : db.Readable) (heq : db'.registrations = db.registrations) :
    db'.Readable := by
  obtain ⟨hvalid, hcount⟩ := h
  rw [← heq] at hvalid hcount
  exact ⟨hvalid, hcount⟩

/-- rows that are rewritten into valid ones -/
theorem Database.Readable.map (h : db.Readable) {f : Registration → Registration}
    (hf : ∀ r, r.Valid → (f r).Valid) (heq : db'.registrations = db.registrations.map f) :
    db'.Readable := by
  constructor
  · intro r hr
    rw [heq] at hr
    obtain ⟨x, hx, rfl⟩ := List.mem_map.mp hr
    exact hf x (h.valid x hx)
  · rw [heq, List.length_map]
    exact h.count

/-- one row more, as long as it is within the limit -/
theorem Database.Readable.snoc (h : db.Readable) {r : Registration} (hr : r.Valid)
    (hlen : db.registrations.length < maxRegistrations)
    (heq : db'.registrations = db.registrations ++ [r]) : db'.Readable := by
  constructor
  · intro x hx
    rw [heq] at hx
    obtain hold | hnew := List.mem_append.mp hx
    · exact h.valid x hold
    · exact List.mem_singleton.mp hnew ▸ hr
  · rw [heq, List.length_append]
    exact hlen

theorem Database.Readable.revoked {id : String} (h : db.Readable) (hrevoked : Revoked id db db') :
    db'.Readable := by
  refine h.map (f := disableRow id) (fun r hr => ?_) hrevoked.registrations
  unfold disableRow
  split
  · exact ⟨hr.id, hr.label, hr.credentialHash, .inl rfl, hr.expiresAt⟩
  · exact hr

/-- the query is ordered by id -/
theorem Database.selectOrdered_sorted (db : Database) :
    (db.registrations.mergeSort fun a b => decide (a.id ≤ b.id)).Pairwise
      fun a b => a.id ≤ b.id := by
  have hsorted : (db.registrations.mergeSort fun a b => decide (a.id ≤ b.id)).Pairwise
      fun a b => decide (a.id ≤ b.id) = true := by
    apply List.pairwise_mergeSort
    · intro a b c hab hbc
      rw [decide_eq_true_eq] at *
      exact le_trans hab hbc
    · intro a b
      rw [Bool.or_eq_true, decide_eq_true_eq, decide_eq_true_eq]
      exact le_total _ _
  exact hsorted.imp fun hab => of_decide_eq_true hab

/-- a snapshot of readable tables: the records of all rows, ordered by id -/
theorem Database.Readable.snapshot (h : db.Readable) (hv : db.userVersion = 1) :
    ∃ records, db.snapshot = .ok records ∧
      records.Perm (db.registrations.map Registration.toRecord) ∧
      (records.map Record.id).Pairwise (· < ·) := by
  let rows := db.registrations.mergeSort fun a b => decide (a.id ≤ b.id)
  have hperm : rows.Perm db.registrations := List.mergeSort_perm _ _
  have hlen : rows.length ≤ maxRegistrations := hperm.length_eq ▸ h.count
  have hselect : db.selectOrdered = rows := List.take_of_length_le (Nat.le_succ_of_le hlen)
  have hids : (rows.map Registration.toRecord).map Record.id = rows.map Registration.id := by
    rw [List.map_map]
    rfl
  refine ⟨rows.map Registration.toRecord, ?_, hperm.map _, ?_⟩
  · unfold Database.snapshot
    rw [if_neg (not_not.mpr hv), hselect]
    refine collectRecords_valid (fun r hr => h.valid r (hperm.mem_iff.mp hr)) ?_
    rw [List.length_nil, Nat.zero_add]
    exact hlen
  · rw [hids]
    have hle : (rows.map Registration.id).Pairwise (· ≤ ·) :=
      List.pairwise_map.mpr db.selectOrdered_sorted
    have hnodup : (rows.map Registration.id).Nodup := (hperm.map _).nodup_iff.mpr db.unique
    exact (hle.and hnodup).imp fun hab => lt_of_le_of_ne hab.1 hab.2

end

/-! ## the writers -/

/-- what the checks of `issue` establish -/
structure IssueCall.Checked (call : IssueCall) (expiresAt : Nat) : Prop where
  id : validateId call.id = .ok ()
  label : ∀ label, call.label = some label → validateLabel label = .ok ()
  expiresAt : 0 < expiresAt

namespace IssueCall
variable {call : IssueCall} {clock : Option Nat} {expiresAt : Nat}

theorem expiry_label (h : call.expiry clock = .ok expiresAt) :
    ∀ label, call.label = some label → validateLabel label = .ok () := by
  intro label hlabel
  unfold expiry at h
  simp only [hlabel] at h
  cases hv : validateLabel label with
  | ok u => rfl
  | error e =>
    simp only [hv] at h
    cases h

/-- a label that is legal makes no difference -/
theorem expiry_unlabelled (h : ∀ label, call.label = some label → validateLabel label = .ok ()) :
    call.expiry clock = expiry { call with label := none } clock := by
  unfold expiry
  cases hl : call.label with
  | none => rfl
  | some label =>
    simp only [h label hl]
    rfl

theorem expiry_none (h : expiry { call with label := none } clock = .ok expiresAt) :
    validateId call.id = .ok () ∧ 0 < expiresAt := by
  unfold expiry at h
  simp only at h
  cases hid : validateId call.id with
  | error e =>
    simp only [hid] at h
    cases h
  | ok u =>
    refine ⟨rfl, ?_⟩
    simp only [hid] at h
    by_cases httl : call.ttlSecs < 60 ∨ 86400 < call.ttlSecs
    · simp only [httl, if_true] at h
      cases h
    · simp only [httl, if_false] at h
      cases clock with
      | none => cases h
      | some now =>
        change (if now + call.ttlSecs ≤ i64Max then Except.ok (now + call.ttlSecs) else _) = _ at h
        split at h
        · cases h
          omega
        · cases h

theorem expiry_checked (h : call.expiry clock = .ok expiresAt) : call.Checked expiresAt := by
  have hlabel := expiry_label h
  rw [expiry_unlabelled hlabel] at h
  obtain ⟨hid, hpos⟩ := expiry_none h
  exact ⟨hid, hlabel, hpos⟩

end IssueCall

namespace Issue
variable {digest : Bytes → String} {call : IssueCall} {db : Database} {files : Files}
  {s t : Issue} {i : Input}

/-- the tables are readable, committed or not, and what is still to be written keeps them so -/
structure Sound (s : Issue) : Prop where
  db : s.db.Readable
  tx : s.tx.Readable
  checked : s.pc.checked = true → s.call.Checked s.expiresAt
  room : s.pc = .statement → s.call.label.isSome = true →
    s.tx.registrations.length < maxRegistrations

/-- where nothing is left to be written -/
theorem sound_written (hdb : s.db.Readable) (htx : s.tx.Readable) (hpc : s.pc.checked = false) :
    s.Sound where
  db := hdb
  tx := htx
  checked h := by
    rw [hpc] at h
    cases h
  room h := by
    rw [h] at hpc
    cases hpc

theorem step_sound (hdigest : ∀ c, HexDigest (digest c)) (hs : s.Sound)
    (h : step digest s i = some t) : t.Sound := by
  -- the row that is inserted or rewritten is valid
  have hexp : s.pc = .statement → (0 : Int) < s.expiresAt := by
    intro hpc
    exact Int.natCast_pos.mpr (hs.checked (hpc ▸ rfl)).expiresAt
  cases move_of_step h with
  | left hdb htx _ hpc => exact sound_written (hdb ▸ hs.db) (htx ▸ hs.tx) hpc
  | validated hok =>
    exact ⟨hs.db, hs.tx, fun _ => IssueCall.expiry_checked hok, fun hx => by cases hx⟩
  | goOn hpc hne => exact ⟨hs.db, hs.tx, fun _ => hs.checked hpc, fun hx => absurd hx hne⟩
  | begin hpc => exact ⟨hs.db, hs.db, fun _ => hs.checked hpc, fun hx => by cases hx⟩
  | draw hpc =>
    refine ⟨hs.db, hs.tx, fun _ => hs.checked hpc, fun hx hlabel => ?_⟩
    -- a call with a label goes on to the count
    change (if s.call.label.isSome then IssuePc.count else .statement) = .statement at hx
    rw [if_pos hlabel] at hx
    cases hx
  | counted hpc hlt => exact ⟨hs.db, hs.tx, fun _ => hs.checked hpc, fun _ _ => hlt⟩
  | @insert label d hpc hlabel hinsert =>
    have hchecked := hs.checked (hpc ▸ rfl)
    have hvalid : Registration.Valid ⟨s.call.id, label, digest s.credential, 1, s.expiresAt⟩ :=
      ⟨hchecked.id, hchecked.label label hlabel, hdigest _, .inr rfl, hexp hpc⟩
    refine sound_written hs.db ?_ rfl
    refine hs.tx.snoc hvalid (hs.room hpc ?_) (Database.registrations_insert hinsert)
    rw [hlabel]
    rfl
  | rotate hpc hrotate =>
    refine sound_written hs.db (hs.tx.map ?_ (Database.registrations_rotate hrotate)) rfl
    intro r hr
    split
    · exact ⟨hr.id, hr.label, hdigest _, .inr rfl, hexp hpc⟩
    · exact hr
  | append happend =>
    obtain ⟨timestamp, -, -, rfl⟩ := Database.appendAudit_some happend
    exact sound_written hs.db (hs.tx.congr rfl) rfl
  | commit => exact sound_written hs.tx hs.tx rfl

/-- wherever the call stops, the committed tables are readable -/
theorem run_readable (hdigest : ∀ c, HexDigest (digest c)) (hdb : db.Readable)
    {inputs : List Input}
    (h : Machine.run (step digest) (start call db files) inputs = some s) : s.db.Readable :=
  (Machine.run_invariant (fun _ _ _ hs h => step_sound hdigest hs h)
    (sound_written hdb hdb rfl) h).db

end Issue

/-! ## init -/

namespace Init
variable {s t : Init} {i : Input}

/-- what `init` commits has a schema and no registration -/
def Made (s : Init) : Prop :=
  match s.pc with
  | .commit => s.tx.userVersion = 1
  | .syncCommitted | .returned (.ok ()) =>
    ∃ db, s.db = some db ∧ Initialized db ∧ db.userVersion = 1
  | _ => True

theorem attempt_made {next : Init} (h : next.Made) : (s.attempt i next).Made := by
  unfold attempt
  split
  · trivial
  · exact h

theorem attemptRemoving_made {next : Init} (h : next.Made) : (s.attemptRemoving i next).Made := by
  unfold attemptRemoving
  split
  · trivial
  · exact h

theorem createStep_made : s.createStep.Made := by
  unfold createStep
  split <;> trivial

theorem auditStep_made (hv : s.tx.userVersion = 1) : (s.auditStep i).Made := by
  unfold auditStep
  split
  · trivial
  · next d happend =>
    obtain ⟨timestamp, -, -, rfl⟩ := Database.appendAudit_some happend
    exact hv

theorem step_made (hi : Inv none s) (hm : s.Made) (h : step s i = some t) : t.Made := by
  unfold Inv at hi
  unfold Made at hm
  unfold step at h
  cases hat : s.pc with
  | directory | permissions | sync | syncDirectory =>
    simp only [hat] at h
    exact Option.some.inj h ▸ attempt_made trivial
  | create =>
    simp only [hat] at h
    exact Option.some.inj h ▸ attempt_made createStep_made
  | connect | begin | schema =>
    simp only [hat] at h
    exact Option.some.inj h ▸ attemptRemoving_made trivial
  | audit =>
    simp only [hat] at h hi
    refine Option.some.inj h ▸ attemptRemoving_made (auditStep_made ?_)
    rw [hi.2.2]
    rfl
  | commit =>
    simp only [hat] at h hi hm
    exact Option.some.inj h ▸ attemptRemoving_made ⟨s.tx, rfl, hi.2.2, hm⟩
  | syncCommitted =>
    simp only [hat] at h hm
    exact Option.some.inj h ▸ attemptRemoving_made hm
  | removing e =>
    simp only [hat] at h
    exact Option.some.inj h ▸ trivial
  | returned r =>
    simp only [hat] at h
    cases h

/-- where `init` succeeded there is a database with a schema and no registration -/
theorem run_made {inputs : List Input} (h : Machine.run step (start none) inputs = some s)
    (hok : s.pc = .returned (.ok ())) :
    ∃ db, s.db = some db ∧ Initialized db ∧ db.userVersion = 1 := by
  have hstart : Inv none (start none) ∧ (start none).Made := ⟨rfl, trivial⟩
  have hm := (Machine.run_invariant (P := fun s => Inv none s ∧ s.Made)
    (fun _ _ _ hs h => ⟨step_inv hs.1 h, step_made hs.1 hs.2 h⟩) hstart h).2
  unfold Made at hm
  rw [hok] at hm
  exact hm

end Init

/-! ## the state directory -/

namespace Durable
variable {digest : Bytes → String} {d d' : Durable} {a : AdminCall × List Input}

/-- `init` succeeded where no database was, and any calls came behind it -/
def FromInit (digest : Bytes → String) : Durable → Prop :=
  Machine.Reachable (step digest) fun d => ∃ inputs s,
    Machine.run Init.step (Init.start none) inputs = some s ∧ s.pc = .returned (.ok ()) ∧
      d.db = s.db

/-- a database that `snapshot` reads -/
def Served (d : Durable) : Prop :=
  ∃ db, d.db = some db ∧ db.userVersion = 1 ∧ db.Readable

theorem Served.issue (hdigest : ∀ c, HexDigest (digest c)) (h : d.Served) {call : IssueCall}
    {inputs : List Input} (hrun : d.runIssue digest call inputs = some d') : d'.Served := by
  obtain ⟨db, hdb, hv, hread⟩ := h
  unfold runIssue at hrun
  rw [hdb] at hrun
  obtain ⟨s, hs, rfl⟩ := Option.map_eq_some_iff.mp hrun
  refine ⟨s.db, rfl, ?_, Issue.run_readable hdigest hread hs⟩
  obtain heq | ⟨hissued, -⟩ := (Issue.run_inv hs).committed
  · rw [heq]
    exact hv
  · exact hissued.version.2

theorem Served.revoke (h : d.Served) {id : String} {inputs : List Input}
    (hrun : d.runRevoke id inputs = some d') : d'.Served := by
  obtain ⟨db, hdb, hv, hread⟩ := h
  unfold runRevoke at hrun
  rw [hdb] at hrun
  obtain ⟨s, hs, rfl⟩ := Option.map_eq_some_iff.mp hrun
  obtain heq | ⟨hrevoked, -⟩ := (Revoke.run_inv hs).committed
  · exact ⟨db, congrArg some heq, hv, hread⟩
  · exact ⟨s.db, rfl, hrevoked.version.2, hread.revoked hrevoked⟩

theorem Served.step (hdigest : ∀ c, HexDigest (digest c)) (h : d.Served)
    (hstep : step digest d a = some d') : d'.Served := by
  unfold Durable.step at hstep
  split at hstep
  · -- a second `init` leaves the database alone
    obtain ⟨s, hs, rfl⟩ := Option.map_eq_some_iff.mp hstep
    obtain ⟨db, hdb, hserved⟩ := h
    obtain heq | ⟨hnone, -⟩ := Init.run_fresh hs
    · exact ⟨db, heq.trans hdb, hserved⟩
    · rw [hdb] at hnone
      cases hnone
  · exact h.issue hdigest hstep
  · exact h.issue hdigest hstep
  · exact h.revoke hstep
  · exact Option.some.inj hstep ▸ h

theorem FromInit.served (hdigest : ∀ c, HexDigest (digest c)) (h : FromInit digest d) :
    d.Served := by
  refine Machine.Reachable.invariant ?_ (fun _ _ _ hs h => hs.step hdigest h) h
  intro d hd
  obtain ⟨inputs, s, hrun, hok, hdb⟩ := hd
  obtain ⟨db, hsome, hinit, hv⟩ := Init.run_made hrun hok
  exact ⟨db, hdb.trans hsome, hv, readable_empty hinit.registrations⟩

end Durable

/-- whatever calls are made behind an `init`, and wherever they stop: a snapshot succeeds, and has
the record of every registration exactly once, ordered by id -/
theorem snapshot_complete {digest : Bytes → String} (hdigest : ∀ c, HexDigest (digest c))
    {d : Durable} (h : Durable.FromInit digest d) :
    ∃ db records, d.db = some db ∧ db.snapshot = .ok records ∧
      records.Perm (db.registrations.map Registration.toRecord) ∧
      (records.map Record.id).Pairwise (· < ·) := by
  obtain ⟨db, hdb, hv, hread⟩ := h.served hdigest
  obtain ⟨records, hsnapshot, hperm, hids⟩ := hread.snapshot hv
  exact ⟨db, records, hdb, hsnapshot, hperm, hids⟩

/-- SHA-256 of the credential of 32 zero bytes, and of no text at all -/
def hexDigests (credential : Bytes) : String :=
  if credential = List.replicate 64 48 then
    "60e05bd1b195af2f94112fa7197a5c88289058840ce7c6df9693756bc6250f55"
  else "e3b0c44298fc1c149afbf4c8996fb92427ae41e4649b934ca495991b7852b855"

theorem hexDigest_hexDigests (credential : Bytes) : HexDigest (hexDigests credential) := by
  unfold hexDigests HexDigest
  split
  · decide
  · decide

theorem initRun_isSome : (Machine.run Init.step (Init.start none) (List.replicate 11 quiet)).isSome
    = true := by
  decide

/-- a directory that was initialized -/
def madeDirectory : Durable := ⟨(Option.get _ initRun_isSome).db, fun _ => none⟩

theorem fromInit_madeDirectory : Durable.FromInit hexDigests madeDirectory :=
  .init ⟨_, _, (Option.some_get initRun_isSome).symm, rfl, rfl⟩

theorem registerRun_isSome : (Machine.run (Durable.step hexDigests) madeDirectory
    [(.register "alpha" "rental" 60 "first", List.replicate 15 quiet)]).isSome = true := by
  decide

theorem snapshot_complete_alpha : ∃ db records,
    (Option.get _ registerRun_isSome).db = some db ∧ db.snapshot = .ok records ∧
      records.Perm (db.registrations.map Registration.toRecord) ∧
      (records.map Record.id).Pairwise (· < ·) :=
  snapshot_complete hexDigest_hexDigests
    (fromInit_madeDirectory.run (Option.some_get registerRun_isSome).symm)

end AnvilRing
