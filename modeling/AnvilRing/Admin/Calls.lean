import AnvilRing.Admin.Issue

/-!
# The administration calls

`Store::revoke` and `Store::init` as machines like that of an issuance, and the state directory
over a history of calls.  SQLite serializes the transactions, so a call runs on the tables that the
calls in front of it committed; one that stops early has crashed there.

* `Revoke.step`, `Init.step`   the machines;
* `Revoke.run_inv`             a revocation writes one row with its audit row, or nothing;
* `Durable.step`               one call of a history, and `Durable.commits` what it commits;
* `Durable.Change`             what a call can do to the tables.
-/

namespace AnvilRing
open Wire

/-! ## revoke -/

inductive RevokePc where
  | validate
  | checkFiles
  /-- at `BEGIN IMMEDIATE` -/
  | begin
  | checkSchema
  | statement
  | audit
  /-- with the count of the UPDATE -/
  | commit (changed : Nat)
  | returned (r : Except AdminError Bool)

structure Revoke where
  id : String
  pc : RevokePc := .validate
  /-- the committed tables -/
  db : Database
  /-- the tables as the transaction sees them -/
  tx : Database

namespace Revoke

def start (id : String) (db : Database) : Revoke := { id := id, db := db, tx := db }

/-- `?`: the transaction is rolled back -/
def fail (s : Revoke) (e : AdminError) : Revoke := { s with pc := .returned (.error e) }

def attempt (s : Revoke) (i : Input) (next : Revoke) : Revoke :=
  match i.fault with
  | some e => s.fail e
  | none => next

def statementStep (s : Revoke) (i : Input) : Revoke :=
  match i.fault, s.tx.disable s.id with
  | some e, _ => s.fail e
  | none, none => s.fail .system
  | none, some (d, changed) =>
    { s with tx := d, pc := if changed = 1 then .audit else .commit changed }

def auditStep (s : Revoke) (i : Input) : Revoke :=
  match i.fault, s.tx.appendAudit i.clock i.uid .revoke (some s.id) none with
  | some e, _ => s.fail e
  | none, none => s.fail .system
  | none, some d => { s with tx := d, pc := .commit 1 }

def step (s : Revoke) (i : Input) : Option Revoke :=
  match s.pc with
  | .validate =>
    match validateId s.id with
    | .error e => some (s.fail e)
    | .ok () => some { s with pc := .checkFiles }
  | .checkFiles => some (s.attempt i { s with pc := .begin })
  | .begin => some (s.attempt i { s with tx := s.db, pc := .checkSchema })
  | .checkSchema =>
    some (s.attempt i (if s.tx.userVersion ≠ 1 then s.fail .schemaVersion
      else { s with pc := .statement }))
  | .statement => some (s.statementStep i)
  | .audit => some (s.auditStep i)
  | .commit changed =>
    some (s.attempt i { s with db := s.tx, pc := .returned (.ok (changed = 1)) })
  | .returned _ => none

end Revoke

/-! ## what a revocation is to do -/

/-- the row stored under an id is active -/
def Database.ActiveRow (db : Database) (id : String) : Prop :=
  ∃ r, db.row id = some r ∧ r.active = 1

/-- the UPDATE of a revocation -/
def disableRow (id : String) (r : Registration) : Registration :=
  if r.id = id then { r with active := 0 } else r

/-- the revocation of `id`: its registration disabled, one audit row more -/
structure Revoked (id : String) (db db' : Database) : Prop where
  active : db.ActiveRow id
  registrations : db'.registrations = db.registrations.map (disableRow id)
  audit : ∃ timestamp uid, db'.audit = db.audit ++
    [⟨db.lastSequence + 1, timestamp, uid, .revoke, some id, none⟩]
  lastSequence : db'.lastSequence = db.lastSequence + 1
  version : db.userVersion = 1 ∧ db'.userVersion = 1

/-- the statement has written the active row of `id` -/
structure Disabled (id : String) (db db' : Database) : Prop where
  active : db.ActiveRow id
  registrations : db'.registrations = db.registrations.map (disableRow id)
  audit : db'.audit = db.audit
  lastSequence : db'.lastSequence = db.lastSequence
  version : db.userVersion = 1 ∧ db'.userVersion = 1

/-- the UPDATE writes the one active row of the id, or changes nothing -/
theorem Database.disable_some {db db' : Database} {id : String} {n : Nat}
    (h : db.disable id = some (db', n)) (hv : db.userVersion = 1) :
    n = 1 ∧ Disabled id db db' ∨ n = 0 ∧ db' = db := by
  obtain ⟨haudit, hlast, hversion⟩ := update_rest h
  have hp : ∀ r : Registration, (r.id = id && r.active = 1) = true → r.id = id := by
    intro r hr
    exact of_decide_eq_true (Bool.and_eq_true_iff.mp hr).1
  obtain ⟨hn, r, hr, hpr⟩ | ⟨hn, hreg⟩ := count_update h hp
  · left
    have hactive : r.active = 1 := of_decide_eq_true (Bool.and_eq_true_iff.mp hpr).2
    refine ⟨hn, ⟨r, hr, hactive⟩, ?_, haudit, hlast, hv, hversion.trans hv⟩
    rw [registrations_update h]
    refine List.map_congr_left fun x hx => ?_
    unfold disableRow
    by_cases hid : x.id = id
    · obtain rfl : x = r := Option.some.inj ((row_eq_some.mpr ⟨hx, hid⟩).symm.trans hr)
      rw [if_pos hid, if_pos hpr]
    · rw [if_neg hid, if_neg fun hx => hid (hp x hx)]
  · exact .inr ⟨hn, eq_of_tables hversion hreg haudit hlast⟩

namespace Revoke
variable {id : String} {db : Database} {s t : Revoke} {i : Input}

/-- `id` was revoked on `db` -/
def Inv (id : String) (db : Database) (s : Revoke) : Prop :=
  s.id = id ∧
  match s.pc with
  | .validate | .checkFiles | .begin => s.db = db
  | .checkSchema => s.db = db ∧ s.tx = db
  | .statement => s.db = db ∧ s.tx = db ∧ db.userVersion = 1
  | .audit => s.db = db ∧ Disabled id db s.tx
  | .commit changed =>
    s.db = db ∧ (changed = 1 ∧ Revoked id db s.tx ∨ changed = 0 ∧ s.tx = db)
  | .returned (.error _) | .returned (.ok false) => s.db = db
  | .returned (.ok true) => Revoked id db s.db

theorem fail_inv (hid : s.id = id) (hdb : s.db = db) (e : AdminError) : Inv id db (s.fail e) :=
  ⟨hid, hdb⟩

theorem attempt_inv (hid : s.id = id) (hdb : s.db = db) {next : Revoke} (hnext : Inv id db next) :
    Inv id db (s.attempt i next) := by
  unfold attempt
  split
  · exact fail_inv hid hdb _
  · exact hnext

theorem statementStep_inv (hid : s.id = id) (hdb : s.db = db) (htx : s.tx = db)
    (hv : db.userVersion = 1) : Inv id db (s.statementStep i) := by
  subst hid
  subst htx
  unfold statementStep
  split
  · exact fail_inv rfl hdb _
  · exact fail_inv rfl hdb _
  · next d changed _ hdis =>
    obtain ⟨rfl, hdisabled⟩ | ⟨rfl, rfl⟩ := Database.disable_some hdis hv
    · exact ⟨rfl, hdb, hdisabled⟩
    · exact ⟨rfl, hdb, .inr ⟨rfl, rfl⟩⟩

theorem auditStep_inv (hid : s.id = id) (hdb : s.db = db) (h : Disabled id db s.tx) :
    Inv id db (s.auditStep i) := by
  unfold auditStep
  split
  · exact fail_inv hid hdb _
  · exact fail_inv hid hdb _
  · next d _ happend =>
    obtain ⟨timestamp, -, -, rfl⟩ := Database.appendAudit_some happend
    refine ⟨hid, hdb, .inl ⟨rfl, h.active, h.registrations, ⟨timestamp, i.uid, ?_⟩, ?_, h.version⟩⟩
    · show s.tx.audit ++ [_] = _
      rw [h.audit, h.lastSequence, hid]
    · exact congrArg (· + 1) h.lastSequence

theorem step_inv (hi : Inv id db s) (h : step s i = some t) : Inv id db t := by
  obtain ⟨hid, hpc⟩ := hi
  unfold step at h
  cases hat : s.pc with
  | validate =>
    simp only [hat] at h hpc
    split at h
    · obtain rfl := Option.some.inj h
      exact fail_inv hid hpc _
    · obtain rfl := Option.some.inj h
      exact ⟨hid, hpc⟩
  | checkFiles =>
    simp only [hat] at h hpc
    obtain rfl := Option.some.inj h
    exact attempt_inv hid hpc ⟨hid, hpc⟩
  | begin =>
    simp only [hat] at h hpc
    obtain rfl := Option.some.inj h
    exact attempt_inv hid hpc ⟨hid, hpc, hpc⟩
  | checkSchema =>
    simp only [hat] at h hpc
    obtain ⟨hdb, htx⟩ := hpc
    obtain rfl := Option.some.inj h
    refine attempt_inv hid hdb ?_
    split
    · exact fail_inv hid hdb _
    · next hv => exact ⟨hid, hdb, htx, htx ▸ not_not.mp hv⟩
  | statement =>
    simp only [hat] at h hpc
    obtain ⟨hdb, htx, hv⟩ := hpc
    obtain rfl := Option.some.inj h
    exact statementStep_inv hid hdb htx hv
  | audit =>
    simp only [hat] at h hpc
    obtain ⟨hdb, hdisabled⟩ := hpc
    obtain rfl := Option.some.inj h
    exact auditStep_inv hid hdb hdisabled
  | commit changed =>
    simp only [hat] at h hpc
    obtain ⟨hdb, hchanged⟩ := hpc
    obtain rfl := Option.some.inj h
    refine attempt_inv hid hdb ⟨hid, ?_⟩
    obtain ⟨rfl, hrevoked⟩ | ⟨rfl, htx⟩ := hchanged
    · exact hrevoked
    · exact htx
  | returned r =>
    simp only [hat] at h hpc
    cases h

theorem run_inv {inputs : List Input} (h : Machine.run step (start id db) inputs = some s) :
    Inv id db s :=
  Machine.run_invariant (fun _ _ _ hi h => step_inv hi h) ⟨rfl, rfl⟩ h

/-- the committed tables are those of the start, or those of the revocation -/
theorem Inv.committed (hi : Inv id db s) :
    s.db = db ∨ Revoked id db s.db ∧ s.pc = .returned (.ok true) := by
  obtain ⟨-, hpc⟩ := hi
  cases hat : s.pc with
  | validate | checkFiles | begin =>
    simp only [hat] at hpc
    exact .inl hpc
  | checkSchema | statement | audit | commit changed =>
    simp only [hat] at hpc
    exact .inl hpc.1
  | returned r =>
    simp only [hat] at hpc
    match r with
    | .error _ | .ok false => exact .inl hpc
    | .ok true => exact .inr ⟨hpc, rfl⟩

end Revoke

/-! ## init -/

inductive InitPc where
  /-- at the creation and the checks of the directory -/
  | directory
  | create
  | permissions
  | sync
  | syncDirectory
  | connect
  /-- at `BEGIN IMMEDIATE` -/
  | begin
  | schema
  | audit
  | commit
  | syncCommitted
  /-- at the removal of the database that was not initialized -/
  | removing (e : AdminError)
  | returned (r : Except AdminError Unit)

structure Init where
  pc : InitPc := .directory
  /-- the database file, with its committed tables -/
  db : Option Database
  /-- the tables as the transaction sees them -/
  tx : Database := .blank

namespace Init

def start (db : Option Database) : Init := { db := db }

/-- `?` in front of the database's initialization -/
def attempt (s : Init) (i : Input) (next : Init) : Init :=
  match i.fault with
  | some e => { s with pc := .returned (.error e) }
  | none => next

/-- `?` within it -/
def attemptRemoving (s : Init) (i : Input) (next : Init) : Init :=
  match i.fault with
  | some e => { s with pc := .removing e }
  | none => next

/-- `create_new` refuses every path that exists -/
def createStep (s : Init) : Init :=
  match s.db with
  | some _ => { s with pc := .returned (.error .system) }
  | none => { s with db := some .blank, pc := .permissions }

def auditStep (s : Init) (i : Input) : Init :=
  match s.tx.appendAudit i.clock i.uid .init none none with
  | none => { s with pc := .removing .system }
  | some d => { s with tx := d, pc := .commit }

def step (s : Init) (i : Input) : Option Init :=
  match s.pc with
  | .directory => some (s.attempt i { s with pc := .create })
  | .create => some (s.attempt i s.createStep)
  | .permissions => some (s.attempt i { s with pc := .sync })
  | .sync => some (s.attempt i { s with pc := .syncDirectory })
  | .syncDirectory => some (s.attempt i { s with pc := .connect })
  | .connect => some (s.attemptRemoving i { s with pc := .begin })
  | .begin => some (s.attemptRemoving i { s with tx := s.db.getD .blank, pc := .schema })
  | .schema => some (s.attemptRemoving i { s with tx := s.tx.schema, pc := .audit })
  | .audit => some (s.attemptRemoving i (s.auditStep i))
  | .commit => some (s.attemptRemoving i { s with db := some s.tx, pc := .syncCommitted })
  | .syncCommitted => some (s.attemptRemoving i { s with pc := .returned (.ok ()) })
  -- the result of the removal is ignored
  | .removing e =>
    some { s with
      db := if i.fault.isSome then s.db else none
      pc := .returned (.error e) }
  | .returned _ => none

end Init

/-- the tables of an initialization that committed -/
structure Initialized (db : Database) : Prop where
  registrations : db.registrations = []
  audit : ∃ timestamp uid, db.audit = [⟨1, timestamp, uid, .init, none, none⟩]
  lastSequence : db.lastSequence = 1

/-- no database, one without a schema, or one just initialized -/
def Fresh (o : Option Database) : Prop := ∀ db, o = some db → db = .blank ∨ Initialized db

namespace Init
variable {db : Option Database} {s t : Init} {i : Input}

/-- `init` was called on the database file `db` -/
def Inv (db : Option Database) (s : Init) : Prop :=
  match s.pc with
  | .directory | .create => s.db = db
  | .permissions | .sync | .syncDirectory | .connect | .begin =>
    db = none ∧ s.db = some .blank
  | .schema => db = none ∧ s.db = some .blank ∧ s.tx = .blank
  | .audit => db = none ∧ s.db = some .blank ∧ s.tx = Database.blank.schema
  | .commit => db = none ∧ s.db = some .blank ∧ Initialized s.tx
  | .syncCommitted | .removing _ => db = none ∧ Fresh s.db
  | .returned _ => s.db = db ∨ db = none ∧ Fresh s.db

theorem fresh_blank : Fresh (some .blank) := fun _ h => .inl (Option.some.inj h).symm

theorem attempt_inv (hdb : s.db = db ∨ db = none ∧ Fresh s.db) {next : Init}
    (hnext : Inv db next) : Inv db (s.attempt i next) := by
  unfold attempt
  split
  · exact hdb
  · exact hnext

theorem attemptRemoving_inv (hnone : db = none) (hfresh : Fresh s.db) {next : Init}
    (hnext : Inv db next) : Inv db (s.attemptRemoving i next) := by
  unfold attemptRemoving
  split
  · exact ⟨hnone, hfresh⟩
  · exact hnext

theorem createStep_inv (hdb : s.db = db) : Inv db s.createStep := by
  unfold createStep
  split
  · exact .inl hdb
  · next hnone => exact ⟨hdb.symm.trans hnone, rfl⟩

theorem auditStep_inv (hnone : db = none) (hdb : s.db = some .blank)
    (htx : s.tx = Database.blank.schema) : Inv db (s.auditStep i) := by
  unfold auditStep
  split
  · exact ⟨hnone, hdb ▸ fresh_blank⟩
  · next d happend =>
    obtain ⟨timestamp, -, -, rfl⟩ := Database.appendAudit_some happend
    refine ⟨hnone, hdb, ?_, ⟨timestamp, i.uid, ?_⟩, ?_⟩
    · exact congrArg Database.registrations htx
    · show s.tx.audit ++ [_] = _
      rw [htx]
      rfl
    · show s.tx.lastSequence + 1 = _
      rw [htx]
      rfl

theorem step_inv (hi : Inv db s) (h : step s i = some t) : Inv db t := by
  unfold Inv at hi
  unfold step at h
  cases hat : s.pc with
  | directory =>
    simp only [hat] at h hi
    obtain rfl := Option.some.inj h
    exact attempt_inv (.inl hi) hi
  | create =>
    simp only [hat] at h hi
    obtain rfl := Option.some.inj h
    exact attempt_inv (.inl hi) (createStep_inv hi)
  | permissions | sync | syncDirectory =>
    simp only [hat] at h hi
    obtain rfl := Option.some.inj h
    exact attempt_inv (.inr ⟨hi.1, hi.2 ▸ fresh_blank⟩) hi
  | connect =>
    simp only [hat] at h hi
    obtain rfl := Option.some.inj h
    exact attemptRemoving_inv hi.1 (hi.2 ▸ fresh_blank) hi
  | begin =>
    simp only [hat] at h hi
    obtain rfl := Option.some.inj h
    refine attemptRemoving_inv hi.1 (hi.2 ▸ fresh_blank) ⟨hi.1, hi.2, ?_⟩
    show s.db.getD .blank = _
    rw [hi.2]
    rfl
  | schema =>
    simp only [hat] at h hi
    obtain ⟨hnone, hdb, htx⟩ := hi
    obtain rfl := Option.some.inj h
    exact attemptRemoving_inv hnone (hdb ▸ fresh_blank) ⟨hnone, hdb, htx ▸ rfl⟩
  | audit =>
    simp only [hat] at h hi
    obtain ⟨hnone, hdb, htx⟩ := hi
    obtain rfl := Option.some.inj h
    exact attemptRemoving_inv hnone (hdb ▸ fresh_blank) (auditStep_inv hnone hdb htx)
  | commit =>
    simp only [hat] at h hi
    obtain ⟨hnone, hdb, hinit⟩ := hi
    obtain rfl := Option.some.inj h
    refine attemptRemoving_inv hnone (hdb ▸ fresh_blank) ⟨hnone, ?_⟩
    intro d hd
    exact .inr (Option.some.inj hd ▸ hinit)
  | syncCommitted =>
    simp only [hat] at h hi
    obtain rfl := Option.some.inj h
    exact attemptRemoving_inv hi.1 hi.2 (.inr hi)
  | removing e =>
    simp only [hat] at h hi
    obtain rfl := Option.some.inj h
    refine .inr ⟨hi.1, ?_⟩
    by_cases hfault : i.fault.isSome
    · rw [if_pos hfault]
      exact hi.2
    · rw [if_neg hfault]
      intro d hd
      cases hd
  | returned r =>
    simp only [hat] at h
    cases h

/-- an existing database is left alone; where there was none, nothing or a fresh one is left -/
theorem run_fresh {inputs : List Input} (h : Machine.run step (start db) inputs = some s) :
    s.db = db ∨ db = none ∧ Fresh s.db := by
  have hstart : Inv db (start db) := rfl
  have hi := Machine.run_invariant (fun _ _ _ hi h => step_inv hi h) hstart h
  unfold Inv at hi
  cases hat : s.pc with
  | directory | create =>
    simp only [hat] at hi
    exact .inl hi
  | permissions | sync | syncDirectory | connect | begin =>
    simp only [hat] at hi
    exact .inr ⟨hi.1, hi.2 ▸ fresh_blank⟩
  | schema | audit | commit =>
    simp only [hat] at hi
    exact .inr ⟨hi.1, hi.2.1 ▸ fresh_blank⟩
  | syncCommitted | removing e =>
    simp only [hat] at hi
    exact .inr hi
  | returned r =>
    simp only [hat] at hi
    exact hi

end Init

/-! ## the state directory -/

/-- a committed change of a registration -/
inductive Commit where
  | issued (id : String) (credential : Bytes) (expiresAt : Nat)
  | revoked (id : String)
  deriving DecidableEq, Repr

structure Durable where
  /-- the database file, with its committed tables -/
  db : Option Database := none
  files : Files

inductive AdminCall where
  | init
  | register (id label : String) (ttlSecs : Nat) (output : String)
  | rotate (id : String) (ttlSecs : Nat) (output : String)
  | revoke (id : String)
  /-- anything else that happens to the operator's files -/
  | operator (files : Files)

namespace Durable
variable {digest : Bytes → String} {d d' : Durable} {a : AdminCall × List Input}

/-- an issuance on the committed tables, as far as its inputs take it -/
def runIssue (digest : Bytes → String) (d : Durable) (call : IssueCall) (inputs : List Input) :
    Option Durable :=
  match d.db with
  -- `Store::open` does not initialize missing state
  | none => some d
  | some db => (Machine.run (Issue.step digest) (Issue.start call db d.files) inputs).map fun s =>
    { db := some s.db, files := s.files }

def runRevoke (d : Durable) (id : String) (inputs : List Input) : Option Durable :=
  match d.db with
  | none => some d
  | some db => (Machine.run Revoke.step (Revoke.start id db) inputs).map fun s =>
    { d with db := some s.db }

def runInit (d : Durable) (inputs : List Input) : Option Durable :=
  (Machine.run Init.step (Init.start d.db) inputs).map fun s => { d with db := s.db }

def step (digest : Bytes → String) (d : Durable) (a : AdminCall × List Input) : Option Durable :=
  match a.1 with
  | .init => d.runInit a.2
  | .register id label ttlSecs output => d.runIssue digest ⟨id, some label, ttlSecs, output⟩ a.2
  | .rotate id ttlSecs output => d.runIssue digest ⟨id, none, ttlSecs, output⟩ a.2
  | .revoke id => d.runRevoke id a.2
  | .operator files => some { d with files := files }

/-- reached by calls on a directory without a database -/
def Reachable (digest : Bytes → String) : Durable → Prop :=
  Machine.Reachable (step digest) fun d => d.db = none

/-! ## what a call commits -/

def issueCommits (digest : Bytes → String) (d : Durable) (call : IssueCall) (inputs : List Input) :
    List Commit :=
  match d.db with
  | none => []
  | some db =>
    match Machine.run (Issue.step digest) (Issue.start call db d.files) inputs with
    | none => []
    | some s =>
      match s.pc with
      | .returned (.ok ()) => [.issued call.id s.credential s.expiresAt]
      | _ => []

def revokeCommits (d : Durable) (id : String) (inputs : List Input) : List Commit :=
  match d.db with
  | none => []
  | some db =>
    match Machine.run Revoke.step (Revoke.start id db) inputs with
    | none => []
    | some s =>
      match s.pc with
      | .returned (.ok true) => [.revoked id]
      | _ => []

def commits (digest : Bytes → String) (d : Durable) (a : AdminCall × List Input) : List Commit :=
  match a.1 with
  | .register id label ttlSecs output =>
    d.issueCommits digest ⟨id, some label, ttlSecs, output⟩ a.2
  | .rotate id ttlSecs output => d.issueCommits digest ⟨id, none, ttlSecs, output⟩ a.2
  | .revoke id => d.revokeCommits id a.2
  | .init | .operator _ => []

/-- a call leaves the tables alone, initializes them, issues one credential, or revokes one id;
the last argument is what it commits -/
inductive Change (digest : Bytes → String) :
    Option Database → Option Database → List Commit → Prop where
  | none (o : Option Database) : Change digest o o []
  | fresh {o : Option Database} (h : Fresh o) : Change digest none o []
  | issued {db db' : Database} {call : IssueCall} {credential : Bytes} {expiresAt : Nat}
      (h : Issued digest call credential expiresAt db db') :
      Change digest (some db) (some db') [.issued call.id credential expiresAt]
  | revoked {db db' : Database} {id : String} (h : Revoked id db db') :
      Change digest (some db) (some db') [.revoked id]

theorem runIssue_change {call : IssueCall} {inputs : List Input}
    (h : d.runIssue digest call inputs = some d') :
    Change digest d.db d'.db (d.issueCommits digest call inputs) := by
  unfold runIssue at h
  unfold issueCommits
  cases hdb : d.db with
  | none =>
    rw [hdb] at h
    obtain rfl := Option.some.inj h
    rw [hdb]
    exact .none _
  | some db =>
    rw [hdb] at h
    obtain ⟨s, hs, rfl⟩ := Option.map_eq_some_iff.mp h
    have hi := Issue.run_inv hs
    simp only [hs]
    split
    · next hok =>
      have hpc := hi.2
      rw [hok] at hpc
      exact .issued hpc.1
    · next hno =>
      obtain heq | ⟨-, -, hok⟩ := hi.committed
      · exact heq ▸ .none _
      · exact absurd hok hno

theorem runRevoke_change {id : String} {inputs : List Input}
    (h : d.runRevoke id inputs = some d') :
    Change digest d.db d'.db (d.revokeCommits id inputs) := by
  unfold runRevoke at h
  unfold revokeCommits
  cases hdb : d.db with
  | none =>
    rw [hdb] at h
    obtain rfl := Option.some.inj h
    rw [hdb]
    exact .none _
  | some db =>
    rw [hdb] at h
    obtain ⟨s, hs, rfl⟩ := Option.map_eq_some_iff.mp h
    have hi := Revoke.run_inv hs
    simp only [hs]
    split
    · next hok =>
      have hpc := hi.2
      rw [hok] at hpc
      exact .revoked hpc
    · next hno =>
      obtain heq | ⟨-, hok⟩ := hi.committed
      · exact heq ▸ .none _
      · exact absurd hok hno

theorem runInit_change {inputs : List Input} (h : d.runInit inputs = some d') :
    Change digest d.db d'.db [] := by
  obtain ⟨s, hs, rfl⟩ := Option.map_eq_some_iff.mp h
  show Change digest d.db s.db []
  obtain heq | ⟨hnone, hfresh⟩ := Init.run_fresh hs
  · rw [heq]
    exact .none _
  · rw [hnone]
    exact .fresh hfresh

/-- **Inversion.** What a call changes is what it commits. -/
theorem step_change (h : step digest d a = some d') :
    Change digest d.db d'.db (d.commits digest a) := by
  unfold step at h
  unfold commits
  split at h <;> rename_i ha <;> rw [ha]
  · exact runInit_change h
  · exact runIssue_change h
  · exact runIssue_change h
  · exact runRevoke_change h
  · obtain rfl := Option.some.inj h
    exact .none _

end Durable

end AnvilRing
