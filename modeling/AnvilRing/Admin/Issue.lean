import AnvilRing.Admin.Store
import AnvilRing.Lib.Machine

/-!
# Issuing a credential

`Store::issue` with `PendingCredential`, one fallible step at a time, over the tables and the file
system.  A step takes what its environment gives it: a failure, the clock, the randomness.  The
process may stop between any two steps; what it leaves behind then is `db` and `files`.

* `Issue.step`      the machine;
* `Issue.Move`      what a step makes of the tables and the credential;
* `Issue.Inv`       what each step has done by then;
* `issue_atomic`    a failed call leaves nothing, and a committed one has its credential delivered.
-/

namespace AnvilRing
open Wire

/-! ## credentials -/

/-- a digit of `{:02x}` -/
def hexDigit (n : Nat) : UInt8 := if n < 10 then UInt8.ofNat (48 + n) else UInt8.ofNat (87 + n)

def hexBytes (bytes : Bytes) : Bytes :=
  bytes.flatMap fun b => [hexDigit (b.toNat / 16), hexDigit (b.toNat % 16)]

/-! ## the call -/

structure IssueCall where
  id : String
  /-- the label of `register`; none for `rotate` -/
  label : Option String
  ttlSecs : Nat
  output : String

/-- the checks in front of the transaction, and the expiry -/
def IssueCall.expiry (call : IssueCall) (clock : Option Nat) : Except AdminError Nat := do
  match call.label with
  | some label => validateLabel label
  | none => pure ()
  validateId call.id
  if call.ttlSecs < 60 ∨ 86400 < call.ttlSecs then throw .ttl
  match clock with
  | none => throw .system
  | some now =>
    if now + call.ttlSecs ≤ i64Max then pure (now + call.ttlSecs) else throw .expiryRange

def IssueCall.action (call : IssueCall) : AuditAction :=
  if call.label.isSome then .register else .rotate

structure File where
  content : Bytes
  mode : Nat
  /-- its content is synchronized -/
  synced : Bool
  /-- its directory entry is synchronized -/
  linked : Bool
  deriving DecidableEq, Repr

abbrev Files := String → Option File

inductive IssuePc where
  | validate
  | checkFiles
  /-- at `BEGIN IMMEDIATE` -/
  | begin
  | checkSchema
  | random
  /-- at the `SELECT count(*)` of `register` -/
  | count
  /-- at the INSERT or the UPDATE -/
  | statement
  | audit
  -- `PendingCredential::create`
  | openParent
  | create
  | permissions
  | write
  | sync
  | syncParent
  | commit
  /-- in the drop of a `PendingCredential` that was not committed -/
  | dropping (e : AdminError)
  | returned (r : Except AdminError Unit)

/-- what a step is given -/
structure Input where
  /-- the step fails with this error -/
  fault : Option AdminError := none
  /-- seconds since the epoch; none before it -/
  clock : Option Nat := none
  random : Bytes := []
  /-- how much a failing write has written -/
  written : Nat := 0
  uid : Nat := 0

structure Issue where
  call : IssueCall
  pc : IssuePc := .validate
  /-- the committed tables -/
  db : Database
  /-- the tables as the transaction sees them -/
  tx : Database
  files : Files
  expiresAt : Nat := 0
  credential : Bytes := []

namespace Issue

def start (call : IssueCall) (db : Database) (files : Files) : Issue :=
  { call := call, db := db, tx := db, files := files }

/-- `?` outside of `PendingCredential`: the transaction is rolled back -/
def fail (s : Issue) (e : AdminError) : Issue := { s with pc := .returned (.error e) }

/-- `?` behind the creation of the file -/
def failDropping (s : Issue) (e : AdminError) : Issue := { s with pc := .dropping e }

/-- a step that may fail without a trace -/
def attempt (s : Issue) (i : Input) (next : Issue) : Issue :=
  match i.fault with
  | some e => s.fail e
  | none => next

/-- a step on the created file, which becomes `f` -/
def attemptFile (s : Issue) (i : Input) (f : File → File) (next : IssuePc) : Issue :=
  match i.fault with
  | some e => s.failDropping e
  | none =>
    { s with
      files := Function.update s.files s.call.output ((s.files s.call.output).map f), pc := next }

/-- what `writeln!` writes -/
def line (credential : Bytes) : Bytes := credential ++ [10]

/-- the INSERT of `register` or the UPDATE of `rotate` -/
def statementStep (digest : Bytes → String) (s : Issue) (i : Input) : Issue :=
  match s.call.label with
  | some label =>
    match i.fault, s.tx.insert ⟨s.call.id, label, digest s.credential, 1, s.expiresAt⟩ with
    | none, some d => { s with tx := d, pc := .audit }
    | _, _ => s.fail .registrationFailed
  | none =>
    match i.fault, s.tx.rotate (digest s.credential) s.expiresAt s.call.id with
    | some e, _ => s.fail e
    | none, none => s.fail .system
    | none, some (d, changed) =>
      if changed ≠ 1 then s.fail .unregistered else { s with tx := d, pc := .audit }

def auditStep (s : Issue) (i : Input) : Issue :=
  match i.fault,
    s.tx.appendAudit i.clock i.uid s.call.action (some s.call.id) (some s.expiresAt) with
  | some e, _ => s.fail e
  | none, none => s.fail .system
  | none, some d => { s with tx := d, pc := .openParent }

/-- `create_new` refuses every path that exists -/
def createStep (s : Issue) (i : Input) : Issue :=
  match i.fault, s.files s.call.output with
  | some e, _ => s.fail e
  | none, some _ => s.fail .system
  | none, none =>
    { s with
      files := Function.update s.files s.call.output (some ⟨[], 0, false, false⟩)
      pc := .permissions }

/-- a failing write may have written a part -/
def writeStep (s : Issue) (i : Input) : Issue :=
  match i.fault with
  | some e =>
    { s with
      files := Function.update s.files s.call.output ((s.files s.call.output).map fun f =>
        { f with content := (line s.credential).take i.written })
      pc := .dropping e }
  | none =>
    { s with
      files := Function.update s.files s.call.output ((s.files s.call.output).map fun f =>
        { f with content := line s.credential })
      pc := .sync }

/-- a commit that fails rolls the transaction back -/
def commitStep (s : Issue) (i : Input) : Issue :=
  match i.fault with
  | some e => s.failDropping e
  | none => { s with db := s.tx, pc := .returned (.ok ()) }

def step (digest : Bytes → String) (s : Issue) (i : Input) : Option Issue :=
  match s.pc with
  | .validate =>
    match s.call.expiry i.clock with
    | .error e => some (s.fail e)
    | .ok expiresAt => some { s with expiresAt := expiresAt, pc := .checkFiles }
  | .checkFiles => some (s.attempt i { s with pc := .begin })
  | .begin => some (s.attempt i { s with tx := s.db, pc := .checkSchema })
  | .checkSchema =>
    some (s.attempt i (if s.tx.userVersion ≠ 1 then s.fail .schemaVersion
      else { s with pc := .random }))
  | .random =>
    if i.fault.isSome then some (s.fail .randomness)
    else if i.random.length = 32 then
      some { s with
        credential := hexBytes i.random
        pc := if s.call.label.isSome then .count else .statement }
    else none
  | .count =>
    some (s.attempt i (if maxRegistrations ≤ s.tx.registrations.length then
      s.fail .registrationLimit else { s with pc := .statement }))
  | .statement => some (s.statementStep digest i)
  | .audit => some (s.auditStep i)
  | .openParent => some (s.attempt i { s with pc := .create })
  | .create => some (s.createStep i)
  | .permissions => some (s.attemptFile i (fun f => { f with mode := 0o600 }) .write)
  | .write => some (s.writeStep i)
  | .sync => some (s.attemptFile i (fun f => { f with synced := true }) .syncParent)
  | .syncParent => some (s.attemptFile i (fun f => { f with linked := true }) .commit)
  | .commit => some (s.commitStep i)
  | .dropping e =>
    some { s with
      files := Function.update s.files s.call.output none, pc := .returned (.error e) }
  | .returned _ => none

end Issue

/-! ## what a step makes of the tables -/

/-- the call has passed its checks, and has yet to write its row -/
def IssuePc.checked : IssuePc → Bool
  | .checkFiles | .begin | .checkSchema | .random | .count | .statement => true
  | _ => false

namespace Issue

/-- What a step makes of the tables and the credential. -/
inductive Move (digest : Bytes → String) (s : Issue) : Issue → Prop where
  /-- a failure, or a step on the file -/
  | left {t : Issue} (hdb : t.db = s.db) (htx : t.tx = s.tx)
      (hcredential : t.credential = s.credential) (hpc : t.pc.checked = false) : Move digest s t
  | validated {clock : Option Nat} {expiresAt : Nat} (h : s.call.expiry clock = .ok expiresAt) :
      Move digest s { s with expiresAt := expiresAt, pc := .checkFiles }
  | goOn {pc : IssuePc} (hs : s.pc.checked = true) (hpc : pc ≠ .statement) :
      Move digest s { s with pc := pc }
  | begin (hs : s.pc.checked = true) : Move digest s { s with tx := s.db, pc := .checkSchema }
  | draw {random : Bytes} (hs : s.pc.checked = true) :
      Move digest s { s with
        credential := hexBytes random
        pc := if s.call.label.isSome then .count else .statement }
  | counted (hs : s.pc.checked = true) (h : s.tx.registrations.length < maxRegistrations) :
      Move digest s { s with pc := .statement }
  | insert {label : String} {d : Database} (hs : s.pc = .statement)
      (hl : s.call.label = some label)
      (h : s.tx.insert ⟨s.call.id, label, digest s.credential, 1, s.expiresAt⟩ = some d) :
      Move digest s { s with tx := d, pc := .audit }
  | rotate {d : Database} {changed : Nat} (hs : s.pc = .statement)
      (h : s.tx.rotate (digest s.credential) s.expiresAt s.call.id = some (d, changed)) :
      Move digest s { s with tx := d, pc := .audit }
  | append {d : Database} {clock : Option Nat} {uid : Nat}
      (h : s.tx.appendAudit clock uid s.call.action (some s.call.id) (some s.expiresAt) = some d) :
      Move digest s { s with tx := d, pc := .openParent }
  | commit : Move digest s { s with db := s.tx, pc := .returned (.ok ()) }

section
variable {digest : Bytes → String} {s t : Issue} {i : Input}

theorem move_attempt {next : Issue} (h : Move digest s next) :
    Move digest s (s.attempt i next) := by
  unfold attempt
  split
  · exact .left rfl rfl rfl rfl
  · exact h

theorem move_attemptFile (f : File → File) {next : IssuePc} (hnext : next.checked = false) :
    Move digest s (s.attemptFile i f next) := by
  unfold attemptFile
  split
  · exact .left rfl rfl rfl rfl
  · exact .left rfl rfl rfl hnext

theorem move_statementStep (hpc : s.pc = .statement) :
    Move digest s (s.statementStep digest i) := by
  unfold statementStep
  split
  · next label hl =>
    split
    · next d _ h => exact .insert hpc hl h
    · exact .left rfl rfl rfl rfl
  · split
    · exact .left rfl rfl rfl rfl
    · exact .left rfl rfl rfl rfl
    · next d changed _ h =>
      split
      · exact .left rfl rfl rfl rfl
      · exact .rotate hpc h

/-- **Inversion.** Every step is one of these. -/
theorem move_of_step (h : step digest s i = some t) : Move digest s t := by
  cases hpc : s.pc <;> simp only [step, hpc] at h
  case validate =>
    split at h
    · exact Option.some.inj h ▸ .left rfl rfl rfl rfl
    · next hok => exact Option.some.inj h ▸ .validated hok
  case checkFiles =>
    exact Option.some.inj h ▸ move_attempt (.goOn (hpc ▸ rfl) (fun hx => by cases hx))
  case begin => exact Option.some.inj h ▸ move_attempt (.begin (hpc ▸ rfl))
  case checkSchema =>
    refine Option.some.inj h ▸ move_attempt ?_
    split
    · exact .left rfl rfl rfl rfl
    · exact .goOn (hpc ▸ rfl) (fun hx => by cases hx)
  case random =>
    split at h
    · exact Option.some.inj h ▸ .left rfl rfl rfl rfl
    · split at h
      · exact Option.some.inj h ▸ .draw (hpc ▸ rfl)
      · cases h
  case count =>
    refine Option.some.inj h ▸ move_attempt ?_
    split
    · exact .left rfl rfl rfl rfl
    · next hlt => exact .counted (hpc ▸ rfl) (Nat.not_le.mp hlt)
  case statement => exact Option.some.inj h ▸ move_statementStep hpc
  case audit =>
    obtain rfl := Option.some.inj h
    unfold auditStep
    split
    · exact .left rfl rfl rfl rfl
    · exact .left rfl rfl rfl rfl
    · next d _ h => exact .append h
  case openParent => exact Option.some.inj h ▸ move_attempt (.left rfl rfl rfl rfl)
  case create =>
    obtain rfl := Option.some.inj h
    unfold createStep
    split <;> exact .left rfl rfl rfl rfl
  case permissions | sync | syncParent =>
    exact Option.some.inj h ▸ move_attemptFile _ rfl
  case write =>
    obtain rfl := Option.some.inj h
    unfold writeStep
    split <;> exact .left rfl rfl rfl rfl
  case commit =>
    obtain rfl := Option.some.inj h
    unfold commitStep
    split
    · exact .left rfl rfl rfl rfl
    · exact .commit
  case dropping => exact Option.some.inj h ▸ .left rfl rfl rfl rfl
  case returned => cases h

end

end Issue

/-! ## what an issuance is to do -/

/-- the statement of an issuance: `register` adds the row, `rotate` writes the one that is there -/
def Stored (digest : Bytes → String) (call : IssueCall) (credential : Bytes) (expiresAt : Nat)
    (db db' : Database) : Prop :=
  match call.label with
  | some label => db.row call.id = none ∧ db'.registrations =
      db.registrations ++ [⟨call.id, label, digest credential, 1, expiresAt⟩]
  | none => (∃ old, db.row call.id = some old) ∧ db'.registrations =
      db.registrations.map fun r => if r.id = call.id then
        { r with credentialHash := digest credential, active := 1, expiresAt := expiresAt }
        else r

/-- the transaction in front of its audit row -/
structure Written (digest : Bytes → String) (call : IssueCall) (credential : Bytes)
    (expiresAt : Nat) (db db' : Database) : Prop where
  stored : Stored digest call credential expiresAt db db'
  audit : db'.audit = db.audit
  lastSequence : db'.lastSequence = db.lastSequence
  version : db.userVersion = 1 ∧ db'.userVersion = 1

/-- the issuance of `credential`: one registration written, one audit row more -/
structure Issued (digest : Bytes → String) (call : IssueCall) (credential : Bytes) (expiresAt : Nat)
    (db db' : Database) : Prop where
  stored : Stored digest call credential expiresAt db db'
  audit : ∃ timestamp uid, db'.audit = db.audit ++
    [⟨db.lastSequence + 1, timestamp, uid, call.action, some call.id, some expiresAt⟩]
  lastSequence : db'.lastSequence = db.lastSequence + 1
  version : db.userVersion = 1 ∧ db'.userVersion = 1
  range : expiresAt ≤ i64Max

/-- the output path, which held nothing, holds a file that fulfils `P`; no other path differs -/
def Created (files files' : Files) (output : String) (P : File → Prop) : Prop :=
  files output = none ∧ ∃ f, P f ∧ files' = Function.update files output (some f)

/-- the file holds the credential, and both it and its entry are durable -/
structure Delivered (credential : Bytes) (f : File) : Prop where
  content : f.content = Issue.line credential
  mode : f.mode = 0o600
  synced : f.synced = true
  linked : f.linked = true

section
variable {digest : Bytes → String} {call : IssueCall} {credential : Bytes} {expiresAt : Nat}
  {db db' : Database} {files files' : Files} {P Q : File → Prop}

/-- the row of the id carries the new digest and expiry, active -/
theorem Stored.row_self (h : Stored digest call credential expiresAt db db') :
    ∃ r, db'.row call.id = some r ∧ r.credentialHash = digest credential ∧ r.active = 1 ∧
      r.expiresAt = expiresAt := by
  unfold Stored at h
  split at h
  · next label _ =>
    obtain ⟨-, hdb⟩ := h
    refine ⟨⟨call.id, label, digest credential, 1, expiresAt⟩, ?_, rfl, rfl, rfl⟩
    refine Database.row_eq_some.mpr ⟨?_, rfl⟩
    rw [hdb]
    exact List.mem_append_right _ (List.mem_singleton_self _)
  · obtain ⟨⟨old, hold⟩, hdb⟩ := h
    obtain ⟨hmem, hid⟩ := Database.row_eq_some.mp hold
    refine ⟨{ old with credentialHash := digest credential, active := 1, expiresAt := expiresAt },
      Database.row_eq_some.mpr ⟨?_, hid⟩, rfl, rfl, rfl⟩
    rw [hdb]
    exact List.mem_map.mpr ⟨old, hmem, if_pos hid⟩

/-- the rows of the other ids stay -/
theorem Stored.row_other (h : Stored digest call credential expiresAt db db') {k : String}
    (hk : k ≠ call.id) : db'.row k = db.row k := by
  unfold Stored at h
  split at h
  · obtain ⟨-, hdb⟩ := h
    have hne : ¬ call.id = k := fun hx => hk hx.symm
    unfold Database.row
    rw [hdb, List.find?_append]
    simp [hne]
  · obtain ⟨-, hdb⟩ := h
    have hrow : db'.row k = (db.row k).map fun r => if r.id = call.id then
        { r with credentialHash := digest credential, active := 1, expiresAt := expiresAt }
        else r := by
      refine Database.row_of_map (fun r => ?_) hdb k
      split <;> rfl
    rw [hrow]
    cases hold : db.row k with
    | none => rfl
    | some r =>
      have hne : ¬ r.id = call.id := fun hx => hk ((Database.row_id hold).symm.trans hx)
      exact congrArg some (if_neg hne)

theorem Created.imp (h : Created files files' call.output P)
    (hPQ : ∀ f, P f → Q f) : Created files files' call.output Q := by
  obtain ⟨hnone, f, hf, hfiles⟩ := h
  exact ⟨hnone, f, hPQ f hf, hfiles⟩

theorem Created.update (h : Created files files' call.output P) {g : File → File}
    (hPQ : ∀ f, P f → Q (g f)) :
    Created files (Function.update files' call.output ((files' call.output).map g))
      call.output Q := by
  obtain ⟨hnone, f, hf, rfl⟩ := h
  refine ⟨hnone, g f, hPQ f hf, ?_⟩
  rw [Function.update_self, Function.update_idem]
  rfl

/-- the drop guard restores the file system -/
theorem Created.remove (h : Created files files' call.output P) :
    Function.update files' call.output none = files := by
  obtain ⟨hnone, f, -, rfl⟩ := h
  rw [Function.update_idem, ← hnone, Function.update_eq_self]

end

namespace Issue
variable {digest : Bytes → String} {call : IssueCall} {db : Database} {files : Files}
  {s t : Issue} {i : Input}

/-! ## what has been done at each point -/

/-- `call` was made on `db` and `files` -/
def Inv (digest : Bytes → String) (call : IssueCall) (db : Database) (files : Files)
    (s : Issue) : Prop :=
  s.call = call ∧
  match s.pc with
  | .validate | .checkFiles | .begin => s.db = db ∧ s.files = files
  | .checkSchema => s.db = db ∧ s.files = files ∧ s.tx = db
  | .random | .count | .statement =>
    s.db = db ∧ s.files = files ∧ s.tx = db ∧ db.userVersion = 1
  | .audit => s.db = db ∧ s.files = files ∧ Written digest call s.credential s.expiresAt db s.tx
  | .openParent | .create =>
    s.db = db ∧ s.files = files ∧ Issued digest call s.credential s.expiresAt db s.tx
  | .permissions =>
    s.db = db ∧ Issued digest call s.credential s.expiresAt db s.tx ∧
      Created files s.files call.output fun _ => True
  | .write =>
    s.db = db ∧ Issued digest call s.credential s.expiresAt db s.tx ∧
      Created files s.files call.output fun f => f.mode = 0o600
  | .sync =>
    s.db = db ∧ Issued digest call s.credential s.expiresAt db s.tx ∧
      Created files s.files call.output fun f => f.content = line s.credential ∧ f.mode = 0o600
  | .syncParent =>
    s.db = db ∧ Issued digest call s.credential s.expiresAt db s.tx ∧
      Created files s.files call.output fun f =>
        f.content = line s.credential ∧ f.mode = 0o600 ∧ f.synced = true
  | .commit =>
    s.db = db ∧ Issued digest call s.credential s.expiresAt db s.tx ∧
      Created files s.files call.output (Delivered s.credential)
  | .dropping _ => s.db = db ∧ Created files s.files call.output fun _ => True
  | .returned (.error _) => s.db = db ∧ s.files = files
  | .returned (.ok ()) =>
    Issued digest call s.credential s.expiresAt db s.db ∧
      Created files s.files call.output (Delivered s.credential)

theorem start_inv : Inv digest call db files (start call db files) := ⟨rfl, rfl, rfl⟩

theorem fail_inv (hcall : s.call = call) (hdb : s.db = db) (hfiles : s.files = files)
    (e : AdminError) : Inv digest call db files (s.fail e) := ⟨hcall, hdb, hfiles⟩

theorem attempt_inv (hcall : s.call = call) (hdb : s.db = db) (hfiles : s.files = files)
    {next : Issue} (hnext : Inv digest call db files next) :
    Inv digest call db files (s.attempt i next) := by
  unfold attempt
  split
  · exact fail_inv hcall hdb hfiles _
  · exact hnext

theorem failDropping_inv {P : File → Prop} (hcall : s.call = call) (hdb : s.db = db)
    (hfile : Created files s.files call.output P) (e : AdminError) :
    Inv digest call db files (s.failDropping e) :=
  ⟨hcall, hdb, hfile.imp fun _ _ => trivial⟩

/-- the statement writes the one row of the call, or fails -/
theorem statementStep_inv (hcall : s.call = call) (hdb : s.db = db) (hfiles : s.files = files)
    (htx : s.tx = db) (hv : db.userVersion = 1) :
    Inv digest call db files (s.statementStep digest i) := by
  subst hcall
  subst htx
  unfold statementStep
  split
  · next label hlabel =>
    split
    · next d hfault hins =>
      obtain ⟨haudit, hlast, hversion⟩ := Database.insert_rest hins
      refine ⟨rfl, hdb, hfiles, ?_, haudit, hlast, hv, hversion.trans hv⟩
      unfold Stored
      rw [hlabel]
      exact ⟨(Database.row_insert hins).1, Database.registrations_insert hins⟩
    · exact fail_inv rfl hdb hfiles _
  · next hlabel =>
    split
    · exact fail_inv rfl hdb hfiles _
    · exact fail_inv rfl hdb hfiles _
    · next d changed hfault hrot =>
      split
      · exact fail_inv rfl hdb hfiles _
      · next hchanged =>
        obtain ⟨haudit, hlast, hversion⟩ := Database.update_rest hrot
        refine ⟨rfl, hdb, hfiles, ?_, haudit, hlast, hv, hversion.trans hv⟩
        unfold Stored
        rw [hlabel]
        refine ⟨?_, Database.registrations_rotate hrot⟩
        have hcount := Database.count_update hrot fun r hr => of_decide_eq_true hr
        obtain ⟨-, r, hr, -⟩ | ⟨hzero, -⟩ := hcount
        · exact ⟨r, hr⟩
        · exact absurd (not_not.mp hchanged) (by omega)

theorem auditStep_inv (hcall : s.call = call) (hdb : s.db = db) (hfiles : s.files = files)
    (h : Written digest call s.credential s.expiresAt db s.tx) :
    Inv digest call db files (s.auditStep i) := by
  unfold auditStep
  split
  · exact fail_inv hcall hdb hfiles _
  · exact fail_inv hcall hdb hfiles _
  · next d hfault happend =>
    obtain ⟨timestamp, -, hrange, rfl⟩ := Database.appendAudit_some happend
    refine ⟨hcall, hdb, hfiles, h.stored, ⟨timestamp, i.uid, ?_⟩, ?_, h.version, hrange _ rfl⟩
    · show s.tx.audit ++ [_] = _
      rw [h.audit, h.lastSequence, hcall]
    · exact congrArg (· + 1) h.lastSequence

theorem createStep_inv (hcall : s.call = call) (hdb : s.db = db) (hfiles : s.files = files)
    (h : Issued digest call s.credential s.expiresAt db s.tx) :
    Inv digest call db files (s.createStep i) := by
  unfold createStep
  split
  · exact fail_inv hcall hdb hfiles _
  · exact fail_inv hcall hdb hfiles _
  · next hfault hnone =>
    subst hcall
    subst hfiles
    exact ⟨rfl, hdb, h, hnone, _, trivial, rfl⟩

/-- a step on the created file, which fulfils `Q` behind it -/
theorem attemptFile_inv {P Q : File → Prop} {f : File → File} {next : IssuePc}
    (hcall : s.call = call) (hdb : s.db = db) (hfile : Created files s.files call.output P)
    (hPQ : ∀ x, P x → Q (f x))
    (hnext : Created files (Function.update s.files s.call.output ((s.files s.call.output).map f))
      call.output Q → Inv digest call db files { s with
        files := Function.update s.files s.call.output ((s.files s.call.output).map f)
        pc := next }) : Inv digest call db files (s.attemptFile i f next) := by
  unfold attemptFile
  split
  · exact failDropping_inv hcall hdb hfile _
  · refine hnext ?_
    rw [hcall]
    exact hfile.update hPQ

theorem writeStep_inv (hcall : s.call = call) (hdb : s.db = db)
    (h : Issued digest call s.credential s.expiresAt db s.tx)
    (hfile : Created files s.files call.output fun f => f.mode = 0o600) :
    Inv digest call db files (s.writeStep i) := by
  subst hcall
  unfold writeStep
  split
  · exact ⟨rfl, hdb, hfile.update fun _ _ => trivial⟩
  · exact ⟨rfl, hdb, h, hfile.update fun _ hmode => ⟨rfl, hmode⟩⟩

theorem commitStep_inv (hcall : s.call = call) (hdb : s.db = db)
    (h : Issued digest call s.credential s.expiresAt db s.tx)
    (hfile : Created files s.files call.output (Delivered s.credential)) :
    Inv digest call db files (s.commitStep i) := by
  unfold commitStep
  split
  · exact failDropping_inv hcall hdb hfile _
  · exact ⟨hcall, h, hfile⟩

theorem step_inv (hi : Inv digest call db files s) (h : step digest s i = some t) :
    Inv digest call db files t := by
  obtain ⟨hcall, hpc⟩ := hi
  unfold step at h
  cases hat : s.pc with
  | validate =>
    simp only [hat] at h hpc
    obtain ⟨hdb, hfiles⟩ := hpc
    split at h
    · obtain rfl := Option.some.inj h
      exact fail_inv hcall hdb hfiles _
    · obtain rfl := Option.some.inj h
      exact ⟨hcall, hdb, hfiles⟩
  | checkFiles =>
    simp only [hat] at h hpc
    obtain ⟨hdb, hfiles⟩ := hpc
    obtain rfl := Option.some.inj h
    exact attempt_inv hcall hdb hfiles ⟨hcall, hdb, hfiles⟩
  | begin =>
    simp only [hat] at h hpc
    obtain ⟨hdb, hfiles⟩ := hpc
    obtain rfl := Option.some.inj h
    exact attempt_inv hcall hdb hfiles ⟨hcall, hdb, hfiles, hdb⟩
  | checkSchema =>
    simp only [hat] at h hpc
    obtain ⟨hdb, hfiles, htx⟩ := hpc
    obtain rfl := Option.some.inj h
    refine attempt_inv hcall hdb hfiles ?_
    split
    · exact fail_inv hcall hdb hfiles _
    · next hv =>
      exact ⟨hcall, hdb, hfiles, htx, htx ▸ not_not.mp hv⟩
  | random =>
    simp only [hat] at h hpc
    obtain ⟨hdb, hfiles, htx, hv⟩ := hpc
    split at h
    · obtain rfl := Option.some.inj h
      exact fail_inv hcall hdb hfiles _
    · split at h
      · obtain rfl := Option.some.inj h
        by_cases hlabel : s.call.label.isSome
        · rw [if_pos hlabel]
          exact ⟨hcall, hdb, hfiles, htx, hv⟩
        · rw [if_neg hlabel]
          exact ⟨hcall, hdb, hfiles, htx, hv⟩
      · cases h
  | count =>
    simp only [hat] at h hpc
    obtain ⟨hdb, hfiles, htx, hv⟩ := hpc
    obtain rfl := Option.some.inj h
    refine attempt_inv hcall hdb hfiles ?_
    split
    · exact fail_inv hcall hdb hfiles _
    · exact ⟨hcall, hdb, hfiles, htx, hv⟩
  | statement =>
    simp only [hat] at h hpc
    obtain ⟨hdb, hfiles, htx, hv⟩ := hpc
    obtain rfl := Option.some.inj h
    exact statementStep_inv hcall hdb hfiles htx hv
  | audit =>
    simp only [hat] at h hpc
    obtain ⟨hdb, hfiles, hw⟩ := hpc
    obtain rfl := Option.some.inj h
    exact auditStep_inv hcall hdb hfiles hw
  | openParent =>
    simp only [hat] at h hpc
    obtain ⟨hdb, hfiles, hissued⟩ := hpc
    obtain rfl := Option.some.inj h
    exact attempt_inv hcall hdb hfiles ⟨hcall, hdb, hfiles, hissued⟩
  | create =>
    simp only [hat] at h hpc
    obtain ⟨hdb, hfiles, hissued⟩ := hpc
    obtain rfl := Option.some.inj h
    exact createStep_inv hcall hdb hfiles hissued
  | permissions =>
    simp only [hat] at h hpc
    obtain ⟨hdb, hissued, hfile⟩ := hpc
    obtain rfl := Option.some.inj h
    exact attemptFile_inv hcall hdb hfile (fun _ _ => rfl) fun hnext =>
      ⟨hcall, hdb, hissued, hnext⟩
  | write =>
    simp only [hat] at h hpc
    obtain ⟨hdb, hissued, hfile⟩ := hpc
    obtain rfl := Option.some.inj h
    exact writeStep_inv hcall hdb hissued hfile
  | sync =>
    simp only [hat] at h hpc
    obtain ⟨hdb, hissued, hfile⟩ := hpc
    obtain rfl := Option.some.inj h
    exact attemptFile_inv hcall hdb hfile (fun _ hf => ⟨hf.1, hf.2, rfl⟩) fun hnext =>
      ⟨hcall, hdb, hissued, hnext⟩
  | syncParent =>
    simp only [hat] at h hpc
    obtain ⟨hdb, hissued, hfile⟩ := hpc
    obtain rfl := Option.some.inj h
    exact attemptFile_inv hcall hdb hfile (fun _ hf => ⟨hf.1, hf.2.1, hf.2.2, rfl⟩) fun hnext =>
      ⟨hcall, hdb, hissued, hnext⟩
  | commit =>
    simp only [hat] at h hpc
    obtain ⟨hdb, hissued, hfile⟩ := hpc
    obtain rfl := Option.some.inj h
    exact commitStep_inv hcall hdb hissued hfile
  | dropping e =>
    simp only [hat] at h hpc
    obtain ⟨hdb, hfile⟩ := hpc
    obtain rfl := Option.some.inj h
    refine ⟨hcall, hdb, ?_⟩
    rw [hcall]
    exact hfile.remove
  | returned r =>
    simp only [hat] at h hpc
    cases h

theorem run_inv {inputs : List Input}
    (h : Machine.run (step digest) (start call db files) inputs = some s) :
    Inv digest call db files s :=
  Machine.run_invariant (fun _ _ _ hi h => step_inv hi h) start_inv h

/-- the committed tables are those of the start, or those of the delivered credential -/
theorem Inv.committed (hi : Inv digest call db files s) :
    s.db = db ∨ Issued digest call s.credential s.expiresAt db s.db ∧
      Created files s.files call.output (Delivered s.credential) ∧ s.pc = .returned (.ok ()) := by
  obtain ⟨-, hpc⟩ := hi
  cases hat : s.pc with
  | returned r =>
    simp only [hat] at hpc
    match r with
    | .error _ => exact .inl hpc.1
    | .ok () => exact .inr ⟨hpc.1, hpc.2, rfl⟩
  | _ =>
    simp only [hat] at hpc
    exact .inl hpc.1

end Issue

/-! ## atomicity -/

/-- wherever the call and the process stop: an error leaves the tables and the files as they were,
a success has changed one registration and added one audit row, and a changed table never goes
without the synchronized file of its credential -/
theorem issue_atomic {digest : Bytes → String} {call : IssueCall} {db : Database} {files : Files}
    {inputs : List Input} {s : Issue}
    (h : Machine.run (Issue.step digest) (Issue.start call db files) inputs = some s) :
    (∀ e, s.pc = .returned (.error e) → s.db = db ∧ s.files = files) ∧
    (s.pc = .returned (.ok ()) →
      Issued digest call s.credential s.expiresAt db s.db ∧
      (∃ r, s.db.row call.id = some r ∧ r.credentialHash = digest s.credential) ∧
      (∀ k, k ≠ call.id → s.db.row k = db.row k) ∧
      Created files s.files call.output (Delivered s.credential)) ∧
    (s.db ≠ db → Created files s.files call.output (Delivered s.credential)) ∧
    ∀ r, s.db.row call.id = some r → r.credentialHash = digest s.credential →
      db.row call.id = some r ∨ Created files s.files call.output (Delivered s.credential) := by
  have hi := Issue.run_inv h
  refine ⟨?_, ?_, ?_, ?_⟩
  · intro e he
    have hpc := hi.2
    rw [he] at hpc
    exact hpc
  · intro hok
    have hpc := hi.2
    rw [hok] at hpc
    obtain ⟨hissued, hfile⟩ := hpc
    obtain ⟨r, hr, hhash, -⟩ := hissued.stored.row_self
    exact ⟨hissued, ⟨r, hr, hhash⟩, fun k hk => hissued.stored.row_other hk, hfile⟩
  · intro hne
    obtain heq | ⟨-, hfile, -⟩ := hi.committed
    · exact absurd heq hne
    · exact hfile
  · intro r hr _
    obtain heq | ⟨-, hfile, -⟩ := hi.committed
    · exact .inl (heq ▸ hr)
    · exact .inr hfile

/-- SHA-256 of the credential of 32 zero bytes -/
def zeroDigest (credential : Bytes) : String :=
  if credential = List.replicate 64 48 then
    "60e05bd1b195af2f94112fa7197a5c88289058840ce7c6df9693756bc6250f55"
  else ""

def registerAlpha : IssueCall := ⟨"alpha", some "rental", 60, "alpha.credential"⟩

def quiet : Input := { clock := some 1000, random := List.replicate 32 0, uid := 501 }

theorem registerAlpha_isSome :
    (Machine.run (Issue.step zeroDigest)
      (Issue.start registerAlpha Database.blank.schema fun _ => none)
      (List.replicate 15 quiet)).isSome = true := by
  decide

theorem issue_atomic_alpha : ∃ s : Issue, s.pc = .returned (.ok ()) ∧
    Issued zeroDigest registerAlpha s.credential s.expiresAt Database.blank.schema s.db ∧
    Created (fun _ => none) s.files "alpha.credential" (Delivered s.credential) := by
  have h := (Option.some_get registerAlpha_isSome).symm
  have hpc : (Option.get _ registerAlpha_isSome).pc = .returned (.ok ()) := rfl
  obtain ⟨hissued, -, -, hfile⟩ := (issue_atomic h).2.1 hpc
  exact ⟨_, hpc, hissued, hfile⟩

end AnvilRing
