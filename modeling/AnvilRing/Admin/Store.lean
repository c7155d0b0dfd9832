import AnvilRing.Hub.Registry
import Mathlib.Data.String.Basic

/-!
# The registration store

The two tables of `hub.sqlite3` and the statements that the administration runs on them.  SQLite is
modelled by its contract: a statement that violates a constraint changes nothing, and a transaction
works on a copy of the tables that its commit puts in place.

* `Database`                 the tables; no two registrations share an id;
* `Database.insert`, `rotate`, `disable`, `appendAudit`   the four writing statements;
* `Database.snapshot`        `Store::snapshot` behind the checks of its files;
* `Database.row`             what is stored under an id (`row_insert`, `row_of_map`);
* `Database.snapshot_rows`   a snapshot holds every registration, or there is none.
-/

namespace AnvilRing
open Wire

/-- `MAX_REGISTRATIONS` -/
def maxRegistrations : Nat := 10000

/-- `i64::MAX` -/
def i64Max : Nat := 2 ^ 63 - 1

/-! ## errors -/

inductive AdminError where
  | invalidId
  | invalidLabel
  | ttl
  | expiryRange
  | schemaVersion
  | randomness
  | registrationLimit
  | registrationFailed
  | unregistered
  | invalidState
  | invalidRegistration
  | limitExceeded
  | filesReplaced
  /-- an error of the operating system, of SQLite or of an integer conversion -/
  | system
  deriving DecidableEq, Repr

/-- the texts that the source gives -/
def AdminError.text : AdminError → Option String
  | .invalidId => some ("ID must contain 1 through 63 lowercase ASCII letters, digits or " ++
      "hyphens, starting with a letter or digit")
  | .invalidLabel => some "label must contain 1 through 128 characters without controls"
  | .ttl => some "credential TTL must be 60 through 86400 seconds"
  | .expiryRange => some "credential expiry is out of range"
  | .schemaVersion => some "unsupported database schema version"
  | .randomness => some "OS credential randomness unavailable"
  | .registrationLimit => some "registration limit reached"
  | .registrationFailed =>
    some "registration failed; ID must be unique and state must be writable"
  | .unregistered => some "registration does not exist"
  | .invalidState => some "invalid registration state"
  | .invalidRegistration => some "invalid persisted registration"
  | .limitExceeded => some "registration limit exceeded"
  | .filesReplaced => some "state directory or database was replaced"
  | .system => none

/-! ## validation -/

/-- an ASCII lowercase letter or digit -/
def isIdChar (c : Char) : Bool := ('a' ≤ c && c ≤ 'z') || ('0' ≤ c && c ≤ '9')

def validateId (id : String) : Except AdminError Unit :=
  match id.toList with
  | [] => .error .invalidId
  | c :: cs =>
    if 63 < id.utf8ByteSize ∨ !isIdChar c ∨ !(c :: cs).all fun c => isIdChar c || c == '-' then
      .error .invalidId
    else .ok ()

/-- `char::is_control`: the general category Cc -/
def isControl (c : Char) : Bool := c.toNat < 32 || (127 ≤ c.toNat && c.toNat < 160)

def validateLabel (label : String) : Except AdminError Unit :=
  if label.toList = [] ∨ 128 < label.length ∨ label.toList.any isControl then .error .invalidLabel
  else .ok ()

/-- a lowercase hexadecimal digit -/
def isHexChar (c : Char) : Bool := ('0' ≤ c && c ≤ '9') || ('a' ≤ c && c ≤ 'f')

/-! ## the tables -/

/-- a row of `registrations` -/
structure Registration where
  id : String
  label : String
  credentialHash : String
  active : Int
  expiresAt : Int
  deriving DecidableEq, Repr

/-- the CHECK constraints of `registrations` -/
def Registration.checked (r : Registration) : Bool :=
  decide (1 ≤ r.id.length ∧ r.id.length ≤ 63 ∧ 1 ≤ r.label.length ∧ r.label.length ≤ 128 ∧
    r.credentialHash.length = 64 ∧ (r.active = 0 ∨ r.active = 1) ∧ 0 < r.expiresAt)

inductive AuditAction where
  | init
  | register
  | rotate
  | revoke
  deriving DecidableEq, Repr

/-- a row of `audit` -/
structure AuditRow where
  sequence : Nat
  timestamp : Nat
  operatorUid : Nat
  action : AuditAction
  tetherId : Option String
  expiresAt : Option Nat
  deriving DecidableEq, Repr

structure Database where
  /-- `PRAGMA user_version`: 1 once the schema is there -/
  userVersion : Nat := 0
  /-- in the order of their rowids -/
  registrations : List Registration := []
  audit : List AuditRow := []
  /-- `sqlite_sequence` of `audit` -/
  lastSequence : Nat := 0
  /-- the primary key -/
  unique : (registrations.map Registration.id).Nodup
  deriving DecidableEq

/-- the file that `init` creates, before its schema is committed -/
def Database.blank : Database := { registrations := [], unique := List.nodup_nil }

/-- `SCHEMA` -/
def Database.schema (db : Database) : Database := { db with userVersion := 1 }

namespace Database
variable {db db' : Database} {id : String} {r : Registration}

/-- the registration stored under an id -/
def row (db : Database) (id : String) : Option Registration :=
  db.registrations.find? fun r => r.id = id

theorem eq_of_tables (hv : db'.userVersion = db.userVersion)
    (hr : db'.registrations = db.registrations) (ha : db'.audit = db.audit)
    (hs : db'.lastSequence = db.lastSequence) : db' = db := by
  cases db
  cases db'
  simp_all only

/-! ## the statements -/

/-- `INSERT INTO registrations`: refused by a CHECK or by the primary key -/
def insert (db : Database) (r : Registration) : Option Database :=
  if h : r.checked = true ∧ r.id ∉ db.registrations.map Registration.id then
    some { db with
      registrations := db.registrations ++ [r]
      unique := by
        rw [List.map_append]
        exact List.nodup_append.mpr ⟨db.unique, List.nodup_singleton _, by
          intro a ha b hb
          obtain rfl := List.mem_singleton.mp hb
          rintro rfl
          exact h.2 ha⟩ }
  else none

/-- an UPDATE that leaves the ids alone: refused by a CHECK on any row it writes -/
def update (db : Database) (p : Registration → Bool) (f : Registration → Registration)
    (hf : ∀ r, (f r).id = r.id) : Option (Database × Nat) :=
  if (db.registrations.filter p).all fun r => (f r).checked then
    some ({ db with
      registrations := db.registrations.map fun r => if p r then f r else r
      unique := by
        have hids : (db.registrations.map fun r => if p r then f r else r).map Registration.id =
            db.registrations.map Registration.id := by
          rw [List.map_map]
          refine List.map_congr_left fun r _ => ?_
          show (if p r then f r else r).id = r.id
          split
          · exact hf r
          · rfl
        rw [hids]
        exact db.unique }, db.registrations.countP p)
  else none

/-- `UPDATE registrations SET credential_hash=?1, active=1, expires_at=?2 WHERE id=?3` -/
def rotate (db : Database) (credentialHash : String) (expiresAt : Nat) (id : String) :
    Option (Database × Nat) :=
  db.update (fun r => r.id = id)
    (fun r => { r with credentialHash := credentialHash, active := 1, expiresAt := expiresAt })
    fun _ => rfl

/-- `UPDATE registrations SET active=0 WHERE id=?1 AND active=1` -/
def disable (db : Database) (id : String) : Option (Database × Nat) :=
  db.update (fun r => r.id = id && r.active = 1) (fun r => { r with active := 0 }) fun _ => rfl

/-- `append_audit`: AUTOINCREMENT hands out every sequence number once, up to the last -/
def appendAudit (db : Database) (clock : Option Nat) (operatorUid : Nat) (action : AuditAction)
    (tetherId : Option String) (expiresAt : Option Nat) : Option Database :=
  match clock with
  | none => none
  | some timestamp =>
    if timestamp ≤ i64Max ∧ (∀ e ∈ expiresAt, e ≤ i64Max) ∧ db.lastSequence < i64Max then
      some { db with
        audit := db.audit ++ [{
          sequence := db.lastSequence + 1
          timestamp := timestamp
          operatorUid := operatorUid
          action := action
          tetherId := tetherId
          expiresAt := expiresAt }]
        lastSequence := db.lastSequence + 1 }
    else none

/-! ## the snapshot -/

end Database

/-- the record that `snapshot` makes of a row -/
def Registration.record (r : Registration) : Except AdminError Record :=
  if r.expiresAt < 0 then .error .system
  else if r.active ≠ 0 ∧ r.active ≠ 1 then .error .invalidState
  else
    match validateId r.id, validateLabel r.label with
    | .error e, _ => .error e
    | _, .error e => .error e
    | .ok _, .ok _ =>
      if r.credentialHash.utf8ByteSize ≠ 64 ∨ !r.credentialHash.toList.all isHexChar ∨
          r.expiresAt = 0 then .error .invalidRegistration
      else .ok {
        id := r.id
        label := r.label
        credentialHash := r.credentialHash
        active := r.active = 1
        expiresAt := r.expiresAt.toNat }

/-- the loop of `snapshot` over the rows left -/
def collectRecords : List Registration → List Record → Except AdminError (List Record)
  | [], records => .ok records
  | r :: rest, records =>
    match r.record with
    | .error e => .error e
    | .ok record =>
      if maxRegistrations < (records ++ [record]).length then .error .limitExceeded
      else collectRecords rest (records ++ [record])

namespace Database
variable {db db' : Database} {id : String} {r : Registration}

/-- `SELECT … ORDER BY id LIMIT 10001` -/
def selectOrdered (db : Database) : List Registration :=
  (db.registrations.mergeSort fun a b => decide (a.id ≤ b.id)).take (maxRegistrations + 1)

def snapshot (db : Database) : Except AdminError (List Record) :=
  if db.userVersion ≠ 1 then .error .schemaVersion
  else collectRecords db.selectOrdered []

/-! ## what is stored under an id -/

theorem row_eq_some : db.row id = some r ↔ r ∈ db.registrations ∧ r.id = id := by
  constructor
  · intro h
    have hid : r.id = id := by simpa using List.find?_some h
    exact ⟨List.mem_of_find?_eq_some h, hid⟩
  · intro h
    obtain ⟨hm, rfl⟩ := h
    cases hf : db.row r.id with
    | none =>
      have hno := List.find?_eq_none.mp hf r hm
      simp at hno
    | some r' =>
      have hid : r'.id = r.id := by simpa using List.find?_some hf
      have hm' : r' ∈ db.registrations := List.mem_of_find?_eq_some hf
      rw [List.inj_on_of_nodup_map db.unique hm' hm hid]

theorem row_eq_none : db.row id = none ↔ id ∉ db.registrations.map Registration.id := by
  constructor
  · intro h hm
    obtain ⟨r, hr, rfl⟩ := List.mem_map.mp hm
    rw [row_eq_some.mpr ⟨hr, rfl⟩] at h
    cases h
  · intro h
    refine List.find?_eq_none.mpr fun r hr hid => h ?_
    have hid' : r.id = id := by simpa using hid
    exact List.mem_map.mpr ⟨r, hr, hid'⟩

theorem row_id (h : db.row id = some r) : r.id = id := (row_eq_some.mp h).2

/-- the inserted row is new, and the others stay -/
theorem row_insert (h : db.insert r = some db') :
    db.row r.id = none ∧ ∀ k, db'.row k = if k = r.id then some r else db.row k := by
  unfold insert at h
  split at h
  · next hn =>
    obtain rfl := Option.some.inj h
    refine ⟨row_eq_none.mpr hn.2, fun k => ?_⟩
    show (db.registrations ++ [r]).find? _ = _
    rw [List.find?_append]
    by_cases hk : k = r.id
    · subst hk
      rw [if_pos rfl, show db.registrations.find? _ = none from row_eq_none.mpr hn.2]
      simp
    · have hr : ¬ r.id = k := fun hx => hk hx.symm
      rw [if_neg hk]
      simp [row, hr]
  · cases h

theorem registrations_insert (h : db.insert r = some db') :
    db'.registrations = db.registrations ++ [r] := by
  unfold insert at h
  split at h
  · obtain rfl := Option.some.inj h
    rfl
  · cases h

theorem registrations_update {p : Registration → Bool} {f : Registration → Registration}
    {hf : ∀ r, (f r).id = r.id} {n : Nat} (h : db.update p f hf = some (db', n)) :
    db'.registrations = db.registrations.map fun r => if p r then f r else r := by
  unfold update at h
  split at h
  · obtain rfl := congrArg Prod.fst (Option.some.inj h)
    rfl
  · cases h

theorem registrations_rotate {credentialHash : String} {expiresAt n : Nat}
    (h : db.rotate credentialHash expiresAt id = some (db', n)) :
    db'.registrations = db.registrations.map fun r => if r.id = id then
      { r with credentialHash := credentialHash, active := 1, expiresAt := expiresAt }
      else r := by
  rw [registrations_update h]
  simp only [decide_eq_true_eq]

/-- an update that keeps the ids -/
theorem row_of_map {f : Registration → Registration} (hf : ∀ r, (f r).id = r.id)
    (h : db'.registrations = db.registrations.map f) (k : String) :
    db'.row k = (db.row k).map f := by
  unfold row
  rw [h, List.find?_map]
  refine congrArg (Option.map f) (congrArg (fun q => List.find? q db.registrations) ?_)
  funext r
  show decide ((f r).id = k) = _
  rw [hf]

/-- the count of an UPDATE on one id: whether the row stored there is written -/
theorem count_update {p : Registration → Bool} {f : Registration → Registration}
    {hf : ∀ r, (f r).id = r.id} {n : Nat} (h : db.update p f hf = some (db', n))
    (hp : ∀ r, p r = true → r.id = id) : n = 1 ∧ (∃ r, db.row id = some r ∧ p r = true) ∨
      n = 0 ∧ db'.registrations = db.registrations := by
  unfold update at h
  split at h
  · obtain ⟨hdb, hn⟩ := Prod.mk.inj (Option.some.inj h)
    subst hdb
    subst hn
    by_cases hex : ∃ r ∈ db.registrations, p r = true
    · obtain ⟨r, hr, hpr⟩ := hex
      left
      refine ⟨?_, r, row_eq_some.mpr ⟨hr, hp r hpr⟩, hpr⟩
      have hfil : db.registrations.filter p = [r] := by
        refine List.perm_singleton.mp ?_
        refine (List.perm_ext_iff_of_nodup ?_ (List.nodup_singleton r)).mpr fun x => ?_
        · exact (List.Nodup.of_map _ db.unique).filter _
        · rw [List.mem_filter, List.mem_singleton]
          constructor
          · intro hx
            exact List.inj_on_of_nodup_map db.unique hx.1 hr ((hp x hx.2).trans (hp r hpr).symm)
          · rintro rfl
            exact ⟨hr, hpr⟩
      rw [List.countP_eq_length_filter, hfil]
      rfl
    · right
      have hno : ∀ r ∈ db.registrations, ¬ p r = true := fun r hr hx => hex ⟨r, hr, hx⟩
      refine ⟨List.countP_eq_zero.mpr hno, ?_⟩
      have hid : ∀ r ∈ db.registrations, (if p r then f r else r) = r :=
        fun r hr => if_neg (hno r hr)
      exact (List.map_congr_left hid).trans (List.map_id _)
  · cases h

theorem update_rest {p : Registration → Bool} {f : Registration → Registration}
    {hf : ∀ r, (f r).id = r.id} {n : Nat} (h : db.update p f hf = some (db', n)) :
    db'.audit = db.audit ∧ db'.lastSequence = db.lastSequence ∧
      db'.userVersion = db.userVersion := by
  unfold update at h
  split at h
  · obtain rfl := congrArg Prod.fst (Option.some.inj h)
    exact ⟨rfl, rfl, rfl⟩
  · cases h

theorem insert_rest (h : db.insert r = some db') :
    db'.audit = db.audit ∧ db'.lastSequence = db.lastSequence ∧
      db'.userVersion = db.userVersion := by
  unfold insert at h
  split at h
  · obtain rfl := Option.some.inj h
    exact ⟨rfl, rfl, rfl⟩
  · cases h

theorem appendAudit_some {clock : Option Nat} {uid : Nat} {action : AuditAction}
    {tetherId : Option String} {expiresAt : Option Nat}
    (h : db.appendAudit clock uid action tetherId expiresAt = some db') :
    ∃ timestamp, clock = some timestamp ∧ (∀ e ∈ expiresAt, e ≤ i64Max) ∧ db' = { db with
      audit := db.audit ++
        [⟨db.lastSequence + 1, timestamp, uid, action, tetherId, expiresAt⟩]
      lastSequence := db.lastSequence + 1 } := by
  unfold appendAudit at h
  split at h
  · cases h
  · next timestamp =>
    split at h
    · next hfit => exact ⟨timestamp, rfl, hfit.2.1, (Option.some.inj h).symm⟩
    · cases h

end Database

/-! ## what a snapshot holds -/

theorem record_ok {r : Registration} {record : Record} (h : r.record = .ok record) :
    (r.active = 0 ∨ r.active = 1) ∧ 0 ≤ r.expiresAt ∧ record = {
      id := r.id
      label := r.label
      credentialHash := r.credentialHash
      active := r.active = 1
      expiresAt := r.expiresAt.toNat } := by
  unfold Registration.record at h
  split at h
  · cases h
  · next hexp =>
    split at h
    · cases h
    · next hactive =>
      split at h
      · cases h
      · cases h
      · split at h
        · cases h
        · refine ⟨?_, not_lt.mp hexp, (Except.ok.inj h).symm⟩
          by_cases h0 : r.active = 0
          · exact .inl h0
          · exact .inr (not_not.mp fun h1 => hactive ⟨h0, h1⟩)

theorem collectRecords_ok {rows : List Registration} {records out : List Record}
    (h : collectRecords rows records = .ok out) :
    (∃ new, out = records ++ new ∧ List.Forall₂ (fun r x => r.record = .ok x) rows new) ∧
      (rows ≠ [] → out.length ≤ maxRegistrations) := by
  induction rows generalizing records with
  | nil =>
    obtain rfl := Except.ok.inj h
    exact ⟨⟨[], (List.append_nil records).symm, .nil⟩, fun hne => absurd rfl hne⟩
  | cons r rows ih =>
    unfold collectRecords at h
    split at h
    · cases h
    · next record hrecord =>
      split at h
      · cases h
      · next hlen =>
        obtain ⟨⟨new, rfl, hnew⟩, hout⟩ := ih h
        refine ⟨⟨record :: new, by simp, .cons hrecord hnew⟩, fun _ => ?_⟩
        by_cases hrows : rows = []
        · subst hrows
          cases hnew
          rw [List.append_nil]
          omega
        · exact hout hrows

/-- a snapshot holds the record of every registration, and no other -/
theorem Database.snapshot_rows {db : Database} {records : List Record}
    (h : db.snapshot = .ok records) :
    ∃ rows, rows.Perm db.registrations ∧
      List.Forall₂ (fun r x => Registration.record r = .ok x) rows records := by
  unfold snapshot at h
  split at h
  · cases h
  · obtain ⟨⟨new, rfl, hnew⟩, hlen⟩ := collectRecords_ok h
    refine ⟨db.selectOrdered, ?_, hnew⟩
    have hshort : db.selectOrdered.length ≤ maxRegistrations := by
      by_cases hempty : db.selectOrdered = []
      · rw [hempty]
        exact Nat.zero_le _
      · rw [hnew.length_eq]
        exact hlen hempty
    unfold selectOrdered at hshort ⊢
    rw [List.length_take] at hshort
    rw [List.take_of_length_le (by omega)]
    exact List.mergeSort_perm _ _

theorem records_ids {rows : List Registration} {records : List Record}
    (h : List.Forall₂ (fun r x => Registration.record r = .ok x) rows records) :
    records.map Record.id = rows.map Registration.id := by
  induction h with
  | nil => rfl
  | cons hrecord _ ih =>
    obtain ⟨-, -, rfl⟩ := record_ok hrecord
    rw [List.map_cons, List.map_cons, ih]

theorem exists_record {rows : List Registration} {records : List Record}
    (h : List.Forall₂ (fun r x => Registration.record r = .ok x) rows records) :
    (∀ r ∈ rows, ∃ x ∈ records, r.record = .ok x) ∧
      ∀ x ∈ records, ∃ r ∈ rows, r.record = .ok x := by
  induction h with
  | nil => exact ⟨fun _ hr => (nomatch hr), fun _ hx => (nomatch hx)⟩
  | @cons r x rows records hrecord _ ih =>
    constructor
    · intro r' hr'
      obtain rfl | hr' := List.mem_cons.mp hr'
      · exact ⟨x, List.mem_cons_self, hrecord⟩
      · obtain ⟨x', hx', he⟩ := ih.1 r' hr'
        exact ⟨x', List.mem_cons_of_mem _ hx', he⟩
    · intro x' hx'
      obtain rfl | hx' := List.mem_cons.mp hx'
      · exact ⟨r, List.mem_cons_self, hrecord⟩
      · obtain ⟨r', hr', he⟩ := ih.2 x' hx'
        exact ⟨r', List.mem_cons_of_mem _ hr', he⟩

/-- a snapshot has one record for each id, that of the row stored there -/
theorem Database.snapshot_row {db : Database} {records : List Record}
    (h : db.snapshot = .ok records) :
    (records.map Record.id).Nodup ∧
    (∀ x ∈ records, ∃ r, db.row x.id = some r ∧ r.record = .ok x) ∧
    ∀ id r, db.row id = some r → ∃ x ∈ records, x.id = id ∧ r.record = .ok x := by
  obtain ⟨rows, hperm, hrows⟩ := snapshot_rows h
  obtain ⟨hleft, hright⟩ := exists_record hrows
  refine ⟨?_, ?_, ?_⟩
  · rw [records_ids hrows]
    exact (hperm.map Registration.id).nodup_iff.mpr db.unique
  · intro x hx
    obtain ⟨r, hr, hrecord⟩ := hright x hx
    have hid : x.id = r.id := by rw [(record_ok hrecord).2.2]
    exact ⟨r, row_eq_some.mpr ⟨hperm.mem_iff.mp hr, hid.symm⟩, hrecord⟩
  · intro id r hr
    obtain ⟨hmem, hid⟩ := row_eq_some.mp hr
    obtain ⟨x, hx, hrecord⟩ := hleft r (hperm.mem_iff.mpr hmem)
    refine ⟨x, hx, ?_, hrecord⟩
    rw [(record_ok hrecord).2.2]
    exact hid

end AnvilRing
