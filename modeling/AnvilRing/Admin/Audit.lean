import AnvilRing.Admin.Calls

/-!
# The audit log replays to the registrations

* `replay`                the fold of the audit rows from the empty table;
* `Database.columns`      the id, the activity and the expiry of the registrations;
* `Replays`               the log is in sequence, and replays to the columns;
* `audit_replays`         so it is after every history of calls.
-/

namespace AnvilRing
open Wire

/-- id, active, expires_at -/
abbrev Columns := List (String × Int × Int)

def Database.columns (db : Database) : Columns :=
  db.registrations.map fun r => (r.id, r.active, r.expiresAt)

/-! ## replay -/

/-- what an audit row says has happened to the registrations -/
def replayRow (columns : Columns) (row : AuditRow) : Columns :=
  match row.action, row.tetherId, row.expiresAt with
  | .register, some id, some expiresAt => columns ++ [(id, 1, (expiresAt : Int))]
  | .rotate, some id, some expiresAt =>
    columns.map fun c => if c.1 = id then (id, 1, (expiresAt : Int)) else c
  | .revoke, some id, _ => columns.map fun c => if c.1 = id then (id, 0, c.2.2) else c
  | _, _, _ => columns

def replay (audit : List AuditRow) : Columns := audit.foldl replayRow []

theorem replay_snoc (audit : List AuditRow) (row : AuditRow) :
    replay (audit ++ [row]) = replayRow (replay audit) row := by
  unfold replay
  rw [List.foldl_append]
  rfl

/-! ## the invariant -/

structure Replays (db : Database) : Prop where
  columns : replay db.audit = db.columns
  sequence : (db.audit.map AuditRow.sequence).Pairwise (· < ·)
  last : ∀ row ∈ db.audit, row.sequence ≤ db.lastSequence

section
variable {digest : Bytes → String} {call : IssueCall} {credential : Bytes} {expiresAt : Nat}
  {id : String} {db db' : Database} {o o' : Option Database}

/-- one audit row under the next number, and the columns that it replays to -/
theorem Replays.append (hr : Replays db) {row : AuditRow}
    (haudit : db'.audit = db.audit ++ [row]) (hseq : row.sequence = db.lastSequence + 1)
    (hlast : db'.lastSequence = db.lastSequence + 1)
    (hcolumns : db'.columns = replayRow db.columns row) : Replays db' := by
  refine ⟨?_, ?_, ?_⟩
  · rw [haudit, replay_snoc, hr.columns, hcolumns]
  · rw [haudit, List.map_append]
    refine List.pairwise_append.mpr ⟨hr.sequence, List.pairwise_singleton _ _, ?_⟩
    intro n hn m hm
    obtain ⟨r, hrow, rfl⟩ := List.mem_map.mp hn
    obtain rfl := List.mem_singleton.mp hm
    have hle := hr.last r hrow
    omega
  · intro r hrow
    rw [haudit] at hrow
    obtain hold | hnew := List.mem_append.mp hrow
    · have hle := hr.last r hold
      omega
    · obtain rfl := List.mem_singleton.mp hnew
      omega

theorem Issued.columns (h : Issued digest call credential expiresAt db db') (n t uid : Nat) :
    db'.columns =
      replayRow db.columns ⟨n, t, uid, call.action, some call.id, some expiresAt⟩ := by
  have hstored := h.stored
  unfold Stored at hstored
  unfold Database.columns
  split at hstored
  · next label hlabel =>
    have haction : call.action = .register := by
      unfold IssueCall.action
      rw [hlabel]
      rfl
    rw [hstored.2, haction, List.map_append]
    rfl
  · next hlabel =>
    have haction : call.action = .rotate := by
      unfold IssueCall.action
      rw [hlabel]
      rfl
    rw [hstored.2, haction]
    show _ = List.map _ (List.map _ _)
    rw [List.map_map, List.map_map]
    refine List.map_congr_left fun r _ => ?_
    show _ = if r.id = call.id then _ else _
    by_cases hid : r.id = call.id
    · rw [Function.comp, if_pos hid, if_pos hid, ← hid]
    · rw [Function.comp, if_neg hid, if_neg hid]

theorem Revoked.columns (h : Revoked id db db') (n t uid : Nat) :
    db'.columns = replayRow db.columns ⟨n, t, uid, .revoke, some id, none⟩ := by
  unfold Database.columns
  rw [h.registrations]
  show _ = List.map _ (List.map _ _)
  rw [List.map_map, List.map_map]
  refine List.map_congr_left fun r _ => ?_
  show _ = if r.id = id then _ else _
  unfold disableRow
  by_cases hid : r.id = id
  · rw [Function.comp, if_pos hid, if_pos hid, ← hid]
  · rw [Function.comp, if_neg hid, if_neg hid]

theorem Replays.issued (hr : Replays db) (h : Issued digest call credential expiresAt db db') :
    Replays db' := by
  obtain ⟨timestamp, uid, haudit⟩ := h.audit
  exact hr.append haudit rfl h.lastSequence (h.columns _ _ _)

theorem Replays.revoked (hr : Replays db) (h : Revoked id db db') : Replays db' := by
  obtain ⟨timestamp, uid, haudit⟩ := h.audit
  exact hr.append haudit rfl h.lastSequence (h.columns _ _ _)

theorem Replays.blank : Replays .blank :=
  ⟨rfl, List.Pairwise.nil, fun _ hrow => nomatch hrow⟩

theorem Replays.initialized (h : Initialized db) : Replays db := by
  obtain ⟨timestamp, uid, haudit⟩ := h.audit
  refine ⟨?_, ?_, ?_⟩
  · unfold Database.columns
    rw [haudit, h.registrations]
    rfl
  · rw [haudit]
    exact List.pairwise_singleton _ _
  · intro row hrow
    rw [haudit] at hrow
    obtain rfl := List.mem_singleton.mp hrow
    exact h.lastSequence.ge

theorem Replays.change (hr : ∀ db, o = some db → Replays db)
    {commits : List Commit} (h : Durable.Change digest o o' commits) :
    ∀ db, o' = some db → Replays db := by
  cases h with
  | none => exact hr
  | fresh h =>
    intro db hdb
    obtain rfl | hinit := h db hdb
    · exact .blank
    · exact .initialized hinit
  | issued h =>
    intro db hdb
    obtain rfl := Option.some.inj hdb
    exact (hr _ rfl).issued h
  | revoked h =>
    intro db hdb
    obtain rfl := Option.some.inj hdb
    exact (hr _ rfl).revoked h

end

theorem Durable.Reachable.replays {digest : Bytes → String} {d : Durable}
    (h : Durable.Reachable digest d) : ∀ db, d.db = some db → Replays db := by
  refine Machine.Reachable.invariant (P := fun d => ∀ db, d.db = some db → Replays db) ?_ ?_ h
  · intro d hd db hdb
    rw [hd] at hdb
    cases hdb
  · intro d a d' hr hstep
    exact Replays.change hr (Durable.step_change hstep)

/-- after every history of calls the log is in sequence and replays to the columns, and whatever
call comes next, it changes nothing unless it succeeds, a revocation only an active registration -/
theorem audit_replays {digest : Bytes → String} {d : Durable} {db : Database}
    (h : Durable.Reachable digest d) (hdb : d.db = some db) :
    replay db.audit = db.columns ∧
    (db.audit.map AuditRow.sequence).Pairwise (· < ·) ∧
    (∀ call inputs s,
      Machine.run (Issue.step digest) (Issue.start call db d.files) inputs = some s →
      s.pc ≠ .returned (.ok ()) → s.db = db) ∧
    ∀ id inputs s, Machine.run Revoke.step (Revoke.start id db) inputs = some s →
      s.pc ≠ .returned (.ok true) ∨ ¬ db.ActiveRow id → s.db = db := by
  have hr := h.replays db hdb
  refine ⟨hr.columns, hr.sequence, ?_, ?_⟩
  · intro call inputs s hs hfail
    obtain heq | ⟨-, -, hok⟩ := (Issue.run_inv hs).committed
    · exact heq
    · exact absurd hok hfail
  · intro id inputs s hs hno
    obtain heq | ⟨hrevoked, hok⟩ := (Revoke.run_inv hs).committed
    · exact heq
    · obtain hfail | hinactive := hno
      · exact absurd hok hfail
      · exact absurd hrevoked.active hinactive

/-- a registration is revoked twice and then rotated, behind a refused second registration -/
def auditRun : List (AdminCall × List Input) :=
  [(.init, List.replicate 11 quiet),
    (.register "alpha" "rental" 60 "first", List.replicate 15 quiet),
    (.register "alpha" "another" 60 "second", List.replicate 7 quiet),
    (.revoke "alpha", List.replicate 7 quiet), (.revoke "alpha", List.replicate 6 quiet),
    (.rotate "alpha" 90 "second", List.replicate 14 quiet)]

theorem auditRun_db : ((Machine.run (Durable.step zeroDigest) ⟨none, fun _ => none⟩ auditRun).bind
    (·.db)).map (fun db => (db.audit.length, replay db.audit))
      = some (4, [("alpha", 1, 1090)]) := by
  decide

theorem audit_replays_alpha : ∃ db : Database, db.audit.length = 4 ∧
    replay db.audit = [("alpha", 1, 1090)] ∧ replay db.audit = db.columns := by
  obtain ⟨db, hdb, hvalues⟩ := Option.map_eq_some_iff.mp auditRun_db
  obtain ⟨d, hrun, hdb⟩ := Option.bind_eq_some_iff.mp hdb
  obtain ⟨hlength, hreplay⟩ := Prod.mk.inj hvalues
  have hstart : Durable.Reachable zeroDigest ⟨none, fun _ => none⟩ := Machine.Reachable.init rfl
  exact ⟨db, hlength, hreplay, (audit_replays (hstart.run hrun) hdb).1⟩

end AnvilRing
