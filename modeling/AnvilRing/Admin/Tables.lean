import AnvilRing.Admin.Calls

/-!
# What every statement keeps, the tables keep

The calls change the tables by a handful of statements.  What each of these keeps holds of the
committed tables after any calls, wherever these stop.

* `TablesKeep`              a property of the tables that every statement keeps;
* `Issue.run_kept`, `Revoke.run_kept`, `Init.run_kept`   it holds along a call;
* `TablesKeep.reachable`    and in every directory.
-/

namespace AnvilRing
open Wire

/-- every statement keeps the property, and empty tables have it -/
structure TablesKeep (Q : Database → Prop) : Prop where
  blank : Q .blank
  schema : ∀ {db : Database}, Q db → Q db.schema
  insert : ∀ {db db' : Database} {r : Registration}, Q db → db.insert r = some db' → Q db'
  update : ∀ {db db' : Database} {p : Registration → Bool} {f : Registration → Registration}
    {hf : ∀ r, (f r).id = r.id} {n : Nat}, Q db → db.update p f hf = some (db', n) → Q db'
  append : ∀ {db db' : Database} {clock : Option Nat} {uid : Nat} {action : AuditAction}
    {id : Option String} {expiresAt : Option Nat}, Q db →
    db.appendAudit clock uid action id expiresAt = some db' → Q db'

namespace Issue
variable {Q : Database → Prop} {digest : Bytes → String} {call : IssueCall} {db : Database}
  {files : Files} {s t : Issue} {i : Input}

/-- the committed tables have the property, and those of the transaction too -/
def Has (Q : Database → Prop) (s : Issue) : Prop := Q s.db ∧ Q s.tx

theorem step_has (hQ : TablesKeep Q) (hs : s.Has Q) (h : step digest s i = some t) : t.Has Q := by
  cases move_of_step h with
  | left hdb htx => exact ⟨hdb ▸ hs.1, htx ▸ hs.2⟩
  | validated | goOn | draw | counted => exact hs
  | begin => exact ⟨hs.1, hs.1⟩
  | insert _ _ hinsert => exact ⟨hs.1, hQ.insert hs.2 hinsert⟩
  | rotate _ hrotate => exact ⟨hs.1, hQ.update hs.2 hrotate⟩
  | append happend => exact ⟨hs.1, hQ.append hs.2 happend⟩
  | commit => exact ⟨hs.2, hs.2⟩

theorem run_kept (hQ : TablesKeep Q) (hdb : Q db) {inputs : List Input}
    (h : Machine.run (step digest) (start call db files) inputs = some s) : Q s.db :=
  (Machine.run_invariant (P := Has Q) (fun _ _ _ hs h => step_has hQ hs h) ⟨hdb, hdb⟩ h).1

end Issue

namespace Revoke
variable {Q : Database → Prop} {id : String} {db : Database} {s t : Revoke} {i : Input}

def Has (Q : Database → Prop) (s : Revoke) : Prop := Q s.db ∧ Q s.tx

theorem attempt_has (hs : s.Has Q) {next : Revoke} (hnext : next.Has Q) :
    (s.attempt i next).Has Q := by
  unfold attempt
  split
  · exact hs
  · exact hnext

theorem step_has (hQ : TablesKeep Q) (hs : s.Has Q) (h : step s i = some t) : t.Has Q := by
  cases hpc : s.pc <;> simp only [step, hpc] at h
  case validate =>
    split at h
    · exact Option.some.inj h ▸ hs
    · exact Option.some.inj h ▸ hs
  case checkFiles => exact Option.some.inj h ▸ attempt_has hs hs
  case begin => exact Option.some.inj h ▸ attempt_has hs ⟨hs.1, hs.1⟩
  case checkSchema =>
    refine Option.some.inj h ▸ attempt_has hs ?_
    split
    · exact hs
    · exact hs
  case statement =>
    obtain rfl := Option.some.inj h
    unfold statementStep
    split
    · exact hs
    · exact hs
    · next d changed _ hdisable => exact ⟨hs.1, hQ.update hs.2 hdisable⟩
  case audit =>
    obtain rfl := Option.some.inj h
    unfold auditStep
    split
    · exact hs
    · exact hs
    · next d _ happend => exact ⟨hs.1, hQ.append hs.2 happend⟩
  case commit => exact Option.some.inj h ▸ attempt_has hs ⟨hs.2, hs.2⟩
  case returned => cases h

theorem run_kept (hQ : TablesKeep Q) (hdb : Q db) {inputs : List Input}
    (h : Machine.run step (start id db) inputs = some s) : Q s.db :=
  (Machine.run_invariant (P := Has Q) (fun _ _ _ hs h => step_has hQ hs h) ⟨hdb, hdb⟩ h).1

end Revoke

namespace Init
variable {Q : Database → Prop} {db : Option Database} {s t : Init} {i : Input}

def Has (Q : Database → Prop) (s : Init) : Prop := (∀ db, s.db = some db → Q db) ∧ Q s.tx

theorem attempt_has (hs : s.Has Q) {next : Init} (hnext : next.Has Q) :
    (s.attempt i next).Has Q := by
  unfold attempt
  split
  · exact hs
  · exact hnext

theorem attemptRemoving_has (hs : s.Has Q) {next : Init} (hnext : next.Has Q) :
    (s.attemptRemoving i next).Has Q := by
  unfold attemptRemoving
  split
  · exact hs
  · exact hnext

theorem createStep_has (hQ : TablesKeep Q) (hs : s.Has Q) : s.createStep.Has Q := by
  unfold createStep
  split
  · exact hs
  · exact ⟨fun _ h => Option.some.inj h ▸ hQ.blank, hs.2⟩

theorem auditStep_has (hQ : TablesKeep Q) (hs : s.Has Q) : (s.auditStep i).Has Q := by
  unfold auditStep
  split
  · exact hs
  · next d happend => exact ⟨hs.1, hQ.append hs.2 happend⟩

theorem step_has (hQ : TablesKeep Q) (hs : s.Has Q) (h : step s i = some t) : t.Has Q := by
  cases hpc : s.pc <;> simp only [step, hpc] at h
  case directory | permissions | sync | syncDirectory =>
    exact Option.some.inj h ▸ attempt_has hs hs
  case create => exact Option.some.inj h ▸ attempt_has hs (createStep_has hQ hs)
  case connect | syncCommitted => exact Option.some.inj h ▸ attemptRemoving_has hs hs
  case begin =>
    refine Option.some.inj h ▸ attemptRemoving_has hs ⟨hs.1, ?_⟩
    show Q (s.db.getD .blank)
    cases hdb : s.db with
    | none => exact hQ.blank
    | some db => exact hs.1 db hdb
  case schema => exact Option.some.inj h ▸ attemptRemoving_has hs ⟨hs.1, hQ.schema hs.2⟩
  case audit => exact Option.some.inj h ▸ attemptRemoving_has hs (auditStep_has hQ hs)
  case commit =>
    exact Option.some.inj h ▸
      attemptRemoving_has hs ⟨fun _ h => Option.some.inj h ▸ hs.2, hs.2⟩
  case removing =>
    refine Option.some.inj h ▸ ⟨?_, hs.2⟩
    intro db hdb
    by_cases hfault : i.fault.isSome
    · rw [if_pos hfault] at hdb
      exact hs.1 db hdb
    · rw [if_neg hfault] at hdb
      cases hdb
  case returned => cases h

theorem run_kept (hQ : TablesKeep Q) (hdb : ∀ d, db = some d → Q d) {inputs : List Input}
    (h : Machine.run step (start db) inputs = some s) : ∀ d, s.db = some d → Q d :=
  (Machine.run_invariant (P := Has Q) (fun _ _ _ hs h => step_has hQ hs h) ⟨hdb, hQ.blank⟩ h).1

end Init

namespace TablesKeep
variable {Q : Database → Prop} {digest : Bytes → String} {d d' : Durable}
  {a : AdminCall × List Input}

theorem runIssue (hQ : TablesKeep Q) (hd : ∀ db, d.db = some db → Q db) {call : IssueCall}
    {inputs : List Input} (h : d.runIssue digest call inputs = some d') :
    ∀ db, d'.db = some db → Q db := by
  unfold Durable.runIssue at h
  split at h
  · exact Option.some.inj h ▸ hd
  · next db hdb =>
    obtain ⟨s, hs, rfl⟩ := Option.map_eq_some_iff.mp h
    exact fun _ h => Option.some.inj h ▸ Issue.run_kept hQ (hd db hdb) hs

theorem runRevoke (hQ : TablesKeep Q) (hd : ∀ db, d.db = some db → Q db) {id : String}
    {inputs : List Input} (h : d.runRevoke id inputs = some d') :
    ∀ db, d'.db = some db → Q db := by
  unfold Durable.runRevoke at h
  split at h
  · exact Option.some.inj h ▸ hd
  · next db hdb =>
    obtain ⟨s, hs, rfl⟩ := Option.map_eq_some_iff.mp h
    exact fun _ h => Option.some.inj h ▸ Revoke.run_kept hQ (hd db hdb) hs

theorem step (hQ : TablesKeep Q) (hd : ∀ db, d.db = some db → Q db)
    (h : Durable.step digest d a = some d') : ∀ db, d'.db = some db → Q db := by
  unfold Durable.step at h
  split at h
  · obtain ⟨s, hs, rfl⟩ := Option.map_eq_some_iff.mp h
    exact Init.run_kept hQ hd hs
  · exact hQ.runIssue hd h
  · exact hQ.runIssue hd h
  · exact hQ.runRevoke hd h
  · exact Option.some.inj h ▸ hd

/-- after any calls, wherever they stop, the tables have the property -/
theorem reachable (hQ : TablesKeep Q) (h : Durable.Reachable digest d) :
    ∀ db, d.db = some db → Q db := by
  refine Machine.Reachable.invariant (P := fun d => ∀ db, d.db = some db → Q db) ?_
    (fun _ _ _ hd h => hQ.step hd h) h
  intro d hnone db hdb
  rw [hnone] at hdb
  cases hdb

end TablesKeep

end AnvilRing
