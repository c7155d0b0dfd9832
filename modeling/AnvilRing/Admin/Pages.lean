import AnvilRing.Admin.Audit
import AnvilRing.Admin.Tables
import AnvilRing.Lib.Paging
import Mathlib.Data.List.Sort

/-!
# Reading the audit log page by page

`audit` returns the first hundred events behind a sequence number.  A reader asks for page after
page, each behind the last event of the one before, while calls go on committing and rolling back.

* `Durable.audit`         `Store::audit`;
* `Pager.step`            the reader and the calls, interleaved freely;
* `log_grows`             a call appends to the log behind every number handed out before;
* `audit_pages`           the pages are the events between the start and the cursor.
-/

namespace AnvilRing
open Wire

/-! ## a page -/

inductive AuditError where
  | range
  | admin (e : AdminError)
  deriving DecidableEq, Repr

def AuditError.text : AuditError → Option String
  | .range => some "audit sequence is out of range"
  | .admin e => e.text

/-- `LIMIT 100` -/
def auditLimit : Nat := 100

/-- `SELECT … FROM audit WHERE sequence>?1 ORDER BY sequence LIMIT 100` -/
def Database.selectAudit (db : Database) (after : Nat) : List AuditRow :=
  ((db.audit.filter fun row => after < row.sequence).insertionSort fun a b =>
    a.sequence ≤ b.sequence).take auditLimit

/-- `Store::open` and `audit` -/
def Durable.audit (d : Durable) (fault : Option AdminError) (after : Nat) :
    Except AuditError (List AuditRow) :=
  if i64Max < after then .error .range
  else
    match fault, d.db with
    | some e, _ => .error (.admin e)
    | none, none => .error (.admin .system)
    | none, some db =>
      if db.userVersion ≠ 1 then .error (.admin .schemaVersion) else .ok (db.selectAudit after)

/-! ## the reader -/

structure Pager where
  store : Durable
  /-- the next page is asked for behind this number -/
  cursor : Nat
  /-- the pages returned so far, oldest first -/
  pages : List (List AuditRow) := []

inductive PagerAction where
  | admin (a : AdminCall × List Input)
  | page (fault : Option AdminError)

namespace Pager

/-- a page was returned; the next one is asked for behind its last event -/
def take (p : Pager) (events : List AuditRow) : Pager :=
  { p with
    cursor := (events.getLast?.map AuditRow.sequence).getD p.cursor
    pages := p.pages ++ [events] }

def step (digest : Bytes → String) (p : Pager) : PagerAction → Option Pager
  | .admin a => (Durable.step digest p.store a).map fun store => { p with store := store }
  | .page fault =>
    match p.store.audit fault p.cursor with
    | .ok events => some (p.take events)
    -- the reader may ask again
    | .error _ => some p

/-- a reader that starts behind the number `start`, on any log -/
abbrev Reachable (digest : Bytes → String) (start : Nat) : Pager → Prop :=
  Machine.Reachable (step digest) fun p =>
    Durable.Reachable digest p.store ∧ p.cursor = start ∧ p.pages = []

end Pager

/-! ## the log -/

/-- the committed events -/
def Durable.log (d : Durable) : List AuditRow := (d.db.map Database.audit).getD []

/-- the last number that was handed out -/
def Durable.last (d : Durable) : Nat := (d.db.map Database.lastSequence).getD 0

section
variable {digest : Bytes → String} {d d' : Durable} {a : AdminCall × List Input}

/-- a call appends to the log, under numbers that were not handed out before -/
theorem log_grows (h : Durable.step digest d a = some d') :
    ∃ new, d'.log = d.log ++ new ∧ (∀ row ∈ new, d.last < row.sequence) ∧ d.last ≤ d'.last := by
  have hchange := Durable.step_change h
  unfold Durable.log Durable.last
  generalize d.db = o at hchange
  generalize d'.db = o' at hchange
  generalize d.commits digest a = commits at hchange
  cases hchange with
  | none => exact ⟨[], (List.append_nil _).symm, fun _ hrow => (nomatch hrow), le_rfl⟩
  | fresh h =>
    refine ⟨_, (List.nil_append _).symm, ?_, Nat.zero_le _⟩
    intro row hrow
    cases o' with
    | none => cases hrow
    | some db =>
      obtain rfl | hinit := h db rfl
      · cases hrow
      · obtain ⟨timestamp, uid, haudit⟩ := hinit.audit
        change row ∈ db.audit at hrow
        rw [haudit] at hrow
        rw [List.mem_singleton.mp hrow]
        exact Nat.one_pos
  | @issued db db' call credential expiresAt h =>
    obtain ⟨timestamp, uid, haudit⟩ := h.audit
    refine ⟨_, haudit, ?_, (Nat.le_succ _).trans h.lastSequence.ge⟩
    intro row hrow
    rw [List.mem_singleton.mp hrow]
    exact Nat.lt_succ_self _
  | @revoked db db' id h =>
    obtain ⟨timestamp, uid, haudit⟩ := h.audit
    refine ⟨_, haudit, ?_, (Nat.le_succ _).trans h.lastSequence.ge⟩
    intro row hrow
    rw [List.mem_singleton.mp hrow]
    exact Nat.lt_succ_self _

theorem log_sorted (h : Durable.Reachable digest d) :
    d.log.Pairwise fun x y => x.sequence < y.sequence := by
  unfold Durable.log
  cases hdb : d.db with
  | none => exact .nil
  | some db => exact List.pairwise_map.mp (h.replays db hdb).sequence

theorem log_le_last (h : Durable.Reachable digest d) : ∀ row ∈ d.log, row.sequence ≤ d.last := by
  unfold Durable.log Durable.last
  cases hdb : d.db with
  | none =>
    intro row hrow
    cases hrow
  | some db => exact (h.replays db hdb).last

/-- a page holds the first events behind the cursor -/
theorem audit_ok (h : Durable.Reachable digest d) {fault : Option AdminError} {after : Nat}
    {events : List AuditRow} (hok : d.audit fault after = .ok events) :
    events = Paging.page AuditRow.sequence auditLimit after d.log := by
  have hsorted := log_sorted h
  unfold Durable.audit at hok
  unfold Durable.log at hsorted ⊢
  split at hok
  · cases hok
  · split at hok
    · cases hok
    · cases hok
    · next db hdb =>
      rw [hdb] at hsorted ⊢
      split at hok
      · cases hok
      · obtain rfl := Except.ok.inj hok
        unfold Database.selectAudit Paging.page
        rw [List.Pairwise.insertionSort_eq]
        · rfl
        · exact (hsorted.filter _).imp fun hlt => hlt.le

/-- a log without faults is read: the events behind a number that fits -/
theorem audit_served {db : Database} (hdb : d.db = some db) (hv : db.userVersion = 1) {after : Nat}
    (hafter : after ≤ i64Max) : d.audit none after = .ok (db.selectAudit after) := by
  unfold Durable.audit
  rw [if_neg (Nat.not_lt.mpr hafter), hdb]
  exact if_neg (not_not.mpr hv)

/-- every number fits -/
theorem kept_range : TablesKeep fun db => db.lastSequence ≤ i64Max where
  blank := Nat.zero_le _
  schema h := h
  insert h hinsert := (Database.insert_rest hinsert).2.1.trans_le h
  update h hupdate := (Database.update_rest hupdate).2.1.trans_le h
  append h happend := by
    unfold Database.appendAudit at happend
    split at happend
    · cases happend
    · split at happend
      · next hfit =>
        obtain rfl := Option.some.inj happend
        exact hfit.2.2
      · cases happend

theorem last_le (h : Durable.Reachable digest d) : d.last ≤ i64Max := by
  unfold Durable.last
  cases hdb : d.db with
  | none => exact Nat.zero_le _
  | some db => exact kept_range.reachable h db hdb

end

/-! ## the invariant -/

namespace Pager
variable {digest : Bytes → String} {start : Nat} {p q : Pager}

structure Inv (digest : Bytes → String) (start : Nat) (p : Pager) : Prop where
  store : Durable.Reachable digest p.store
  le : start ≤ p.cursor
  cursor : p.cursor = start ∨ p.cursor ≤ p.store.last
  pages : p.pages.flatten = Paging.between AuditRow.sequence start p.cursor p.store.log

theorem Inv.admin (hi : Inv digest start p) {a : AdminCall × List Input} {store : Durable}
    (h : Durable.step digest p.store a = some store) :
    Inv digest start { p with store := store } := by
  obtain ⟨new, hlog, hnew, hlast⟩ := log_grows h
  refine ⟨hi.store.step h, hi.le, hi.cursor.imp_right fun hle => hle.trans hlast, ?_⟩
  show p.pages.flatten = _
  rw [hi.pages, hlog]
  obtain hstart | hle := hi.cursor
  · rw [hstart, Paging.between_self, Paging.between_self]
  · exact (Paging.between_append fun row hrow => .inl (hle.trans_lt (hnew row hrow))).symm

theorem take_cursor {events : List AuditRow} {x : AuditRow} (h : events.getLast? = some x) :
    (p.take events).cursor = x.sequence := by
  show (events.getLast?.map AuditRow.sequence).getD _ = _
  rw [h]
  rfl

theorem Inv.page (hi : Inv digest start p) {fault : Option AdminError} {events : List AuditRow}
    (h : p.store.audit fault p.cursor = .ok events) : Inv digest start (p.take events) := by
  have hevents := audit_ok hi.store h
  have hflat : (p.take events).pages.flatten = p.pages.flatten ++ events := by
    show (p.pages ++ [events]).flatten = _
    rw [List.flatten_append, List.flatten_singleton]
  cases hlast : events.getLast? with
  | none =>
    have hempty : events = [] := List.getLast?_eq_none_iff.mp hlast
    have hcursor : (p.take events).cursor = p.cursor := by
      rw [hempty]
      rfl
    refine ⟨hi.store, hcursor ▸ hi.le, hcursor ▸ hi.cursor, ?_⟩
    rw [hflat, hcursor, hempty, List.append_nil]
    exact hi.pages
  | some x =>
    have hcursor := take_cursor (p := p) hlast
    rw [hevents] at hlast
    have hmem := List.mem_filter.mp (List.mem_of_mem_take (List.mem_of_getLast? hlast))
    have hlt : p.cursor < x.sequence := of_decide_eq_true hmem.2
    refine ⟨hi.store, hcursor ▸ hi.le.trans hlt.le,
      hcursor ▸ .inr (log_le_last hi.store x hmem.1), ?_⟩
    rw [hflat, hcursor, hi.pages, hevents]
    exact (Paging.between_page (log_sorted hi.store) hlast hi.le).symm

theorem Inv.step {a : PagerAction} (hi : Inv digest start p) (h : step digest p a = some q) :
    Inv digest start q := by
  cases a with
  | admin a =>
    obtain ⟨store, hstore, rfl⟩ := Option.map_eq_some_iff.mp h
    exact hi.admin hstore
  | page fault =>
    simp only [Pager.step] at h
    split at h
    · next events hok =>
      obtain rfl := Option.some.inj h
      exact hi.page hok
    · exact Option.some.inj h ▸ hi

theorem Reachable.inv (h : Reachable digest start p) : Inv digest start p := by
  refine Machine.Reachable.invariant ?_ (fun _ _ _ hi h => hi.step h) h
  rintro p ⟨hstore, rfl, hpages⟩
  refine ⟨hstore, le_rfl, .inl rfl, ?_⟩
  rw [hpages, Paging.between_self]
  rfl

/-- an empty page, and only that, says that the cursor is past the log -/
theorem Inv.empty_iff (hi : Inv digest start p) {fault : Option AdminError}
    {events : List AuditRow} (h : p.store.audit fault p.cursor = .ok events) :
    events = [] ↔ ∀ row ∈ p.store.log, row.sequence ≤ p.cursor := by
  rw [audit_ok hi.store h]
  exact Paging.page_eq_nil (by decide)

/-- a reader that goes on alone gets to the end of the log -/
theorem Inv.drain (hi : Inv digest start p) {db : Database} (hdb : p.store.db = some db)
    (hv : db.userVersion = 1) (hcursor : p.cursor ≤ i64Max) :
    ∃ n q, Machine.run (Pager.step digest) p (List.replicate n (.page none)) = some q ∧
      q.store = p.store ∧
      q.pages.flatten = p.store.log.filter fun row => start < row.sequence := by
  generalize hk : (p.store.log.filter fun row => p.cursor < row.sequence).length = k
  induction k using Nat.strong_induction_on generalizing p with
  | _ k ih =>
    have hok := audit_served hdb hv hcursor
    have hpage := audit_ok hi.store hok
    have hstep : Pager.step digest p (.page none) = some (p.take (db.selectAudit p.cursor)) := by
      simp only [Pager.step, hok]
    have hnext := hi.page hok
    cases hlast : (db.selectAudit p.cursor).getLast? with
    | none =>
      have hempty := List.getLast?_eq_none_iff.mp hlast
      refine ⟨1, _, Machine.run_cons_some.mpr ⟨_, hstep, rfl⟩, rfl, ?_⟩
      -- all that is behind the start is up to the cursor
      have hpast := (hi.empty_iff hok).mp hempty
      show (p.pages ++ [_]).flatten = _
      rw [List.flatten_append, List.flatten_singleton, hempty, List.append_nil, hi.pages]
      refine List.filter_congr fun row hrow => ?_
      rw [decide_eq_decide]
      exact and_iff_left (hpast row hrow)
    | some x =>
      have hx := take_cursor (p := p) hlast
      rw [hpage] at hlast
      have hmem := List.mem_filter.mp (List.mem_of_mem_take (List.mem_of_getLast? hlast))
      have hless := Paging.length_behind_lt hlast
      rw [hk] at hless
      obtain ⟨n, q, hrun, hstore, hflat⟩ := ih _ hless hnext hdb
        (hx ▸ (log_le_last hi.store x hmem.1).trans (last_le hi.store)) (by rw [hx]; rfl)
      exact ⟨n + 1, q, Machine.run_cons_some.mpr ⟨_, hstep, hrun⟩, hstore, hflat⟩

end Pager

/-- However the pages and the calls interleave: the pages hold the events behind the start and up to
the cursor, each once and in order; a page is empty exactly if no event is behind the cursor; and
pages alone get to the end of the log. -/
theorem audit_pages {digest : Bytes → String} {start : Nat} {p : Pager}
    (h : Pager.Reachable digest start p) :
    (p.pages.flatten = p.store.log.filter fun row =>
      start < row.sequence ∧ row.sequence ≤ p.cursor) ∧
    (p.pages.flatten.map AuditRow.sequence).Pairwise (· < ·) ∧
    (∀ fault events, p.store.audit fault p.cursor = .ok events →
      (events = [] ↔ ∀ row ∈ p.store.log, row.sequence ≤ p.cursor)) ∧
    ∀ db, p.store.db = some db → db.userVersion = 1 → start ≤ i64Max →
      ∃ n q, Machine.run (Pager.step digest) p (List.replicate n (.page none)) = some q ∧
        q.store = p.store ∧
        q.pages.flatten = p.store.log.filter fun row => start < row.sequence := by
  have hi := h.inv
  refine ⟨hi.pages, ?_, fun fault events hok => hi.empty_iff hok, ?_⟩
  · rw [hi.pages, List.pairwise_map]
    exact (log_sorted hi.store).filter _
  · intro db hdb hv hstart
    refine hi.drain hdb hv ?_
    obtain heq | hle := hi.cursor
    · exact heq ▸ hstart
    · exact hle.trans (last_le hi.store)

/-- a page, a revocation that commits behind it, one that rolls back, and two more pages -/
def pagerRun : List PagerAction :=
  [.admin (.init, List.replicate 11 quiet),
    .admin (.register "alpha" "rental" 60 "first", List.replicate 15 quiet), .page none,
    .admin (.revoke "alpha", List.replicate 7 quiet),
    .admin (.revoke "alpha", List.replicate 4 quiet), .page none, .page none]

theorem pagerRun_isSome : (Machine.run (Pager.step zeroDigest) ⟨⟨none, fun _ => none⟩, 0, []⟩
    pagerRun).isSome = true := by
  decide

theorem audit_pages_alpha : ∃ p : Pager,
    p.pages.map (fun page => page.map AuditRow.sequence) = [[1, 2], [3], []] ∧
    (p.pages.flatten = p.store.log.filter fun row =>
      0 < row.sequence ∧ row.sequence ≤ p.cursor) := by
  have hstart : Pager.Reachable zeroDigest 0 ⟨⟨none, fun _ => none⟩, 0, []⟩ :=
    .init ⟨.init rfl, rfl, rfl⟩
  have hrun := hstart.run (Option.some_get pagerRun_isSome).symm
  exact ⟨_, by decide +kernel, (audit_pages hrun).1⟩

end AnvilRing
