import AnvilRing.Hub.Admission

/-!
# The statuses of requests without a response head

An authenticated request that no engine has answered gets a status of the hub's own: `forward_any`
refuses it, or its `head()` is `None`.

* `World.found`               what the loop of `reserve_route` finds of a candidate;
* `World.Answers.searched`    a call's answer, from what it has found;
* `World.Answers.exhausted`   the answer where every eligible session has used its ids;
* `World.Headless`            the two ways to an answer without a head;
* `World.Guided`              the operator's status table;
* `headless_status_iff`       where the answers keep to it.
-/

namespace AnvilRing
open Wire

/-- `frontend::error_response` -/
def errorResponse (status : Nat) : CallerResponse :=
  { status := status, headers := [(ascii "content-length", ascii "0")] }

/-! ## the search for a session -/

inductive Finding where
  /-- the session has used all its stream ids -/
  | exhausted
  /-- its streams or its commands are at their limit -/
  | full
  /-- its writer has ended since it was listed -/
  | gone
  /-- it gives a permit -/
  | room
  deriving DecidableEq, Repr

/-- the finding sets the loop's `busy` -/
def Finding.busy : Finding → Bool
  | .exhausted => true
  | .full => true
  | .gone => false
  | .room => false

namespace World
variable {digest : Bytes → String} {lib : HttpLib} {w x y u v : World} {req : Request}

/-- what the loop of `reserve_route` finds of a candidate -/
def found (x : World) (c : Nat × String × Nat) : Finding :=
  if 65535 < (x.sess c.2.2).nextId then .exhausted
  else if maxConcurrentStreams ≤ c.1 then .full
  else
    match (x.sess c.2.2).tx.tryReserve commandChannelCapacity with
    | .ok _ => .room
    | .error .full => .full
    | .error .closed => .gone

/-- the candidate that a step comes to, with what it finds -/
def tries (x : World) (a : WorldAction) : List ((Nat × String × Nat) × Finding) :=
  match x.lock, a with
  | .selecting _ (c :: _) _ _, .forward => [(c, x.found c)]
  | _, _ => []

/-- the candidates tried along `as`, in order -/
def findings (digest : Bytes → String) (lib : HttpLib) (x : World) :
    List WorldAction → List ((Nat × String × Nat) × Finding)
  | [] => []
  | a :: as => x.tries a ++ (step digest lib x a).elim [] fun y => findings digest lib y as

theorem findings_cons {a : WorldAction} (hy : step digest lib x a = some y)
    (as : List WorldAction) :
    findings digest lib x (a :: as) = x.tries a ++ findings digest lib y as := by
  rw [findings, hy]
  rfl

theorem findings_append {as bs : List WorldAction}
    (hu : Machine.run (step digest lib) x as = some u) :
    findings digest lib x (as ++ bs) = findings digest lib x as ++ findings digest lib u bs := by
  induction as generalizing x with
  | nil =>
    obtain rfl := Option.some.inj hu
    rfl
  | cons a as ih =>
    obtain ⟨y, hy, hrest⟩ := Machine.run_cons_some.mp hu
    rw [List.cons_append, findings_cons hy, findings_cons hy, ih hrest, List.append_assoc]

theorem tries_other {a : WorldAction} (ha : a ≠ .forward) : x.tries a = [] := by
  unfold tries
  split
  · exact absurd rfl ha
  · rfl

theorem tries_forwarding {id : String} {g t : Nat} (hl : x.lock = .forwarding id g t)
    (a : WorldAction) : x.tries a = [] := by
  unfold tries
  rw [hl]

theorem tries_none {busy : Bool} {t : Nat} (hl : x.lock = .selecting req [] busy t)
    (a : WorldAction) : x.tries a = [] := by
  unfold tries
  rw [hl]

/-- one round of the loop goes by what it finds -/
theorem tryRoute_found {c : Nat × String × Nat} {rest : List (Nat × String × Nat)} {busy : Bool}
    {t : Nat} (h : x.tryRoute req c rest busy t = some y) :
    (x.found c ≠ .room ∧
      y = { x with lock := .selecting req rest (busy || (x.found c).busy) t }) ∨
    (x.found c = .room ∧ y.lock = .forwarding c.2.1 c.2.2 t) := by
  obtain ⟨count, id, g⟩ := c
  unfold tryRoute at h
  unfold found
  simp only at h ⊢
  by_cases hn : 65535 < (x.sess g).nextId
  · rw [if_pos (.inr hn)] at h
    rw [if_pos hn]
    obtain rfl := Option.some.inj h
    refine .inl ⟨by decide, ?_⟩
    show _ = { x with lock := .selecting req rest (busy || true) t }
    rw [Bool.or_true]
  · rw [if_neg hn]
    by_cases hc : maxConcurrentStreams ≤ count
    · rw [if_pos (.inl hc)] at h
      rw [if_pos hc]
      obtain rfl := Option.some.inj h
      refine .inl ⟨by decide, ?_⟩
      show _ = { x with lock := .selecting req rest (busy || true) t }
      rw [Bool.or_true]
    · rw [if_neg (not_or.mpr ⟨hc, hn⟩)] at h
      rw [if_neg hc]
      cases htx : (x.sess g).tx.tryReserve commandChannelCapacity with
      | ok tx =>
        rw [htx] at h
        obtain ⟨s, _, rfl⟩ := Option.map_eq_some_iff.mp h
        exact .inr ⟨rfl, rfl⟩
      | error e =>
        rw [htx] at h
        cases e with
        | full =>
          obtain rfl := Option.some.inj h
          refine .inl ⟨by decide, ?_⟩
          show _ = { x with lock := .selecting req rest (busy || true) t }
          rw [Bool.or_true]
        | closed =>
          obtain rfl := Option.some.inj h
          refine .inl ⟨by decide, ?_⟩
          show _ = { x with lock := .selecting req rest (busy || false) t }
          rw [Bool.or_false]

/-- Where a call is that had `cs` before it, once it has found `fs`: at the candidates left, or with
a permit. -/
inductive Searched (req : Request) (cs : List (Nat × String × Nat)) (busy : Bool) (t : Nat)
    (fs : List ((Nat × String × Nat) × Finding)) (u : World) : Prop where
  | on {rest : List (Nat × String × Nat)} (hcs : fs.map Prod.fst ++ rest = cs)
      (hno : ∀ p ∈ fs, p.2 ≠ .room)
      (hl : u.lock = .selecting req rest (busy || fs.any fun p => p.2.busy) t)
  | chosen {rest : List (Nat × String × Nat)} {id : String} {g : Nat}
      (hcs : fs.map Prod.fst ++ rest = cs) (hr : ∃ p ∈ fs, p.2 = .room)
      (hl : u.lock = .forwarding id g t)

/-- a call with a permit looks no further -/
theorem findings_forwarding (hr : Reachable digest lib x) {id : String} {g t : Nat}
    (hl : x.lock = .forwarding id g t) {as : List WorldAction}
    (hrun : Machine.run (step digest lib) x as = some u) (hres : u.results = x.results) :
    findings digest lib x as = [] ∧ u.lock = .forwarding id g t := by
  induction as generalizing x with
  | nil =>
    obtain rfl := Option.some.inj hrun
    exact ⟨rfl, hl⟩
  | cons a as ih =>
    obtain ⟨y, hy, hrest⟩ := Machine.run_cons_some.mp hrun
    have hpre := results_run hrest
    rw [hres] at hpre
    have hsame : y.results = x.results := hpre.eq_of_length_le (results_step hy).length_le
    obtain ⟨hnil, hlock⟩ := ih (hr.step hy) (lock_kept hl hr hy hsame) hrest
      (hres.trans hsame.symm)
    refine ⟨?_, hlock⟩
    rw [findings_cons hy, tries_forwarding hl, hnil]
    rfl

theorem held_of_selecting {cs : List (Nat × String × Nat)} {busy : Bool} {t : Nat}
    (hl : x.lock = .selecting req cs busy t) :
    x.lock ≠ .free ∧ ∀ gens, x.lock ≠ .closing gens := by
  rw [hl]
  constructor
  · intro h
    cases h
  · intro _ h
    cases h

/-- **The search.** Whatever the sessions do meanwhile, a call that has no answer yet has gone
through its candidates in order, and stops at the first with room. -/
theorem searched_run (hr : Reachable digest lib x) {cs : List (Nat × String × Nat)} {busy : Bool}
    {t : Nat} (hl : x.lock = .selecting req cs busy t) {as : List WorldAction}
    (hrun : Machine.run (step digest lib) x as = some u) (hres : u.results = x.results) :
    Searched req cs busy t (findings digest lib x as) u := by
  induction as generalizing x cs busy with
  | nil =>
    obtain rfl := Option.some.inj hrun
    have hcs : ([] : List ((Nat × String × Nat) × Finding)).map Prod.fst ++ cs = cs := rfl
    refine .on hcs (fun p hp => absurd hp List.not_mem_nil) ?_
    rw [hl]
    show _ = RoutingPc.selecting req cs (busy || false) t
    rw [Bool.or_false]
  | cons a as ih =>
    obtain ⟨y, hy, hrest⟩ := Machine.run_cons_some.mp hrun
    have hpre := results_run hrest
    rw [hres] at hpre
    have hsame : y.results = x.results := hpre.eq_of_length_le (results_step hy).length_le
    have hyres : u.results = y.results := hres.trans hsame.symm
    rw [findings_cons hy]
    by_cases ha : a = .forward
    · subst ha
      have hstep : x.forwardStep = some y := hy
      unfold World.forwardStep at hstep
      rw [hl] at hstep
      cases cs with
      | nil =>
        cases hstep
        exact absurd (congrArg List.length hsame) (by simp [answer])
      | cons c rest =>
        have htries : x.tries .forward = [(c, x.found c)] := by
          unfold tries
          rw [hl]
        rw [htries]
        rcases tryRoute_found hstep with ⟨hno, rfl⟩ | ⟨hroom, hlock⟩
        · -- the candidate is passed over
          cases ih (hr.step hy) rfl hrest hyres with
          | on hcs hnos hlock =>
            refine .on (congrArg (c :: ·) hcs) (List.forall_mem_cons.mpr ⟨hno, hnos⟩) ?_
            rw [hlock, List.singleton_append, List.any_cons, ← Bool.or_assoc]
          | chosen hcs hchosen hlock =>
            obtain ⟨p, hp, hroom⟩ := hchosen
            exact .chosen (congrArg (c :: ·) hcs) ⟨p, List.mem_cons_of_mem _ hp, hroom⟩ hlock
        · -- it gives its permit
          obtain ⟨hnil, hulock⟩ := findings_forwarding (hr.step hy) hlock hrest hyres
          rw [hnil]
          have hcs : [(c, x.found c)].map Prod.fst ++ rest = c :: rest := rfl
          exact .chosen hcs ⟨_, List.mem_cons_self, hroom⟩ hulock
    · obtain ⟨hfree, hclosing⟩ := held_of_selecting hl
      have hother := kept_other hfree hclosing hr hy ha
      rw [tries_other ha]
      exact ih (hr.step hy) (hother.2.1.trans hl) hrest hyres

/-! ## the answer of a call -/

/-- what the call has found when it returns `r` -/
inductive Concluded (w : World) (fs : List ((Nat × String × Nat) × Finding)) :
    Except ForwardError (Nat × UInt16) → Prop where
  /-- it was given a permit: only the end of the session refuses it now -/
  | chosen {rest : List (Nat × String × Nat)} {r : Except ForwardError (Nat × UInt16)}
      (hcs : fs.map Prod.fst ++ rest = w.reserveRoute) (hr : ∃ p ∈ fs, p.2 = .room)
      (he : ∀ e, r = .error e → e = .tetherGone) : Concluded w fs r
  /-- it has gone through all its candidates -/
  | refused (hcs : fs.map Prod.fst = w.reserveRoute) (hno : ∀ p ∈ fs, p.2 ≠ .room) :
      Concluded w fs (.error (if fs.any fun p => p.2.busy then .tetherBusy else .noTether))

theorem Answers.searched {as : List WorldAction} {r : Except ForwardError (Nat × UInt16)}
    (hc : Answers digest lib w (.forwardAny req) as r v) (h : Reachable digest lib w) :
    Concluded w (findings digest lib w (.forwardAny req :: as)) r := by
  obtain ⟨ds, c, u, hd, hu, hs, hures⟩ := hc.last
  cases ds with
  | nil =>
    -- the first step answers nothing
    obtain ⟨rfl, _⟩ := List.cons.inj hd
    obtain rfl := Option.some.inj hu
    rcases forwarding_start rfl hs with hf | ⟨e, rfl⟩
    · exact absurd hf hc.not_forwarding
    · cases move_of_step hs
  | cons b ds =>
    obtain ⟨rfl, _⟩ := List.cons.inj hd
    obtain ⟨y, hy, hrest⟩ := Machine.run_cons_some.mp hu
    have hlock : y.lock = .selecting req w.reserveRoute false w.now ∧ y.results = w.results := by
      cases move_of_step hy
      exact ⟨rfl, rfl⟩
    have hfs : findings digest lib w (.forwardAny req :: as) =
        findings digest lib y ds ++ u.tries c := by
      have hfirst : w.tries (.forwardAny req) = [] := tries_other (fun h => by cases h)
      have hlast : findings digest lib v [] = [] := rfl
      rw [hd, findings_append hu, findings_cons hy, findings_cons hs, hfirst, hlast,
        List.append_nil, List.nil_append]
    rw [hfs]
    cases searched_run (h.step hy) hlock.1 hrest (hures.trans hlock.2.symm) with
    | @on rest hcs hno hl =>
      by_cases hfw : c = .forward
      · subst hfw
        have hstep : u.forwardStep = some v := hs
        unfold World.forwardStep at hstep
        rw [hl] at hstep
        cases rest with
        | nil =>
          rw [tries_none hl, List.append_nil]
          rw [List.append_nil] at hcs
          cases hstep
          obtain rfl := hc.result_eq hures rfl
          exact .refused hcs hno
        | cons c rest =>
          exfalso
          have hres := hc.result
          rcases tryRoute_found hstep with ⟨_, rfl⟩ | ⟨_, hfl⟩
          · have hlen := congrArg List.length (hures.symm.trans hres)
            simp at hlen
          · cases (hc.lock_free h rfl).symm.trans hfl
      · obtain ⟨hfree, hclosing⟩ := held_of_selecting hl
        have hother := kept_other hfree hclosing (h.run hu) hs hfw
        have hlen := congrArg List.length ((hother.2.2.1.trans hures).symm.trans hc.result)
        simp at hlen
    | chosen hcs hr hl =>
      rw [tries_forwarding hl, List.append_nil]
      refine .chosen hcs hr ?_
      rintro e rfl
      exact hc.gone_of_last h rfl rfl hd hu hs hures hl

/-- what a call comes to are the eligible sessions -/
theorem eligible_of_cut {fs : List ((Nat × String × Nat) × Finding)}
    {rest : List (Nat × String × Nat)} (hcs : fs.map Prod.fst ++ rest = w.reserveRoute)
    {p : (Nat × String × Nat) × Finding} (hp : p ∈ fs) : w.Eligible p.1.2.1 p.1.2.2 := by
  have hm : p.1 ∈ w.reserveRoute := by
    rw [← hcs]
    exact List.mem_append_left _ (List.mem_map_of_mem hp)
  exact (mem_reserveRoute.mp hm).2

/-- a finding is of the state in which the call comes to the candidate -/
theorem mem_findings {as : List WorldAction} {p : (Nat × String × Nat) × Finding}
    (hrun : Machine.run (step digest lib) x as = some u) (hp : p ∈ findings digest lib x as) :
    ∃ bs cs y, as = bs ++ .forward :: cs ∧ Machine.run (step digest lib) x bs = some y ∧
      p.2 = y.found p.1 ∧ ∃ req rest busy t, y.lock = .selecting req (p.1 :: rest) busy t := by
  induction as generalizing x with
  | nil => cases hp
  | cons a as ih =>
    obtain ⟨y, hy, hrest⟩ := Machine.run_cons_some.mp hrun
    rw [findings_cons hy, List.mem_append] at hp
    rcases hp with hp | hp
    · unfold tries at hp
      split at hp
      · next hl =>
        obtain rfl := List.mem_singleton.mp hp
        exact ⟨[], as, x, rfl, rfl, rfl, _, _, _, _, hl⟩
      · cases hp
    · obtain ⟨bs, cs, z, rfl, hz, hpz⟩ := ih hrest hp
      exact ⟨a :: bs, cs, z, rfl, Machine.run_cons_some.mpr ⟨y, hy, hz⟩, hpz⟩

theorem found_eq_exhausted {c : Nat × String × Nat} :
    x.found c = .exhausted ↔ 65535 < (x.sess c.2.2).nextId := by
  unfold found
  split
  · next hn => exact ⟨fun _ => hn, fun _ => rfl⟩
  · next hn =>
    refine ⟨fun h => ?_, fun h => absurd h hn⟩
    split at h
    · cases h
    · split at h <;> cases h

/-- no session uses an id while the call searches -/
theorem Answers.found_exhausted {as : List WorldAction}
    {r : Except ForwardError (Nat × UInt16)}
    (hc : Answers digest lib w (.forwardAny req) as r v) (h : Reachable digest lib w)
    {p : (Nat × String × Nat) × Finding}
    (hp : p ∈ findings digest lib w (.forwardAny req :: as)) :
    p.2 = .exhausted ↔ 65535 < (w.sess p.1.2.2).nextId := by
  obtain ⟨bs, cs, y, he, hy, hpy, req', rest, busy, t, hl⟩ := mem_findings hc.run hp
  cases bs with
  | nil => cases (List.cons.inj he).1
  | cons b bs =>
    obtain ⟨rfl, _⟩ := List.cons.inj he
    have hf := forwarding_run h rfl hy (hc.first _ _ _ _ he hy)
    have hid : (y.sess p.1.2.2).nextId = (w.sess p.1.2.2).nextId :=
      ((hf.selecting hl).1 p.1.2.2).nextId
    rw [hpy, found_eq_exhausted, hid]

/-- **The ids of every eligible session are used.** Whatever happens meanwhile, a request that comes
to such a hub is refused as to a busy one. -/
theorem Answers.exhausted {as : List WorldAction} {r : Except ForwardError (Nat × UInt16)}
    (hc : Answers digest lib w (.forwardAny req) as r v) (h : Reachable digest lib w)
    (hex : ∃ id g, w.Eligible id g)
    (hall : ∀ id g, w.Eligible id g → 65535 < (w.sess g).nextId) : r = .error .tetherBusy := by
  have hfound : ∀ {rest : List (Nat × String × Nat)},
      (findings digest lib w (.forwardAny req :: as)).map Prod.fst ++ rest = w.reserveRoute →
      ∀ p ∈ findings digest lib w (.forwardAny req :: as), p.2 = .exhausted := by
    intro rest hcs p hp
    exact (hc.found_exhausted h hp).mpr (hall _ _ (eligible_of_cut hcs hp))
  cases hc.searched h with
  | chosen hcs hr he =>
    obtain ⟨p, hp, hroom⟩ := hr
    cases hroom.symm.trans (hfound hcs p hp)
  | refused hcs hno =>
    obtain ⟨id, g, he⟩ := hex
    have hm := candidate he
    rw [← hcs] at hm
    obtain ⟨p, hp, _⟩ := List.mem_map.mp hm
    have hbusy : p.2.busy = true := by
      rw [hfound ((List.append_nil _).trans hcs) p hp]
      rfl
    rw [if_pos (List.any_eq_true.mpr ⟨p, hp, hbusy⟩)]

/-! ## the status table -/

section
variable (digest : Bytes → String) (lib : HttpLib) (w : World) (req : Request)

/-- the call `forward_any` found this of the session -/
def Found (call : List WorldAction) (id : String) (g : Nat) (f : Finding) : Prop :=
  ∃ n, ((n, id, g), f) ∈ findings digest lib w (.forwardAny req :: call)

/-- the call came to the session, and found one of these of it -/
def FoundIn (call : List WorldAction) (id : String) (g : Nat) (fs : List Finding) : Prop :=
  (∃ f, Found digest lib w req call id g f) ∧ ∀ f, Found digest lib w req call id g f → f ∈ fs

/-- eligible sessions exist, and each that is still there has used all its stream ids -/
def Exhausted (call : List WorldAction) : Prop :=
  (∃ id g, w.Eligible id g ∧ Found digest lib w req call id g .exhausted) ∧
    ∀ id g, w.Eligible id g → FoundIn digest lib w req call id g [.exhausted, .gone]

/-- eligible sessions exist, none has room, and of those with stream ids left the streams or the
commands are at their limit -/
def Full (call : List WorldAction) : Prop :=
  (∃ id g, w.Eligible id g ∧ Found digest lib w req call id g .full) ∧
    ∀ id g, w.Eligible id g → FoundIn digest lib w req call id g [.exhausted, .full, .gone]

/-- reading the caller's body failed, while the stream had no head -/
def BodyFailed (call wait : List WorldAction) (stream : Option (Nat × UInt16)) : Prop :=
  ∃ g i, stream = some (g, i) ∧ ∃ bs cs x, .forwardAny req :: call ++ wait = bs ++ cs ∧
    Machine.run (step digest lib) w bs = some x ∧
    ((x.sess g).state i).uploadPc = .erred .callerBody ∧ ((x.sess g).state i).head = none

/-- An authenticated request is answered without an engine head: `forward_any` refuses it with the
last step of `call`; or it returns a stream with that step, and after `wait` `head()` is `None`. -/
inductive Headless : List WorldAction → List WorldAction → Option (Nat × UInt16) →
    CallerResponse → Prop where
  | refused {call : List WorldAction} {e : ForwardError} {v : World}
      (hc : Answers digest lib w (.forwardAny req) call (.error e) v) :
      Headless call [] none (errorResponse e.status)
  | noHead {call wait : List WorldAction} {g : Nat} {i : UInt16} {budget : Bool} {v u x : World}
      {a : CallerResponse} (hc : Answers digest lib w (.forwardAny req) call (.ok (g, i)) v)
      (hu : Machine.run (step digest lib) v wait = some u)
      (hpc : ((u.sess g).state i).callerPc = .checkCompleted)
      (hn : ((u.sess g).state i).answer = none)
      (hx : step digest lib u (.session g (.caller i budget)) = some x)
      (ha : ((x.sess g).state i).answer = some a) : Headless call wait (some (g, i)) a

/-- The operator's status table, for a request without an engine head. -/
structure Guided (call wait : List WorldAction) (stream : Option (Nat × UInt16))
    (status : Nat) : Prop where
  exhausted : Exhausted digest lib w req call → status = 429
  full : Full digest lib w req call → status = 503
  body : BodyFailed digest lib w req call wait stream → status = 400
  other : ¬ Exhausted digest lib w req call → ¬ Full digest lib w req call →
    ¬ BodyFailed digest lib w req call wait stream → status = 502

end

section
variable {call wait : List WorldAction} {stream : Option (Nat × UInt16)} {id : String} {g : Nat}
  {f : Finding}

theorem found_of_mem {p : (Nat × String × Nat) × Finding}
    (hp : p ∈ findings digest lib w (.forwardAny req :: call)) :
    Found digest lib w req call p.1.2.1 p.1.2.2 p.2 := ⟨p.1.1, hp⟩

/-- a call that has gone through all its candidates has come to every eligible session -/
theorem foundIn_of_all {fs : List Finding}
    (hcs : (findings digest lib w (.forwardAny req :: call)).map Prod.fst = w.reserveRoute)
    (hfs : ∀ p ∈ findings digest lib w (.forwardAny req :: call), p.2 ∈ fs)
    (he : w.Eligible id g) : FoundIn digest lib w req call id g fs := by
  have hm := candidate he
  rw [← hcs] at hm
  obtain ⟨p, hp, hpe⟩ := List.mem_map.mp hm
  constructor
  · refine ⟨p.2, w.load g, ?_⟩
    rw [← hpe]
    exact hp
  · intro f hf
    obtain ⟨n, hn⟩ := hf
    exact hfs _ hn

theorem not_foundIn_room {p : (Nat × String × Nat) × Finding} {fs : List Finding}
    (hp : p ∈ findings digest lib w (.forwardAny req :: call)) (hroom : p.2 = .room)
    (hfs : .room ∉ fs) : ¬ FoundIn digest lib w req call p.1.2.1 p.1.2.2 fs := by
  intro h
  have hf := h.2 p.2 (found_of_mem hp)
  rw [hroom] at hf
  exact hfs hf

/-- a call that was given a permit meets neither row of a hub without room -/
theorem not_guide_of_room {rest : List (Nat × String × Nat)}
    (hcs : (findings digest lib w (.forwardAny req :: call)).map Prod.fst ++ rest =
      w.reserveRoute)
    (hr : ∃ p ∈ findings digest lib w (.forwardAny req :: call), p.2 = .room) :
    ¬ Exhausted digest lib w req call ∧ ¬ Full digest lib w req call := by
  obtain ⟨p, hp, hroom⟩ := hr
  have he := eligible_of_cut hcs hp
  constructor
  · intro h
    exact not_foundIn_room hp hroom (by decide) (h.2 _ _ he)
  · intro h
    exact not_foundIn_room hp hroom (by decide) (h.2 _ _ he)

/-- a request that was refused had its body left alone -/
theorem not_bodyFailed_none : ¬ BodyFailed digest lib w req call wait none := by
  intro h
  obtain ⟨g, i, hs, _⟩ := h
  cases hs

/-- the row of every other failure -/
theorem guided_other (hex : ¬ Exhausted digest lib w req call)
    (hfull : ¬ Full digest lib w req call)
    (hbody : ¬ BodyFailed digest lib w req call wait stream) :
    Guided digest lib w req call wait stream 502 where
  exhausted h := absurd h hex
  full h := absurd h hfull
  body h := absurd h hbody
  other _ _ _ := rfl

/-- a call that is refused without a permit, with a full session on its way -/
theorem full_of_found
    (hcs : (findings digest lib w (.forwardAny req :: call)).map Prod.fst = w.reserveRoute)
    (hno : ∀ p ∈ findings digest lib w (.forwardAny req :: call), p.2 ≠ .room)
    {p : (Nat × String × Nat) × Finding}
    (hp : p ∈ findings digest lib w (.forwardAny req :: call)) (hpf : p.2 = .full) :
    Full digest lib w req call ∧ ¬ Exhausted digest lib w req call := by
  have he : w.Eligible p.1.2.1 p.1.2.2 := eligible_of_cut ((List.append_nil _).trans hcs) hp
  constructor
  · refine ⟨⟨_, _, he, hpf ▸ found_of_mem hp⟩, fun id g hel => ?_⟩
    refine foundIn_of_all hcs (fun q hq => ?_) hel
    have hqr := hno q hq
    revert hqr
    cases q.2 <;> decide
  · intro h
    have hf := (h.2 _ _ he).2 p.2 (found_of_mem hp)
    rw [hpf] at hf
    revert hf
    decide

/-- a call that is refused without a permit, with no full session but one without ids on its way -/
theorem exhausted_of_found
    (hcs : (findings digest lib w (.forwardAny req :: call)).map Prod.fst = w.reserveRoute)
    (hno : ∀ p ∈ findings digest lib w (.forwardAny req :: call), p.2 ≠ .room)
    (hnofull : ∀ p ∈ findings digest lib w (.forwardAny req :: call), p.2 ≠ .full)
    {p : (Nat × String × Nat) × Finding}
    (hp : p ∈ findings digest lib w (.forwardAny req :: call)) (hpe : p.2 = .exhausted) :
    Exhausted digest lib w req call := by
  have he : w.Eligible p.1.2.1 p.1.2.2 := eligible_of_cut ((List.append_nil _).trans hcs) hp
  refine ⟨⟨_, _, he, hpe ▸ found_of_mem hp⟩, fun id g hel => ?_⟩
  refine foundIn_of_all hcs (fun q hq => ?_) hel
  have hqr := hno q hq
  have hqf := hnofull q hq
  revert hqr hqf
  cases q.2 <;> decide

/-- a row is met only through a finding of its kind -/
theorem not_row_of_none {f : Finding}
    (hnone : ∀ p ∈ findings digest lib w (.forwardAny req :: call), p.2 ≠ f) :
    ¬ ∃ id g, w.Eligible id g ∧ Found digest lib w req call id g f := by
  intro h
  obtain ⟨id, g, _, n, hn⟩ := h
  exact hnone _ hn rfl

/-- a refusal by the search keeps to the table if no session has used all its ids, or one that has
not is full -/
theorem refused_guided_iff
    (hcs : (findings digest lib w (.forwardAny req :: call)).map Prod.fst = w.reserveRoute)
    (hno : ∀ p ∈ findings digest lib w (.forwardAny req :: call), p.2 ≠ .room) :
    Guided digest lib w req call [] none
      (ForwardError.status (if (findings digest lib w (.forwardAny req :: call)).any
        fun p => p.2.busy then .tetherBusy else .noTether)) ↔
      ¬ Exhausted digest lib w req call := by
  have hbusy : ∀ p ∈ findings digest lib w (.forwardAny req :: call), p.2.busy = true →
      ((findings digest lib w (.forwardAny req :: call)).any fun p => p.2.busy) = true :=
    fun p hp hb => List.any_eq_true.mpr ⟨p, hp, hb⟩
  by_cases hfull : ∃ p ∈ findings digest lib w (.forwardAny req :: call), p.2 = .full
  · obtain ⟨p, hp, hpf⟩ := hfull
    obtain ⟨hrow, hex⟩ := full_of_found hcs hno hp hpf
    rw [if_pos (hbusy p hp (by rw [hpf]; rfl))]
    exact ⟨fun _ => hex, fun _ => ⟨fun h => absurd h hex, fun _ => rfl,
      fun h => absurd h not_bodyFailed_none, fun _ h => absurd hrow h⟩⟩
  · have hnofull : ∀ p ∈ findings digest lib w (.forwardAny req :: call), p.2 ≠ .full :=
      fun p hp hpf => hfull ⟨p, hp, hpf⟩
    by_cases hsome : ∃ p ∈ findings digest lib w (.forwardAny req :: call), p.2 = .exhausted
    · -- the loop has counted the session as busy
      obtain ⟨p, hp, hpe⟩ := hsome
      have hrow := exhausted_of_found hcs hno hnofull hp hpe
      rw [if_pos (hbusy p hp (by rw [hpe]; rfl))]
      constructor
      · intro h
        exact absurd (h.exhausted hrow) (by decide)
      · intro h
        exact absurd hrow h
    · have hnone : ∀ p ∈ findings digest lib w (.forwardAny req :: call), p.2 ≠ .exhausted :=
        fun p hp hpe => hsome ⟨p, hp, hpe⟩
      have hidle :
          ((findings digest lib w (.forwardAny req :: call)).any fun p => p.2.busy) = false := by
        rw [List.any_eq_false]
        intro q hq
        have hqe := hnone q hq
        have hqf := hnofull q hq
        revert hqe hqf
        cases q.2 <;> decide
      have hex : ¬ Exhausted digest lib w req call := fun h => not_row_of_none hnone h.1
      rw [hidle]
      exact ⟨fun _ => hex, fun _ => guided_other hex (fun h => not_row_of_none hnofull h.1)
        not_bodyFailed_none⟩

/-- `head()` is `None`: the answer is a 502 -/
theorem noHead_answer {i : UInt16} {budget : Bool} {a : CallerResponse}
    (hpc : ((u.sess g).state i).callerPc = .checkCompleted)
    (hn : ((u.sess g).state i).answer = none)
    (hx : step digest lib u (.session g (.caller i budget)) = some x)
    (ha : ((x.sess g).state i).answer = some a) : a = errorResponse badGateway := by
  cases move_of_step hx with
  | @session _ _ s h0 hg ho hs =>
    obtain ⟨st, hst, rfl⟩ := Option.map_eq_some_iff.mp (show ((u.sess g).callerStep i budget) = _
      from hs)
    change (((u.setSession g ((u.sess g).setState i st)).sess g).state i).answer = some a at ha
    rw [setSession_self, Session.setState_self] at ha
    unfold StreamState.handle at hst
    rw [hpc] at hst
    simp only at hst
    split at hst
    · rw [← Option.some.inj hst] at ha
      exact (Option.some.inj ha).symm
    · rw [← Option.some.inj hst] at ha
      cases hn.symm.trans ha

end

end World

/-- **The statuses of requests without a head.** Whatever the sessions do meanwhile, the answer is
the one of the status table, unless every eligible session has used its ids, or the caller's own
body failed. -/
theorem headless_status_iff {digest : Bytes → String} {lib : HttpLib} {w : World} {req : Request}
    {call wait : List WorldAction} {stream : Option (Nat × UInt16)} {a : CallerResponse}
    (h : World.Reachable digest lib w)
    (hr : World.Headless digest lib w req call wait stream a) :
    World.Guided digest lib w req call wait stream a.status ↔
      ¬ World.Exhausted digest lib w req call ∧
        ¬ World.BodyFailed digest lib w req call wait stream := by
  cases hr with
  | @refused e v hc =>
    rw [and_iff_left World.not_bodyFailed_none]
    generalize hres : (Except.error e : Except ForwardError (Nat × UInt16)) = r at hc
    cases hc.searched h with
    | chosen hcs hroom he =>
      obtain ⟨hex, hfull⟩ := World.not_guide_of_room hcs hroom
      obtain rfl := he e hres.symm
      exact ⟨fun _ => hex, fun _ => World.guided_other hex hfull World.not_bodyFailed_none⟩
    | refused hcs hno =>
      cases hres
      exact World.refused_guided_iff hcs hno
  | @noHead _ g i budget v u x _ hc hu hpc hn hx ha =>
    obtain rfl := World.noHead_answer hpc hn hx ha
    generalize hres : (Except.ok (g, i) : Except ForwardError (Nat × UInt16)) = r at hc
    cases hc.searched h with
    | chosen hcs hroom he =>
      obtain ⟨hex, hfull⟩ := World.not_guide_of_room hcs hroom
      constructor
      · intro hg
        exact ⟨hex, fun hbody => absurd (hg.body hbody) (by decide)⟩
      · intro hc
        exact World.guided_other hex hfull hc.2
    | refused => cases hres

/-- a hub without tethers answers 502 -/
theorem headless_status_iff_fresh :
    World.Guided twoDigests okLib freshHub ⟨[], [], true⟩ [.forward] [] none 502 := by
  have hroute : freshHub.reserveRoute = [] := by decide +kernel
  have hnone : ∀ id g, ¬ freshHub.Eligible id g := World.reserveRoute_eq_nil.mp hroute
  have hrun : Machine.run (World.step twoDigests okLib) freshHub [.forwardAny ⟨[], [], true⟩] =
      some { freshHub with lock := .selecting ⟨[], [], true⟩ [] false freshHub.now } := by
    rw [← hroute]
    rfl
  have hc : World.Answers twoDigests okLib freshHub (.forwardAny ⟨[], [], true⟩) [.forward]
      (.error .noTether) (freshHub.answer (.error .noTether)) :=
    World.answers_of_last (List.singleton_append).symm hrun rfl rfl rfl
  refine (headless_status_iff (.init ⟨_, _, rfl⟩) (.refused hc)).mpr ⟨?_, ?_⟩
  · rintro ⟨⟨id, g, he, _⟩, _⟩
    exact hnone id g he
  · rintro ⟨g, i, hs, _⟩
    cases hs

/-- a tether that has used all its stream ids -/
def exhaustedHub : World where
  reg := { Registry.new 0 with
    byId := KeyMap.empty.insert "a" ⟨"a", "", "", true, none⟩
    live := KeyMap.empty.insert "a" 1
    nextGeneration := 2 }
  sess _ := { Session.new "a" [] 0 with nextId := 65536 }
  now := 0

theorem exhaustedHub_findings : exhaustedHub.reserveRoute = [(0, "a", 1)] ∧
    World.findings twoDigests okLib exhaustedHub
      (.forwardAny ⟨[], [], true⟩ :: [.forward, .forward]) = [((0, "a", 1), .exhausted)] := by
  decide +kernel

theorem exhaustedHub_results :
    ((Machine.run (World.step twoDigests okLib) exhaustedHub
      [.forwardAny ⟨[], [], true⟩, .forward]).bind fun u =>
        (World.step twoDigests okLib u .forward).map fun v =>
          decide (u.results = [] ∧ v.results = [.error .tetherBusy])) = some true := by
  decide +kernel

/-- all ids of the only tether are used: the table says 429, the answer is a 503 -/
theorem exhaustedHub_unguided :
    World.Headless twoDigests okLib exhaustedHub ⟨[], [], true⟩ [.forward, .forward] [] none
      (errorResponse 503) ∧
    ¬ World.Guided twoDigests okLib exhaustedHub ⟨[], [], true⟩ [.forward, .forward] [] none
      (errorResponse 503).status := by
  obtain ⟨u, hu, h⟩ := Option.bind_eq_some_iff.mp exhaustedHub_results
  obtain ⟨v, hv, h⟩ := Option.map_eq_some_iff.mp h
  obtain ⟨hur, hvr⟩ := of_decide_eq_true h
  obtain ⟨hroute, hfs⟩ := exhaustedHub_findings
  have hc : World.Answers twoDigests okLib exhaustedHub (.forwardAny ⟨[], [], true⟩)
      [.forward, .forward] (.error .tetherBusy) v := World.answers_of_last rfl hu hv hur hvr
  have he : exhaustedHub.Eligible "a" 1 :=
    (World.mem_reserveRoute.mp (hroute ▸ List.mem_singleton_self (0, "a", 1))).2
  have hrow : World.Exhausted twoDigests okLib exhaustedHub ⟨[], [], true⟩
      [.forward, .forward] := by
    refine ⟨⟨"a", 1, he, 0, hfs ▸ List.mem_singleton_self _⟩, fun id g he => ?_⟩
    refine World.foundIn_of_all ?_ ?_ he
    · rw [hfs, hroute]
      rfl
    · rw [hfs]
      decide
  refine ⟨.refused hc, fun hg => ?_⟩
  cases hg.exhausted hrow

/-- `forward_any` up to its answer: the candidate, the id, the entry in the map, OPEN, the upload
task and its handle -/
def forwardAnyRun : List WorldAction := List.replicate 6 .forward

/-- the upload task finds the body broken, and fails the stream; the caller finds no head -/
def brokenRun : List WorldAction := [.session 1 (.upload 1), .session 1 (.upload 1),
  .session 1 (.upload 1), .session 1 (.caller 1 true)]

theorem brokenRun_results : ((Machine.run (World.step twoDigests okLib) freshHub attachRun).bind
    fun w => (Machine.run (World.step twoDigests okLib) w
      (.forwardAny ⟨[], [], false⟩ :: forwardAnyRun)).bind fun u =>
        (World.step twoDigests okLib u .forward).bind fun v =>
          (World.step twoDigests okLib v (.session 1 (.upload 1))).bind fun x =>
            (Machine.run (World.step twoDigests okLib) x brokenRun.tail).bind fun y =>
              (World.step twoDigests okLib y (.session 1 (.caller 1 true))).map fun z =>
          decide (w.results = [] ∧ u.results = [] ∧ v.results = [.ok (1, 1)] ∧
            ((x.sess 1).state 1).uploadPc = .erred .callerBody ∧
            ((x.sess 1).state 1).head = none ∧
            ((y.sess 1).state 1).callerPc = .checkCompleted ∧
            ((y.sess 1).state 1).answer = none ∧
            ((z.sess 1).state 1).answer.isSome))
      = some true := by
  decide +kernel

/-- **The table is not kept**, by a hub whose only tether has used its ids, nor for a caller whose
body fails: it gets a 502 where the table says 400. -/
theorem headless_unguided :
    (World.Headless twoDigests okLib exhaustedHub ⟨[], [], true⟩ [.forward, .forward] [] none
        (errorResponse 503) ∧
      ¬ World.Guided twoDigests okLib exhaustedHub ⟨[], [], true⟩ [.forward, .forward] [] none
        (errorResponse 503).status) ∧
    ∃ w, World.Reachable twoDigests okLib w ∧
      World.Headless twoDigests okLib w ⟨[], [], false⟩ (forwardAnyRun ++ [.forward]) brokenRun
        (some (1, 1)) (errorResponse 502) ∧
      ¬ World.Guided twoDigests okLib w ⟨[], [], false⟩ (forwardAnyRun ++ [.forward]) brokenRun
        (some (1, 1)) (errorResponse 502).status := by
  refine ⟨exhaustedHub_unguided, ?_⟩
  obtain ⟨w, hw, h⟩ := Option.bind_eq_some_iff.mp brokenRun_results
  obtain ⟨u, hu, h⟩ := Option.bind_eq_some_iff.mp h
  obtain ⟨v, hv, h⟩ := Option.bind_eq_some_iff.mp h
  obtain ⟨x, hx, h⟩ := Option.bind_eq_some_iff.mp h
  obtain ⟨y, hy, h⟩ := Option.bind_eq_some_iff.mp h
  obtain ⟨z, hz, h⟩ := Option.map_eq_some_iff.mp h
  obtain ⟨hwr, hur, hvr, hpc, hhead, hcaller, hnone, hsome⟩ := of_decide_eq_true h
  have hc : World.Answers twoDigests okLib w (.forwardAny ⟨[], [], false⟩)
      (forwardAnyRun ++ [.forward]) (.ok (1, 1)) v :=
    World.answers_of_last rfl hu hv (hur.trans hwr.symm) (by rw [hvr, hwr]; rfl)
  have hbroken : Machine.run (World.step twoDigests okLib) v brokenRun = some y :=
    Machine.run_cons_some.mpr ⟨x, hx, hy⟩
  obtain ⟨a, ha⟩ := Option.isSome_iff_exists.mp hsome
  obtain rfl := World.noHead_answer hcaller hnone hz ha
  have hbody : World.BodyFailed twoDigests okLib w ⟨[], [], false⟩ (forwardAnyRun ++ [.forward])
      brokenRun (some (1, 1)) := by
    refine ⟨1, 1, rfl, .forwardAny ⟨[], [], false⟩ :: forwardAnyRun ++ [.forward] ++
      [.session 1 (.upload 1)], brokenRun.tail, x, rfl, ?_, hpc, hhead⟩
    refine Machine.run_append_some.mpr ⟨v, ?_, Machine.run_cons_some.mpr ⟨x, hx, rfl⟩⟩
    exact Machine.run_append_some.mpr ⟨u, hu, Machine.run_cons_some.mpr ⟨v, hv, rfl⟩⟩
  refine ⟨w, (Machine.Reachable.init ⟨_, _, rfl⟩).run hw,
    .noHead hc hbroken hcaller hnone hz ha, fun hg => ?_⟩
  cases hg.body hbody

end AnvilRing
