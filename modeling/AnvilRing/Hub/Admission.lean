import AnvilRing.Hub.Accounts
import AnvilRing.Hub.Control

/-!
# Admission is all or nothing

* `World.Answers`               a call and the run that it returns with;
* `World.Quiet`                 a step that touches no queue, no stream and no state of one;
* `World.Admits`, `World.Refuses`   what the two answers mean;
* `admission_all_or_nothing`    one OPEN for a registered id, or nothing but a burned id.
-/

namespace AnvilRing
open Wire

namespace World
open Session (Kept Booked Entered)
variable {digest : Bytes → String} {lib : HttpLib} {w x y v : World} {a : WorldAction}

/-! ## calls -/

/-- results are only added -/
theorem results_step (hs : step digest lib x a = some y) : x.results <+: y.results := by
  cases move_of_step hs with
  | refuseTo | noRoute | forwarded => exact List.prefix_append _ _
  | _ => exact List.prefix_rfl

theorem results_run {as : List WorldAction}
    (hrun : Machine.run (World.step digest lib) x as = some y) : x.results <+: y.results :=
  Machine.run_invariant (P := fun z => x.results <+: z.results)
    (fun _ _ _ hp hs => hp.trans (results_step hs)) List.prefix_rfl hrun

theorem Returning.results (h : Returning x y) : ∃ r, y.results = x.results ++ [r] := by
  cases h with
  | noRoute hl e => exact ⟨_, rfl⟩
  | answered hl hr => exact ⟨_, rfl⟩

/-- a run without a result keeps what its steps without a result keep -/
theorem run_until {P : World → Prop}
    (hstep : ∀ z b z', P z → World.step digest lib z b = some z' → z'.results = z.results → P z')
    {as : List WorldAction} (hx : P x) (hrun : Machine.run (World.step digest lib) x as = some y)
    (hres : y.results = x.results) : P y := by
  induction as generalizing x with
  | nil =>
    obtain rfl := Option.some.inj hrun
    exact hx
  | cons b bs ih =>
    obtain ⟨z, hz, hrest⟩ := Machine.run_cons_some.mp hrun
    have hpre := results_run hrest
    rw [hres] at hpre
    have hsame : z.results = x.results :=
      (hpre.eq_of_length_le (results_step hz).length_le)
    exact ih (hstep x b z hx hz hsame) hrest (hres.trans hsame.symm)

/-- a call that has begun and has no answer yet is under way -/
theorem forwarding_run (h : Reachable digest lib w) (ha : a.begins = true) {as : List WorldAction}
    (hrun : Machine.run (World.step digest lib) w (a :: as) = some x)
    (hres : x.results = w.results) : Forwarding w x (a.chooses = true) := by
  obtain ⟨u, hu, hrun⟩ := Machine.run_cons_some.mp hrun
  have hstart : Forwarding w u (a.chooses = true) := by
    rcases forwarding_start ha hu with hf | ⟨e, rfl⟩
    · exact hf
    · have hle := (results_run hrun).length_le
      rw [hres] at hle
      exact absurd hle (by simp [answer])
  refine (run_until (P := fun z => Reachable digest lib z ∧ Forwarding w z (a.chooses = true)) ?_
    ⟨h.step hu, hstart⟩ hrun (hres.trans hstart.results.symm)).2
  intro z b z' hz hs hsame
  refine ⟨hz.1.step hs, ?_⟩
  rcases hz.2.step hz.1 hs with hf | ⟨_, hret⟩
  · exact hf
  · obtain ⟨r, hr⟩ := hret.results
    rw [hsame] at hr
    exact absurd (congrArg List.length hr) (by simp)

/-- the call that `a` begins in `w` returns `r` with the last step of this run -/
structure Answers (digest : Bytes → String) (lib : HttpLib) (w : World) (a : WorldAction)
    (as : List WorldAction) (r : Except ForwardError (Nat × UInt16)) (v : World) : Prop where
  run : Machine.run (step digest lib) w (a :: as) = some v
  result : v.results = w.results ++ [r]
  first : ∀ bs c cs x, a :: as = bs ++ c :: cs →
    Machine.run (step digest lib) w bs = some x → x.results = w.results

section
variable {as : List WorldAction} {r : Except ForwardError (Nat × UInt16)}

/-- no state before the last has a result, if that one has none -/
theorem answers_of_last {bs : List WorldAction} {c : WorldAction} {u : World}
    (he : a :: as = bs ++ [c]) (hu : Machine.run (World.step digest lib) w bs = some u)
    (hs : World.step digest lib u c = some v) (hres : u.results = w.results)
    (hv : v.results = w.results ++ [r]) : Answers digest lib w a as r v where
  run := by
    rw [he]
    exact Machine.run_append_some.mpr ⟨u, hu, Machine.run_cons_some.mpr ⟨v, hs, rfl⟩⟩
  result := hv
  first ds d cs x hd hx := by
    obtain ⟨es, hes⟩ : ∃ es, bs = ds ++ es := by
      rcases List.eq_nil_or_concat (d :: cs) with hnil | ⟨es, e, hcat⟩
      · cases hnil
      · have hsplit : bs ++ [c] = (ds ++ es) ++ [e] := by
          rw [← he, hd, hcat, List.concat_eq_append, List.append_assoc]
        exact ⟨es, (List.append_inj' hsplit rfl).1⟩
    rw [hes] at hu
    obtain ⟨x', hx', hrest⟩ := Machine.run_append_some.mp hu
    obtain rfl := Option.some.inj (hx.symm.trans hx')
    have hpre := results_run hrest
    rw [hres] at hpre
    exact hpre.eq_of_length_le (results_run hx).length_le

/-- the last state before the answer -/
theorem Answers.last (hc : Answers digest lib w a as r v) :
    ∃ bs c u, a :: as = bs ++ [c] ∧ Machine.run (World.step digest lib) w bs = some u ∧
      World.step digest lib u c = some v ∧ u.results = w.results := by
  rcases List.eq_nil_or_concat (a :: as) with hnil | ⟨bs, c, he⟩
  · cases hnil
  · rw [List.concat_eq_append] at he
    have hrun := hc.run
    rw [he] at hrun
    obtain ⟨u, hu, hlast⟩ := Machine.run_append_some.mp hrun
    obtain ⟨v', hv, hnil⟩ := Machine.run_cons_some.mp hlast
    obtain rfl := Option.some.inj hnil
    exact ⟨bs, c, u, he, hu, hv, hc.first bs c [] u he hu⟩

theorem Answers.not_forwarding (hc : Answers digest lib w a as r v) {any : Prop} :
    ¬ Forwarding w v any := fun hf =>
  absurd (congrArg List.length (hc.result.symm.trans hf.results)) (by simp)

/-- a state without a result that goes over to the last one gives its answer -/
theorem Answers.result_eq (hc : Answers digest lib w a as r v)
    {r' : Except ForwardError (Nat × UInt16)} (hu : x.results = w.results)
    (hv : v.results = x.results ++ [r']) : r' = r := by
  have hr := hc.result
  rw [hv, hu] at hr
  exact List.singleton_inj.mp (List.append_cancel_left hr)

/-- the answer: at once, or from a call that was under way -/
theorem Answers.returning (hc : Answers digest lib w a as r v) (h : Reachable digest lib w)
    (ha : a.begins = true) :
    (∃ e, r = .error e ∧ v = w.answer (.error e)) ∨
      ∃ bs u, a :: as = bs ++ [.forward] ∧ Machine.run (World.step digest lib) w bs = some u ∧
        Forwarding w u (a.chooses = true) ∧ Returning u v := by
  obtain ⟨bs, c, u, he, hu, hv, hres⟩ := hc.last
  cases bs with
  | nil =>
    obtain ⟨rfl, _⟩ := List.cons.inj he
    obtain rfl := Option.some.inj hu
    rcases forwarding_start ha hv with hf | ⟨e, rfl⟩
    · exact absurd hf hc.not_forwarding
    · exact .inl ⟨e, (hc.result_eq rfl rfl).symm, rfl⟩
  | cons b bs =>
    obtain ⟨rfl, rfl⟩ := List.cons.inj he
    have hf := forwarding_run h ha hu hres
    rcases hf.step (h.run hu) hv with hf' | ⟨rfl, hret⟩
    · exact absurd hf' hc.not_forwarding
    · exact .inr ⟨a :: bs, u, rfl, hu, hf, hret⟩

/-- the books of the answer -/
theorem Answers.settled (hc : Answers digest lib w a as r v) (h : Reachable digest lib w)
    (ha : a.begins = true) :
    match r with
    | .ok (g, i) =>
      (∀ g', g' ≠ g → Kept (w.sess g') (v.sess g')) ∧ Entered (w.sess g) (v.sess g) i 0 [i]
    | .error _ => ∃ g, (∀ g', g' ≠ g → Kept (w.sess g') (v.sess g')) ∧
        (Booked (w.sess g) (v.sess g) 0 0 ∨ Booked (w.sess g) (v.sess g) 0 1) := by
  rcases hc.returning h ha with ⟨e, rfl, rfl⟩ | ⟨bs, u, _, _, hf, hret⟩
  · exact ⟨0, fun g' _ => Session.kept_refl _, .inl (Session.booked_refl _)⟩
  · cases hret with
    | @noRoute req busy t hl e =>
      obtain rfl := hc.result_eq hf.results rfl
      have hkept := (hf.selecting hl).1
      exact ⟨0, fun g' _ => hkept g', .inl (hkept 0).toBooked⟩
    | @answered id g t r' hl hr' =>
      obtain rfl := hc.result_eq hf.results rfl
      obtain ⟨hkept, hunder, _⟩ := hf.forwarding hl
      rw [hr'] at hunder
      have hothers : ∀ g', g' ≠ g →
          Kept (w.sess g') ((u.setSession g { u.sess g with forward := .idle }).sess g') :=
        fun g' hg => kept_setSession hg (hkept g' hg)
      cases r' with
      | ok i =>
        obtain ⟨h1, h2, h3, h4, h5⟩ : Entered (w.sess g) (u.sess g) i 0 [i] := hunder
        refine ⟨hothers, ?_⟩
        show Entered _ ((u.setSession g { u.sess g with forward := .idle }).sess g) i 0 [i]
        rw [setSession_self]
        exact ⟨h1, h2, h3, h4, h5⟩
      | error e =>
        refine ⟨g, hothers, ?_⟩
        show Booked _ ((u.setSession g { u.sess g with forward := .idle }).sess g) 0 0 ∨
          Booked _ ((u.setSession g { u.sess g with forward := .idle }).sess g) 0 1
        rw [setSession_self]
        have hb : ∀ {n : Nat}, Booked (w.sess g) (u.sess g) 0 n →
            Booked (w.sess g) { u.sess g with forward := .idle } 0 n :=
          fun hb => ⟨hb.reserved, hb.nextId, hb.registered, hb.opened, hb.streams⟩
        exact Or.imp hb hb hunder

theorem Answers.lock_free (hc : Answers digest lib w a as r v) (h : Reachable digest lib w)
    (ha : a.begins = true) : v.lock = .free := by
  rcases hc.returning h ha with ⟨e, rfl, rfl⟩ | ⟨bs, u, _, _, hf, hret⟩
  · rfl
  · cases hret with
    | noRoute => rfl
    | answered => rfl

/-! ## the frames of a refused call -/

/-- Nothing but a permit, an id and the program counter of a forward has changed: no queue, no
stream and no state of one. -/
def Quiet (x y : World) : Prop :=
  y.reg = x.reg ∧ ∀ g, y.sess g = { x.sess g with
    tx := { (x.sess g).tx with reserved := (y.sess g).tx.reserved }
    nextId := (y.sess g).nextId
    forward := (y.sess g).forward }

theorem quiet_setSession {g : Nat} {s : Session} (hreg : y.reg = x.reg)
    (hy : y.sess = (x.setSession g s).sess)
    (h : s = { x.sess g with
      tx := { (x.sess g).tx with reserved := s.tx.reserved }
      nextId := s.nextId
      forward := s.forward }) : Quiet x y := by
  refine ⟨hreg, ?_⟩
  rw [hy]
  exact forall_setSession (w := x) (P := fun k t => t = { x.sess k with
    tx := { (x.sess k).tx with reserved := t.tx.reserved }
    nextId := t.nextId
    forward := t.forward }) (fun _ => rfl) h

theorem quiet_reserve {s t : Session} {req : Request} (h : s.reserve req = some t) :
    t = { s with
      tx := { s.tx with reserved := t.tx.reserved }
      nextId := t.nextId
      forward := t.forward } := by
  unfold Session.reserve at h
  split at h
  · split at h
    · next htx =>
      obtain ⟨_, _, rfl⟩ := Chan.tryReserve_ok htx
      cases h
      rfl
    · cases h
      rfl
    · cases h
      rfl
  · cases h

/-- a stream of the forward that holds the lock is registered -/
def Entering (x : World) : Prop :=
  ∃ id g t i, x.lock = .forwarding id g t ∧ (x.sess g).forward.entered = some i

/-- what one step of a forward is to its session -/
inductive ForwardMove (s t : Session) : Prop where
  | quiet (hs : s.forward.entered = none) (ht : t.forward.entered = none)
      (h : t = { s with
        tx := { s.tx with reserved := t.tx.reserved }
        nextId := t.nextId
        forward := t.forward })
  | register {i : UInt16} (hs : s.forward.entered = none) (ht : t.forward.entered = some i)
      (htx : t.tx = s.tx)
  | open {i : UInt16} (hs : s.forward = .admitted i) (ht : t.forward = .opened i)
      (htx : t.tx = s.tx.sendPermit (.open i (s.state i).request.head))
  | goOn {i : UInt16} (hs : s.forward.entered = some i) (ht : t.forward.entered = some i)
      (htx : t.tx = s.tx)
  | answered {r : Except ForwardError UInt16} (hs : s.forward = .returned r)
      (h : t = { s with forward := .idle })

/-- **Inversion.** The steps of a forward. -/
theorem forwardMove {s t : Session} (h : s.forwardStep = some t) : ForwardMove s t := by
  unfold Session.forwardStep at h
  cases hf : s.forward with
  | idle =>
    rw [hf] at h
    cases h
  | reserved req =>
    rw [hf] at h
    obtain rfl := Option.some.inj h
    have hs : s.forward.entered = none := by rw [hf]; rfl
    unfold Session.allocate
    split
    · exact .quiet hs rfl rfl
    · exact .quiet hs rfl rfl
  | allocated req id =>
    rw [hf] at h
    obtain rfl := Option.some.inj h
    have hs : s.forward.entered = none := by rw [hf]; rfl
    unfold Session.admitStream
    split
    · exact .quiet hs rfl rfl
    · split
      · exact .quiet hs rfl rfl
      · exact .register hs rfl rfl
  | admitted id =>
    rw [hf] at h
    obtain rfl := Option.some.inj h
    exact .open hf rfl rfl
  | opened id =>
    rw [hf] at h
    obtain rfl := Option.some.inj h
    exact .goOn (by rw [hf]; rfl) rfl rfl
  | spawned id =>
    rw [hf] at h
    obtain rfl := Option.some.inj h
    exact .goOn (by rw [hf]; rfl) rfl rfl
  | returned r =>
    rw [hf] at h
    obtain rfl := Option.some.inj h
    exact .answered hf rfl

theorem quiet_session {s t : Session} (h : s.forwardStep = some t) (hs : s.forward.entered = none)
    (ht : t.forward.entered = none) :
    t = { s with
      tx := { s.tx with reserved := t.tx.reserved }
      nextId := t.nextId
      forward := t.forward } := by
  cases forwardMove h with
  | quiet _ _ hq => exact hq
  | register _ hi => cases ht.symm.trans hi
  | «open» hi =>
    rw [hi] at hs
    cases hs
  | goOn hi => cases hs.symm.trans hi
  | answered _ he =>
    rw [he]

theorem quiet_start (ha : a.begins = true) (hs : World.step digest lib w a = some x) :
    Quiet w x := by
  cases move_of_step hs with
  | route => exact ⟨rfl, fun _ => rfl⟩
  | selectTo _ _ _ hres => exact quiet_setSession rfl rfl (quiet_reserve hres)
  | refuseTo => exact ⟨rfl, fun _ => rfl⟩
  | _ => cases ha

/-- a step of a forward that registers nothing -/
theorem quiet_forward (hs : x.forwardStep = some y) (hx : ¬ Entering x) (hy : ¬ Entering y) :
    Quiet x y := by
  unfold World.forwardStep at hs
  split at hs
  · cases hs
    exact ⟨rfl, fun _ => rfl⟩
  · next req c rest busy t hl =>
    obtain ⟨count, id, g⟩ := c
    rcases tryRoute_cases hs with ⟨b, rfl⟩ | ⟨_, _, s, hres, _, rfl⟩
    · exact ⟨rfl, fun _ => rfl⟩
    · exact quiet_setSession rfl rfl (quiet_reserve hres)
  · next id g t hl =>
    obtain ⟨s, hb, rfl⟩ := Option.map_eq_some_iff.mp hs
    have hs0 : (x.sess g).forward.entered = none := by
      cases he : (x.sess g).forward.entered with
      | none => rfl
      | some i => exact absurd ⟨id, g, t, i, hl, he⟩ hx
    split
    · next r hr =>
      refine quiet_setSession rfl rfl (quiet_session hb hs0 ?_)
      unfold Session.forwardStep at hb
      rw [hr] at hb
      cases hb
      rfl
    · next hr =>
      refine quiet_setSession rfl rfl (quiet_session hb hs0 ?_)
      simp only at hy
      cases he : s.forward.entered with
      | none => rfl
      | some i => exact absurd ⟨id, g, t, i, hl, by rw [setSession_self]; exact he⟩ hy
  · cases hs

/-- what a forward that has registered its stream is left to do -/
theorem entered_forward {s t : Session} {i : UInt16} (h : s.forwardStep = some t)
    (hs : s.forward.entered = some i) (hr : ∀ r, s.forward ≠ .returned r) :
    t.forward.entered = some i := by
  cases forwardMove h with
  | quiet hn => cases hn.symm.trans hs
  | register hn => cases hn.symm.trans hs
  | «open» hi ht =>
    rw [hi] at hs
    rw [ht]
    exact hs
  | goOn hi ht => exact ht.trans (hi.symm.trans hs)
  | answered hx => exact absurd hx (hr _)

/-- the lock stays with a forward on its session until it answers -/
theorem lock_kept {id : String} {g t : Nat} (hl : x.lock = .forwarding id g t)
    (hr : Reachable digest lib x) (hs : World.step digest lib x a = some y)
    (hres : y.results = x.results) : y.lock = .forwarding id g t := by
  by_cases ha : a = .forward
  · subst ha
    change x.forwardStep = some y at hs
    unfold World.forwardStep at hs
    rw [hl] at hs
    obtain ⟨s, hb, rfl⟩ := Option.map_eq_some_iff.mp hs
    split at hres
    · exact absurd (congrArg List.length hres) (by simp [answer, setSession])
    · exact hl
  · have hlock := kept_other (by rw [hl]; exact nofun) (by rw [hl]; exact nofun) hr hs ha
    exact hlock.2.1.trans hl

/-- a call that has registered its stream returns it -/
theorem entering_step (he : Entering x) (hr : Reachable digest lib x)
    (hs : World.step digest lib x a = some y) :
    Entering y ∨ ∃ p, y.results = x.results ++ [.ok p] := by
  obtain ⟨id, g, t, i, hl, hi⟩ := he
  by_cases ha : a = .forward
  · subst ha
    change x.forwardStep = some y at hs
    unfold World.forwardStep at hs
    rw [hl] at hs
    obtain ⟨s, hb, rfl⟩ := Option.map_eq_some_iff.mp hs
    split
    · next r hx =>
      rw [hx] at hi
      cases r with
      | ok j => exact .inr ⟨(g, j), rfl⟩
      | error e => cases hi
    · next hx =>
      refine .inl ⟨id, g, t, i, hl, ?_⟩
      rw [setSession_self]
      exact entered_forward hb hi hx
  · have hlock := kept_other (by rw [hl]; exact nofun) (by rw [hl]; exact nofun) hr hs ha
    refine .inl ⟨id, g, t, i, hlock.2.1.trans hl, ?_⟩
    rw [(hlock.1 g).forward]
    exact hi

/-- what a state on the way has, and every step without a result keeps, the last state before the
answer has -/
theorem Answers.until {P : World → Prop} (hc : Answers digest lib w a as r v)
    (h : Reachable digest lib w)
    (hstep : ∀ z b z', Reachable digest lib z → P z → World.step digest lib z b = some z' →
      z'.results = z.results → P z')
    {bs cs : List WorldAction} (he : a :: as = bs ++ cs)
    (hx : Machine.run (World.step digest lib) w bs = some x) (hp : P x) :
    P v ∨ ∃ ds c u, a :: as = ds ++ [c] ∧ Machine.run (World.step digest lib) w ds = some u ∧
      World.step digest lib u c = some v ∧ u.results = w.results ∧ P u := by
  obtain ⟨ds, c, u, hd, hu, hv, hures⟩ := hc.last
  rcases List.eq_nil_or_concat cs with rfl | ⟨cs', c', rfl⟩
  · have hrun := hc.run
    rw [he, List.append_nil, hx] at hrun
    exact .inl (Option.some.inj hrun ▸ hp)
  · have hds : ds = bs ++ cs' ∧ [c] = [c'] := by
      refine List.append_inj' ?_ rfl
      rw [← hd, he, List.concat_eq_append, List.append_assoc]
    obtain ⟨rfl, _⟩ := hds
    obtain ⟨x', hx', hrest⟩ := Machine.run_append_some.mp hu
    obtain rfl := Option.some.inj (hx.symm.trans hx')
    have hxres : x.results = w.results := by
      cases cs' with
      | nil => exact hc.first bs c [] x (by rw [hd, List.append_nil]) hx
      | cons d cs' => exact hc.first bs d (cs' ++ [c]) x (by rw [hd]; simp) hx
    have hlast := run_until (P := fun z => Reachable digest lib z ∧ P z)
      (fun z b z' hz hs hsame => ⟨hz.1.step hs, hstep z b z' hz.1 hz.2 hs hsame⟩)
      ⟨h.run hx, hp⟩ hrest (hures.trans hxres.symm)
    exact .inr ⟨bs ++ cs', c, u, hd, hu, hv, hures, hlast.2⟩

/-- a call that is refused has registered nothing on its way -/
theorem Answers.not_entering {e : ForwardError} (hc : Answers digest lib w a as (.error e) v)
    (h : Reachable digest lib w) (ha : a.begins = true) {bs cs : List WorldAction}
    (he : a :: as = bs ++ cs) (hx : Machine.run (World.step digest lib) w bs = some x) :
    ¬ Entering x := by
  intro hent
  have hvnot : ¬ Entering v := by
    rintro ⟨id, g, t, i, hl, _⟩
    cases (hc.lock_free h ha).symm.trans hl
  have hkeep : ∀ z b z', Reachable digest lib z → Entering z →
      World.step digest lib z b = some z' → z'.results = z.results → Entering z' := by
    intro z b z' hz hez hs hsame
    rcases entering_step hez hz hs with hez' | ⟨p, hp⟩
    · exact hez'
    · rw [hsame] at hp
      exact absurd (congrArg List.length hp) (by simp)
  rcases hc.until h hkeep he hx hent with hv | ⟨ds, c, u, _, hu, hs, hures, heu⟩
  · exact hvnot hv
  · rcases entering_step heu (h.run hu) hs with hv | ⟨p, hp⟩
    · exact hvnot hv
    · cases hc.result_eq hures hp

/-! ## the OPEN of an admitted call -/

theorem opens_session {s t : Session} {i : UInt16} (h : s.forwardStep = some t)
    (hs : i ∉ openedIds s.tx.log) (ht : i ∈ openedIds t.tx.log) :
    s.forward = .admitted i ∧ t.tx = s.tx.sendPermit (.open i (s.state i).request.head) := by
  have hsame : t.tx.log ≠ s.tx.log := fun he => hs (he ▸ ht)
  cases forwardMove h with
  | quiet _ _ hq =>
    refine absurd ?_ hsame
    rw [hq]
    rfl
  | register _ _ htx => exact absurd (congrArg Chan.log htx) hsame
  | @«open» id hadm _ htx =>
    rw [htx, Chan.log_sendPermit, openedIds_append, List.mem_append] at ht
    obtain rfl : i = id := List.mem_singleton.mp (ht.resolve_left hs)
    exact ⟨hadm, htx⟩
  | goOn _ _ htx => exact absurd (congrArg Chan.log htx) hsame
  | answered _ he =>
    refine absurd ?_ hsame
    rw [he]

/-- the step that opens stream `i` on session `g` sends OPEN with the forward's permit -/
theorem opens_forward {g : Nat} {i : UInt16} (hs : World.step digest lib x .forward = some y)
    (hx : i ∉ openedIds (x.sess g).tx.log) (hy : i ∈ openedIds (y.sess g).tx.log) :
    ∃ id t, x.lock = .forwarding id g t ∧ (x.sess g).forward = .admitted i ∧
      (y.sess g).tx = (x.sess g).tx.sendPermit (.open i ((x.sess g).state i).request.head) := by
  have hsame : ∀ {z : World}, z.sess = y.sess →
      openedIds (z.sess g).tx.log ≠ openedIds (x.sess g).tx.log := by
    intro z hz he
    rw [hz] at he
    exact hx (he ▸ hy)
  have hset : ∀ {g' : Nat} {s : Session}, y.sess = (x.setSession g' s).sess →
      g' = g ∧ i ∈ openedIds s.tx.log := by
    intro g' s hz
    by_cases hg : g = g'
    · subst hg
      refine ⟨rfl, ?_⟩
      rwa [hz, setSession_self] at hy
    · refine absurd ?_ (hsame rfl)
      rw [hz, setSession_of_ne x s hg]
  have hforward : ∀ {id : String} {g' t : Nat} {s : Session}, x.lock = .forwarding id g' t →
      (x.sess g').forwardStep = some s → y.sess = (x.setSession g' s).sess →
      ∃ id t, x.lock = .forwarding id g t ∧ (x.sess g).forward = .admitted i ∧
        (y.sess g).tx = (x.sess g).tx.sendPermit (.open i ((x.sess g).state i).request.head) := by
    intro id g' t s hl hb hz
    obtain ⟨rfl, hi⟩ := hset hz
    obtain ⟨hadm, htx⟩ := opens_session hb hx hi
    refine ⟨id, t, hl, hadm, ?_⟩
    rw [hz, setSession_self]
    exact htx
  cases move_of_step hs with
  | skip | noRoute => exact absurd rfl (hsame rfl)
  | select hl hres =>
    obtain ⟨rfl, hi⟩ := hset rfl
    rw [quiet_reserve hres] at hi
    exact absurd hi hx
  | forward hl hb => exact hforward hl hb rfl
  | forwarded hl _ hb => exact hforward hl hb rfl

/-- how a call sends its OPEN -/
theorem Answers.sends {g : Nat} {i : UInt16} (hc : Answers digest lib w a as (.ok (g, i)) v)
    (h : Reachable digest lib w) (ha : a.begins = true) (hi : i ∉ openedIds (w.sess g).tx.log) :
    ∃ bs cs x y, a :: as = bs ++ .forward :: cs ∧
      Machine.run (World.step digest lib) w bs = some x ∧
      World.step digest lib x .forward = some y ∧
      ((x.sess g).state i).registered = true ∧
      (x.sess g).tx.reserved = (w.sess g).tx.reserved + 1 ∧
      (y.sess g).tx = (x.sess g).tx.sendPermit (.open i ((x.sess g).state i).request.head) := by
  have hopened : i ∈ openedIds (v.sess g).tx.log := by
    rw [(hc.settled h ha).2.opened]
    exact List.mem_append_right _ List.mem_cons_self
  obtain ⟨bs, c, cs, x, y, he, hx, hnx, hy, hpy, _⟩ :=
    Machine.run_first (P := fun z : World => i ∈ openedIds (z.sess g).tx.log) hi hopened hc.run
  have hres := hc.first bs c cs x he hx
  have hlog : ∀ {z z' : World}, Quiet z z' → i ∈ openedIds (z'.sess g).tx.log →
      i ∈ openedIds (z.sess g).tx.log := by
    intro z z' hq hz
    rw [hq.2 g] at hz
    exact hz
  cases bs with
  | nil =>
    obtain ⟨rfl, _⟩ := List.cons.inj he
    obtain rfl := Option.some.inj hx
    exact absurd (hlog (quiet_start ha hy) hpy) hnx
  | cons b bs =>
    obtain ⟨rfl, _⟩ := List.cons.inj he
    have hxr : Reachable digest lib x := h.run hx
    have hf := forwarding_run h ha hx hres
    by_cases hfw : c = .forward
    · subst hfw
      obtain ⟨id, t, hl, hadm, htx⟩ := opens_forward hy hnx hpy
      have hunder := (hf.forwarding hl).2.1
      rw [hadm] at hunder
      have hent : Entered (w.sess g) (x.sess g) i 1 [] := hunder
      exact ⟨_, cs, x, y, he, hx, hy, hent.registered, hent.reserved, htx⟩
    · have hk := (hf.other hxr hy hfw).2.1 g
      rw [hk.opened] at hpy
      exact absurd hpy hnx

/-! ## the reason of a refusal -/

/-- a call that chooses its session, and holds a permit of it when it returns, fails only with the
session -/
theorem Answers.gone_of_last {e : ForwardError} (hc : Answers digest lib w a as (.error e) v)
    (h : Reachable digest lib w) (ha : a.begins = true) (hany : a.chooses = true)
    {ds : List WorldAction} {c : WorldAction} {u : World} (hd : a :: as = ds ++ [c])
    (hu : Machine.run (World.step digest lib) w ds = some u)
    (hs : World.step digest lib u c = some v) (hures : u.results = w.results)
    {id : String} {g t : Nat} (hl : u.lock = .forwarding id g t) : e = .tetherGone := by
  cases ds with
  | nil =>
    obtain ⟨rfl, _⟩ := List.cons.inj hd
    obtain rfl := Option.some.inj hu
    cases move_of_step hs with
    | route hl' | selectTo hl' | refuseTo hl' => cases hl'.symm.trans hl
    | _ => cases ha
  | cons b ds =>
    obtain ⟨rfl, _⟩ := List.cons.inj hd
    have hf := forwarding_run h ha hu hures
    rcases hf.step (h.run hu) hs with hf' | ⟨_, hret⟩
    · exact absurd hf' hc.not_forwarding
    · cases hret with
      | noRoute hl' => cases hl'.symm.trans hl
      | @answered id' g' t' r' hl' hr' =>
        have hroom := (hf.forwarding hl').2.2 hany
        have hmap : (r'.map fun i => (g', i)) = .error e := hc.result_eq hures rfl
        cases r' with
        | ok i => cases hmap
        | error e' =>
          cases hmap
          rw [hr'] at hroom
          exact hroom

/-- after its reservation a call that chooses its session fails only with the session -/
theorem Answers.gone {e : ForwardError} (hc : Answers digest lib w a as (.error e) v)
    (h : Reachable digest lib w) (ha : a.begins = true) (hany : a.chooses = true)
    {bs cs : List WorldAction} (he : a :: as = bs ++ cs)
    (hx : Machine.run (World.step digest lib) w bs = some x) {g : Nat}
    (hg : (w.sess g).tx.reserved < (x.sess g).tx.reserved) : e = .tetherGone := by
  -- the call holds the permit: it has not begun, is selecting, or has returned otherwise
  have hheld : ∃ id g t, x.lock = .forwarding id g t := by
    cases bs with
    | nil =>
      obtain rfl := Option.some.inj hx
      exact absurd hg (Nat.lt_irrefl _)
    | cons b bs =>
      obtain ⟨rfl, _⟩ := List.cons.inj he
      cases cs with
      | nil =>
        have hrun := hc.run
        rw [he, List.append_nil, hx] at hrun
        obtain rfl := Option.some.inj hrun
        obtain ⟨k, hkept, hk⟩ := hc.settled h ha
        have hsame : (x.sess g).tx.reserved = (w.sess g).tx.reserved := by
          by_cases hgk : g = k
          · subst hgk
            exact hk.elim (fun hb => hb.reserved) fun hb => hb.reserved
          · exact (hkept g hgk).reserved
        exact absurd hsame hg.ne'
      | cons c cs =>
        have hf := forwarding_run h ha hx (hc.first (a :: bs) c cs x he hx)
        rcases hf.lock with ⟨req, ds, busy, t, hl⟩ | hl
        · exact absurd ((hf.selecting hl).1 g).reserved hg.ne'
        · exact hl
  have hkeep : ∀ z b z', Reachable digest lib z → (∃ id g t, z.lock = .forwarding id g t) →
      World.step digest lib z b = some z' → z'.results = z.results →
      ∃ id g t, z'.lock = .forwarding id g t := by
    rintro z b z' hz ⟨id, g, t, hl⟩ hs hsame
    exact ⟨id, g, t, lock_kept hl hz hs hsame⟩
  rcases hc.until h hkeep he hx hheld with ⟨id, k, t, hl⟩ | ⟨ds, c, u, hd, hu, hs, hures, hlock⟩
  · cases (hc.lock_free h ha).symm.trans hl
  · obtain ⟨id, k, t, hl⟩ := hlock
    exact hc.gone_of_last h ha hany hd hu hs hures hl

/-! ## the two answers -/

/-- `Ok`: one OPEN, on session `g`, for an id that is new and was registered before; it took the
slot that the call had reserved, and no slot is left reserved. -/
structure Admits (digest : Bytes → String) (lib : HttpLib) (w : World) (a : WorldAction)
    (as : List WorldAction) (g : Nat) (i : UInt16) (v : World) : Prop where
  fresh : i.toNat = (w.sess g).nextId ∧ ((w.sess g).state i).registered = false ∧
    i ∉ openedIds (w.sess g).tx.log
  opened : ∀ g', openedIds (v.sess g').tx.log =
    openedIds (w.sess g').tx.log ++ if g' = g then [i] else []
  sends : ∃ bs cs x y, a :: as = bs ++ .forward :: cs ∧
    Machine.run (step digest lib) w bs = some x ∧ step digest lib x .forward = some y ∧
    ((x.sess g).state i).registered = true ∧
    (x.sess g).tx.reserved = (w.sess g).tx.reserved + 1 ∧
    (y.sess g).tx = (x.sess g).tx.sendPermit (.open i ((x.sess g).state i).request.head)
  released : ∀ g', (v.sess g').tx.reserved = (w.sess g').tx.reserved

/-- `Err`: no step of the call touched a queue, a stream or the registry; no OPEN was sent, no
stream registered, no slot is left reserved, and one id of one session may be gone. -/
structure Refuses (digest : Bytes → String) (lib : HttpLib) (w : World) (a : WorldAction)
    (as : List WorldAction) (v : World) : Prop where
  quiet : ∀ bs c cs x y, a :: as = bs ++ c :: cs → c.forwards = true →
    Machine.run (step digest lib) w bs = some x → step digest lib x c = some y → Quiet x y
  opened : ∀ g, openedIds (v.sess g).tx.log = openedIds (w.sess g).tx.log
  registered : ∀ g j, ((v.sess g).state j).registered = ((w.sess g).state j).registered
  streams : ∀ g, (v.sess g).streams ⊆ (w.sess g).streams
  released : ∀ g, (v.sess g).tx.reserved = (w.sess g).tx.reserved
  burned : ∃ g, (∀ g', g' ≠ g → (v.sess g').nextId = (w.sess g').nextId) ∧
    ((v.sess g).nextId = (w.sess g).nextId ∨ (v.sess g).nextId = (w.sess g).nextId + 1)

theorem Answers.admits {g : Nat} {i : UInt16} (hc : Answers digest lib w a as (.ok (g, i)) v)
    (h : Reachable digest lib w) (ha : a.begins = true) : Admits digest lib w a as g i v := by
  obtain ⟨hkept, hent⟩ := hc.settled h ha
  have hid := (h.session g).idInv
  have hnew : ((w.sess g).state i).registered = false := by
    rw [Bool.eq_false_iff]
    intro hr
    exact absurd hent.id (hid.registered i hr).2.ne
  have hunopened : i ∉ openedIds (w.sess g).tx.log := by
    intro hi
    rw [hid.opened i hi] at hnew
    cases hnew
  refine ⟨⟨hent.id, hnew, hunopened⟩, fun g' => ?_, hc.sends h ha hunopened, fun g' => ?_⟩
  · by_cases hg : g' = g
    · subst hg
      rw [if_pos rfl]
      exact hent.opened
    · rw [if_neg hg, List.append_nil]
      exact (hkept g' hg).opened
  · by_cases hg : g' = g
    · subst hg
      exact hent.reserved
    · exact (hkept g' hg).reserved

theorem Answers.refuses {e : ForwardError} (hc : Answers digest lib w a as (.error e) v)
    (h : Reachable digest lib w) (ha : a.begins = true) : Refuses digest lib w a as v := by
  obtain ⟨k, hkept, hk⟩ := hc.settled h ha
  have hall : ∀ g, ∃ n, Booked (w.sess g) (v.sess g) 0 n := by
    intro g
    by_cases hg : g = k
    · subst hg
      exact hk.elim (fun hb => ⟨0, hb⟩) fun hb => ⟨1, hb⟩
    · exact ⟨0, (hkept g hg).toBooked⟩
  refine ⟨?_, fun g => (hall g).choose_spec.opened, fun g => (hall g).choose_spec.registered,
    fun g => (hall g).choose_spec.streams, fun g => (hall g).choose_spec.reserved,
    k, fun g hg => (hkept g hg).nextId, hk.imp (fun hb => hb.nextId) fun hb => hb.nextId⟩
  intro bs c cs x y he hcf hx hy
  cases bs with
  | nil =>
    obtain ⟨rfl, _⟩ := List.cons.inj he
    obtain rfl := Option.some.inj hx
    exact quiet_start ha hy
  | cons b bs =>
    obtain ⟨rfl, _⟩ := List.cons.inj he
    have hf := forwarding_run h ha hx (hc.first (a :: bs) c cs x he hx)
    have hxr : Reachable digest lib x := h.run hx
    by_cases hfw : c = .forward
    · subst hfw
      have hyrun : Machine.run (World.step digest lib) w (a :: bs ++ [.forward]) = some y :=
        Machine.run_append_some.mpr ⟨x, hx, Machine.run_cons_some.mpr ⟨y, hy, rfl⟩⟩
      have hey : a :: as = (a :: bs ++ [.forward]) ++ cs := by
        rw [he, List.append_assoc]
        rfl
      exact quiet_forward hy (hc.not_entering h ha he hx) (hc.not_entering h ha hey hyrun)
    · rw [(hf.other hxr hy hfw).2.2] at hcf
      cases hcf

end

end World

/-- **Admission is all or nothing.** Whatever the sessions do while `forward_any` or `forward` runs:
`Ok` means one OPEN for a registered id, `Err` nothing but a burned id; and once `forward_any` has
its slot, only the end of the session refuses the request. -/
theorem admission_all_or_nothing {digest : Bytes → String} {lib : HttpLib} {w v : World}
    {a : WorldAction} {as : List WorldAction} {r : Except ForwardError (Nat × UInt16)}
    (h : World.Reachable digest lib w) (ha : a.begins = true)
    (hc : World.Answers digest lib w a as r v) :
    match r with
    | .ok (g, i) => World.Admits digest lib w a as g i v
    | .error e => World.Refuses digest lib w a as v ∧ (a.chooses = true →
        ∀ bs cs x g, a :: as = bs ++ cs → Machine.run (World.step digest lib) w bs = some x →
          (w.sess g).tx.reserved < (x.sess g).tx.reserved → e = .tetherGone) := by
  cases r with
  | ok p =>
    obtain ⟨g, i⟩ := p
    exact hc.admits h ha
  | error e =>
    refine ⟨hc.refuses h ha, fun hany bs cs x g he hx hg => ?_⟩
    exact hc.gone h ha hany he hx hg

/-- a tether registers and attaches -/
def attachRun : List WorldAction :=
  [.register "a" "rental" (ascii "first"), .close [], .attach "a" (ascii "first"), .close []]

/-- a forward takes its id; then the session falls silent and its teardown drains the map, so the
admission is refused -/
def silentRun : List WorldAction :=
  [.forward, .session 1 (.exit .silent), .session 1 (.teardown []), .forward]

theorem silentRun_results : ((Machine.run (World.step twoDigests okLib) freshHub attachRun).bind
    fun w => (Machine.run (World.step twoDigests okLib) w
      (.forwardTo "a" ⟨[], [], true⟩ :: silentRun)).bind fun u =>
        (World.step twoDigests okLib u .forward).map fun v =>
          decide (w.results = [] ∧ u.results = [] ∧ v.results = [.error .tetherGone]))
      = some true := by
  decide

theorem admission_all_or_nothing_gone : ∃ w v : World, World.Reachable twoDigests okLib w ∧
    v.results = w.results ++ [.error .tetherGone] ∧
    World.Refuses twoDigests okLib w (.forwardTo "a" ⟨[], [], true⟩) (silentRun ++ [.forward])
      v := by
  obtain ⟨w, hw, h⟩ := Option.bind_eq_some_iff.mp silentRun_results
  obtain ⟨u, hu, h⟩ := Option.bind_eq_some_iff.mp h
  obtain ⟨v, hv, h⟩ := Option.map_eq_some_iff.mp h
  obtain ⟨hwr, hur, hvr⟩ := of_decide_eq_true h
  have hr : World.Reachable twoDigests okLib w := (Machine.Reachable.init ⟨_, _, rfl⟩).run hw
  have hresult : v.results = w.results ++ [.error .tetherGone] := by
    rw [hwr, hvr]
    rfl
  have hc : World.Answers twoDigests okLib w (.forwardTo "a" ⟨[], [], true⟩)
      (silentRun ++ [.forward]) (.error .tetherGone) v :=
    World.answers_of_last rfl hu hv (hur.trans hwr.symm) hresult
  exact ⟨w, v, hr, hresult, (admission_all_or_nothing hr rfl hc).1⟩

end AnvilRing
