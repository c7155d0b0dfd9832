import AnvilRing.Hub.World
import AnvilRing.Hub.Response

/-!
# Control operations over whole runs of the hub

* `World.Inv`                 the registry and the sessions that it displaced;
* `registry_invariant`        the maps agree, and what was displaced is closed and cancelled;
* `no_open_after_displaced`   an OPEN goes to a session that is selected and not displaced, and
                              a closed session strands no caller.
-/

namespace AnvilRing
open Wire

namespace Session
variable {lib : HttpLib} {s t : Session} {a : SessionAction}

/-- who a session belongs to never changes, and a cancelled session stays cancelled -/
theorem Move.identity (hm : Move lib s a t) :
    t.tetherId = s.tetherId ∧ t.credential = s.credential ∧ (s.abort = true → t.abort = true) := by
  cases hm with
  | cancel | uploadAbort | guardAbort => exact ⟨rfl, rfl, fun _ => rfl⟩
  | _ => exact ⟨rfl, rfl, fun hx => hx⟩

theorem step_identity (h : step lib s a = some t) :
    t.tetherId = s.tetherId ∧ t.credential = s.credential := by
  obtain ⟨h1, h2, _⟩ := (move_of_step h).identity
  exact ⟨h1, h2⟩

/-- closed and cancelled stay -/
theorem step_ended (hr : Reachable lib s) (h : step lib s a = some t)
    (hs : s.closed = true ∧ s.abort = true) : t.closed = true ∧ t.abort = true :=
  ⟨((move_of_step h).closed hs.1 (hr.closingInv.empty hs.1)).1,
    (move_of_step h).identity.2.2 hs.2⟩

end Session

namespace World
variable {digest : Bytes → String} {lib : HttpLib} {w v : World} {a : WorldAction}

/-- the tether that generation `g` belongs to -/
def owner (w : World) (g : Nat) : String := (w.sess g).tetherId

/-- the digest of the credential that generation `g` attached with -/
def hash (digest : Bytes → String) (w : World) (g : Nat) : String := digest (w.sess g).credential

/-- the session of tether `id` was chosen at time `at`, and nothing has displaced it since -/
structure Chosen (w : World) (id : String) (g «at» : Nat) : Prop where
  before : «at» ≤ w.now
  active : w.reg.isActive «at» id = true
  owned : w.owner g = id
  bound : 0 < g ∧ g < w.reg.nextGeneration
  current : g ∉ w.displaced

structure Inv (digest : Bytes → String) (w : World) : Prop where
  registry : w.reg.Inv w.owner (w.hash digest)
  bound : ∀ g ∈ w.displaced, 0 < g ∧ g < w.reg.nextGeneration
  current : ∀ id g, w.reg.live.get id = some g → g ∉ w.displaced
  pending : ∀ g ∈ w.lock.pending, g ∈ w.displaced
  ended : ∀ g ∈ w.displaced, g ∉ w.lock.pending →
    (w.sess g).closed = true ∧ (w.sess g).abort = true
  selecting : ∀ req cs busy «at», w.lock = .selecting req cs busy «at» →
    ∀ c ∈ cs, Chosen w c.2.1 c.2.2 «at»
  forwarding : ∀ id g «at», w.lock = .forwarding id g «at» → Chosen w id g «at»

theorem Chosen.mono {id : String} {g «at» : Nat} (h : Chosen w id g «at») (hn : w.now ≤ v.now)
    (hb : v.reg.byId = w.reg.byId) (hg : v.reg.nextGeneration = w.reg.nextGeneration)
    (ho : v.owner = w.owner) (hd : v.displaced = w.displaced) : Chosen v id g «at» where
  before := h.before.trans hn
  active := by
    unfold Registry.isActive
    rw [hb]
    exact h.active
  owned := ho ▸ h.owned
  bound := hg ▸ h.bound
  current := hd ▸ h.current

/-- a session step changes no owner and no credential -/
theorem identity_setSession (digest : Bytes → String) {g : Nat} {s : Session} {b : SessionAction}
    (hs : Session.step lib (w.sess g) b = some s) :
    (w.setSession g s).owner = w.owner ∧ (w.setSession g s).hash digest = w.hash digest := by
  have hid := Session.step_identity hs
  have hboth : ∀ g', ((w.setSession g s).sess g').tetherId = (w.sess g').tetherId ∧
      ((w.setSession g s).sess g').credential = (w.sess g').credential :=
    forall_setSession (w := w) (P := fun k t =>
      t.tetherId = (w.sess k).tetherId ∧ t.credential = (w.sess k).credential)
      (fun _ => ⟨rfl, rfl⟩) hid
  refine ⟨funext fun g' => (hboth g').1, funext fun g' => ?_⟩
  show digest _ = digest _
  rw [(hboth g').2]

/-- a step that is no control operation: the maps of identities and the displaced sessions stay -/
theorem Inv.frame (h : w.Inv digest) (hreg : v.reg.Inv v.owner (v.hash digest))
    (ho : v.owner = w.owner) (hn : w.now ≤ v.now) (hb : v.reg.byId = w.reg.byId)
    (hg : v.reg.nextGeneration = w.reg.nextGeneration)
    (hl : ∀ id g, v.reg.live.get id = some g → w.reg.live.get id = some g)
    (hd : v.displaced = w.displaced)
    (hp : ∀ g ∈ v.lock.pending, g ∈ w.lock.pending)
    (he : ∀ g ∈ w.displaced, g ∉ v.lock.pending →
      (v.sess g).closed = true ∧ (v.sess g).abort = true)
    (hs : ∀ req cs busy «at», v.lock = .selecting req cs busy «at» →
      ∀ c ∈ cs, Chosen w c.2.1 c.2.2 «at»)
    (hf : ∀ id g «at», v.lock = .forwarding id g «at» → Chosen w id g «at») : v.Inv digest where
  registry := hreg
  bound := by
    rw [hd, hg]
    exact h.bound
  current id g hx := by
    rw [hd]
    exact h.current id g (hl id g hx)
  pending g hx := by
    rw [hd]
    exact h.pending g (hp g hx)
  ended := by
    rw [hd]
    exact he
  selecting req cs busy «at» hx c hc := (hs req cs busy «at» hx c hc).mono hn hb hg ho hd
  forwarding id g «at» hx := (hf id g «at» hx).mono hn hb hg ho hd

/-- a control operation: what it displaced is on the list of sessions to close -/
theorem Inv.controlled (h : w.Inv digest) {reg : Registry} {gens : List Nat}
    (hlock : w.lock = .free) (hreg : reg.Inv w.owner (w.hash digest))
    (hn : reg.nextGeneration = w.reg.nextGeneration)
    (hl : ∀ id g, reg.live.get id = some g → w.reg.live.get id = some g)
    (hd : Registry.Displaces w.reg reg gens) : (w.controlled reg gens).Inv digest where
  registry := hreg
  bound g hg := by
    show 0 < g ∧ g < reg.nextGeneration
    rw [hn]
    rcases List.mem_append.mp hg with hg | hg
    · exact h.bound g hg
    · obtain ⟨id, hid, _⟩ := hd.gone g hg
      exact h.registry.bound id g hid
  current id g hx hg := by
    rcases List.mem_append.mp hg with hg | hg
    · exact h.current id g (hl id g hx) hg
    · -- a displaced session was live under its own tether only
      obtain ⟨id', hid', hne⟩ := hd.gone g hg
      have h1 := h.registry.owned id' g hid'
      have h2 := h.registry.owned id g (hl id g hx)
      exact hne (h1.symm.trans h2 ▸ hx)
  pending g hg := List.mem_append_right _ hg
  ended g hg hp := by
    rcases List.mem_append.mp hg with hg | hg
    · refine h.ended g hg ?_
      rw [hlock]
      exact List.not_mem_nil
    · exact absurd hg hp
  selecting := nofun
  forwarding := nofun

theorem Inv.attach (h : w.Inv digest) {id : String} {credential : Bytes} {g : Nat}
    {reg : Registry} {gens : List Nat} (hlock : w.lock = .free)
    (ha : w.reg.attach digest w.now id credential = some (g, reg, gens)) :
    ((w.setSession g (Session.new id credential w.now)).controlled reg gens).Inv digest := by
  have hspec := Registry.attach_some ha
  obtain ⟨rfl, rfl, rfl, -⟩ := hspec
  have hne : ∀ g' < w.reg.nextGeneration, (w.setSession w.reg.nextGeneration
      (Session.new id credential w.now)).sess g' = w.sess g' :=
    fun g' hg' => setSession_of_ne w _ hg'.ne
  have hself : (w.setSession w.reg.nextGeneration
      (Session.new id credential w.now)).sess w.reg.nextGeneration =
      Session.new id credential w.now := setSession_self w _ _
  constructor
  · refine h.registry.attach ha ?_ ?_
    · intro g' hg'
      constructor
      · show ((w.setSession _ _).sess g').tetherId = _
        rw [hne g' hg']
        rfl
      · show digest ((w.setSession _ _).sess g').credential = _
        rw [hne g' hg']
        rfl
    · constructor
      · show ((w.setSession _ _).sess _).tetherId = _
        rw [hself]
        rfl
      · show digest ((w.setSession _ _).sess _).credential = _
        rw [hself]
        rfl
  · intro g' hg'
    show 0 < g' ∧ g' < w.reg.nextGeneration + 1
    rcases List.mem_append.mp hg' with hg' | hg'
    · exact ⟨(h.bound g' hg').1, Nat.lt_succ_of_lt (h.bound g' hg').2⟩
    · have := h.registry.bound id g' (Option.mem_toList.mp hg')
      exact ⟨this.1, Nat.lt_succ_of_lt this.2⟩
  · intro k g' hx hg'
    change (w.reg.live.insert id w.reg.nextGeneration).get k = some g' at hx
    rw [KeyMap.get_insert] at hx
    split at hx
    · -- the new session: its generation is above every displaced one
      obtain rfl := Option.some.inj hx
      rcases List.mem_append.mp hg' with hg' | hg'
      · exact absurd (h.bound _ hg').2 (lt_irrefl _)
      · exact absurd (h.registry.bound id _ (Option.mem_toList.mp hg')).2 (lt_irrefl _)
    · next hk =>
      rcases List.mem_append.mp hg' with hg' | hg'
      · exact h.current k g' hx hg'
      · have h1 := h.registry.owned id g' (Option.mem_toList.mp hg')
        have h2 := h.registry.owned k g' hx
        exact hk (h2.symm.trans h1)
  · exact fun g' hg' => List.mem_append_right _ hg'
  · intro g' hg' hp
    rcases List.mem_append.mp hg' with hg' | hg'
    · show ((w.setSession _ _).sess g').closed = true ∧ ((w.setSession _ _).sess g').abort = true
      rw [hne g' (h.bound g' hg').2]
      refine h.ended g' hg' ?_
      rw [hlock]
      exact List.not_mem_nil
    · exact absurd hg' hp
  · intro _ _ _ _ hx
    cases hx
  · intro _ _ _ hx
    cases hx

/-- `reserve_route` looks at live sessions with an active registration only -/
theorem Inv.route (h : w.Inv digest) {c : Nat × String × Nat} (hc : c ∈ w.reserveRoute) :
    Chosen w c.2.1 c.2.2 w.now := by
  unfold reserveRoute at hc
  rw [List.mem_mergeSort, List.mem_map] at hc
  obtain ⟨⟨id, g⟩, he, rfl⟩ := hc
  obtain ⟨hm, hel⟩ := List.mem_filter.mp he
  have hlive : w.reg.live.get id = some g := KeyMap.mem_toList.mp hm
  unfold eligible at hel
  simp only [Bool.and_eq_true] at hel
  exact {
    before := le_rfl
    active := hel.1.1.1
    owned := h.registry.owned id g hlive
    bound := h.registry.bound id g hlive
    current := h.current id g hlive }

theorem ended_setSession {g g' : Nat} {s : Session} {b : SessionAction}
    (hr : Reachable digest lib w) (hs : Session.step lib (w.sess g) b = some s)
    (he : (w.sess g').closed = true ∧ (w.sess g').abort = true) :
    ((w.setSession g s).sess g').closed = true ∧ ((w.setSession g s).sess g').abort = true :=
  forall_setSession (w := w) (P := fun k t =>
    (w.sess k).closed = true ∧ (w.sess k).abort = true → t.closed = true ∧ t.abort = true)
    (fun _ hk => hk) (fun hk => Session.step_ended (hr.session g) hs hk) g' he

/-- one session moves, and the lock with it -/
theorem Inv.setSession (h : w.Inv digest) (hr : Reachable digest lib w) {g : Nat} {s : Session}
    {b : SessionAction} {lock : RoutingPc} {results : List (Except ForwardError (Nat × UInt16))}
    (hs : Session.step lib (w.sess g) b = some s) (hp : ∀ g ∈ lock.pending, g ∈ w.lock.pending)
    (hn : ∀ g' ∈ w.lock.pending, g' ∉ lock.pending →
      ((w.setSession g s).sess g').closed = true ∧ ((w.setSession g s).sess g').abort = true)
    (hsel : ∀ req cs busy «at», lock = .selecting req cs busy «at» →
      ∀ c ∈ cs, Chosen w c.2.1 c.2.2 «at»)
    (hf : ∀ id g «at», lock = .forwarding id g «at» → Chosen w id g «at») :
    Inv digest { w.setSession g s with lock := lock, results := results } := by
  obtain ⟨ho, hh⟩ := identity_setSession digest hs
  refine h.frame ?_ ho le_rfl rfl rfl (fun _ _ hx => hx) rfl hp ?_ hsel hf
  · show w.reg.Inv (w.setSession g s).owner ((w.setSession g s).hash digest)
    rw [ho, hh]
    exact h.registry
  · intro g' hg' hnp
    by_cases hw : g' ∈ w.lock.pending
    · exact hn g' hw hnp
    · exact ended_setSession hr hs (h.ended g' hg' hw)

/-- the lock moves alone -/
theorem Inv.setLock (h : w.Inv digest) {lock : RoutingPc}
    {results : List (Except ForwardError (Nat × UInt16))} (hp : lock.pending = w.lock.pending)
    (hsel : ∀ req cs busy «at», lock = .selecting req cs busy «at» →
      ∀ c ∈ cs, Chosen w c.2.1 c.2.2 «at»)
    (hf : ∀ id g «at», lock = .forwarding id g «at» → Chosen w id g «at») :
    Inv digest { w with lock := lock, results := results } :=
  h.frame h.registry rfl le_rfl rfl rfl (fun _ _ hx => hx) rfl (fun _ hg => hp ▸ hg)
    (fun g hg hn => h.ended g hg (hp ▸ hn)) hsel hf

/-- raising the flag is the last step of closing a displaced session -/
theorem closed_registryStep {s t : Session} {order drained : List UInt16}
    (hr : Session.Reachable lib s) (hc : s.registryClose = .returned drained)
    (hs : s.registryStep order = some t) : t.closed = true ∧ t.abort = true := by
  have hclosed : s.closed = true := hr.closingInv.registry.closed (by rw [hc]; exact nofun)
  unfold Session.registryStep at hs
  rw [hc] at hs
  obtain rfl := Option.some.inj hs
  exact ⟨hclosed, rfl⟩

theorem Inv.move (h : w.Inv digest) (hr : Reachable digest lib w) (hm : Move digest lib w a v) :
    v.Inv digest := by
  cases hm with
  | register hl =>
    exact h.controlled hl (h.registry.register ..) rfl (fun _ _ hg => (Registry.live_register hg).2)
      (Registry.displaces_register ..)
  | replaceRecords hl ho =>
    exact h.controlled hl (h.registry.replaceRecords _ _ ho) rfl
      (fun _ _ hg => (Registry.live_replaceRecords hg).1) (Registry.displaces_replaceRecords ..)
  | revoke hl =>
    exact h.controlled hl (h.registry.revoke _) rfl (fun _ _ hg => (Registry.live_revoke hg).2)
      (Registry.displaces_revoke ..)
  | refuse => exact h
  | attach hl ha => exact h.attach hl ha
  | route hl =>
    refine h.setLock (by rw [hl]; rfl) ?_ nofun
    intro _ _ _ _ hx c hc
    cases hx
    exact h.route hc
  | skip hl =>
    refine h.setLock (by rw [hl]; rfl) ?_ nofun
    rintro _ _ _ _ ⟨⟩ c hc
    exact h.selecting _ _ _ _ hl c (List.mem_cons_of_mem _ hc)
  | @select req count g id rest busy t s hl hs =>
    refine h.setSession hr (b := .reserve req) hs nofun ?_ nofun ?_
    · rw [hl]
      exact nofun
    · rintro _ _ _ ⟨⟩
      exact h.selecting _ _ _ _ hl _ List.mem_cons_self
  | @selectTo req g id s hl hg ha hs =>
    refine h.setSession hr (b := .reserve req) hs nofun ?_ nofun ?_
    · rw [hl]
      exact nofun
    · rintro _ _ _ ⟨⟩
      exact {
        before := le_rfl
        active := ha
        owned := h.registry.owned id g hg
        bound := h.registry.bound id g hg
        current := h.current id g hg }
  | refuseTo hl => exact h.setLock (by rw [hl]) nofun nofun
  | noRoute hl => exact h.setLock (by rw [hl]; rfl) nofun nofun
  | forward hl hs =>
    refine h.setSession hr (b := .forward) hs (fun _ hx => hx) (fun _ hx hn => absurd hx hn) ?_ ?_
    · exact h.selecting
    · exact h.forwarding
  | forwarded hl hret hs =>
    refine h.setSession hr (b := .forward) hs nofun ?_ nofun nofun
    rw [hl]
    exact nofun
  | @closing order g rest s hl hs =>
    exact h.setSession hr (b := .registryClose order) hs (fun _ hx => hx)
      (fun _ hx hn => absurd hx hn) h.selecting h.forwarding
  | @closed order drained g rest s hl hret hs =>
    refine h.setSession hr (b := .registryClose order) hs ?_ ?_ nofun nofun
    · intro g' hg'
      rw [hl]
      exact List.mem_cons_of_mem _ hg'
    · intro g' hg' hn
      rw [hl] at hg'
      rcases List.mem_cons.mp hg' with rfl | hg'
      · rw [setSession_self]
        exact closed_registryStep (hr.session g') hret hs
      · exact absurd hg' hn
  | release hl => exact h.setLock (by rw [hl]; rfl) nofun nofun
  | @session g b s h0 hg ho hs =>
    obtain ⟨hown, hhash⟩ := identity_setSession digest hs
    have hreg : w.reg.Inv (w.setSession g s).owner ((w.setSession g s).hash digest) := by
      rw [hown, hhash]
      exact h.registry
    have hended : ∀ g' ∈ w.displaced, g' ∉ w.lock.pending →
        ((w.setSession g s).sess g').closed = true ∧ ((w.setSession g s).sess g').abort = true :=
      fun g' hg' hn => ended_setSession hr hs (h.ended g' hg' hn)
    by_cases hd : (w.sess g).loop = .closed ∧ s.loop = .finished
    · rw [if_pos hd]
      refine h.frame (hreg.detach _ _) hown le_rfl ?_ (nextGeneration_detach ..)
        (fun _ _ => Registry.live_detach) rfl (fun _ hx => hx) hended h.selecting h.forwarding
      show (w.reg.detach _ _).byId = w.reg.byId
      rw [Registry.detach_eq]
    · rw [if_neg hd]
      exact h.frame hreg hown le_rfl rfl rfl (fun _ _ hx => hx) rfl (fun _ hx => hx) hended
        h.selecting h.forwarding
  | tick hn =>
    exact h.frame h.registry rfl hn rfl rfl (fun _ _ hx => hx) rfl (fun _ hx => hx) h.ended
      h.selecting h.forwarding

theorem inv_initial (digest : Bytes → String) (lease now : Nat) :
    Inv digest { reg := .new lease, sess := fun _ => Session.new "" [] now, now := now } where
  registry := Registry.inv_new ..
  bound _ hg := nomatch hg
  current _ _ hg := nomatch hg
  pending _ hg := nomatch hg
  ended _ hg := nomatch hg
  selecting := nofun
  forwarding := nofun

theorem Reachable.inv (h : Reachable digest lib w) : w.Inv digest :=
  h.move (inv_initial digest) fun _ _ _ hr hw hm => hw.move hr hm

/-! ## what leaves the map of live sessions -/

/-- a session that left `live` was displaced by a control operation, or it detached itself -/
theorem Move.displaced (hm : Move digest lib w a v) {id : String} {g : Nat}
    (hg : w.reg.live.get id = some g) (hv : v.reg.live.get id ≠ some g) :
    g ∈ v.displaced ∨ ∃ b, a = .session g b := by
  cases hm with
  | register =>
    exact .inl (List.mem_append_right _
      (((Registry.displaces_register ..).kept id g hg).resolve_left hv))
  | replaceRecords =>
    exact .inl (List.mem_append_right _
      (((Registry.displaces_replaceRecords ..).kept id g hg).resolve_left hv))
  | revoke =>
    exact .inl (List.mem_append_right _
      (((Registry.displaces_revoke ..).kept id g hg).resolve_left hv))
  | @attach id' credential g' reg gens hl ha =>
    obtain ⟨rfl, rfl, rfl, -⟩ := Registry.attach_some ha
    left
    refine List.mem_append_right _ ?_
    change (w.reg.live.insert id' w.reg.nextGeneration).get id ≠ some g at hv
    rw [KeyMap.get_insert] at hv
    split at hv
    · next hid =>
      rw [← hid, hg]
      exact List.mem_singleton_self g
    · exact absurd hg hv
  | @session g' b s h0 hg' ho hs =>
    change (if _ then _ else _ : Registry).live.get id ≠ some g at hv
    split at hv
    · unfold Registry.detach at hv
      split at hv
      · next hown =>
        change (w.reg.live.remove _).get id ≠ some g at hv
        rw [KeyMap.get_remove] at hv
        split at hv
        · next hid =>
          rw [hid, hown] at hg
          obtain rfl := Option.some.inj hg
          exact .inr ⟨b, rfl⟩
        · exact absurd hg hv
      · exact absurd hg hv
    · exact absurd hg hv
  | _ => exact absurd hg hv

/-- a snapshot that repeats the record of a live session leaves the session alone -/
theorem replaceRecords_unchanged (hv : v.Inv digest) {records : List Record} {order : List Tether}
    (hs : step digest lib w (.replaceRecords records order) = some v) {id : String} {g : Nat}
    {t n : Tether} (hg : w.reg.live.get id = some g) (ht : w.reg.byId.get id = some t)
    (hn : (Registry.replacement records).get id = some n)
    (hrem : (n.remaining w.now).isSome = true) (hh : n.credentialHash = t.credentialHash)
    (he : n.expiresAt = t.expiresAt) :
    v.reg.live.get id = some g ∧ v.sess = w.sess ∧ g ∉ v.displaced := by
  have hm := move_of_step hs
  cases hm with
  | replaceRecords hl ho =>
    have hlive : (w.reg.replaceRecords w.now records order).1.live.get id = some g := by
      show (w.reg.live.retain _).get id = some g
      rw [KeyMap.get_retain]
      exact Option.filter_eq_some_iff.mpr
        ⟨hg, Registry.unchanged_iff.mpr ⟨n, t, hn, ht, hrem, hh, he⟩⟩
    exact ⟨hlive, rfl, hv.current id g hlive⟩

/-- a displaced session that detaches takes nobody out of the map -/
theorem detach_displaced (h : w.Inv digest) {g : Nat} {b : SessionAction}
    (hs : step digest lib w (.session g b) = some v) (hd : g ∈ w.displaced) :
    v.reg.live = w.reg.live := by
  have hm := move_of_step hs
  cases hm with
  | session h0 hg ho hs =>
    show (if _ then _ else _ : Registry).live = _
    split
    · unfold Registry.detach
      rw [if_neg fun hlive => h.current _ _ hlive hd]
    · rfl

end World

/-! ## the registry over whole runs -/

/-- **The registry invariant.**  In every state that a run of the hub reaches: `by_credential`
points to a record with that digest; a live session is the newest of its tether, and its record is
active with the digest that it attached with; a displaced session is closed and cancelled once the
operation that displaced it has finished with it.  A step takes a session out of `live` only by
displacing it or by its own detach; a snapshot that repeats an active and unexpired record leaves
its session alone; the detach of a displaced session leaves `live` alone. -/
theorem registry_invariant {digest : Bytes → String} {lib : HttpLib} {w : World}
    (h : World.Reachable digest lib w) :
    (∀ hash id, w.reg.byCredential.get hash = some id →
      ∃ t, w.reg.byId.get id = some t ∧ t.credentialHash = hash) ∧
    (∀ id g, w.reg.live.get id = some g →
      (∃ t, w.reg.byId.get id = some t ∧ t.active = true ∧
        t.credentialHash = digest (w.sess g).credential) ∧
      (w.sess g).tetherId = id ∧
      ∀ g', 0 < g' → g' < w.reg.nextGeneration → (w.sess g').tetherId = id → g' ≤ g) ∧
    (∀ g ∈ w.displaced, g ∉ w.lock.pending →
      (w.sess g).closed = true ∧ (w.sess g).abort = true) ∧
    ∀ a v, World.step digest lib w a = some v →
      (∀ id g, w.reg.live.get id = some g → v.reg.live.get id ≠ some g →
        g ∈ v.displaced ∨ ∃ b, a = .session g b) ∧
      (∀ records order, a = .replaceRecords records order → ∀ id g t n,
        w.reg.live.get id = some g → w.reg.byId.get id = some t →
        (Registry.replacement records).get id = some n → (n.remaining w.now).isSome = true →
        n.credentialHash = t.credentialHash → n.expiresAt = t.expiresAt →
        v.reg.live.get id = some g ∧ v.sess g = w.sess g ∧ g ∉ v.displaced) ∧
      ∀ g b, a = .session g b → g ∈ w.displaced → v.reg.live = w.reg.live := by
  have hi := h.inv
  refine ⟨hi.registry.credential, ?_, hi.ended, ?_⟩
  · intro id g hg
    exact ⟨hi.registry.record id g hg, hi.registry.owned id g hg, hi.registry.latest id g hg⟩
  · intro a v hstep
    have hr : World.Reachable digest lib v := h.step hstep
    have hv := hr.inv
    refine ⟨fun id g => (World.move_of_step hstep).displaced, ?_, ?_⟩
    · rintro records order rfl id g t n hg ht hn hrem hh he
      obtain ⟨h1, h2, h3⟩ := World.replaceRecords_unchanged hv hstep hg ht hn hrem hh he
      exact ⟨h1, congrFun h2 g, h3⟩
    · rintro g b rfl hd
      exact World.detach_displaced hi hstep hd

/-- the digests of two credentials; no other credential occurs in the runs below -/
def twoDigests (credential : Bytes) : String :=
  if credential = ascii "first" then
    "a7937b64b8caa58f03721bb6bacf5c78cb235febe0e70b1b84cd99541461a08e"
  else if credential = ascii "shared" then
    "a4d26868017c0ccffe2efe50944ef4211834660cca834c6e9f86dec6a88246fa"
  else ""

/-- a hub that has just started, with a lease of 15 minutes -/
def freshHub : World :=
  { reg := .new (900 * nanosPerSec), sess := fun _ => Session.new "" [] 0, now := 0 }

/-- a tether registers, attaches and is revoked -/
def revokeRun : List WorldAction :=
  [.register "a" "rental" (ascii "first"), .close [], .attach "a" (ascii "first"), .close [],
    .revoke "a", .close [], .close [], .close [], .close []]

theorem revokeRun_isSome :
    (Machine.run (World.step twoDigests okLib) freshHub revokeRun).isSome = true := by
  decide

theorem reachable_revokeRun :
    World.Reachable twoDigests okLib (Option.get _ revokeRun_isSome) :=
  (Machine.Reachable.init ⟨_, _, rfl⟩).run (Option.some_get revokeRun_isSome).symm

theorem registry_invariant_revoked : ∃ w, World.Reachable twoDigests okLib w ∧
    w.displaced = [1] ∧ (w.sess 1).closed = true ∧ (w.sess 1).abort = true :=
  ⟨_, reachable_revokeRun, by decide +kernel,
    (registry_invariant reachable_revokeRun).2.2.1 1 (by decide +kernel) (by decide +kernel)⟩

/-! ## no OPEN without authority, no stranded caller -/

/-- a `close` of the session has returned -/
def Session.CloseReturned (s : Session) : Prop :=
  ∃ drained, s.registryClose = .returned drained ∨ s.ownClose = .returned drained

namespace World
variable {digest : Bytes → String} {lib : HttpLib} {w v : World} {a : WorldAction}

/-- an OPEN goes into a command queue only from the forward that holds the routing lock -/
theorem Move.opened (hr : Reachable digest lib w) (hm : Move digest lib w a v) {g : Nat}
    (hg : g < w.reg.nextGeneration)
    (ho : openedIds (v.sess g).tx.log ≠ openedIds (w.sess g).tx.log) :
    ∃ id «at», w.lock = .forwarding id g «at» := by
  have hset : ∀ {g' : Nat} {s : Session} {b : SessionAction},
      Session.step lib (w.sess g') b = some s → b ≠ .forward →
      openedIds ((w.setSession g' s).sess g).tx.log = openedIds (w.sess g).tx.log := by
    intro g' s b hs hb
    have hmoved := (Session.move_of_step hs).opened (hr.session g').sends hb
    exact forall_setSession (w := w)
      (P := fun k t => openedIds t.tx.log = openedIds (w.sess k).tx.log) (fun _ => rfl) hmoved g
  have hfw : ∀ {id : String} {g' t : Nat} {s : Session}, w.lock = .forwarding id g' t →
      openedIds ((w.setSession g' s).sess g).tx.log ≠ openedIds (w.sess g).tx.log →
      ∃ id «at», w.lock = .forwarding id g «at» := by
    intro id g' t s hl hne
    by_cases hgg : g = g'
    · subst hgg
      exact ⟨id, t, hl⟩
    · rw [setSession_of_ne w s hgg] at hne
      exact absurd rfl hne
  cases hm with
  | @attach id credential g' reg gens hl ha =>
    obtain ⟨rfl, -⟩ := Registry.attach_some ha
    refine absurd ?_ ho
    show openedIds ((w.setSession _ _).sess g).tx.log = _
    rw [setSession_of_ne w _ hg.ne]
  | @select req count g' id rest busy t s hl hs =>
    exact absurd (hset (b := .reserve req) hs nofun) ho
  | @selectTo req g' id s hl hg' ha hs => exact absurd (hset (b := .reserve req) hs nofun) ho
  | forward hl hs => exact hfw hl ho
  | forwarded hl hret hs => exact hfw hl ho
  | @closing order g' rest s hl hs => exact absurd (hset (b := .registryClose order) hs nofun) ho
  | @closed order drained g' rest s hl hret hs =>
    exact absurd (hset (b := .registryClose order) hs nofun) ho
  | session h0 hg' hown hs =>
    refine absurd (hset hs ?_) ho
    rintro rfl
    cases hown
  | _ => exact absurd rfl ho

theorem Move.displaced_mono (hm : Move digest lib w a v) {g : Nat} (hg : g ∈ w.displaced) :
    g ∈ v.displaced := by
  cases hm with
  | register | replaceRecords | revoke | attach => exact List.mem_append_left _ hg
  | _ => exact hg

end World

/-- **No OPEN without authority, no stranded caller.**  (a) A step that puts an OPEN into the
command queue of a session is a step of the forward that selected the session while its
registration was active and unexpired, and nothing has displaced the session; once displaced, a
session is never sent an OPEN again.  (b) From the return of a `close` on, the stream map of the
session is empty and stays empty, every admission is refused with `TetherGone`, and every stream
that was registered when that `close` was called has a terminal outcome. -/
theorem no_open_after_displaced {digest : Bytes → String} {lib : HttpLib} {w : World}
    (h : World.Reachable digest lib w) :
    (∀ a v g, World.step digest lib w a = some v → g < w.reg.nextGeneration →
      openedIds (v.sess g).tx.log ≠ openedIds (w.sess g).tx.log →
      ∃ id «at» t, w.lock = .forwarding id g «at» ∧ «at» ≤ w.now ∧ (w.sess g).tetherId = id ∧
        w.reg.byId.get id = some t ∧ (t.remaining «at»).isSome = true ∧ g ∉ w.displaced) ∧
    (∀ g ∈ w.displaced, ∀ as v, Machine.run (World.step digest lib) w as = some v →
      openedIds (v.sess g).tx.log = openedIds (w.sess g).tx.log) ∧
    (∀ g, g < w.reg.nextGeneration → (w.sess g).CloseReturned →
      ∀ as v, Machine.run (World.step digest lib) w as = some v →
      (v.sess g).streams = ∅ ∧ ∀ req id t, (v.sess g).forward = .allocated req id →
        Session.step lib (v.sess g) .forward = some t →
        t.forward = .returned (.error .tetherGone) ∧ t.streams = ∅) ∧
    ∀ g, g < w.reg.nextGeneration →
      ∀ a u as v, World.step digest lib w a = some u →
      Machine.run (World.step digest lib) u as = some v →
      ((w.sess g).registryClose = .idle ∧ (u.sess g).registryClose ≠ .idle ∧
          (∃ d, (v.sess g).registryClose = .returned d) ∨
        (w.sess g).ownClose = .idle ∧ (u.sess g).ownClose ≠ .idle ∧
          ∃ d, (v.sess g).ownClose = .returned d) →
      ∀ i ∈ (w.sess g).streams, ((v.sess g).state i).outcome ≠ .pending := by
  refine ⟨?_, ?_, ?_, ?_⟩
  · intro a v g hstep hg ho
    obtain ⟨id, t, hl⟩ := (World.move_of_step hstep).opened h hg ho
    have hc := h.inv.forwarding id g t hl
    obtain ⟨r, hr, hrem⟩ := (Option.any_eq_true _ _).mp hc.active
    exact ⟨id, t, r, hl, hc.before, hc.owned, hr, hrem, hc.current⟩
  · intro g hg as v hrun
    have hinv : World.Reachable digest lib v ∧ g ∈ v.displaced ∧ g < v.reg.nextGeneration ∧
        openedIds (v.sess g).tx.log = openedIds (w.sess g).tx.log := by
      refine Machine.run_invariant (P := fun u => World.Reachable digest lib u ∧
        g ∈ u.displaced ∧ g < u.reg.nextGeneration ∧
        openedIds (u.sess g).tx.log = openedIds (w.sess g).tx.log) ?_
        ⟨h, hg, (h.inv.bound g hg).2, rfl⟩ hrun
      rintro u a u' ⟨hu, hd, hn, ho⟩ hstep
      have hm := World.move_of_step hstep
      refine ⟨hu.step hstep, hm.displaced_mono hd, hn.trans_le hm.nextGeneration, ?_⟩
      by_contra hne
      obtain ⟨id, t, hl⟩ := hm.opened hu hn (fun hx => hne (hx.trans ho))
      exact (hu.inv.forwarding id g t hl).current hd
    exact hinv.2.2.2
  · rintro g hg ⟨d, hd⟩ as v hrun
    have hclosed : (w.sess g).closed = true := by
      rcases hd with hd | hd
      · exact (h.session g).closingInv.registry.closed (by rw [hd]; exact nofun)
      · exact (h.session g).closingInv.own.closed (by rw [hd]; exact nofun)
    obtain ⟨bs, hbs⟩ := World.run_session hrun hg
    obtain ⟨_, he, hf⟩ := Session.close_final (h.session g) hclosed hbs
    refine ⟨he, fun req id t hal hstep => ?_⟩
    obtain ⟨h1, h2, _⟩ := hf req id t hal hstep
    exact ⟨h1, h2⟩
  · intro g hg a u as v hstep hrun hclose i hi
    have hm := World.move_of_step hstep
    obtain ⟨bs, hbs⟩ := World.run_session hrun (hg.trans_le hm.nextGeneration)
    rcases hm.session_step hg with he | ⟨b, hb⟩
    · rcases hclose with ⟨hidle, hne, _⟩ | ⟨hidle, hne, _⟩
      · exact absurd (he ▸ hidle) hne
      · exact absurd (he ▸ hidle) hne
    · obtain ⟨hreg, hown⟩ := Session.close_drained (h.session g) hb hbs
      rcases hclose with ⟨hidle, hne, d, hd⟩ | ⟨hidle, hne, d, hd⟩
      · exact hreg hidle hne d hd i hi
      · exact hown hidle hne d hd i hi

theorem no_open_after_displaced_revoked : ∃ w, World.Reachable twoDigests okLib w ∧
    1 ∈ w.displaced ∧ (w.sess 1).streams = ∅ ∧
    ∀ as v, Machine.run (World.step twoDigests okLib) w as = some v →
      openedIds (v.sess 1).tx.log = openedIds (w.sess 1).tx.log :=
  ⟨_, reachable_revokeRun, by decide +kernel, by decide +kernel,
    (no_open_after_displaced reachable_revokeRun).2.1 1 (by decide +kernel)⟩

end AnvilRing
