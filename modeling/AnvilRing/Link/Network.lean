import AnvilRing.Hub.World
import AnvilRing.Link.Wire

/-!
# The hub with all its tethers

Every session of a hub has a tether at the other end of its WebSocket: a tether that connects again
is another session, under the next generation.  The hub's tasks, the tethers and the deliveries of
every WebSocket interleave freely.

* `Network.step`             the machine;
* `Network.link`             one session, its tether, and the two directions between them;
* `Network.Reachable.link`   every link of a reachable network is a reachable link.
-/

namespace AnvilRing
open Wire

structure Network where
  hub : World
  /-- the tether at the other end of each generation -/
  tether : Nat → Tunnel := fun _ => .new
  /-- what the hub's writers have sent -/
  down : Nat → Chan Frame := fun _ => {}
  /-- what the tethers' writers have sent -/
  up : Nat → Chan Frame := fun _ => {}

inductive NetworkAction where
  /-- a step of the hub, its dealings with the tethers apart -/
  | hub (a : WorldAction)
  | hubWrite (g : Nat)
  | hubRecv (g now : Nat)
  /-- a step of a tether, its dealings with the hub apart -/
  | tether (g : Nat) (a : TunnelAction)
  | tetherWrite (g : Nat)
  | tetherRecv (g : Nat)

namespace Network

/-- frames come from the tethers; WebSocket control messages may come at any time -/
def hubOwn : WorldAction → Bool
  | .session _ a => Link.hubOwn a
  | _ => true

/-- the generation was attached -/
def Attached (n : Network) (g : Nat) : Prop := 0 < g ∧ g < n.hub.reg.nextGeneration

instance (n : Network) (g : Nat) : Decidable (n.Attached g) :=
  inferInstanceAs (Decidable (_ ∧ _))

def step (digest : Bytes → String) (lib : HttpLib) (limit : Nat) (n : Network) :
    NetworkAction → Option Network
  | .hub a =>
    if hubOwn a then (World.step digest lib n.hub a).map fun w => { n with hub := w } else none
  | .hubWrite g =>
    (n.hub.sess g).tx.recv.bind fun e =>
      (World.step digest lib n.hub (.session g .write)).map fun w =>
        { n with hub := w, down := Function.update n.down g ((n.down g).push e.1) }
  | .hubRecv g now =>
    (n.up g).recv.bind fun e =>
      (World.step digest lib n.hub (.session g (Link.hubReads limit e.1 now))).map fun w =>
        { n with hub := w, up := Function.update n.up g e.2 }
  | .tether g a =>
    if n.Attached g ∧ Link.tetherOwn a = true then
      ((n.tether g).step a).map fun t => { n with tether := Function.update n.tether g t }
    else none
  | .tetherWrite g =>
    if n.Attached g then
      (n.tether g).tx.recv.bind fun e =>
        ((n.tether g).step .write).map fun t =>
          { n with
            tether := Function.update n.tether g t
            up := Function.update n.up g ((n.up g).push e.1) }
    else none
  | .tetherRecv g =>
    if n.Attached g then
      (n.down g).recv.bind fun e =>
        ((n.tether g).step (Link.tetherReads limit e.1)).map fun t =>
          { n with
            tether := Function.update n.tether g t
            down := Function.update n.down g e.2 }
    else none

/-- a hub that has just started, and nothing at the other ends -/
def Initial (n : Network) : Prop := ∃ w, World.Initial w ∧ n = { hub := w }

abbrev Reachable (digest : Bytes → String) (lib : HttpLib) (limit : Nat) (n : Network) : Prop :=
  Machine.Reachable (step digest lib limit) Initial n

/-- the WebSocket of a generation, with the session and the tether at its ends -/
def link (n : Network) (g : Nat) : Link :=
  { hub := n.hub.sess g, tether := n.tether g, down := n.down g, up := n.up g }

end Network

/-! ## the hub of a network -/

namespace World
variable {digest : Bytes → String} {lib : HttpLib} {w v : World} {a : WorldAction}

/-- what a step of the hub does to a session: nothing, one step that is no dealing with its tether
unless the hub's step is just that, or the session is installed -/
theorem Move.link_step (hm : Move digest lib w a v) (g : Nat) :
    v.sess g = w.sess g ∨
    (∃ b, (Link.hubOwn b = true ∨ a = .session g b) ∧
      Session.step lib (w.sess g) b = some (v.sess g)) ∨
    ∃ id credential, g = w.reg.nextGeneration ∧ v.sess g = Session.new id credential w.now := by
  have hset : ∀ {g' : Nat} {s : Session} {b : SessionAction},
      Session.step lib (w.sess g') b = some s → (Link.hubOwn b = true ∨ a = .session g' b) →
      (w.setSession g' s).sess g = w.sess g ∨ ∃ b, (Link.hubOwn b = true ∨ a = .session g b) ∧
        Session.step lib (w.sess g) b = some ((w.setSession g' s).sess g) := by
    intro g' s b hs hb
    exact forall_setSession (w := w)
      (P := fun k t => t = w.sess k ∨ ∃ b, (Link.hubOwn b = true ∨ a = .session k b) ∧
        Session.step lib (w.sess k) b = some t) (fun _ => .inl rfl) (.inr ⟨b, hb, hs⟩) g
  cases hm with
  | @attach id credential g' reg gens hl ha =>
    obtain ⟨rfl, -, -, -⟩ := Registry.attach_some ha
    by_cases hg : g = w.reg.nextGeneration
    · refine .inr (.inr ⟨id, credential, hg, ?_⟩)
      subst hg
      exact setSession_self w _ _
    · exact .inl (setSession_of_ne w _ hg)
  | @select req count g' id rest busy t s hl hs =>
    exact (hset (b := .reserve req) hs (.inl rfl)).imp_right .inl
  | @selectTo req g' id s hl hg' ha hs =>
    exact (hset (b := .reserve req) hs (.inl rfl)).imp_right .inl
  | forward hl hs => exact (hset (b := .forward) hs (.inl rfl)).imp_right .inl
  | forwarded hl hr hs => exact (hset (b := .forward) hs (.inl rfl)).imp_right .inl
  | @closing order g' rest s hl hs =>
    exact (hset (b := .registryClose order) hs (.inl rfl)).imp_right .inl
  | @closed order drained g' rest s hl hr hs =>
    exact (hset (b := .registryClose order) hs (.inl rfl)).imp_right .inl
  | @session g' b s h0 hg' ho hs => exact (hset hs (.inr rfl)).imp_right .inl
  | _ => exact .inl rfl

theorem step_session {g : Nat} {b : SessionAction} (h : step digest lib w (.session g b) = some v) :
    g < w.reg.nextGeneration ∧ v.reg.nextGeneration = w.reg.nextGeneration ∧
      Session.step lib (w.sess g) b = some (v.sess g) ∧ ∀ k, k ≠ g → v.sess k = w.sess k := by
  change w.sessionStep lib g b = some v at h
  unfold sessionStep at h
  split at h
  · next hg =>
    obtain ⟨s, hs, rfl⟩ := Option.map_eq_some_iff.mp h
    refine ⟨hg.2.1, ?_, ?_, fun k hk => setSession_of_ne w s hk⟩
    · show Registry.nextGeneration (if _ then _ else _) = _
      split
      · exact nextGeneration_detach _ _ _
      · rfl
    · show Session.step lib (w.sess g) b = some ((w.setSession g s).sess g)
      rw [setSession_self]
      exact hs
  · cases h

end World

namespace Network
variable {digest : Bytes → String} {lib : HttpLib} {limit : Nat} {n m : Network}
  {a : NetworkAction} {g : Nat}

/-- a step of the network is at most one step of its hub -/
theorem step_hub (h : step digest lib limit n a = some m) :
    m.hub = n.hub ∨ ∃ b, World.step digest lib n.hub b = some m.hub := by
  cases a with
  | hub a =>
    change (if hubOwn a then _ else none) = some m at h
    split at h
    · obtain ⟨w, hw, rfl⟩ := Option.map_eq_some_iff.mp h
      exact .inr ⟨a, hw⟩
    · cases h
  | hubWrite g =>
    obtain ⟨e, -, h⟩ := Option.bind_eq_some_iff.mp h
    obtain ⟨w, hw, rfl⟩ := Option.map_eq_some_iff.mp h
    exact .inr ⟨_, hw⟩
  | hubRecv g now =>
    obtain ⟨e, -, h⟩ := Option.bind_eq_some_iff.mp h
    obtain ⟨w, hw, rfl⟩ := Option.map_eq_some_iff.mp h
    exact .inr ⟨_, hw⟩
  | tether g a =>
    change (if _ then _ else none) = some m at h
    split at h
    · obtain ⟨t, -, rfl⟩ := Option.map_eq_some_iff.mp h
      exact .inl rfl
    · cases h
  | tetherWrite g =>
    change (if _ then _ else none) = some m at h
    split at h
    · obtain ⟨e, -, h⟩ := Option.bind_eq_some_iff.mp h
      obtain ⟨t, -, rfl⟩ := Option.map_eq_some_iff.mp h
      exact .inl rfl
    · cases h
  | tetherRecv g =>
    change (if _ then _ else none) = some m at h
    split at h
    · obtain ⟨e, -, h⟩ := Option.bind_eq_some_iff.mp h
      obtain ⟨t, -, rfl⟩ := Option.map_eq_some_iff.mp h
      exact .inl rfl
    · cases h

theorem Reachable.hub (h : Reachable digest lib limit n) : World.Reachable digest lib n.hub := by
  refine Machine.Reachable.invariant (P := fun n => World.Reachable digest lib n.hub) ?_ ?_ h
  · intro n hn
    obtain ⟨w, hw, rfl⟩ := hn
    exact .init hw
  · intro n a m hr hstep
    obtain heq | ⟨b, hb⟩ := step_hub hstep
    · exact heq ▸ hr
    · exact Machine.Reachable.step hr hb

/-- a run of the network is a run of its hub -/
theorem run_hub {as : List NetworkAction} (h : Machine.run (step digest lib limit) n as = some m) :
    ∃ bs, Machine.run (World.step digest lib) n.hub bs = some m.hub := by
  induction as generalizing n with
  | nil =>
    obtain rfl := Option.some.inj h
    exact ⟨[], rfl⟩
  | cons a as ih =>
    obtain ⟨k, hk, h⟩ := Machine.run_cons_some.mp h
    obtain ⟨bs, hbs⟩ := ih h
    obtain heq | ⟨b, hb⟩ := step_hub hk
    · exact ⟨bs, heq ▸ hbs⟩
    · exact ⟨b :: bs, Machine.run_cons_some.mpr ⟨_, hb, hbs⟩⟩

/-! ## its links -/

/-- the links, and that nothing is at the other end of a generation to come -/
structure Inv (lib : HttpLib) (limit : Nat) (n : Network) : Prop where
  link : ∀ g, Link.Reachable lib limit (n.link g)
  fresh : ∀ g, n.hub.reg.nextGeneration ≤ g → n.tether g = .new ∧ n.down g = {} ∧ n.up g = {}

theorem inv_initial (h : Initial n) : Inv lib limit n := by
  obtain ⟨w, ⟨lease, now, rfl⟩, rfl⟩ := h
  exact ⟨fun g => .init ⟨"", [], now, rfl⟩, fun _ _ => ⟨rfl, rfl, rfl⟩⟩

/-- a step of the hub apart from the WebSockets -/
theorem Inv.hub (hi : Inv lib limit n) {a : WorldAction} {w : World} (hown : hubOwn a = true)
    (hw : World.step digest lib n.hub a = some w) : Inv lib limit { n with hub := w } := by
  have hm := World.move_of_step hw
  constructor
  · intro g
    obtain heq | ⟨b, hb, hs⟩ | ⟨id, credential, hg, hnew⟩ := hm.link_step g
    · show Link.Reachable lib limit ⟨w.sess g, _, _, _⟩
      rw [heq]
      exact hi.link g
    · have hb' : Link.hubOwn b = true := by
        obtain hb | rfl := hb
        · exact hb
        · exact hown
      refine Machine.Reachable.step (a := .hub b) (hi.link g) ?_
      show (if Link.hubOwn b then (Session.step lib (n.hub.sess g) b).map _ else none) = _
      rw [if_pos hb', hs]
      rfl
    · obtain ⟨htether, hdown, hup⟩ := hi.fresh g hg.ge
      show Link.Reachable lib limit ⟨w.sess g, n.tether g, n.down g, n.up g⟩
      rw [hnew, htether, hdown, hup]
      exact .init ⟨id, credential, _, rfl⟩
  · intro g hg
    exact hi.fresh g (hm.nextGeneration.trans hg)

/-- a step on the link of generation `g`, which leaves the others alone -/
theorem Inv.update (hi : Inv lib limit n) {b : LinkAction} (hg : g < n.hub.reg.nextGeneration)
    (hnext : m.hub.reg.nextGeneration = n.hub.reg.nextGeneration)
    (hlink : Link.step lib limit (n.link g) b = some (m.link g))
    (hother : ∀ k, k ≠ g → m.link k = n.link k) : Inv lib limit m := by
  constructor
  · intro k
    by_cases hk : k = g
    · subst hk
      exact (hi.link k).step hlink
    · rw [hother k hk]
      exact hi.link k
  · intro k hk
    rw [hnext] at hk
    have hkg : k ≠ g := by omega
    have heq := hother k hkg
    obtain ⟨htether, hdown, hup⟩ := hi.fresh k hk
    exact ⟨(congrArg Link.tether heq).trans htether, (congrArg Link.down heq).trans hdown,
      (congrArg Link.up heq).trans hup⟩

theorem Inv.step (hi : Inv lib limit n) (h : Network.step digest lib limit n a = some m) :
    Inv lib limit m := by
  cases a with
  | hub a =>
    change (if hubOwn a then _ else none) = some m at h
    split at h
    · next hown =>
      obtain ⟨w, hw, rfl⟩ := Option.map_eq_some_iff.mp h
      exact hi.hub hown hw
    · cases h
  | hubWrite g =>
    obtain ⟨e, he, h⟩ := Option.bind_eq_some_iff.mp h
    obtain ⟨w, hw, rfl⟩ := Option.map_eq_some_iff.mp h
    obtain ⟨hg, hnext, hs, hother⟩ := World.step_session hw
    refine hi.update (b := .hubWrite) hg hnext ?_ ?_
    · show (n.hub.sess g).tx.recv.bind _ = _
      rw [he, Option.bind_some, show Session.step lib (n.link g).hub .write = _ from hs]
      unfold Network.link
      simp
    · intro k hk
      unfold Network.link
      simp [hk, hother k hk]
  | hubRecv g now =>
    obtain ⟨e, he, h⟩ := Option.bind_eq_some_iff.mp h
    obtain ⟨w, hw, rfl⟩ := Option.map_eq_some_iff.mp h
    obtain ⟨hg, hnext, hs, hother⟩ := World.step_session hw
    refine hi.update (b := .hubRecv now) hg hnext ?_ ?_
    · show (n.up g).recv.bind _ = _
      rw [he, Option.bind_some,
        show Session.step lib (n.link g).hub (Link.hubReads limit e.1 now) = _ from hs]
      unfold Network.link
      simp
    · intro k hk
      unfold Network.link
      simp [hk, hother k hk]
  | tether g a =>
    change (if _ then _ else none) = some m at h
    split at h
    · next hg =>
      obtain ⟨t, ht, rfl⟩ := Option.map_eq_some_iff.mp h
      refine hi.update (b := .tether a) hg.1.2 rfl ?_ ?_
      · show (if Link.tetherOwn a then ((n.tether g).step a).map _ else none) = _
        rw [if_pos hg.2, ht]
        unfold Network.link
        simp
      · intro k hk
        unfold Network.link
        simp [hk]
    · cases h
  | tetherWrite g =>
    change (if _ then _ else none) = some m at h
    split at h
    · next hg =>
      obtain ⟨e, he, h⟩ := Option.bind_eq_some_iff.mp h
      obtain ⟨t, ht, rfl⟩ := Option.map_eq_some_iff.mp h
      refine hi.update (b := .tetherWrite) hg.2 rfl ?_ ?_
      · show (n.tether g).tx.recv.bind _ = _
        rw [he, Option.bind_some, show (n.link g).tether.step .write = some t from ht]
        unfold Network.link
        simp
      · intro k hk
        unfold Network.link
        simp [hk]
    · cases h
  | tetherRecv g =>
    change (if _ then _ else none) = some m at h
    split at h
    · next hg =>
      obtain ⟨e, he, h⟩ := Option.bind_eq_some_iff.mp h
      obtain ⟨t, ht, rfl⟩ := Option.map_eq_some_iff.mp h
      refine hi.update (b := .tetherRecv) hg.2 rfl ?_ ?_
      · show (n.down g).recv.bind _ = _
        rw [he, Option.bind_some,
          show (n.link g).tether.step (Link.tetherReads limit e.1) = some t from ht]
        unfold Network.link
        simp
      · intro k hk
        unfold Network.link
        simp [hk]
    · cases h

theorem Reachable.inv (h : Reachable digest lib limit n) : Inv lib limit n :=
  Machine.Reachable.invariant (fun _ h => inv_initial h) (fun _ _ _ hi h => hi.step h) h

/-- every link of a reachable network is a reachable link -/
theorem Reachable.link (h : Reachable digest lib limit n) (g : Nat) :
    Link.Reachable lib limit (n.link g) := (Reachable.inv h).link g

end Network

end AnvilRing
