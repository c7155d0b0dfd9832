import AnvilRing.Hub.Control
import AnvilRing.Hub.Response

/-!
# The events that an operator sees

`handle_tether` sends `Up` behind its `attach` and `Down` or `Revoked` behind its `detach`, each
from the task of its session.  The events of a tether's successive sessions mingle in one channel.

* `Observed.step`           a hub with the events that its session tasks send;
* `Observed.Quiet`          every session that is out of `live` has sent its closing event;
* `Observed.SentAlone`      a closing event comes while no successor is connected;
* `events_agree_with_live`  then the last event of a tether says at every quiet point whether `live`
                            holds a session for it.
-/

namespace AnvilRing
open Wire

inductive EventKind where
  | up
  | down
  | revoked
  deriving DecidableEq, Repr

structure TetherEvent where
  tetherId : String
  kind : EventKind
  deriving DecidableEq, Repr

/-- the last event of tether `id` -/
def lastEvent (events : List TetherEvent) (id : String) : Option EventKind :=
  ((events.filter fun e => e.tetherId = id).getLast?).map TetherEvent.kind

theorem lastEvent_snoc (events : List TetherEvent) (e : TetherEvent) (id : String) :
    lastEvent (events ++ [e]) id
      = if e.tetherId = id then some e.kind else lastEvent events id := by
  unfold lastEvent
  rw [List.filter_append]
  by_cases h : e.tetherId = id
  · simp [h]
  · simp [h]

/-- a step of `handle_tether` itself; the other tasks of a session run beside it -/
def SessionAction.handled : SessionAction → Bool
  | .recv _ _ => true
  | .loop => true
  | .tickPing => true
  | .exit _ => true
  | .teardown _ => true
  | .write => true
  | .writerEnd => true
  | _ => false

structure Observed where
  hub : World
  /-- the sessions that have sent `Up` -/
  announced : List Nat := []
  /-- the sessions that have sent `Down` or `Revoked` -/
  left : List Nat := []
  /-- the local `revoked` of each session's task -/
  revoked : Nat → Bool := fun _ => false
  events : List TetherEvent := []

inductive ObservedAction where
  | hub (a : WorldAction)
  /-- session `g` sends `Up` -/
  | up (g : Nat)
  /-- session `g` sends its closing event -/
  | closing (g : Nat)

namespace Observed

/-- the task of a session goes on only behind its `Up`, and finds a registration that is not
active -/
def enabled (o : Observed) : WorldAction → Bool
  | .session g a => (!a.handled || decide (g ∈ o.announced)) &&
      (!decide (a = .exit .notActive) || !o.hub.reg.isActive o.hub.now (o.hub.owner g))
  | _ => true

/-- the session is left because its registration is not active any more -/
def seenRevoked (o : Observed) : WorldAction → Nat → Bool
  | .session g (.exit cause) => Function.update o.revoked g
      (decide (cause = .notActive) || decide (cause = .sessionCancelled) &&
        !o.hub.reg.isActive o.hub.now (o.hub.owner g))
  | _ => o.revoked

def step (digest : Bytes → String) (lib : HttpLib) (o : Observed) :
    ObservedAction → Option Observed
  | .hub a =>
    if o.enabled a then
      (World.step digest lib o.hub a).map fun v => { o with hub := v, revoked := o.seenRevoked a }
    else none
  | .up g =>
    if 0 < g ∧ g < o.hub.reg.nextGeneration ∧ g ∉ o.announced then
      some { o with
        announced := g :: o.announced
        events := o.events ++ [⟨o.hub.owner g, .up⟩] }
    else none
  | .closing g =>
    if (o.hub.sess g).loop = .finished ∧ g ∈ o.announced ∧ g ∉ o.left then
      some { o with
        left := g :: o.left
        events := o.events ++ [⟨o.hub.owner g, if o.revoked g then .revoked else .down⟩] }
    else none

/-- a hub that has just started -/
def Initial (o : Observed) : Prop := ∃ w, World.Initial w ∧ o = { hub := w }

abbrev Reachable (digest : Bytes → String) (lib : HttpLib) (o : Observed) : Prop :=
  Machine.Reachable (step digest lib) Initial o

/-- every session that is out of `live` has sent its closing event, and every session in it its
`Up` -/
structure Quiet (o : Observed) : Prop where
  left : ∀ g, 0 < g → g < o.hub.reg.nextGeneration → g ∉ o.left →
    ∃ id, o.hub.reg.live.get id = some g
  announced : ∀ id g, o.hub.reg.live.get id = some g → g ∈ o.announced

/-- a closing event is sent while `live` holds no session of its tether that has sent `Up` -/
def SentAlone (o : Observed) : ObservedAction → Prop
  | .closing g => ∀ g' ∈ o.hub.reg.live.get (o.hub.owner g), g' ∉ o.announced
  | _ => True

instance (o : Observed) (a : ObservedAction) : Decidable (o.SentAlone a) :=
  match a with
  | .closing g => Option.decidableForallMem (p := fun g' => g' ∉ o.announced)
      (o.hub.reg.live.get (o.hub.owner g))
  | .hub _ => .isTrue trivial
  | .up _ => .isTrue trivial

section
variable {digest : Bytes → String} {lib : HttpLib} {o p : Observed} {w v : World}
  {a : ObservedAction}

/-- the branches of `step` -/
inductive Move (digest : Bytes → String) (lib : HttpLib) (o : Observed) :
    ObservedAction → Observed → Prop where
  | hub {a : WorldAction} {v : World} (hs : World.step digest lib o.hub a = some v) :
      Move digest lib o (.hub a) { o with hub := v, revoked := o.seenRevoked a }
  | up {g : Nat} (h0 : 0 < g) (hg : g < o.hub.reg.nextGeneration) (hn : g ∉ o.announced) :
      Move digest lib o (.up g) { o with
        announced := g :: o.announced
        events := o.events ++ [⟨o.hub.owner g, .up⟩] }
  | closing {g : Nat} {kind : EventKind} (hk : kind ≠ .up) (hg : g ∈ o.announced) :
      Move digest lib o (.closing g) { o with
        left := g :: o.left
        events := o.events ++ [⟨o.hub.owner g, kind⟩] }

theorem move_of_step (h : step digest lib o a = some p) : Move digest lib o a p := by
  cases a with
  | hub a =>
    change (if o.enabled a = true then _ else none) = some p at h
    split at h
    · obtain ⟨v, hv, rfl⟩ := Option.map_eq_some_iff.mp h
      exact .hub hv
    · cases h
  | up g =>
    change (if _ then _ else none) = some p at h
    split at h
    · next hg => exact Option.some.inj h ▸ .up hg.1 hg.2.1 hg.2.2
    · cases h
  | closing g =>
    change (if _ then _ else none) = some p at h
    split at h
    · next hg =>
      refine Option.some.inj h ▸ .closing ?_ hg.2.1
      split <;> exact nofun
    · cases h

theorem Reachable.hub (h : Reachable digest lib o) : World.Reachable digest lib o.hub := by
  refine Machine.Reachable.invariant (P := fun o => World.Reachable digest lib o.hub) ?_ ?_ h
  · intro o ho
    obtain ⟨w, hw, rfl⟩ := ho
    exact .init hw
  · intro o a p ho hstep
    cases move_of_step hstep with
    | hub hs => exact Machine.Reachable.step ho hs
    | up => exact ho
    | closing => exact ho

/-- what is in `live` was there before, or is the session that was just attached -/
theorem live_of_move {b : WorldAction} (hm : World.Move digest lib w b v) {id : String} {g : Nat}
    (hg : v.reg.live.get id = some g) :
    w.reg.live.get id = some g ∨ g = w.reg.nextGeneration := by
  cases hm with
  | register => exact .inl (Registry.live_register hg).2
  | replaceRecords => exact .inl (Registry.live_replaceRecords hg).1
  | revoke => exact .inl (Registry.live_revoke hg).2
  | attach _ ha =>
    obtain ⟨rfl, _, rfl, _⟩ := Registry.attach_some ha
    change (w.reg.live.insert _ _).get id = some g at hg
    rw [KeyMap.get_insert] at hg
    split at hg
    · exact .inr (Option.some.inj hg).symm
    · exact .inl hg
  | session =>
    change KeyMap.get (if _ then _ else _ : Registry).live id = some g at hg
    split at hg
    · exact .inl (Registry.live_detach hg)
    · exact .inl hg
  | _ => exact .inl hg

/-- a generation that was handed out belongs to its tether for good -/
theorem owner_of_move {b : WorldAction} (hm : World.Move digest lib w b v) {g : Nat}
    (hg : g < w.reg.nextGeneration) : v.owner g = w.owner g := by
  unfold World.owner
  rcases hm.session_step hg with he | ⟨b, hb⟩
  · rw [he]
  · exact (Session.step_identity hb).1

/-- what the events say of the sessions -/
structure Inv (o : Observed) : Prop where
  bound : ∀ g ∈ o.announced, 0 < g ∧ g < o.hub.reg.nextGeneration
  left : ∀ g ∈ o.left, g ∈ o.announced
  live : ∀ id g, o.hub.reg.live.get id = some g → g ∈ o.announced →
    lastEvent o.events id = some .up
  up : ∀ id, lastEvent o.events id = some .up →
    ∃ g ∈ o.announced, g ∉ o.left ∧ o.hub.owner g = id

theorem Inv.move (h : o.Inv) (hr : Reachable digest lib o) (ha : o.SentAlone a)
    (hm : Move digest lib o a p) : p.Inv := by
  have hreg := hr.hub.inv.registry
  cases hm with
  | @hub b v hs =>
    have hb := World.move_of_step hs
    constructor
    · intro g hg
      obtain ⟨h0, hlt⟩ := h.bound g hg
      exact ⟨h0, hlt.trans_le hb.nextGeneration⟩
    · exact h.left
    · intro id g hg hann
      rcases live_of_move hb hg with hg | rfl
      · exact h.live id g hg hann
      · exact absurd (h.bound _ hann).2 (lt_irrefl _)
    · intro id hid
      obtain ⟨g, hann, hleft, hown⟩ := h.up id hid
      exact ⟨g, hann, hleft, (owner_of_move hb (h.bound g hann).2).trans hown⟩
  | @up g h0 hlt hn =>
    constructor
    · intro k hk
      rcases List.mem_cons.mp hk with rfl | hk
      · exact ⟨h0, hlt⟩
      · exact h.bound k hk
    · exact fun k hk => List.mem_cons_of_mem _ (h.left k hk)
    · intro id k hk hann
      show lastEvent (o.events ++ _) id = _
      rw [lastEvent_snoc]
      split
      · rfl
      · next hne =>
        refine h.live id k hk ?_
        rcases List.mem_cons.mp hann with rfl | hann
        · exact absurd (hreg.owned id k hk) hne
        · exact hann
    · intro id hid
      change lastEvent (o.events ++ _) id = _ at hid
      rw [lastEvent_snoc] at hid
      split at hid
      · next hown => exact ⟨g, List.mem_cons_self, fun hg => hn (h.left g hg), hown⟩
      · obtain ⟨k, hann, hleft, hown⟩ := h.up id hid
        exact ⟨k, List.mem_cons_of_mem _ hann, hleft, hown⟩
  | @closing g kind hk hg =>
    constructor
    · exact h.bound
    · intro k hk
      rcases List.mem_cons.mp hk with rfl | hk
      · exact hg
      · exact h.left k hk
    · intro id k hlive hann
      show lastEvent (o.events ++ _) id = _
      rw [lastEvent_snoc]
      split
      · next hown =>
        subst hown
        exact absurd hann (ha k hlive)
      · exact h.live id k hlive hann
    · intro id hid
      change lastEvent (o.events ++ _) id = _ at hid
      rw [lastEvent_snoc] at hid
      split at hid
      · exact absurd (Option.some.inj hid) hk
      · next hne =>
        obtain ⟨k, hann, hleft, hown⟩ := h.up id hid
        refine ⟨k, hann, fun hx => ?_, hown⟩
        rcases List.mem_cons.mp hx with rfl | hx
        · exact hne hown
        · exact hleft hx

theorem inv_of_sentAlone
    (h : Machine.ReachableWhen (step digest lib) Initial SentAlone o) : o.Inv := by
  refine h.invariant_of (P := Inv) ?_ fun o a p hr ha ho hs => ho.move hr ha (move_of_step hs)
  intro o ho
  obtain ⟨w, hw, rfl⟩ := ho
  exact ⟨fun _ hg => (nomatch hg), fun _ hg => (nomatch hg), fun _ _ _ hg => (nomatch hg),
    fun _ hid => (nomatch hid)⟩

end

end Observed

/-- **The events agree with the routing table** at every quiet point, in every run in which each
closing event is sent while no successor of its session is connected. -/
theorem events_agree_with_live {digest : Bytes → String} {lib : HttpLib} {o : Observed}
    (h : Machine.ReachableWhen (Observed.step digest lib) Observed.Initial Observed.SentAlone o)
    (hq : o.Quiet) (id : String) :
    lastEvent o.events id = some .up ↔ ∃ g, o.hub.reg.live.get id = some g := by
  have hinv := Observed.inv_of_sentAlone h
  constructor
  · intro hup
    obtain ⟨g, hann, hleft, hown⟩ := hinv.up id hup
    obtain ⟨h0, hlt⟩ := hinv.bound g hann
    obtain ⟨id', hlive⟩ := hq.left g h0 hlt hleft
    have hid : o.hub.owner g = id' :=
      (Observed.Reachable.hub h.reachable).inv.registry.owned id' g hlive
    rw [← hown, hid]
    exact ⟨g, hlive⟩
  · intro hlive
    obtain ⟨g, hlive⟩ := hlive
    exact hinv.live id g hlive (hq.announced id g hlive)

/-- tether "a" connects, and connects again; its first session ends -/
def reconnectRun : List ObservedAction :=
  [.hub (.register "a" "rental" (ascii "first")), .hub (.close []),
    .hub (.attach "a" (ascii "first")), .hub (.close []), .up 1,
    .hub (.attach "a" (ascii "first")), .hub (.close []), .hub (.close []), .hub (.close []),
    .hub (.close [])]

/-- the first session sees that it was cancelled and ends -/
def endRunOf (g : Nat) : List ObservedAction :=
  [.hub (.session g (.exit .sessionCancelled)), .hub (.session g (.teardown [])),
    .hub (.session g (.teardown [])), .hub (.session g (.teardown [])),
    .hub (.session g (.teardown [])), .closing g]

/-- what the runs below end in -/
def Observed.summary (o : Observed) : Nat × List Nat × List Nat × List (String × Nat) :=
  (o.hub.reg.nextGeneration, o.left, o.announced, o.hub.reg.live.toList)

theorem Observed.quiet_of_summary {o : Observed} (h : o.summary = (3, [1], [2, 1], [("a", 2)])) :
    o.Quiet ∧ o.hub.reg.live.get "a" = some 2 := by
  obtain ⟨hnext, hleft, hann, hlive⟩ : o.hub.reg.nextGeneration = 3 ∧ o.left = [1] ∧
      o.announced = [2, 1] ∧ o.hub.reg.live.toList = [("a", 2)] := by
    simpa only [Observed.summary, Prod.mk.injEq] using h
  have hget : o.hub.reg.live.get "a" = some 2 := by
    refine KeyMap.mem_toList.mp ?_
    rw [hlive]
    exact List.mem_singleton_self _
  refine ⟨⟨?_, ?_⟩, hget⟩
  · intro g h0 hg hn
    rw [hleft, List.mem_singleton] at hn
    rw [hnext] at hg
    obtain rfl : g = 2 := by omega
    exact ⟨"a", hget⟩
  · intro id g hg
    have hm := KeyMap.mem_toList.mpr hg
    rw [hlive, List.mem_singleton] at hm
    cases hm
    rw [hann]
    exact List.mem_cons_self

theorem reconnectRun_agrees : (Machine.runWhen (Observed.step twoDigests okLib) Observed.SentAlone
    { hub := freshHub } (reconnectRun ++ endRunOf 1 ++ [.up 2])).map Observed.summary =
      some (3, [1], [2, 1], [("a", 2)]) := by
  decide

/-- the first session ends before the second announces itself -/
theorem events_agree_with_live_reconnected : ∃ o : Observed, o.hub.reg.live.get "a" = some 2 ∧
    lastEvent o.events "a" = some .up := by
  obtain ⟨o, ho, hsum⟩ := Option.map_eq_some_iff.mp reconnectRun_agrees
  obtain ⟨hquiet, hlive⟩ := Observed.quiet_of_summary hsum
  have hinit : Observed.Initial { hub := freshHub } := ⟨_, ⟨_, _, rfl⟩, rfl⟩
  have hreach : Machine.ReachableWhen (Observed.step twoDigests okLib) Observed.Initial
    Observed.SentAlone o := (Machine.ReachableWhen.init hinit).runWhen ho
  exact ⟨o, hlive, (events_agree_with_live hreach hquiet "a").mpr ⟨2, hlive⟩⟩

theorem reconnectRun_disagrees : (((Machine.run (Observed.step twoDigests okLib)
    { hub := freshHub } (reconnectRun ++ .up 2 :: endRunOf 1)).filter fun o =>
      lastEvent o.events "a" = some .down).map Observed.summary) =
      some (3, [1], [2, 1], [("a", 2)]) := by
  decide

/-- The session that was replaced says `Down` behind its successor's `Up`. -/
theorem replaced_session_says_down : ∃ o : Observed, Observed.Reachable twoDigests okLib o ∧
    o.Quiet ∧ o.hub.reg.live.get "a" = some 2 ∧ lastEvent o.events "a" = some .down := by
  obtain ⟨o, ho, hsum⟩ := Option.map_eq_some_iff.mp reconnectRun_disagrees
  obtain ⟨ho, hlast⟩ := Option.filter_eq_some_iff.mp ho
  obtain ⟨hquiet, hlive⟩ := Observed.quiet_of_summary hsum
  have hinit : Observed.Initial { hub := freshHub } := ⟨_, ⟨_, _, rfl⟩, rfl⟩
  exact ⟨o, (Machine.Reachable.init hinit).run ho, hquiet, hlive, of_decide_eq_true hlast⟩

end AnvilRing
