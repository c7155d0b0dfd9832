import AnvilRing.Hub.World
import AnvilRing.Lib.Probe
import AnvilRing.Link.Exchange
import AnvilRing.Tether.Heartbeat

/-!
# A hub session and its tether, with their clocks

The session loop of the hub with its tick, the tether with its heartbeat, and one time for both.
Every frame of either queue carries the instant at which it was queued.

* `TimedLink.hubTick`          the tick arm of `handle_tether`;
* `TimedLink.step`             the machine; `step_link`: every step is one of `Link.step`, or time
                               passes;
* `TimedLink.Timely`           time does not pass beyond what is due: the hub's tick, and the frames
                               on their way;
* `TimedLink.logs_of_step`     the instants keep up with the queues.
-/

namespace AnvilRing
open Wire

/-- `TETHER_TICK` -/
def tetherTick : Nat := 5 * nanosPerSec

/-- `TETHER_PING_INTERVAL` -/
def tetherPingInterval : Nat := 10 * nanosPerSec

structure TimedLink where
  hub : Session
  tether : TimedTunnel
  down : Chan Frame := {}
  up : Chan Frame := {}
  /-- the instant at which the hub's tick fires -/
  tick : Nat
  /-- `last_ping`: before the first PING it is an interval before the session -/
  lastPing : Int
  /-- history: what the hub queued, and when -/
  downLog : List (Frame × Nat) := []
  /-- history: what the tether queued, and when -/
  upLog : List (Frame × Nat) := []

inductive TimedLinkAction where
  | wait (d : Nat)
  /-- the hub's tick; `active` is what the registry says of the tether -/
  | hubTick (active : Bool)
  /-- any other step of the hub, its dealings with the other party apart -/
  | hub (a : SessionAction)
  | hubWrite
  | hubRecv
  /-- a step of the tether, its dealings with the other party apart -/
  | tether (a : TunnelAction)
  /-- the tether's dead deadline -/
  | dead
  | tetherWrite
  | tetherRecv
  deriving DecidableEq, Repr

namespace TimedLink

/-- the time of both parties -/
def now (s : TimedLink) : Nat := s.tether.now

/-- the parties, without their clocks -/
def link (s : TimedLink) : Link :=
  { hub := s.hub, tether := s.tether.tunnel, down := s.down, up := s.up }

/-- a step of the hub that the tick arm does not take -/
def hubOwn : SessionAction → Bool
  | .tickPing => false
  | .exit .notActive => false
  | .exit .silent => false
  | a => Link.hubOwn a

/-- the tick arm: the registration, then the silence, then the PING, then the tick is armed again -/
def hubTick (s : TimedLink) (active : Bool) : Option TimedLink :=
  if s.tick ≤ s.now then
    if active = false then (s.hub.exit .notActive).map fun h => { s with hub := h }
    else if tetherSilence < s.now - s.hub.lastSeen then
      (s.hub.exit .silent).map fun h => { s with hub := h }
    else if (tetherPingInterval : Int) ≤ s.now - s.lastPing then
      s.hub.tickPing.map fun h =>
        { s with hub := h, lastPing := s.now, tick := s.now + tetherTick }
    else if s.hub.loop = .select then some { s with tick := s.now + tetherTick }
    else none
  else none

/-- a step of one of the tasks, or of the time -/
def move (lib : HttpLib) (limit : Nat) (s : TimedLink) : TimedLinkAction → Option TimedLink
  | .wait d => (s.tether.step (.wait d)).map fun t => { s with tether := t }
  | .hubTick active => s.hubTick active
  | .hub a => if hubOwn a then (Session.step lib s.hub a).map fun h => { s with hub := h } else none
  | .hubWrite =>
    s.hub.tx.recv.bind fun e =>
      (Session.step lib s.hub .write).map fun h => { s with hub := h, down := s.down.push e.1 }
  | .hubRecv =>
    s.up.recv.bind fun e =>
      (Session.step lib s.hub (Link.hubReads limit e.1 s.now)).map fun h =>
        { s with hub := h, up := e.2 }
  | .tether a =>
    if Link.tetherOwn a then (s.tether.step (.task a)).map fun t => { s with tether := t } else none
  | .dead => (s.tether.step .dead).map fun t => { s with tether := t }
  | .tetherWrite =>
    s.tether.tunnel.tx.recv.bind fun e =>
      (s.tether.step (.task .write)).map fun t => { s with tether := t, up := s.up.push e.1 }
  | .tetherRecv =>
    s.down.recv.bind fun e =>
      (s.tether.step (.task (Link.tetherReads limit e.1))).map fun t =>
        { s with tether := t, down := e.2 }

/-- what was queued is queued now -/
def stamped (s : TimedLink) : TimedLink :=
  { s with
    downLog := Probe.stamp s.now s.downLog s.hub.tx.log
    upLog := Probe.stamp s.now s.upLog s.tether.tunnel.tx.log }

def step (lib : HttpLib) (limit : Nat) (s : TimedLink) (a : TimedLinkAction) : Option TimedLink :=
  (s.move lib limit a).map stamped

/-- a session that the hub attached at `attached` and the tether saw welcomed at `welcomed` -/
def begun (id : String) (cred : Bytes) (attached welcomed now : Nat) : TimedLink :=
  { hub := .new id cred attached
    tether := { TimedTunnel.new welcomed with now := now }
    tick := attached + tetherTick
    lastPing := attached - tetherPingInterval }

/-- the two ends begin within a tick of one another -/
def Initial (s : TimedLink) : Prop :=
  ∃ id cred attached welcomed now, s = begun id cred attached welcomed now ∧
    attached ≤ now ∧ welcomed ≤ now ∧ now ≤ attached + tetherTick ∧ now ≤ welcomed + tetherTick

abbrev Reachable (lib : HttpLib) (limit : Nat) (s : TimedLink) : Prop :=
  Machine.Reachable (step lib limit) Initial s

/-! ## what is due -/

/-- what the hub has queued and the tether has not taken up -/
def downWay (s : TimedLink) : List (Frame × Nat) := s.downLog.drop s.down.taken.length

/-- what the tether has queued and the hub has not taken up -/
def upWay (s : TimedLink) : List (Frame × Nat) := s.upLog.drop s.up.taken.length

/-- at time `t` the tick is overdue by `slack` at most, and every frame is underway for at most
`delay`, as long as the loop that is to act on it runs -/
structure DueAt (delay slack : Nat) (s : TimedLink) (t : Nat) : Prop where
  tick : s.hub.loop.out = false → t ≤ s.tick + slack
  down : s.tether.tunnel.loop ≠ .finished → ∀ e ∈ s.downWay, t ≤ e.2 + delay
  up : s.hub.loop.out = false → ∀ e ∈ s.upWay, t ≤ e.2 + delay

/-- time passes only as far as nothing is overdue -/
def Timely (delay slack : Nat) (s : TimedLink) : TimedLinkAction → Prop
  | .wait d => DueAt delay slack s (s.now + d)
  | _ => True

instance (delay slack : Nat) (s : TimedLink) (t : Nat) : Decidable (DueAt delay slack s t) :=
  decidable_of_iff ((s.hub.loop.out = false → t ≤ s.tick + slack) ∧
      (s.tether.tunnel.loop ≠ .finished → ∀ e ∈ s.downWay, t ≤ e.2 + delay) ∧
      (s.hub.loop.out = false → ∀ e ∈ s.upWay, t ≤ e.2 + delay))
    ⟨fun h => ⟨h.1, h.2.1, h.2.2⟩, fun h => ⟨h.tick, h.down, h.up⟩⟩

instance (delay slack : Nat) (s : TimedLink) (a : TimedLinkAction) :
    Decidable (Timely delay slack s a) :=
  match a with
  | .wait d => inferInstanceAs (Decidable (DueAt delay slack s (s.now + d)))
  | .hubTick _ => .isTrue trivial
  | .hub _ => .isTrue trivial
  | .hubWrite => .isTrue trivial
  | .hubRecv => .isTrue trivial
  | .tether _ => .isTrue trivial
  | .dead => .isTrue trivial
  | .tetherWrite => .isTrue trivial
  | .tetherRecv => .isTrue trivial

/-- the states of the runs in which nothing is ever overdue -/
abbrev ReachableTimely (lib : HttpLib) (limit delay slack : Nat) (s : TimedLink) : Prop :=
  Machine.ReachableWhen (step lib limit) Initial (Timely delay slack) s

/-! ## the two parties of a step -/

section
variable {lib : HttpLib} {limit : Nat} {s s' : TimedLink} {a : TimedLinkAction}

theorem task_tunnel {t t' : TimedTunnel} {b : TunnelAction} (h : t.step (.task b) = some t') :
    t.tunnel.step b = some t'.tunnel ∧ t'.now = t.now := by
  cases TimedTunnel.beat_of_step h with
  | frame hm ht hl => exact ⟨ht, TimedTunnel.answered_now t _⟩
  | held hm ht hl => exact ⟨ht, TimedTunnel.answered_now t _⟩
  | last hm ht hl => exact ⟨ht, TimedTunnel.answered_now t _⟩
  | replied ht hl hr => exact ⟨ht, rfl⟩
  | refused ht hl hr => exact ⟨ht, rfl⟩
  | pinged ht hl => exact ⟨ht, rfl⟩
  | other ht hl hm => exact ⟨ht, rfl⟩

theorem dead_tunnel {t t' : TimedTunnel} (h : t.step .dead = some t') :
    t.tunnel.step .exit = some t'.tunnel ∧ t'.now = t.now := by
  change (if t.hb.dead ≤ t.now then t.tunnel.exit.map _ else none) = some t' at h
  split at h
  · obtain ⟨u, hu, rfl⟩ := Option.map_eq_some_iff.mp h
    exact ⟨hu, rfl⟩
  · cases h

/-- what the tick arm does: it ends the session, or pings, or only arms the tick again -/
inductive Ticked (s s' : TimedLink) : Prop where
  | exits {cause : ExitCause} {h : Session} (hx : s.hub.exit cause = some h)
      (he : s' = { s with hub := h })
  | pings {h : Session} (hq : s.now - s.hub.lastSeen ≤ tetherSilence)
      (hx : s.hub.tickPing = some h)
      (he : s' = { s with hub := h, lastPing := s.now, tick := s.now + tetherTick })
  | rests (hq : s.now - s.hub.lastSeen ≤ tetherSilence)
      (hp : (s.now : Int) - s.lastPing < tetherPingInterval)
      (he : s' = { s with tick := s.now + tetherTick })

theorem ticked_of_hubTick {active : Bool} (h : s.hubTick active = some s') : Ticked s s' := by
  unfold hubTick at h
  split at h
  · split at h
    · obtain ⟨u, hu, rfl⟩ := Option.map_eq_some_iff.mp h
      exact .exits hu rfl
    · split at h
      · obtain ⟨u, hu, rfl⟩ := Option.map_eq_some_iff.mp h
        exact .exits hu rfl
      · next hq =>
        split at h
        · obtain ⟨u, hu, rfl⟩ := Option.map_eq_some_iff.mp h
          exact .pings (Nat.le_of_not_lt hq) hu rfl
        · next hp =>
          split at h
          · exact .rests (Nat.le_of_not_lt hq) (Int.not_le.mp hp) (Option.some.inj h).symm
          · cases h
  · cases h

theorem hubOwn_link {b : SessionAction} (h : hubOwn b = true) : Link.hubOwn b = true := by
  unfold hubOwn at h
  split at h
  · cases h
  · cases h
  · cases h
  · exact h

/-- the clocks aside, a step is one of the link's -/
theorem move_link (h : s.move lib limit a = some s') :
    s'.link = s.link ∨ ∃ b, Link.step lib limit s.link b = some s'.link := by
  cases a with
  | wait d =>
    obtain rfl := Option.some.inj h
    exact .inl rfl
  | hubTick active =>
    cases ticked_of_hubTick h with
    | @exits cause u hx he =>
      refine .inr ⟨.hub (.exit cause), ?_⟩
      show (s.hub.exit cause).map _ = _
      rw [hx, he]
      rfl
    | @pings u hq hx he =>
      refine .inr ⟨.hub .tickPing, ?_⟩
      show s.hub.tickPing.map _ = _
      rw [hx, he]
      rfl
    | rests hq hp he =>
      rw [he]
      exact .inl rfl
  | hub b =>
    change (if hubOwn b then _ else none) = some s' at h
    split at h
    · next ho =>
      obtain ⟨u, hu, rfl⟩ := Option.map_eq_some_iff.mp h
      refine .inr ⟨.hub b, ?_⟩
      show (if Link.hubOwn b then (Session.step lib s.hub b).map _ else none) = _
      rw [if_pos (hubOwn_link ho), hu]
      rfl
    · cases h
  | hubWrite =>
    obtain ⟨e, hr, h⟩ := Option.bind_eq_some_iff.mp h
    obtain ⟨u, hu, rfl⟩ := Option.map_eq_some_iff.mp h
    refine .inr ⟨.hubWrite, ?_⟩
    show s.hub.tx.recv.bind (fun e => (Session.step lib s.hub .write).map _) = _
    rw [hr, Option.bind_some, hu]
    rfl
  | hubRecv =>
    obtain ⟨e, hr, h⟩ := Option.bind_eq_some_iff.mp h
    obtain ⟨u, hu, rfl⟩ := Option.map_eq_some_iff.mp h
    refine .inr ⟨.hubRecv s.now, ?_⟩
    show s.up.recv.bind
      (fun e => (Session.step lib s.hub (Link.hubReads limit e.1 s.now)).map _) = _
    rw [hr, Option.bind_some, hu]
    rfl
  | tether b =>
    change (if Link.tetherOwn b then _ else none) = some s' at h
    split at h
    · next ho =>
      obtain ⟨t, ht, rfl⟩ := Option.map_eq_some_iff.mp h
      refine .inr ⟨.tether b, ?_⟩
      show (if Link.tetherOwn b then (s.tether.tunnel.step b).map _ else none) = _
      rw [if_pos ho, (task_tunnel ht).1]
      rfl
    · cases h
  | dead =>
    change (s.tether.step .dead).map (fun t => { s with tether := t }) = some s' at h
    obtain ⟨t, ht, rfl⟩ := Option.map_eq_some_iff.mp h
    refine .inr ⟨.tether .exit, ?_⟩
    show (s.tether.tunnel.step .exit).map _ = _
    rw [(dead_tunnel ht).1]
    rfl
  | tetherWrite =>
    obtain ⟨e, hr, h⟩ := Option.bind_eq_some_iff.mp h
    obtain ⟨t, ht, rfl⟩ := Option.map_eq_some_iff.mp h
    refine .inr ⟨.tetherWrite, ?_⟩
    show s.tether.tunnel.tx.recv.bind (fun e => (s.tether.tunnel.step .write).map _) = _
    rw [hr, Option.bind_some, (task_tunnel ht).1]
    rfl
  | tetherRecv =>
    obtain ⟨e, hr, h⟩ := Option.bind_eq_some_iff.mp h
    obtain ⟨t, ht, rfl⟩ := Option.map_eq_some_iff.mp h
    refine .inr ⟨.tetherRecv, ?_⟩
    show s.down.recv.bind
      (fun e => (s.tether.tunnel.step (Link.tetherReads limit e.1)).map _) = _
    rw [hr, Option.bind_some, (task_tunnel ht).1]
    rfl

end

end TimedLink

end AnvilRing
