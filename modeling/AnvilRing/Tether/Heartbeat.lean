import AnvilRing.Tether.Streams

/-!
# The tether's heartbeat

`Heartbeat` of a session with the timers of `run_session`, over the session's own machine: the PING
tick, the dead deadline, the count of overdue PONGs and the deadline of the next one.

* `Heartbeat.reset`          the re-arm behind the `match frame` of the inbound arm;
* `TimedTunnel.step`         a session with its clock; every step of it is one of `Tunnel.step`, or
                             time passes (`step_tunnel`);
* `Handles s f s'`           the loop takes up the frame `f` and is back at `select!`;
* `Handles.heartbeat`        what that does to the heartbeat;
* `frame_rearms_iff`         the frames that count as proof of life;
* `pong_watch_iff`           the runs in which a missed PONG is detected.
-/

namespace AnvilRing
open Wire

/-- `PING_INTERVAL`, in nanoseconds -/
def pingInterval : Nat := 10000000000

/-- `PING_TIMEOUT` -/
def pingTimeout : Nat := 25000000000

/-- the two timers are the instants at which they fire -/
structure Heartbeat where
  pingTick : Nat
  dead : Nat
  overdue : Nat := 0
  pongDeadline : Option Nat := none
  deriving DecidableEq, Repr

namespace Heartbeat

def new (now : Nat) : Heartbeat := { pingTick := now + pingInterval, dead := now + pingTimeout }

def markAlive (hb : Heartbeat) : Heartbeat := { hb with overdue := 0 }

/-- a deadline that has passed is one more overdue; at three the dead deadline is now -/
def reset (hb : Heartbeat) (now : Nat) : Heartbeat :=
  let overdue := match hb.pongDeadline with
    | some dl => if dl ≤ now then hb.overdue + 1 else hb.overdue
    | none => hb.overdue
  { hb with
    pingTick := now + pingInterval
    overdue := overdue
    dead := if 3 ≤ overdue then now else now + pingTimeout }

end Heartbeat

structure TimedTunnel where
  tunnel : Tunnel
  hb : Heartbeat
  now : Nat
  /-- `hb.reset()` is ahead, behind the END that the loop is about to send -/
  rearm : Bool := false
  /-- history: when the loop last took up a tunnel frame, at first when the session began -/
  heard : Nat
  /-- history: when the last PING was sent, if no PONG came since -/
  unanswered : Option Nat := none

inductive TimedAction where
  | wait (d : Nat)
  /-- the dead deadline fires -/
  | dead
  | task (a : TunnelAction)
  deriving DecidableEq, Repr

namespace TimedTunnel

def new (now : Nat) : TimedTunnel :=
  { tunnel := .new, hb := .new now, now := now, heard := now }

/-- `hb.reset()` -/
def rearmed (s : TimedTunnel) : TimedTunnel := { s with hb := s.hb.reset s.now, rearm := false }

/-- the PONG arm; the other arms leave the heartbeat to the reset behind them -/
def answered (s : TimedTunnel) (f : Frame) : TimedTunnel :=
  match f with
  | .pong => { s with hb := { s.hb.markAlive with pongDeadline := none }, unanswered := none }
  | _ => s

/-- the inbound arm: behind the `match` the heartbeat is reset, but an OPEN beyond the limit goes on
with the loop right after its END -/
def received (s : TimedTunnel) (m : Message) (t : Tunnel) : TimedTunnel :=
  match tetherDecode m with
  | .ok (some f) =>
    let r := { s.answered f with tunnel := t, heard := s.now }
    match t.loop with
    | .select => r.rearmed
    | .reply _ _ => { r with rearm := f.opens.isNone }
    | .finished => r
  | _ => { s with tunnel := t }

/-- the END of a stream that was refused or given up -/
def replied (s : TimedTunnel) (t : Tunnel) : TimedTunnel :=
  if t.loop = .select ∧ s.rearm then rearmed { s with tunnel := t } else { s with tunnel := t }

/-- the PING tick, armed again once the PING is sent -/
def ticked (s : TimedTunnel) (t : Tunnel) : TimedTunnel :=
  if t.loop = .select then
    { s with
      tunnel := t
      hb := { s.hb with pingTick := s.now + pingInterval }
      unanswered := some s.now }
  else { s with tunnel := t }

def step (s : TimedTunnel) : TimedAction → Option TimedTunnel
  | .wait d => some { s with now := s.now + d }
  | .dead =>
    if s.hb.dead ≤ s.now then s.tunnel.exit.map fun t => { s with tunnel := t } else none
  | .task a =>
    match a with
    | .recv m => (s.tunnel.recv m).map (s.received m)
    | .reply => s.tunnel.replyStep.map s.replied
    | .pingTick => if s.hb.pingTick ≤ s.now then s.tunnel.pingTick.map s.ticked else none
    | a => (s.tunnel.step a).map fun t => { s with tunnel := t }

/-- the states of all runs of sessions, whenever they began -/
abbrev Reachable (s : TimedTunnel) : Prop := Machine.Reachable step (fun s => ∃ now, s = new now) s

end TimedTunnel

/-- the tether refuses the frame: an OPEN beyond the limit -/
def Tunnel.TurnsAway (t : Tunnel) (f : Frame) : Prop :=
  f.opens.isSome = true ∧ maxConcurrentStreams ≤ t.streams.size

namespace TimedTunnel

section
variable {s s' : TimedTunnel} {t u : Tunnel} {a : TunnelAction} {f : Frame} {m : Message}
  {i : UInt16} {r : Bytes}

@[simp] theorem answered_now (s : TimedTunnel) (f : Frame) : (s.answered f).now = s.now := by
  cases f <;> rfl

/-! ## where a frame leaves the loop -/

theorem frame_inj {g : Frame} (hf : tetherDecode m = .ok (some f))
    (hg : tetherDecode m = .ok (some g)) : f = g :=
  Option.some.inj (Except.ok.inj (hf.symm.trans hg))

theorem recv_loop (h : t.recv m = some u) (hm : tetherDecode m = .ok (some f))
    (hu : u.loop ≠ .finished) :
    u.loop = .select ∧ ¬ t.TurnsAway f ∨
      (∃ i r, u.loop = .reply i r) ∧ (f.opens.isNone = true ↔ ¬ t.TurnsAway f) := by
  have hquiet : ∀ g : Frame, g.opens = none → ¬ t.TurnsAway g := by
    intro g hg hr
    rw [Tunnel.TurnsAway, hg] at hr
    cases hr.1
  cases Tunnel.move_recv h with
  | leave _ => exact absurd rfl hu
  | quiet hq =>
    rw [hm] at hq
    cases hq
  | leaveOn _ _ _ => exact absurd rfl hu
  | pong _ hf =>
    obtain rfl := frame_inj hm hf
    exact .inl ⟨rfl, hquiet _ rfl⟩
  | ignore hl hf ho _ _ =>
    obtain rfl := frame_inj hm hf
    exact .inl ⟨hl, hquiet _ ho⟩
  | refuse _ hf hn =>
    obtain rfl := frame_inj hm hf
    exact .inr ⟨⟨_, _, rfl⟩, fun h => (by cases h), fun h => absurd ⟨rfl, hn⟩ h⟩
  | @spawn _ id head hl hf hn =>
    obtain rfl := frame_inj hm hf
    have hloop := Tunnel.spawn_loop t id head
    exact .inl ⟨hloop.trans hl, fun h => absurd h.2 (Nat.not_le_of_lt hn)⟩
  | queue hl hf hup _ _ =>
    obtain rfl := frame_inj hm hf
    exact .inl ⟨hl, hquiet _ (upload_not_opens hup)⟩
  | exceed _ hf hup _ =>
    obtain rfl := frame_inj hm hf
    have ho := upload_not_opens hup
    exact .inr ⟨⟨_, _, rfl⟩, fun _ => hquiet _ ho, fun _ => by rw [ho]; rfl⟩
  | «end» hl hf =>
    obtain rfl := frame_inj hm hf
    exact .inl ⟨(Tunnel.remove_loop ..).trans hl, hquiet _ rfl⟩

theorem recv_select (h : t.recv m = some u) : t.loop = .select := by
  unfold Tunnel.recv at h
  split at h
  · next hl => exact hl
  · cases h

/-- no other step of a session moves its loop, but to the end -/
theorem step_loop (h : t.step a = some u) (hrecv : ∀ m, a ≠ .recv m) (hreply : a ≠ .reply) :
    u.loop = t.loop ∨ u.loop = .finished := by
  cases Tunnel.move_of_step h with
  | leave _ => exact .inr rfl
  | reply _ => exact absurd rfl hreply
  | complete hl _ => exact .inl (Tunnel.remove_loop ..)
  | ping hl => exact .inl hl.symm
  | goAway _ => exact .inr rfl
  | engine _ => exact .inl rfl
  | sent _ => exact .inl rfl
  | sendFailed _ => exact .inl rfl
  | endSent _ => exact .inl rfl
  | endFailed _ => exact .inl rfl
  | completed _ => exact .inl rfl
  | cancel _ => exact .inl rfl
  | poll _ => exact .inl rfl
  | dropInput => exact .inl rfl
  | write _ => exact .inl rfl
  | writerEnd => exact .inl rfl
  | _ => exact absurd rfl (hrecv _)

/-- while the END is ahead, the loop takes no other step -/
theorem step_waiting (hl : t.loop = .reply i r) (h : t.step a = some u) (ha : a ≠ .reply) :
    u.loop = .reply i r := by
  have hbusy : t.loop ≠ .select := by
    rw [hl]
    exact fun hx => (by cases hx)
  cases a with
  | recv m =>
    rw [Tunnel.step, Tunnel.recv, if_neg hbusy] at h
    cases h
  | reply => exact absurd rfl ha
  | complete =>
    rw [Tunnel.step, Tunnel.complete, hl] at h
    cases h
  | pingTick =>
    rw [Tunnel.step, Tunnel.pingTick, if_neg hbusy] at h
    cases h
  | leaseTick =>
    rw [Tunnel.step, Tunnel.leaseTick, if_neg hbusy] at h
    cases h
  | exit =>
    rw [Tunnel.step, Tunnel.exit, if_neg hbusy] at h
    cases h
  | engine k e =>
    obtain ⟨p, _, rfl⟩ := Option.map_eq_some_iff.mp h
    exact hl
  | pumpSend k =>
    rw [Tunnel.step, Tunnel.pumpSend] at h
    split at h
    · split at h
      · exact Option.some.inj h ▸ hl
      · split at h
        · exact Option.some.inj h ▸ hl
        · cases h
    · split at h
      · exact Option.some.inj h ▸ hl
      · split at h
        · exact Option.some.inj h ▸ hl
        · cases h
    · exact Option.some.inj h ▸ hl
    · cases h
  | cancel k =>
    obtain ⟨p, _, rfl⟩ := Option.map_eq_some_iff.mp h
    exact hl
  | poll k =>
    obtain ⟨p, _, rfl⟩ := Option.map_eq_some_iff.mp h
    exact hl
  | dropInput k => exact Option.some.inj h ▸ hl
  | write =>
    rw [Tunnel.step, Tunnel.write] at h
    split at h
    · cases h
    · obtain ⟨e, _, rfl⟩ := Option.map_eq_some_iff.mp h
      exact hl
  | writerEnd => exact Option.some.inj h ▸ hl

end

/-! ## every step is a beat -/

/-- what a step can do -/
inductive Beat (s : TimedTunnel) : TimedAction → TimedTunnel → Prop where
  | wait (d : Nat) : Beat s (.wait d) { s with now := s.now + d }
  | dead {t : Tunnel} (hd : s.hb.dead ≤ s.now) (ht : s.tunnel.exit = some t) :
      Beat s .dead { s with tunnel := t }
  /-- a frame, with the reset behind it -/
  | frame {m : Message} {f : Frame} {t : Tunnel} (hm : tetherDecode m = .ok (some f))
      (ht : s.tunnel.recv m = some t) (hl : t.loop = .select) :
      Beat s (.task (.recv m)) (rearmed { s.answered f with tunnel := t, heard := s.now })
  /-- a frame that the loop answers with END first -/
  | held {m : Message} {f : Frame} {t : Tunnel} {i : UInt16} {r : Bytes}
      (hm : tetherDecode m = .ok (some f)) (ht : s.tunnel.recv m = some t)
      (hl : t.loop = .reply i r) :
      Beat s (.task (.recv m))
        { s.answered f with tunnel := t, heard := s.now, rearm := f.opens.isNone }
  /-- a frame with which the session ends -/
  | last {m : Message} {f : Frame} {t : Tunnel} (hm : tetherDecode m = .ok (some f))
      (ht : s.tunnel.recv m = some t) (hl : t.loop = .finished) :
      Beat s (.task (.recv m)) { s.answered f with tunnel := t, heard := s.now }
  | replied {t : Tunnel} (ht : s.tunnel.step .reply = some t) (hl : t.loop = .select)
      (hr : s.rearm = true) : Beat s (.task .reply) (rearmed { s with tunnel := t })
  | refused {t : Tunnel} (ht : s.tunnel.step .reply = some t) (hl : t.loop = .select)
      (hr : s.rearm = false) : Beat s (.task .reply) { s with tunnel := t }
  | pinged {t : Tunnel} (ht : s.tunnel.step .pingTick = some t) (hl : t.loop = .select) :
      Beat s (.task .pingTick)
        { s with
          tunnel := t
          hb := { s.hb with pingTick := s.now + pingInterval }
          unanswered := some s.now }
  | other {a : TunnelAction} {t : Tunnel} (ht : s.tunnel.step a = some t)
      (hl : t.loop = s.tunnel.loop ∨ t.loop = .finished)
      (hm : ∀ m f, a = .recv m → tetherDecode m ≠ .ok (some f)) :
      Beat s (.task a) { s with tunnel := t }

section
variable {s s' : TimedTunnel} {t : Tunnel} {a : TunnelAction} {b : TimedAction} {f : Frame}
  {m : Message}

theorem beat_recv (h : s.tunnel.recv m = some t) : Beat s (.task (.recv m)) (s.received m t) := by
  unfold received
  have hstep : s.tunnel.step (.recv m) = some t := h
  have hquiet : (∀ f, tetherDecode m ≠ .ok (some f)) →
      Beat s (.task (.recv m)) { s with tunnel := t } := by
    intro hno
    refine .other hstep ?_ fun m' f he => ?_
    · cases Tunnel.move_recv h with
      | leave _ => exact .inr rfl
      | quiet _ => exact .inl rfl
      | leaveOn _ hf _ => exact absurd hf (hno _)
      | pong _ hf => exact absurd hf (hno _)
      | ignore _ hf _ _ _ => exact absurd hf (hno _)
      | refuse _ hf _ => exact absurd hf (hno _)
      | spawn _ hf _ => exact absurd hf (hno _)
      | queue _ hf _ _ _ => exact absurd hf (hno _)
      | exceed _ hf _ _ => exact absurd hf (hno _)
      | «end» _ hf => exact absurd hf (hno _)
    · obtain rfl := TunnelAction.recv.inj he
      exact hno f
  cases hm : tetherDecode m with
  | error e =>
    refine hquiet fun f hf => ?_
    rw [hm] at hf
    cases hf
  | ok o =>
    cases o with
    | none =>
      refine hquiet fun f hf => ?_
      rw [hm] at hf
      cases hf
    | some f =>
      simp only
      cases hl : t.loop with
      | select => exact .frame hm h hl
      | reply i r => exact .held hm h hl
      | finished => exact .last hm h hl

theorem loop_of_reply (h : s.tunnel.replyStep = some t) :
    t.loop = .select ∨ t.loop = .finished := by
  cases Tunnel.move_of_step (a := .reply) h with
  | leave _ => exact .inr rfl
  | reply _ => exact .inl rfl

theorem loop_of_pingTick (h : s.tunnel.pingTick = some t) :
    t.loop = .select ∨ t.loop = .finished := by
  cases Tunnel.move_of_step (a := .pingTick) h with
  | leave _ => exact .inr rfl
  | ping _ => exact .inl rfl

theorem beat_of_step (h : s.step b = some s') : Beat s b s' := by
  cases b with
  | wait d =>
    obtain rfl := Option.some.inj h
    exact .wait d
  | dead =>
    rw [step] at h
    split at h
    · next hd =>
      obtain ⟨t, ht, rfl⟩ := Option.map_eq_some_iff.mp h
      exact .dead hd ht
    · cases h
  | task a =>
    have hother : (s.tunnel.step a).map (fun t => { s with tunnel := t }) = some s' →
        (∀ m, a ≠ .recv m) → a ≠ .reply → Beat s (.task a) s' := by
      intro h hrecv hreply
      obtain ⟨t, ht, rfl⟩ := Option.map_eq_some_iff.mp h
      exact .other ht (step_loop ht hrecv hreply) fun m _ he => absurd he (hrecv m)
    cases a with
    | recv m =>
      obtain ⟨t, ht, rfl⟩ := Option.map_eq_some_iff.mp h
      exact beat_recv ht
    | reply =>
      obtain ⟨t, ht, rfl⟩ := Option.map_eq_some_iff.mp h
      unfold replied
      rcases loop_of_reply ht with hl | hl
      · split
        · next hr => exact .replied ht hl hr.2
        · next hr => exact .refused ht hl (Bool.eq_false_iff.mpr fun hx => hr ⟨hl, hx⟩)
      · rw [if_neg fun hx => by rw [hl] at hx; cases hx.1]
        exact .other ht (.inr hl) fun m _ he => by cases he
    | pingTick =>
      rw [step] at h
      split at h
      · obtain ⟨t, ht, rfl⟩ := Option.map_eq_some_iff.mp h
        unfold ticked
        rcases loop_of_pingTick ht with hl | hl
        · rw [if_pos hl]
          exact .pinged ht hl
        · rw [if_neg fun hx => by rw [hl] at hx; cases hx]
          exact .other ht (.inr hl) fun m _ he => by cases he
      · cases h
    | _ => exact hother h (fun m he => by cases he) fun he => by cases he

/-- the clock aside, a session does what `Tunnel.step` lets it do -/
theorem step_tunnel (h : s.step b = some s') :
    s'.tunnel = s.tunnel ∨ ∃ a, s.tunnel.step a = some s'.tunnel := by
  cases beat_of_step h with
  | wait _ => exact .inl rfl
  | dead _ ht => exact .inr ⟨.exit, ht⟩
  | frame _ ht _ => exact .inr ⟨.recv _, ht⟩
  | held _ ht _ => exact .inr ⟨.recv _, ht⟩
  | last _ ht _ => exact .inr ⟨.recv _, ht⟩
  | replied ht _ _ => exact .inr ⟨_, ht⟩
  | refused ht _ _ => exact .inr ⟨_, ht⟩
  | pinged ht _ => exact .inr ⟨_, ht⟩
  | other ht _ _ => exact .inr ⟨_, ht⟩

theorem Reachable.tunnel (h : Reachable s) : Tunnel.Reachable s.tunnel := by
  refine Machine.Reachable.invariant (P := fun s => Tunnel.Reachable s.tunnel) ?_ ?_ h
  · rintro _ ⟨now, rfl⟩
    exact .init rfl
  · intro s b s' hs hstep
    rcases step_tunnel hstep with he | ⟨a, ha⟩
    · rw [he]
      exact hs
    · exact hs.step ha

/-! ## the PONG deadline is never set -/

/-- no PONG is awaited and none is overdue -/
def Idle (hb : Heartbeat) : Prop := hb.pongDeadline = none ∧ hb.overdue = 0

theorem Idle.answered (h : Idle s.hb) (f : Frame) : Idle (s.answered f).hb := by
  cases f with
  | pong => exact ⟨rfl, rfl⟩
  | _ => exact h

theorem Idle.reset {hb : Heartbeat} (h : Idle hb) (now : Nat) :
    hb.reset now = { hb with pingTick := now + pingInterval, dead := now + pingTimeout } := by
  obtain ⟨hd, ho⟩ := h
  unfold Heartbeat.reset
  rw [hd, ho]
  rfl

theorem Reachable.idle (h : Reachable s) : Idle s.hb := by
  refine Machine.Reachable.invariant (P := fun s => Idle s.hb) ?_ ?_ h
  · rintro _ ⟨now, rfl⟩
    exact ⟨rfl, rfl⟩
  · intro s b s' hs hstep
    have hreset : ∀ r : TimedTunnel, Idle r.hb → Idle r.rearmed.hb := by
      intro r hr
      show Idle (r.hb.reset r.now)
      rw [hr.reset]
      exact hr
    cases beat_of_step hstep with
    | wait _ => exact hs
    | dead _ _ => exact hs
    | frame _ _ _ => exact hreset _ (hs.answered _)
    | held _ _ _ => exact hs.answered _
    | last _ _ _ => exact hs.answered _
    | replied _ _ _ => exact hreset _ hs
    | refused _ _ _ => exact hs
    | pinged _ _ => exact hs
    | other _ _ _ => exact hs

end

/-! ## a frame, from its arrival to the next `select!` -/

/-- the loop takes up the frame `f` in `s` and is back at `select!` in `s'`, at once or behind the
END that it has to send first, while the other tasks go on -/
inductive Handles (s : TimedTunnel) (f : Frame) (s' : TimedTunnel) : Prop where
  | atOnce {m : Message} (hm : tetherDecode m = .ok (some f))
      (h : s.step (.task (.recv m)) = some s') (hl : s'.tunnel.loop = .select)
  | behind {m : Message} {t u : TimedTunnel} {i : UInt16} {r : Bytes} {bs : List TimedAction}
      (hm : tetherDecode m = .ok (some f)) (h : s.step (.task (.recv m)) = some t)
      (ht : t.tunnel.loop = .reply i r) (hbs : ∀ b ∈ bs, b ≠ .task .reply)
      (hrun : Machine.run step t bs = some u) (hr : u.step (.task .reply) = some s')
      (hl : s'.tunnel.loop = .select)

section
variable {s s' t : TimedTunnel} {f : Frame} {b : TimedAction} {i : UInt16} {r : Bytes}

/-- what the other tasks leave alone while the END is ahead -/
structure Waits (s t : TimedTunnel) : Prop where
  loop : t.tunnel.loop = s.tunnel.loop
  hb : t.hb = s.hb
  rearm : t.rearm = s.rearm
  unanswered : t.unanswered = s.unanswered
  now : s.now ≤ t.now

theorem Waits.step {u : TimedTunnel} (h : Waits s t) (hl : s.tunnel.loop = .reply i r)
    (hb : b ≠ .task .reply) (hstep : t.step b = some u) : Waits s u := by
  have hlt : t.tunnel.loop = .reply i r := h.loop.trans hl
  have hbusy : t.tunnel.loop ≠ .select := by
    rw [hlt]
    exact fun hx => (by cases hx)
  cases beat_of_step hstep with
  | wait d => exact ⟨h.loop, h.hb, h.rearm, h.unanswered, h.now.trans (Nat.le_add_right _ _)⟩
  | dead _ ht =>
    rw [Tunnel.exit, if_neg hbusy] at ht
    cases ht
  | frame _ ht _ => exact absurd (recv_select ht) hbusy
  | held _ ht _ => exact absurd (recv_select ht) hbusy
  | last _ ht _ => exact absurd (recv_select ht) hbusy
  | replied _ _ _ => exact absurd rfl hb
  | refused _ _ _ => exact absurd rfl hb
  | pinged ht _ =>
    rw [Tunnel.step, Tunnel.pingTick, if_neg hbusy] at ht
    cases ht
  | other ht _ _ =>
    have hloop := step_waiting hlt ht fun he => hb (congrArg TimedAction.task he)
    exact ⟨hloop.trans hl.symm, h.hb, h.rearm, h.unanswered, h.now⟩

theorem waits_run {u : TimedTunnel} {bs : List TimedAction} (hl : s.tunnel.loop = .reply i r)
    (hbs : ∀ b ∈ bs, b ≠ .task .reply) (hrun : Machine.run TimedTunnel.step s bs = some u) :
    Waits s u :=
  Machine.run_invariant_of (fun _ _ _ hb h hstep => h.step hl hb hstep) hbs
    ⟨rfl, rfl, rfl, rfl, le_rfl⟩ hrun

/-- **what a handled frame does to the heartbeat**: the arm of the frame, and the reset behind it
unless the frame is an OPEN that is refused -/
theorem Handles.heartbeat (h : Handles s f s') :
    s.now ≤ s'.now ∧ s'.unanswered = (s.answered f).unanswered ∧
      (s.tunnel.TurnsAway f → s'.hb = (s.answered f).hb) ∧
      (¬ s.tunnel.TurnsAway f → s'.hb = (s.answered f).hb.reset s'.now) := by
  cases h with
  | atOnce hm h hl =>
    cases beat_of_step h with
    | frame hf ht hsel =>
      obtain rfl := frame_inj hm hf
      have hno : ¬ s.tunnel.TurnsAway f := by
        rcases recv_loop ht hm (by rw [hsel]; exact fun hx => (by cases hx)) with hx | hx
        · exact hx.2
        · obtain ⟨⟨i, r, hx⟩, _⟩ := hx
          rw [hsel] at hx
          cases hx
      refine ⟨?_, rfl, fun hx => absurd hx hno, fun _ => ?_⟩
      · exact (answered_now s f).ge
      · rfl
    | held _ _ hrep =>
      cases hrep.symm.trans hl
    | last _ _ hfin => cases hfin.symm.trans hl
    | other _ _ hno => exact absurd hm (hno _ f rfl)
  | behind hm h ht hbs hrun hr hl =>
    cases beat_of_step h with
    | frame _ _ hsel => cases hsel.symm.trans ht
    | last _ _ hfin => cases hfin.symm.trans ht
    | other _ _ hno => exact absurd hm (hno _ f rfl)
    | held hf hrecv hrep =>
      obtain rfl := frame_inj hm hf
      have hw := waits_run ht hbs hrun
      have hopens : f.opens.isNone = true ↔ ¬ s.tunnel.TurnsAway f := by
        rcases recv_loop hrecv hm (by rw [hrep]; exact fun hx => (by cases hx)) with hx | hx
        · cases hrep.symm.trans hx.1
        · exact hx.2
      have hnow : s.now ≤ _ := (answered_now s f).ge.trans hw.now
      cases beat_of_step hr with
      | replied _ _ hrearm =>
        have hno := hopens.mp (hw.rearm.symm.trans hrearm)
        refine ⟨hnow, hw.unanswered, fun hx => absurd hx hno, fun _ => ?_⟩
        show Heartbeat.reset _ _ = _
        rw [hw.hb]
        rfl
      | refused _ _ hrearm =>
        refine ⟨hnow, hw.unanswered, fun _ => hw.hb, fun hno => ?_⟩
        have := hw.rearm.symm.trans hrearm
        rw [hopens.mpr hno] at this
        cases this
      | other _ hloop _ =>
        have hlu := hw.loop.trans ht
        rcases hloop with hx | hx
        · cases hlu.symm.trans (hx.symm.trans hl)
        · cases hx.symm.trans hl

end

/-! ## proof of life -/

/-- the step takes up an OPEN that the tether refuses -/
def Refusal (s : TimedTunnel) (b : TimedAction) : Prop :=
  ∃ m f, b = .task (.recv m) ∧ tetherDecode m = .ok (some f) ∧ s.tunnel.TurnsAway f

section
variable {s s' : TimedTunnel} {t u : Tunnel} {f : Frame} {b : TimedAction}

@[simp] theorem answered_dead (s : TimedTunnel) (f : Frame) :
    (s.answered f).hb.dead = s.hb.dead := by
  cases f <;> rfl

theorem select_of_pingTick (h : t.step .pingTick = some u) : t.loop = .select := by
  rw [Tunnel.step, Tunnel.pingTick] at h
  split at h
  · next hl => exact hl
  · cases h

theorem select_of_exit (h : t.exit = some u) : t.loop = .select ∧ u.loop = .finished := by
  unfold Tunnel.exit at h
  split at h
  · next hl =>
    obtain rfl := Option.some.inj h
    exact ⟨hl, rfl⟩
  · cases h

theorem reply_of_step (h : t.step .reply = some u) : ∃ i r, t.loop = .reply i r := by
  rw [Tunnel.step, Tunnel.replyStep] at h
  split at h
  · next i r hl => exact ⟨i, r, hl⟩
  · cases h

/-- the dead deadline is behind the last frame, or the reset behind that frame is still to come -/
structure Fresh (s : TimedTunnel) : Prop where
  heard : s.heard ≤ s.now
  dead : s.tunnel.loop = .select → s.heard + pingTimeout ≤ s.hb.dead
  rearm : ∀ i r, s.tunnel.loop = .reply i r → s.rearm = true

theorem Fresh.finished (h : s.heard ≤ s.now) (hl : s.tunnel.loop = .finished) : Fresh s :=
  ⟨h, fun hx => (by cases hl.symm.trans hx), fun _ _ hx => (by cases hl.symm.trans hx)⟩

/-- the reset at the heartbeat of a reachable session -/
theorem Fresh.rearmed (h : s.heard ≤ s.now) (hi : Idle s.hb) (hl : s.tunnel.loop = .select) :
    Fresh s.rearmed where
  heard := h
  dead _ := by
    show s.heard + pingTimeout ≤ (s.hb.reset s.now).dead
    rw [hi.reset]
    exact Nat.add_le_add_right h _
  rearm _ _ hx := by cases hl.symm.trans hx

theorem Fresh.beat (h : Fresh s) (hi : Idle s.hb) (hb : Beat s b s') (hno : ¬ Refusal s b) :
    Fresh s' := by
  have hnow : ∀ f, s.now ≤ (s.answered f).now := fun f => (answered_now s f).ge
  cases hb with
  | wait d => exact ⟨h.heard.trans (Nat.le_add_right _ _), h.dead, h.rearm⟩
  | dead _ ht => exact .finished h.heard (select_of_exit ht).2
  | @frame _ f t hm ht hl => exact Fresh.rearmed (hnow f) (hi.answered f) hl
  | @held m f t i r hm ht hl =>
    refine ⟨hnow f, fun hx => (by cases hl.symm.trans hx), fun _ _ _ => ?_⟩
    rcases recv_loop ht hm (by rw [hl]; exact fun hx => (by cases hx)) with hx | hx
    · cases hl.symm.trans hx.1
    · exact hx.2.mpr fun hr => hno ⟨m, f, rfl, hm, hr⟩
  | @last _ f _ _ _ hl => exact .finished (hnow f) hl
  | replied _ hl _ => exact Fresh.rearmed h.heard hi hl
  | refused ht _ hr =>
    obtain ⟨i, r, hl⟩ := reply_of_step ht
    cases hr.symm.trans (h.rearm i r hl)
  | pinged ht hl =>
    exact ⟨h.heard, fun _ => h.dead (select_of_pingTick ht),
      fun _ _ hx => (by cases hl.symm.trans hx)⟩
  | other _ hl _ =>
    rcases hl with hl | hl
    · exact ⟨h.heard, fun hx => h.dead (hl.symm.trans hx),
        fun i r hx => h.rearm i r (hl.symm.trans hx)⟩
    · exact .finished h.heard hl

/-- as long as no OPEN is refused -/
theorem fresh_of_reachable
    (h : Machine.ReachableWhen step (fun s => ∃ now, s = new now) (fun s b => ¬ Refusal s b) s) :
    Fresh s := by
  refine h.invariant_of ?_ ?_
  · rintro _ ⟨now, rfl⟩
    exact ⟨le_rfl, fun _ => le_rfl, fun _ _ hx => (by cases hx)⟩
  · intro s b s' hr hno hs hstep
    exact hs.beat (Reachable.idle hr) (beat_of_step hstep) hno

/-- **the frames that count as proof of life** are all but an OPEN that is refused: of every other
frame the dead deadline is at least `PING_TIMEOUT` after its arrival; and where no OPEN is refused,
no hub is declared dead of which a frame came within `PING_TIMEOUT` -/
theorem frame_rearms_iff (s s' : TimedTunnel) :
    (∀ f : Frame, Reachable s → Handles s f s' →
      (s.now + pingTimeout ≤ s'.hb.dead ↔
        ¬ s.tunnel.TurnsAway f ∨ s.now + pingTimeout ≤ s.hb.dead)) ∧
    (Machine.ReachableWhen step (fun s => ∃ now, s = new now) (fun s b => ¬ Refusal s b) s →
      s.step .dead = some s' → s.heard + pingTimeout ≤ s.now) := by
  refine ⟨fun f hs h => ?_, fun hs h => ?_⟩
  · obtain ⟨hnow, _, hrefused, hreset⟩ := h.heartbeat
    by_cases hr : s.tunnel.TurnsAway f
    · rw [hrefused hr, answered_dead]
      exact ⟨.inr, fun hx => hx.resolve_left fun hno => hno hr⟩
    · rw [hreset hr, (Reachable.idle hs |>.answered f).reset]
      exact ⟨fun _ => .inl hr, fun _ => Nat.add_le_add_right hnow _⟩
  · cases beat_of_step h with
    | dead hd ht => exact ((fresh_of_reachable hs).dead (select_of_exit ht).1).trans hd

def openings : List TimedAction :=
  (List.range 64).map fun i => .task (.recv (wsMsg (.open (UInt16.ofNat i) [])))

/-- a PONG at the start -/
theorem frame_rearms_iff_pong : ∃ s', Handles (new 0) .pong s' ∧ pingTimeout ≤ s'.hb.dead := by
  have hm : tetherDecode (wsMsg .pong) = .ok (some .pong) := tetherDecode_wsMsg (by decide)
  have hno : ¬ Tunnel.TurnsAway (new 0).tunnel .pong := fun h => (by cases h.1)
  have h : Handles (new 0) .pong _ := .atOnce hm rfl rfl
  have hdead := ((frame_rearms_iff _ _).1 _ (.init ⟨0, rfl⟩) h).mpr (.inl hno)
  exact ⟨_, h, (Nat.zero_add pingTimeout).symm.trans_le hdead⟩

/-- a tether at its limit, and a nanosecond later one more OPEN: before it, at its END, behind it -/
def oneMore : Option (TimedTunnel × TimedTunnel × TimedTunnel) := do
  let s ← Machine.run step (new 0) (openings ++ [.wait 1])
  let t ← s.step (.task (.recv (wsMsg (.open 64 []))))
  let u ← t.step (.task .reply)
  some (s, t, u)

theorem refused_open_unheard :
    ¬ ∀ (s : TimedTunnel) (f : Frame) (s' : TimedTunnel), Reachable s → s.hb.overdue < 3 →
      Handles s f s' → s.now + pingTimeout ≤ s'.hb.dead := by
  intro h
  have hm : tetherDecode (wsMsg (.open 64 [])) = .ok (some (.open 64 [])) :=
    tetherDecode_wsMsg (by decide)
  have hfacts : oneMore.any (fun p => p.1.now == 1
      && p.2.1.tunnel.loop == .reply 64 Tunnel.overloaded
      && p.2.2.tunnel.loop == .select && p.2.2.hb.dead == pingTimeout) = true := by
    decide +kernel
  obtain ⟨p, hp, hfacts⟩ := (Option.any_eq_true _ _).mp hfacts
  rw [oneMore] at hp
  obtain ⟨s, hs, hp⟩ := Option.bind_eq_some_iff.mp hp
  obtain ⟨t, hrecv, hp⟩ := Option.bind_eq_some_iff.mp hp
  obtain ⟨u, hreply, hp⟩ := Option.bind_eq_some_iff.mp hp
  obtain rfl := Option.some.inj hp
  simp only [Bool.and_eq_true, beq_iff_eq] at hfacts
  obtain ⟨⟨⟨hnow, hloop⟩, hsel⟩, hdead⟩ := hfacts
  have hr : Reachable s := Machine.Reachable.run (.init ⟨0, rfl⟩) hs
  have hhandles : Handles s (.open 64 []) u :=
    .behind hm hrecv hloop (List.forall_mem_nil _) rfl hreply hsel
  have hlate := h s _ u hr (by rw [(Reachable.idle hr).2]; decide) hhandles
  rw [hnow, hdead] at hlate
  exact absurd hlate (by decide)

end

/-! ## missed PONGs -/

/-- the tick finds room for its PING -/
def SendsPing (s : TimedTunnel) (b : TimedAction) : Prop :=
  b = .task .pingTick ∧ ∃ tx, s.tunnel.tx.trySend wsWriterCapacity .ping = .ok tx

/-- missed PONGs are detected, where the deadline of a PING sent at `t` is `δ t` -/
structure Watched (δ : Nat → Nat) (s : TimedTunnel) : Prop where
  /-- while a PING is unanswered its deadline is held -/
  deadline : ∀ t, s.unanswered = some t → s.hb.pongDeadline = some (δ t)
  /-- a frame that is handled behind the deadline counts, if it is not the PONG -/
  counted : ∀ f s', Handles s f s' → f ≠ .pong → ∀ t, s.unanswered = some t → δ t ≤ s.now →
    s'.hb.overdue = s.hb.overdue + 1
  /-- the PONG resets the count -/
  answered : ∀ s', Handles s .pong s' → s'.hb.overdue = 0
  /-- at three the dead deadline is the present -/
  fires : ∀ f s', Handles s f s' → 3 ≤ s'.hb.overdue → s'.hb.dead ≤ s'.now

section
variable {δ : Nat → Nat} {s s' : TimedTunnel} {b : TimedAction} {t : Tunnel} {f : Frame}

theorem sendsPing_iff (hl : s.tunnel.loop = .select) :
    (∃ t, s.tunnel.pingTick = some t ∧ t.loop = .select) ↔
      ∃ tx, s.tunnel.tx.trySend wsWriterCapacity .ping = .ok tx := by
  rw [Tunnel.pingTick, if_pos hl]
  unfold Tunnel.loopSend
  cases s.tunnel.tx.trySend wsWriterCapacity .ping with
  | ok tx => exact ⟨fun _ => ⟨tx, rfl⟩, fun _ => ⟨_, rfl, rfl⟩⟩
  | error e =>
    refine ⟨fun ⟨t, ht, hsel⟩ => ?_, fun ⟨_, htx⟩ => (by cases htx)⟩
    obtain rfl := Option.some.inj ht
    cases hsel

/-- what a PING leaves behind -/
theorem unanswered_of_sendsPing (hb : SendsPing s b) (h : s.step b = some s') :
    s'.unanswered = some s.now := by
  obtain ⟨rfl, hroom⟩ := hb
  rw [step] at h
  split at h
  · obtain ⟨t, ht, rfl⟩ := Option.map_eq_some_iff.mp h
    obtain ⟨u, hu, hsel⟩ := (sendsPing_iff (select_of_pingTick ht)).mpr hroom
    obtain rfl := Option.some.inj (hu.symm.trans ht)
    rw [ticked, if_pos hsel]
  · cases h

/-- where no PING is sent none is unanswered -/
theorem unanswered_none
    (h : Machine.ReachableWhen step (fun s => ∃ now, s = new now) (fun s b => ¬ SendsPing s b) s) :
    s.unanswered = none := by
  have hanswered : ∀ (s : TimedTunnel) (f : Frame), s.unanswered = none →
      (s.answered f).unanswered = none := by
    intro s f hs
    cases f with
    | pong => rfl
    | _ => exact hs
  refine h.invariant_of (P := fun s => s.unanswered = none) ?_ ?_
  · rintro _ ⟨now, rfl⟩
    rfl
  · intro s b s' _ hno hs hstep
    cases beat_of_step hstep with
    | wait _ => exact hs
    | dead _ _ => exact hs
    | frame _ _ _ => exact hanswered _ _ hs
    | held _ _ _ => exact hanswered _ _ hs
    | last _ _ _ => exact hanswered _ _ hs
    | replied _ _ _ => exact hs
    | refused _ _ _ => exact hs
    | pinged ht hl =>
      exact absurd ⟨rfl, (sendsPing_iff (select_of_pingTick ht)).mp ⟨_, ht, hl⟩⟩ hno
    | other _ _ _ => exact hs

/-- in a reachable session no PONG ever comes to be overdue -/
theorem Handles.overdue (hs : Reachable s) (h : Handles s f s') : s'.hb.overdue = 0 := by
  have hidle := (Reachable.idle hs).answered f
  obtain ⟨_, _, hrefused, hreset⟩ := h.heartbeat
  by_cases hr : s.tunnel.TurnsAway f
  · rw [hrefused hr]
    exact hidle.2
  · rw [hreset hr, hidle.reset]
    exact hidle.2

/-- **missed PONGs are detected in a run if and only if it sends no PING**: no deadline is ever set,
whatever way of deriving one is meant -/
theorem pong_watch_iff (δ : Nat → Nat) {now : Nat} {as : List TimedAction}
    (h : Machine.run step (new now) as = some s) :
    (∀ bs cs u, as = bs ++ cs → Machine.run step (new now) bs = some u → Watched δ u) ↔
      ∀ bs b cs u, as = bs ++ b :: cs → Machine.run step (new now) bs = some u →
        ¬ SendsPing u b := by
  refine ⟨fun hw bs b cs u hsplit hu hping => ?_, fun hno bs cs u hsplit hu => ?_⟩
  · rw [hsplit] at h
    obtain ⟨u', hu', hrest⟩ := Machine.run_append_some.mp h
    obtain rfl := Option.some.inj (hu.symm.trans hu')
    obtain ⟨v, hv, _⟩ := Machine.run_cons_some.mp hrest
    have hrun : Machine.run step (new now) (bs ++ [b]) = some v :=
      Machine.run_append_some.mpr ⟨u, hu, Machine.run_cons_some.mpr ⟨v, hv, rfl⟩⟩
    have hdeadline := (hw (bs ++ [b]) cs v (by rw [hsplit]; simp) hrun).deadline _
      (unanswered_of_sendsPing hping hv)
    have hidle : Idle v.hb := Reachable.idle (Machine.Reachable.run (.init ⟨now, rfl⟩) hrun)
    rw [hidle.1] at hdeadline
    cases hdeadline
  · have hinit : Machine.ReachableWhen step (fun s => ∃ now, s = new now)
        (fun s b => ¬ SendsPing s b) (new now) := .init ⟨now, rfl⟩
    have hwhen := hinit.run_of hu fun ds b es v hd hv =>
      hno ds b (es ++ cs) v (by rw [hsplit, hd]; simp) hv
    have hnone := unanswered_none hwhen
    have hr : Reachable u := hwhen.reachable
    constructor
    · intro t ht
      cases hnone.symm.trans ht
    · intro _ _ _ _ t ht _
      cases hnone.symm.trans ht
    · exact fun _ h => h.overdue hr
    · intro _ _ h hthree
      rw [h.overdue hr] at hthree
      cases hthree

/-- a session that has only begun -/
theorem pong_watch_iff_new : Watched (· + pingTimeout) (new 0) := by
  have hrun : Machine.run step (new 0) [] = some (new 0) := rfl
  have hno : ∀ bs b cs u, [] = bs ++ b :: cs → Machine.run step (new 0) bs = some u →
      ¬ SendsPing u b := by
    intro bs b cs u hsplit
    simp at hsplit
  exact (pong_watch_iff (· + pingTimeout) hrun).mpr hno [] [] (new 0) rfl rfl

/-- ten seconds, and the first PING -/
theorem ping_unwatched :
    ¬ ∀ (δ : Nat → Nat) (now : Nat) (as : List TimedAction) (s : TimedTunnel),
      Machine.run step (new now) as = some s → Watched δ s := by
  intro h
  obtain ⟨s, hs⟩ : ∃ s, Machine.run step (new 0) [.wait pingInterval, .task .pingTick] = some s :=
    ⟨_, rfl⟩
  have hping : s.unanswered = some pingInterval := by
    obtain rfl := Option.some.inj hs
    rfl
  have hidle : Idle s.hb := Reachable.idle (Machine.Reachable.run (.init ⟨0, rfl⟩) hs)
  have hdeadline := (h (· + pingTimeout) 0 _ s hs).deadline _ hping
  rw [hidle.1] at hdeadline
  cases hdeadline

end

end TimedTunnel

end AnvilRing
