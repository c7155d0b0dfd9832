import AnvilRing.Lib.Keepalive
import AnvilRing.Link.Timed

/-!
# No party ends a session that is alive

The hub pings at every second or third tick, the tether answers, and the answers keep both of them
from giving the session up: the hub needs a PONG every 45 seconds, the tether a frame every 25.

* `TimedLink.Clocked`     the instants of the two queues;
* `TimedLink.keepalive`   what the liveness of a session rests on; every step is one of
                          `Keepalive.Step`, or time passes (`keepalive_step`);
* `no_false_silence`      while nothing is overdue, no session ends for silence.
-/

namespace AnvilRing
open Wire

def Frame.isPing : Frame → Bool
  | .ping => true
  | _ => false

def Frame.isPong : Frame → Bool
  | .pong => true
  | _ => false

/-! ## the logs of the two parties -/

theorem Session.out_of_move {lib : HttpLib} {s t : Session} {a : SessionAction}
    (hm : Session.Move lib s a t) (h : s.loop.out = true) : t.loop.out = true := by
  cases hm with
  | ownReturned hl | detached hl => rfl
  | frame hl | leave hl | control hl | takeUp hl | headOk hl | headBad hl | dataOk hl | dataBad hl
  | terminate hl | remove hl | reply hl | noReply hl =>
    rw [hl] at h
    cases h
  | _ => exact h

theorem Session.log_prefix_of_move {lib : HttpLib} {s t : Session} {a : SessionAction}
    (hm : Session.Move lib s a t) (hs : s.Sends) : s.tx.log <+: t.tx.log := by
  rcases hm.log hs with hx | ⟨f, -, hx⟩
  · rw [hx]
  · rw [hx]
    exact List.prefix_append _ _

theorem Tunnel.log_of_move {t u : Tunnel} {a : TunnelAction} (hm : Tunnel.Move t a u) :
    t.tx.log <+: u.tx.log := by
  unfold Chan.log
  rcases Link.command_of_move hm with ⟨h1, h2⟩ | ⟨f, h1, h2⟩ | ⟨-, f, h1, h2⟩
  · rw [h1, h2]
  · rw [h1, h2, ← List.append_assoc]
    exact List.prefix_append _ _
  · rw [h1, h2, List.append_assoc]
    exact List.prefix_refl _

namespace Link
variable {lib : HttpLib} {limit : Nat} {l m : Link} {a : LinkAction}

theorem logs_of_move (hl : Reachable lib limit l) (hm : Move lib l a m) :
    l.hub.tx.log <+: m.hub.tx.log ∧ l.tether.tx.log <+: m.tether.tx.log := by
  cases hm with
  | hub hs | hubWrite hr hs | hubRecv hr hs =>
    exact ⟨Session.log_prefix_of_move hs hl.hub.sends, List.prefix_refl _⟩
  | tether ht | tetherWrite hr ht | tetherRecv hr ht =>
    exact ⟨List.prefix_refl _, Tunnel.log_of_move ht⟩

/-- a loop that is over stays over -/
theorem Move.over (hm : Move lib l a m) : (l.hub.loop.out = true → m.hub.loop.out = true) ∧
    (l.tether.loop = .finished → m.tether.loop = .finished) := by
  cases hm with
  | hub hs | hubWrite hr hs | hubRecv hr hs => exact ⟨Session.out_of_move hs, id⟩
  | tether ht | tetherWrite hr ht | tetherRecv hr ht =>
    exact ⟨id, fun hx => (finished_of_move ht hx).1⟩

end Link

namespace TimedLink
variable {lib : HttpLib} {limit delay slack attached welcomed : Nat} {s s' u : TimedLink}
  {a : TimedLinkAction}

/-! ## the instants of the queues -/

structure Clocked (lib : HttpLib) (limit : Nat) (s : TimedLink) : Prop where
  link : Link.Reachable lib limit s.link
  tether : TimedTunnel.Reachable s.tether
  downs : s.downLog.map Prod.fst = s.hub.tx.log
  ups : s.upLog.map Prod.fst = s.tether.tunnel.tx.log
  downNow : ∀ e ∈ s.downLog, e.2 ≤ s.now
  upNow : ∀ e ∈ s.upLog, e.2 ≤ s.now

/-- what a step of the tasks, or of the time, leaves alone -/
theorem move_tether (h : s.move lib limit a = some u) :
    (u.tether = s.tether ∨ ∃ b, s.tether.step b = some u.tether) ∧ s.now ≤ u.now ∧
      u.downLog = s.downLog ∧ u.upLog = s.upLog := by
  have htask : ∀ {b t}, s.tether.step (.task b) = some t → s.now ≤ t.now :=
    fun ht => (task_tunnel ht).2.ge
  cases a with
  | wait d =>
    obtain rfl := Option.some.inj h
    exact ⟨.inr ⟨.wait d, rfl⟩, Nat.le_add_right _ _, rfl, rfl⟩
  | hubTick active =>
    cases ticked_of_hubTick h with
    | exits hx he | pings hq hx he | rests hq hp he =>
      rw [he]
      exact ⟨.inl rfl, le_rfl, rfl, rfl⟩
  | hub b =>
    change (if hubOwn b then _ else none) = some u at h
    split at h
    · obtain ⟨t, -, rfl⟩ := Option.map_eq_some_iff.mp h
      exact ⟨.inl rfl, le_rfl, rfl, rfl⟩
    · cases h
  | hubWrite | hubRecv =>
    obtain ⟨e, -, h⟩ := Option.bind_eq_some_iff.mp h
    obtain ⟨t, -, rfl⟩ := Option.map_eq_some_iff.mp h
    exact ⟨.inl rfl, le_rfl, rfl, rfl⟩
  | tether b =>
    change (if Link.tetherOwn b then _ else none) = some u at h
    split at h
    · obtain ⟨t, ht, rfl⟩ := Option.map_eq_some_iff.mp h
      exact ⟨.inr ⟨_, ht⟩, htask ht, rfl, rfl⟩
    · cases h
  | dead =>
    change (s.tether.step .dead).map (fun t => { s with tether := t }) = some u at h
    obtain ⟨t, ht, rfl⟩ := Option.map_eq_some_iff.mp h
    exact ⟨.inr ⟨_, ht⟩, (dead_tunnel ht).2.ge, rfl, rfl⟩
  | tetherWrite | tetherRecv =>
    obtain ⟨e, -, h⟩ := Option.bind_eq_some_iff.mp h
    obtain ⟨t, ht, rfl⟩ := Option.map_eq_some_iff.mp h
    exact ⟨.inr ⟨_, ht⟩, htask ht, rfl, rfl⟩

theorem Clocked.logs (h : s.Clocked lib limit) (hlimit : limit < 2 ^ 32)
    (hm : s.move lib limit a = some u) :
    (∃ more, u.hub.tx.log = s.hub.tx.log ++ more) ∧
      ∃ more, u.tether.tunnel.tx.log = s.tether.tunnel.tx.log ++ more := by
  have hboth : s.hub.tx.log <+: u.hub.tx.log ∧
      s.tether.tunnel.tx.log <+: u.tether.tunnel.tx.log := by
    rcases move_link hm with heq | ⟨b, hb⟩
    · have h1 : u.hub = s.hub := congrArg Link.hub heq
      have h2 : u.tether.tunnel = s.tether.tunnel := congrArg Link.tether heq
      rw [h1, h2]
      exact ⟨List.prefix_refl _, List.prefix_refl _⟩
    · exact Link.logs_of_move h.link (Link.move_of_step hlimit hb)
  obtain ⟨⟨more, h1⟩, ⟨more', h2⟩⟩ := hboth
  exact ⟨⟨more, h1.symm⟩, ⟨more', h2.symm⟩⟩

theorem stamp_le {now now' : Nat} {old : List (Frame × Nat)} {log more : List Frame}
    (heq : old.map Prod.fst = log) (hold : ∀ e ∈ old, e.2 ≤ now) (hnow : now ≤ now') :
    ∀ e ∈ Probe.stamp now' old (log ++ more), e.2 ≤ now' := by
  intro e he
  rw [Probe.stamp_append heq] at he
  rcases List.mem_append.mp he with he | he
  · exact (hold e he).trans hnow
  · obtain ⟨x, -, rfl⟩ := List.mem_map.mp he
    exact le_rfl

theorem Clocked.step (h : s.Clocked lib limit) (hlimit : limit < 2 ^ 32)
    (hs : step lib limit s a = some s') : s'.Clocked lib limit := by
  obtain ⟨u, hm, rfl⟩ := Option.map_eq_some_iff.mp hs
  obtain ⟨htether, hnow, hdown, hup⟩ := move_tether hm
  obtain ⟨⟨more, hmore⟩, ⟨more', hmore'⟩⟩ := h.logs hlimit hm
  refine ⟨?_, ?_, ?_, ?_, ?_, ?_⟩
  · show Link.Reachable lib limit u.link
    rcases move_link hm with heq | ⟨b, hb⟩
    · rw [heq]
      exact h.link
    · exact h.link.step hb
  · show TimedTunnel.Reachable u.tether
    rcases htether with heq | ⟨b, hb⟩
    · rw [heq]
      exact h.tether
    · exact h.tether.step hb
  · show (Probe.stamp u.now u.downLog u.hub.tx.log).map Prod.fst = u.hub.tx.log
    rw [hdown, hmore]
    exact Probe.map_fst_stamp h.downs _ _
  · show (Probe.stamp u.now u.upLog u.tether.tunnel.tx.log).map Prod.fst = u.tether.tunnel.tx.log
    rw [hup, hmore']
    exact Probe.map_fst_stamp h.ups _ _
  · show ∀ e ∈ Probe.stamp u.now u.downLog u.hub.tx.log, e.2 ≤ u.now
    rw [hdown, hmore]
    exact stamp_le h.downs h.downNow hnow
  · show ∀ e ∈ Probe.stamp u.now u.upLog u.tether.tunnel.tx.log, e.2 ≤ u.now
    rw [hup, hmore']
    exact stamp_le h.ups h.upNow hnow

theorem clocked_begun (id : String) (cred : Bytes) {now : Nat} (hw : welcomed ≤ now) :
    (begun id cred attached welcomed now).Clocked lib limit where
  link := .init ⟨id, cred, attached, rfl⟩
  tether := by
    have hx : Machine.Reachable TimedTunnel.step (fun t => ∃ n, t = TimedTunnel.new n)
        { TimedTunnel.new welcomed with now := welcomed + (now - welcomed) } :=
      Machine.Reachable.step (a := .wait (now - welcomed)) (.init ⟨welcomed, rfl⟩) rfl
    rw [Nat.add_sub_cancel' hw] at hx
    exact hx
  downs := rfl
  ups := rfl
  downNow _ he := absurd he List.not_mem_nil
  upNow _ he := absurd he List.not_mem_nil

/-! ## the keepalive -/

/-- the hub probes with PING, the tether answers with PONG -/
def pace : Keepalive.Pace where
  tick := tetherTick
  interval := tetherPingInterval
  timeout := pingTimeout

def keepalive (s : TimedLink) : Keepalive where
  probes := Probe.times Frame.isPing s.downLog
  taken := Probe.times Frame.isPing (s.downLog.take s.down.taken.length)
  answers := Probe.times Frame.isPong s.upLog
  heard := Probe.times Frame.isPong (s.upLog.take s.up.taken.length)
  tick := s.tick
  lastProbe := s.lastPing
  lastSeen := s.hub.lastSeen
  dead := s.tether.hb.dead

/-- the session goes on at both ends -/
def Running (s : TimedLink) : Prop := s.hub.loop.out = false ∧ s.tether.tunnel.loop ≠ .finished

end TimedLink

/-! ## what a step of either party means for the other -/

theorem Session.lastSeen_of_move {lib : HttpLib} {s t : Session} {a : SessionAction}
    (hm : Session.Move lib s a t) (ha : ∀ m now, a = .recv m now → hubDecode m ≠ .ok (some .pong)) :
    t.lastSeen = s.lastSeen := by
  cases hm with
  | alive hp => exact absurd hp (ha _ _ rfl)
  | _ => rfl

namespace TimedTunnel
variable {s s' : TimedTunnel} {a : TimedAction} {limit : Nat}

/-- the dead deadline is as it was, or armed again -/
theorem dead_of_beat (hi : Idle s.hb) (h : Beat s a s') :
    s'.hb.dead = s.hb.dead ∨ s'.hb.dead = s.now + pingTimeout := by
  have hanswered : ∀ f, (s.answered f).hb.dead = s.hb.dead := by
    intro f
    cases f <;> rfl
  cases h with
  | wait | dead | refused | pinged | other => exact .inl rfl
  | @frame m f t hm ht hl =>
    right
    show ((s.answered f).hb.reset (s.answered f).now).dead = _
    rw [(hi.answered f).reset, answered_now]
  | @held m f t i r hm ht hl | @last m f t hm ht hl => exact .inl (hanswered f)
  | replied ht hl hr =>
    right
    show (s.hb.reset s.now).dead = _
    rw [hi.reset]

theorem now_le_of_beat (h : Beat s a s') : s.now ≤ s'.now := by
  cases h with
  | wait d => exact Nat.le_add_right _ _
  | frame | held | last => exact (answered_now _ _).ge
  | _ => exact le_rfl

/-- the dead deadline is at most `PING_TIMEOUT` ahead -/
theorem Reachable.dead_le (h : Reachable s) : s.hb.dead ≤ s.now + pingTimeout := by
  refine Machine.Reachable.invariant_of (P := fun s => s.hb.dead ≤ s.now + pingTimeout) ?_ ?_ h
  · rintro _ ⟨now, rfl⟩
    exact le_rfl
  · intro s b s' hr hs hstep
    have hb := beat_of_step hstep
    have hnow := now_le_of_beat hb
    rcases dead_of_beat (Reachable.idle hr) hb with hx | hx
    · omega
    · omega

theorem Reachable.dead_mono (h : Reachable s) (hs : s.step a = some s') :
    s.hb.dead ≤ s'.hb.dead := by
  rcases dead_of_beat h.idle (beat_of_step hs) with hx | hx
  · exact hx.ge
  · exact h.dead_le.trans hx.ge

/-- a PING is answered, and the heartbeat is reset behind the answer -/
theorem ping_taken (h : Reachable s) (hs : s.step (.task (Link.tetherReads limit .ping)) = some s')
    (hl : s'.tunnel.loop ≠ .finished) :
    s'.tunnel.tx.log = s.tunnel.tx.log ++ [.pong] ∧ s'.hb.dead = s.now + pingTimeout := by
  unfold Link.tetherReads at hs
  split at hs
  swap
  · obtain ⟨t, ht, rfl⟩ := Option.map_eq_some_iff.mp hs
    exact absurd (select_of_exit ht).2 hl
  have hm : tetherDecode (wsMsg .ping) = .ok (some .ping) := tetherDecode_wsMsg (by decide)
  have hbeat := beat_of_step hs
  obtain ⟨t, ht, rfl⟩ := Option.map_eq_some_iff.mp hs
  have htunnel : (s.received (wsMsg .ping) t).tunnel = t := by
    unfold received
    rw [hm]
    cases hloop : t.loop <;> rfl
  rw [htunnel] at hl ⊢
  change s.tunnel.recv (wsMsg .ping) = some t at ht
  have hsel := recv_select ht
  rw [Tunnel.recv, if_pos hsel, hm] at ht
  obtain rfl := Option.some.inj ht
  change (s.tunnel.loopSend .pong).loop ≠ _ at hl
  show (s.tunnel.loopSend .pong).tx.log = _ ∧ (s.received (wsMsg .ping)
    { s.tunnel.loopSend .pong with received := s.tunnel.received ++ [.ping] }).hb.dead = _
  unfold received
  rw [hm]
  unfold Tunnel.loopSend at hl ⊢
  split at hl
  · next tx htx =>
    obtain ⟨-, -, rfl⟩ := Chan.trySend_ok htx
    refine ⟨Chan.log_push _ _, ?_⟩
    show (s.hb.reset s.now).dead = _
    rw [h.idle.reset]
  · exact absurd rfl hl

end TimedTunnel

/-- only the answer to a PING is a PONG -/
theorem Tunnel.pongs_of_move {t u : Tunnel} {a : TunnelAction} (ht : t.Inv) (hm : Tunnel.Move t a u)
    (ha : ∀ m, a = .recv m → tetherDecode m ≠ .ok (some .ping)) :
    u.tx.log.filter Frame.isPong = t.tx.log.filter Frame.isPong := by
  have hpush : ∀ f : Frame, f.isPong = false →
      (t.tx.push f).log.filter Frame.isPong = t.tx.log.filter Frame.isPong := by
    intro f hf
    rw [Chan.log_push, List.filter_append, List.filter_singleton, hf]
    exact List.append_nil _
  cases hm with
  | pong _ hm => exact absurd hm (ha _ rfl)
  | ping | goAway | reply | endSent => exact hpush _ rfl
  | @sent k f hp =>
    refine hpush f ?_
    have hf := (ht.sending k f hp).1
    cases f with
    | pong => cases hf
    | _ => rfl
  | @spawn m i head =>
    show ((t.spawn i head).tx.log).filter _ = _
    rw [spawn_tx]
  | @exceed m g i | @«end» m i | @complete i =>
    show ((t.remove i).tx.log).filter _ = _
    rw [remove_tx]
  | @write g tx hr =>
    show (tx.log).filter _ = _
    rw [Chan.log_recv hr]
  | _ => rfl

namespace TimedLink
variable {lib : HttpLib} {limit delay slack attached welcomed : Nat} {s s' u : TimedLink}
  {a : TimedLinkAction}

/-! ## every step is one of the keepalive -/

theorem Clocked.down_log (h : s.Clocked lib limit) (hlimit : limit < 2 ^ 32) :
    s.hub.tx.log = s.down.taken ++ (s.down.queue ++ s.hub.tx.queue) :=
  (Link.Reachable.inv hlimit h.link).log

theorem Clocked.up_log (h : s.Clocked lib limit) (hlimit : limit < 2 ^ 32) :
    s.tether.tunnel.tx.log = s.up.taken ++ (s.up.queue ++ s.tether.tunnel.tx.queue) := by
  have hup : s.up.log = s.tether.tunnel.tx.taken := (Link.Reachable.inv hlimit h.link).up
  show s.tether.tunnel.tx.taken ++ s.tether.tunnel.tx.queue = _
  rw [← hup]
  exact List.append_assoc _ _ _

theorem Clocked.taken_length (h : s.Clocked lib limit) (hlimit : limit < 2 ^ 32) :
    s.down.taken.length ≤ s.downLog.length ∧ s.up.taken.length ≤ s.upLog.length := by
  have h1 := congrArg List.length (h.downs.trans (h.down_log hlimit))
  have h2 := congrArg List.length (h.ups.trans (h.up_log hlimit))
  rw [List.length_map, List.length_append] at h1 h2
  omega

/-- what was queued in a step was sent when it ended -/
theorem Clocked.keepalive_stamped (h : s.Clocked lib limit) {more more' : List Frame}
    (hdown : u.downLog = s.downLog) (hup : u.upLog = s.upLog)
    (hmore : u.hub.tx.log = s.hub.tx.log ++ more)
    (hmore' : u.tether.tunnel.tx.log = s.tether.tunnel.tx.log ++ more')
    (hd : u.down.taken.length ≤ s.downLog.length) (hu : u.up.taken.length ≤ s.upLog.length) :
    u.stamped.keepalive =
      { probes := s.keepalive.probes ++ List.replicate (more.filter Frame.isPing).length u.now
        taken := Probe.times Frame.isPing (s.downLog.take u.down.taken.length)
        answers := s.keepalive.answers ++ List.replicate (more'.filter Frame.isPong).length u.now
        heard := Probe.times Frame.isPong (s.upLog.take u.up.taken.length)
        tick := u.tick
        lastProbe := u.lastPing
        lastSeen := u.hub.lastSeen
        dead := u.tether.hb.dead } := by
  show Keepalive.mk (Probe.times _ (Probe.stamp u.now u.downLog u.hub.tx.log))
    (Probe.times _ ((Probe.stamp u.now u.downLog u.hub.tx.log).take u.down.taken.length))
    (Probe.times _ (Probe.stamp u.now u.upLog u.tether.tunnel.tx.log))
    (Probe.times _ ((Probe.stamp u.now u.upLog u.tether.tunnel.tx.log).take u.up.taken.length))
    _ _ _ _ = _
  rw [hdown, hup, hmore, hmore', Probe.take_stamp h.downs _ _ hd, Probe.take_stamp h.ups _ _ hu,
    Probe.stamp_append h.downs, Probe.stamp_append h.ups, Probe.times_append, Probe.times_append,
    Probe.times_now, Probe.times_now]
  rfl

/-- a step of the hub that the keepalive sees as PINGs, if it sees it at all -/
theorem Clocked.probe_step (h : s.Clocked lib limit) (hlimit : limit < 2 ^ 32) {hub : Session}
    {down up : Chan Frame} {more : List Frame} (hlog : hub.tx.log = s.hub.tx.log ++ more)
    (hseen : hub.lastSeen = s.hub.lastSeen) (hdown : down.taken = s.down.taken)
    (hu : up.taken.length ≤ s.upLog.length)
    (hheard : Probe.times Frame.isPong (s.upLog.take up.taken.length) = s.keepalive.heard) :
    Keepalive.Step pace s.now s.keepalive
      (stamped { s with hub := hub, down := down, up := up }).keepalive := by
  rw [h.keepalive_stamped (u := { s with hub := hub, down := down, up := up }) rfl rfl hlog
    (List.append_nil _).symm (hdown ▸ (h.taken_length hlimit).1) hu]
  show Keepalive.Step _ _ _ (Keepalive.mk _ (Probe.times _ (s.downLog.take down.taken.length))
    (s.keepalive.answers ++ []) (Probe.times _ (s.upLog.take up.taken.length)) _ _ hub.lastSeen _)
  rw [hdown, hseen, hheard, List.append_nil]
  exact .probe _

/-- a step of the tether that the keepalive does not see, but for the dead deadline -/
theorem Clocked.rest_step (h : s.Clocked lib limit) (hlimit : limit < 2 ^ 32)
    {tether : TimedTunnel} {down up : Chan Frame} {more : List Frame}
    (hlog : tether.tunnel.tx.log = s.tether.tunnel.tx.log ++ more)
    (hmore : more.filter Frame.isPong = []) (hdead : s.tether.hb.dead ≤ tether.hb.dead)
    (hup : up.taken = s.up.taken) (hd : down.taken.length ≤ s.downLog.length)
    (htaken : Probe.times Frame.isPing (s.downLog.take down.taken.length) = s.keepalive.taken) :
    Keepalive.Step pace s.now s.keepalive
      (stamped { s with tether := tether, down := down, up := up }).keepalive := by
  rw [h.keepalive_stamped (u := { s with tether := tether, down := down, up := up }) rfl rfl
    (List.append_nil _).symm hlog hd (hup ▸ (h.taken_length hlimit).2)]
  show Keepalive.Step _ _ _ (Keepalive.mk (s.keepalive.probes ++ [])
    (Probe.times _ (s.downLog.take down.taken.length))
    (s.keepalive.answers ++ List.replicate (more.filter Frame.isPong).length _)
    (Probe.times _ (s.upLog.take up.taken.length)) _ _ _ _)
  rw [hup, hmore, htaken, List.append_nil, List.length_nil, List.replicate_zero, List.append_nil]
  exact .rest hdead

theorem Clocked.hub_step (h : s.Clocked lib limit) (hlimit : limit < 2 ^ 32) {hub : Session}
    {down up : Chan Frame} {b : SessionAction} (hs : Session.step lib s.hub b = some hub)
    (hb : ∀ m now, b = .recv m now → hubDecode m ≠ .ok (some .pong))
    (hdown : down.taken = s.down.taken) (hu : up.taken.length ≤ s.upLog.length)
    (hheard : Probe.times Frame.isPong (s.upLog.take up.taken.length) = s.keepalive.heard) :
    Keepalive.Step pace s.now s.keepalive
      (stamped { s with hub := hub, down := down, up := up }).keepalive := by
  have hm := Session.move_of_step hs
  obtain ⟨more, hlog⟩ : s.hub.tx.log <+: hub.tx.log :=
    Session.log_prefix_of_move hm (Link.Reachable.hub h.link).sends
  exact h.probe_step hlimit hlog.symm (Session.lastSeen_of_move hm hb) hdown hu hheard

theorem Clocked.tether_step (h : s.Clocked lib limit) (hlimit : limit < 2 ^ 32)
    {tether : TimedTunnel} {down up : Chan Frame} {b : TunnelAction}
    (hs : s.tether.step (.task b) = some tether)
    (hb : ∀ m, b = .recv m → tetherDecode m ≠ .ok (some .ping))
    (hup : up.taken = s.up.taken) (hd : down.taken.length ≤ s.downLog.length)
    (htaken : Probe.times Frame.isPing (s.downLog.take down.taken.length) = s.keepalive.taken) :
    Keepalive.Step pace s.now s.keepalive
      (stamped { s with tether := tether, down := down, up := up }).keepalive := by
  have hm := Tunnel.move_of_step (task_tunnel hs).1
  obtain ⟨more, hlog⟩ := Tunnel.log_of_move hm
  have hpongs := Tunnel.pongs_of_move (Link.Reachable.tether h.link).inv hm hb
  rw [← hlog, List.filter_append] at hpongs
  exact h.rest_step hlimit hlog.symm (List.append_right_eq_self.mp hpongs)
    (h.tether.dead_mono hs) hup hd htaken

theorem times_snoc (p : Frame → Bool) {log first : List (Frame × Nat)} {n : Nat} {f : Frame}
    {t : Nat} (h : log.take n = first ++ [(f, t)]) :
    Probe.times p (log.take n) = Probe.times p first ++ if p f then [t] else [] := by
  rw [h, Probe.times_append, Probe.times_single]

theorem Clocked.hubRecv (h : s.Clocked lib limit) (hlimit : limit < 2 ^ 32) {hub : Session}
    {f : Frame} {up : Chan Frame} (hr : s.up.recv = some (f, up))
    (hs : Session.step lib s.hub (Link.hubReads limit f s.now) = some hub)
    (hout : hub.loop.out = false) :
    Keepalive.Step pace s.now s.keepalive (stamped { s with hub := hub, up := up }).keepalive := by
  obtain ⟨hq, hup⟩ := Chan.recv_some hr
  have htaken : up.taken = s.up.taken ++ [f] := congrArg Chan.taken hup
  have hups : s.upLog.map Prod.fst =
      s.up.taken ++ f :: (up.queue ++ s.tether.tunnel.tx.queue) := by
    rw [h.ups, h.up_log hlimit, hq]
    rfl
  obtain ⟨t, htake, hlen⟩ := Probe.take_next hups
  rw [← htaken] at htake hlen
  have hheard := times_snoc Frame.isPong htake
  cases hf : f.isPong with
  | true =>
    rw [hf, if_pos rfl] at hheard
    obtain rfl : f = .pong := by
      cases f with
      | pong => rfl
      | _ => cases hf
    have hseen : hub = { s.hub with lastSeen := s.now } := by
      unfold Link.hubReads at hs
      split at hs
      · change s.hub.recv (wsMsg .pong) s.now = some hub at hs
        unfold Session.recv at hs
        split at hs
        · rw [hubDecode_wsMsg (by decide)] at hs
          exact (Option.some.inj hs).symm
        · cases hs
      · change s.hub.exit _ = some hub at hs
        unfold Session.exit at hs
        split at hs
        · obtain rfl := Option.some.inj hs
          cases hout
        · cases hs
    rw [h.keepalive_stamped (u := { s with hub := hub, up := up }) rfl rfl
      (by rw [hseen]; exact (List.append_nil _).symm) (List.append_nil _).symm
      (h.taken_length hlimit).1 hlen]
    show Keepalive.Step _ _ _ (Keepalive.mk (s.keepalive.probes ++ []) _ (s.keepalive.answers ++ [])
      (Probe.times _ (s.upLog.take up.taken.length)) _ _ hub.lastSeen _)
    have hpre := Probe.times_take_prefix Frame.isPong s.upLog up.taken.length
    rw [hheard] at hpre ⊢
    rw [hseen, List.append_nil, List.append_nil]
    exact .hear hpre
  | false =>
    rw [hf, if_neg (by decide), List.append_nil] at hheard
    refine h.hub_step hlimit hs (fun m now hm hd => ?_) rfl hlen hheard
    unfold Link.hubReads at hm
    split at hm
    · next hlen =>
      cases hm
      rw [← decodeBinary_encode (hlen.trans_lt hlimit) hd] at hf
      cases hf
    · cases hm

theorem Clocked.tetherRecv (h : s.Clocked lib limit) (hlimit : limit < 2 ^ 32)
    {tether : TimedTunnel} {f : Frame} {down : Chan Frame} (hr : s.down.recv = some (f, down))
    (hs : s.tether.step (.task (Link.tetherReads limit f)) = some tether)
    (hl : tether.tunnel.loop ≠ .finished) :
    Keepalive.Step pace s.now s.keepalive
      (stamped { s with tether := tether, down := down }).keepalive := by
  obtain ⟨hq, hdown⟩ := Chan.recv_some hr
  have htaken : down.taken = s.down.taken ++ [f] := congrArg Chan.taken hdown
  have hdowns : s.downLog.map Prod.fst =
      s.down.taken ++ f :: (down.queue ++ s.hub.tx.queue) := by
    rw [h.downs, h.down_log hlimit, hq]
    rfl
  obtain ⟨t, htake, hlen⟩ := Probe.take_next hdowns
  rw [← htaken] at htake hlen
  have hprobes := times_snoc Frame.isPing htake
  cases hf : f.isPing with
  | true =>
    rw [hf, if_pos rfl] at hprobes
    obtain rfl : f = .ping := by
      cases f with
      | ping => rfl
      | _ => cases hf
    obtain ⟨hlog, hdead⟩ := TimedTunnel.ping_taken h.tether hs hl
    have hnow : tether.now = s.now := (task_tunnel hs).2
    rw [h.keepalive_stamped (u := { s with tether := tether, down := down }) rfl rfl
      (List.append_nil _).symm hlog hlen (h.taken_length hlimit).2]
    show Keepalive.Step _ _ _ (Keepalive.mk (s.keepalive.probes ++ [])
      (Probe.times _ (s.downLog.take down.taken.length)) (s.keepalive.answers ++ [tether.now])
      _ _ _ _ tether.hb.dead)
    have hpre := Probe.times_take_prefix Frame.isPing s.downLog down.taken.length
    rw [hprobes] at hpre ⊢
    rw [hdead, hnow, List.append_nil]
    exact .take hpre
  | false =>
    rw [hf, if_neg (by decide), List.append_nil] at hprobes
    refine h.tether_step hlimit hs (fun m hm hd => ?_) rfl hlen hprobes
    unfold Link.tetherReads at hm
    split at hm
    · next hlen =>
      cases hm
      rw [← decodeBinary_encode (hlen.trans_lt hlimit) hd] at hf
      cases hf
    · cases hm

/-- the clocks aside, a session that goes on went on before -/
theorem Running.before (hlimit : limit < 2 ^ 32) (h : u.Running)
    (hm : s.move lib limit a = some u) : s.Running := by
  rcases move_link hm with heq | ⟨b, hb⟩
  · have h1 : u.hub = s.hub := congrArg Link.hub heq
    have h2 : u.tether.tunnel = s.tether.tunnel := congrArg Link.tether heq
    unfold Running at h
    rwa [h1, h2] at h
  · have hlink := Link.move_of_step hlimit hb
    obtain ⟨hhub, htether⟩ := hlink.over
    refine ⟨Bool.eq_false_iff.mpr fun hx => ?_, fun hx => h.2 (htether hx)⟩
    have hout : u.hub.loop.out = true := hhub hx
    cases hout.symm.trans h.1

/-- **simulation**: time passes, or the parties do what the keepalive allows -/
theorem Clocked.keepalive_step (h : s.Clocked lib limit) (hlimit : limit < 2 ^ 32)
    (hr : s'.Running) (hs : TimedLink.step lib limit s a = some s') :
    (∃ d, a = .wait d ∧ s'.now = s.now + d ∧ s'.keepalive = s.keepalive) ∨
      s'.now = s.now ∧ Keepalive.Step pace s.now s.keepalive s'.keepalive := by
  obtain ⟨u, hm, rfl⟩ := Option.map_eq_some_iff.mp hs
  obtain ⟨hd, hu⟩ := h.taken_length hlimit
  cases a with
  | wait d =>
    obtain rfl := Option.some.inj hm
    refine .inl ⟨d, rfl, rfl, ?_⟩
    rw [h.keepalive_stamped (u := { s with tether := { s.tether with now := s.tether.now + d } })
      rfl rfl (List.append_nil _).symm (List.append_nil _).symm hd hu]
    show Keepalive.mk (s.keepalive.probes ++ []) _ (s.keepalive.answers ++ []) _ _ _ _ _ = _
    rw [List.append_nil, List.append_nil]
    rfl
  | hubTick active =>
    right
    cases ticked_of_hubTick hm with
    | @exits cause x hx he =>
      unfold Session.exit at hx
      split at hx
      · obtain rfl := Option.some.inj hx
        rw [he] at hr
        cases hr.1
      · cases hx
    | @pings x hq hx he =>
      rw [he] at hr ⊢
      refine ⟨rfl, ?_⟩
      have hlog : x.tx.log = s.hub.tx.log ++ [.ping] ∧ x.lastSeen = s.hub.lastSeen := by
        have hout : x.loop.out = false := hr.1
        unfold Session.tickPing at hx
        split at hx
        · obtain rfl := Option.some.inj hx
          unfold Session.loopSend at hout ⊢
          split at hout
          · next tx htx =>
            obtain ⟨-, -, rfl⟩ := Chan.trySend_ok htx
            exact ⟨Chan.log_push _ _, rfl⟩
          · cases hout
        · cases hx
      rw [h.keepalive_stamped
        (u := { s with hub := x, lastPing := s.now, tick := s.now + tetherTick })
        rfl rfl hlog.1 (List.append_nil _).symm hd hu]
      show Keepalive.Step _ _ _ (Keepalive.mk (s.keepalive.probes ++ [s.now]) _
        (s.keepalive.answers ++ []) _ _ _ x.lastSeen _)
      rw [hlog.2, List.append_nil]
      exact .tickProbe
    | rests hq hp he =>
      rw [he]
      refine ⟨rfl, ?_⟩
      rw [h.keepalive_stamped (u := { s with tick := s.now + tetherTick })
        rfl rfl (List.append_nil _).symm (List.append_nil _).symm hd hu]
      show Keepalive.Step _ _ _ (Keepalive.mk (s.keepalive.probes ++ []) _
        (s.keepalive.answers ++ []) _ _ _ _ _)
      rw [List.append_nil, List.append_nil]
      exact .tickRest hp
  | hub b =>
    right
    change (if hubOwn b then _ else none) = some u at hm
    split at hm
    · next ho =>
      obtain ⟨x, hx, rfl⟩ := Option.map_eq_some_iff.mp hm
      exact ⟨rfl, h.hub_step hlimit hx
        (fun m now hb => (Link.hubOwn_recv (hubOwn_link ho)).2 m now _ hb) rfl hu rfl⟩
    · cases hm
  | hubWrite =>
    right
    obtain ⟨e, -, hm⟩ := Option.bind_eq_some_iff.mp hm
    obtain ⟨x, hx, rfl⟩ := Option.map_eq_some_iff.mp hm
    exact ⟨rfl, h.hub_step hlimit hx (fun _ _ hb => by cases hb) rfl hu rfl⟩
  | hubRecv =>
    right
    obtain ⟨e, he, hm⟩ := Option.bind_eq_some_iff.mp hm
    obtain ⟨x, hx, rfl⟩ := Option.map_eq_some_iff.mp hm
    exact ⟨rfl, h.hubRecv hlimit he hx hr.1⟩
  | tether b =>
    right
    change (if Link.tetherOwn b then _ else none) = some u at hm
    split at hm
    · next ho =>
      obtain ⟨t, ht, rfl⟩ := Option.map_eq_some_iff.mp hm
      exact ⟨(task_tunnel ht).2, h.tether_step hlimit ht
        (fun m hb => (Link.tetherOwn_recv ho).2 m _ hb) rfl hd rfl⟩
    · cases hm
  | dead =>
    change (s.tether.step .dead).map (fun t => { s with tether := t }) = some u at hm
    obtain ⟨t, ht, rfl⟩ := Option.map_eq_some_iff.mp hm
    exact absurd (TimedTunnel.select_of_exit (dead_tunnel ht).1).2 hr.2
  | tetherWrite =>
    right
    obtain ⟨e, -, hm⟩ := Option.bind_eq_some_iff.mp hm
    obtain ⟨t, ht, rfl⟩ := Option.map_eq_some_iff.mp hm
    exact ⟨(task_tunnel ht).2, h.tether_step hlimit ht (fun _ hb => by cases hb) rfl hd rfl⟩
  | tetherRecv =>
    right
    obtain ⟨e, he, hm⟩ := Option.bind_eq_some_iff.mp hm
    obtain ⟨t, ht, rfl⟩ := Option.map_eq_some_iff.mp hm
    exact ⟨(task_tunnel ht).2, h.tetherRecv hlimit he ht hr.2⟩

/-! ## runs in which nothing is overdue -/

theorem DueAt.keepalive {t : Nat} (h : DueAt delay slack s t) (hr : s.Running) :
    s.keepalive.Due slack delay t where
  tick := h.tick hr.1
  probes u hu := by
    obtain ⟨f, hf, -⟩ := Probe.of_mem_times
      (Probe.drop_times Frame.isPing s.downLog s.down.taken.length ▸ hu)
    exact h.down hr.2 _ hf
  answers u hu := by
    obtain ⟨f, hf, -⟩ := Probe.of_mem_times
      (Probe.drop_times Frame.isPong s.upLog s.up.taken.length ▸ hu)
    exact h.up hr.1 _ hf

/-- the keepalive keeps its pace as long as the session goes on -/
def Kept (delay slack : Nat) (s : TimedLink) : Prop :=
  s.Running → ∃ start, s.keepalive.Paced pace slack delay start s.now ∧
    s.keepalive.Due slack delay s.now

theorem Kept.step (h : s.Kept delay slack) (hc : s.Clocked lib limit) (hlimit : limit < 2 ^ 32)
    (htimely : Timely delay slack s a) (hs : TimedLink.step lib limit s a = some s') :
    s'.Kept delay slack := by
  intro hr
  have hbefore : s.Running := by
    obtain ⟨u, hm, rfl⟩ := Option.map_eq_some_iff.mp hs
    exact Running.before hlimit (show u.Running from hr) hm
  obtain ⟨start, hp, hdue⟩ := h hbefore
  rcases hc.keepalive_step hlimit hr hs with ⟨d, rfl, hnow, heq⟩ | ⟨hnow, hstep⟩
  · rw [heq, hnow]
    exact ⟨start, hp.wait (Nat.le_add_right _ _), DueAt.keepalive htimely hbefore⟩
  · rw [hnow]
    exact ⟨start, hp.step hdue hstep, hdue.step hp hstep⟩

theorem kept_begun (id : String) (cred : Bytes) {now : Nat} (ha : attached ≤ now)
    (hw : welcomed ≤ now) (ha' : now ≤ attached + tetherTick) (hw' : now ≤ welcomed + tetherTick) :
    (begun id cred attached welcomed now).Kept delay slack := by
  intro _
  have hsecond : tetherTick = 5000000000 ∧ tetherPingInterval = 10000000000 := ⟨rfl, rfl⟩
  obtain ⟨h1, h2⟩ := hsecond
  -- both ends have given signs of life since the earlier of their beginnings
  refine ⟨min attached welcomed, ⟨?_, ?_, ?_, ?_, ?_, ?_, ?_, ?_, ?_⟩, ⟨?_, ?_, ?_⟩⟩
  · intro t ht
    rw [List.mem_singleton.mp ht]
    exact (Nat.min_le_left _ _).trans ha
  · exact List.isChain_singleton _
  · intro t ht
    have hmin : min attached welcomed = t := Option.some.inj ht
    show attached + tetherTick ≤ t + (tetherPingInterval + tetherTick)
    omega
  · intro t ht
    have hmin : min attached welcomed = t := Option.some.inj ht
    show (attached : Int) - tetherPingInterval ≤ t
    omega
  · exact List.prefix_refl _
  · exact List.prefix_refl _
  · exact .nil
  · intro t ht
    rw [List.mem_singleton.mp ht]
    exact Nat.min_le_left _ _
  · intro t ht
    rw [List.mem_singleton.mp ht]
    exact Nat.add_le_add_right (Nat.min_le_right _ _) _
  · exact ha'.trans (Nat.le_add_right _ _)
  · exact fun t ht => absurd ht List.not_mem_nil
  · exact fun t ht => absurd ht List.not_mem_nil

theorem ReachableTimely.kept (hlimit : limit < 2 ^ 32)
    (h : ReachableTimely lib limit delay slack s) : s.Clocked lib limit ∧ s.Kept delay slack := by
  induction h with
  | init h =>
    obtain ⟨id, cred, attached, welcomed, now, rfl, ha, hw, ha', hw'⟩ := h
    exact ⟨clocked_begun id cred hw, kept_begun id cred ha hw ha' hw'⟩
  | step _ hok h ih => exact ⟨ih.1.step hlimit h, ih.2.step ih.1 hlimit hok h⟩

/-- **No false silence.** While the hub's tick is late by `slack` at most, every frame arrives
within `delay` and the two together are below ten seconds, a session that goes on at both ends is
never given up for silence: the tether's dead deadline does not fire, and the hub's tick ends the
session of an active registration only where the queue has no room for the PING. -/
theorem no_false_silence (hlimit : limit < 2 ^ 32) (hfast : delay + slack < tetherPingInterval)
    (h : ReachableTimely lib limit delay slack s) (hr : s.Running) :
    s.now - s.hub.lastSeen ≤ tetherSilence ∧ s.now < s.tether.hb.dead ∧
      TimedLink.step lib limit s .dead = none ∧
      ∀ t, s.hubTick true = some t → t.hub.loop.out = true →
        ∃ e, s.hub.tx.trySend commandChannelCapacity .ping = .error e := by
  obtain ⟨start, hp, hdue⟩ := (h.kept hlimit).2 hr
  have hgap : pace.gap slack = 15 * nanosPerSec + slack := rfl
  have hseen : s.now ≤ s.hub.lastSeen + pace.gap slack + 2 * delay := hp.lastSeen_le hdue
  have hdead : s.now + pingTimeout ≤ s.tether.hb.dead + pace.gap slack + delay := hp.dead_le hdue
  have hconsts : tetherPingInterval = 10 * nanosPerSec ∧ tetherSilence = 45 * nanosPerSec ∧
      pingTimeout = 25 * nanosPerSec := ⟨rfl, rfl, rfl⟩
  obtain ⟨h1, h2, h3⟩ := hconsts
  have hquiet : s.now - s.hub.lastSeen ≤ tetherSilence := by omega
  have hlive : s.now < s.tether.hb.dead := by omega
  refine ⟨hquiet, hlive, ?_, fun t ht hout => ?_⟩
  · show ((s.tether.step .dead).map _).map _ = none
    have hnone : s.tether.step .dead = none := if_neg (Nat.not_le_of_lt hlive)
    rw [hnone]
    rfl
  · unfold hubTick at ht
    split at ht
    · rw [if_neg (by decide), if_neg (Nat.not_lt_of_le hquiet)] at ht
      split at ht
      · obtain ⟨x, hx, rfl⟩ := Option.map_eq_some_iff.mp ht
        unfold Session.tickPing at hx
        split at hx
        · obtain rfl := Option.some.inj hx
          change (s.hub.loopSend .ping).loop.out = true at hout
          unfold Session.loopSend at hout
          split at hout
          · cases hout
          · next e he => exact ⟨e, he⟩
        · cases hx
      · split at ht
        · obtain rfl := Option.some.inj ht
          exact absurd hout (by rw [show s.hub.loop.out = false from hr.1]; decide)
        · cases ht
    · cases ht

/-- fifty-five seconds of PINGs, each answered after a second -/
def pingedRun : List TimedLinkAction :=
  [.wait tetherTick, .hubTick true] ++
    (List.replicate 5 [.hubWrite, .wait nanosPerSec, .tetherRecv, .tetherWrite, .hubRecv,
      .wait (4 * nanosPerSec), .hubTick true, .wait tetherTick, .hubTick true]).flatten

def pingedStart : TimedLink := begun "t" [] 0 0 0

theorem pingedRun_isSome : (Machine.runWhen (TimedLink.step okLib defaultLimit)
    (Timely (2 * nanosPerSec) nanosPerSec) pingedStart pingedRun).isSome = true := by
  decide

theorem no_false_silence_pinged : ∃ s : TimedLink, tetherSilence < s.now ∧
    s.now - s.hub.lastSeen ≤ tetherSilence ∧ s.now < s.tether.hb.dead := by
  have hinit : TimedLink.Initial pingedStart :=
    ⟨_, _, 0, 0, 0, rfl, le_rfl, le_rfl, Nat.zero_le _, Nat.zero_le _⟩
  have hr : (Option.get _ pingedRun_isSome).Running := ⟨by decide, by decide⟩
  obtain ⟨h1, h2, -, -⟩ := no_false_silence (by decide) (by decide)
    ((Machine.ReachableWhen.init hinit).runWhen (Option.some_get pingedRun_isSome).symm) hr
  exact ⟨_, by decide, h1, h2⟩

end TimedLink

end AnvilRing
