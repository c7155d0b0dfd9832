import AnvilRing.Link.Liveness

/-!
# A peer that is silent is noticed

The timers alone: whatever the network and the other party do, the hub's loop does not outlast the
last PONG by more than fifty seconds, nor the tether's loop the last frame by more than twenty-five,
but for what the timers and the loop are late.

* `TimedLink.Prompt`     the condition on the runs: only the timers and the loops' own sends;
* `TimedLink.Noticed`    the invariant;
* `silence_is_noticed`   how long either loop goes on without a sign of life.
-/

namespace AnvilRing
open Wire

/-- when the loop acts by itself at the latest: on its dead deadline, or with the END that it sends
behind a frame -/
def TimedTunnel.actsBy (slack : Nat) (s : TimedTunnel) : Option Nat :=
  match s.tunnel.loop with
  | .select => some (s.hb.dead + slack)
  | .reply _ _ => some (s.heard + slack)
  | .finished => none

namespace TimedLink

/-- the hub's tick is late by `slack` at most, and the tether's loop no more -/
def Prompt (slack : Nat) (s : TimedLink) : TimedLinkAction → Prop
  | .wait d =>
    (s.hub.loop.out = false → s.now + d ≤ s.tick + slack) ∧
      ∀ t ∈ s.tether.actsBy slack, s.now + d ≤ t
  | _ => True

instance (slack : Nat) (s : TimedLink) (a : TimedLinkAction) : Decidable (Prompt slack s a) :=
  match a with
  | .wait _ => inferInstanceAs (Decidable (_ ∧ _))
  | .hubTick _ => .isTrue trivial
  | .hub _ => .isTrue trivial
  | .hubWrite => .isTrue trivial
  | .hubRecv => .isTrue trivial
  | .tether _ => .isTrue trivial
  | .dead => .isTrue trivial
  | .tetherWrite => .isTrue trivial
  | .tetherRecv => .isTrue trivial

abbrev ReachablePromptly (lib : HttpLib) (limit slack : Nat) (s : TimedLink) : Prop :=
  Machine.ReachableWhen (step lib limit) Initial (Prompt slack) s

end TimedLink

/-! ## the tether -/

namespace TimedTunnel
variable {s s' : TimedTunnel} {a : TimedAction} {slack : Nat}

/-- how long the tether's loop goes on without a frame -/
structure Noticed (slack : Nat) (s : TimedTunnel) : Prop where
  heard : s.heard ≤ s.now
  dead : s.tunnel.loop ≠ .finished → s.hb.dead ≤ s.heard + pingTimeout + slack
  waits : ∀ i r, s.tunnel.loop = .reply i r → s.now ≤ s.heard + slack
  lasts : s.tunnel.loop ≠ .finished → s.now ≤ s.heard + pingTimeout + 2 * slack

theorem Noticed.finished (hl : s.tunnel.loop = .finished) (h : s.heard ≤ s.now) :
    s.Noticed slack where
  heard := h
  dead hx := absurd hl hx
  waits i r hx := by cases hl.symm.trans hx
  lasts hx := absurd hl hx

/-- time passes only as the timers allow -/
theorem Noticed.wait (h : s.Noticed slack) {d : Nat}
    (hacts : ∀ t ∈ s.actsBy slack, s.now + d ≤ t) :
    Noticed slack { s with now := s.now + d } where
  heard := h.heard.trans (Nat.le_add_right _ _)
  dead := h.dead
  waits i r hloop := hacts _ (by rw [actsBy, show s.tunnel.loop = .reply i r from hloop]; rfl)
  lasts hl := by
    show s.now + d ≤ s.heard + pingTimeout + 2 * slack
    cases hloop : s.tunnel.loop with
    | select =>
      have hx := hacts _ (by rw [actsBy, hloop]; rfl)
      have hy := h.dead hl
      omega
    | reply i r =>
      have hx := hacts _ (by rw [actsBy, hloop]; rfl)
      omega
    | finished => exact absurd hloop hl

/-- the reset at the heartbeat of a reachable session, when a frame was heard just now -/
theorem Noticed.rearmed (hi : Idle s.hb) (h : s.heard ≤ s.now) (hlate : s.now ≤ s.heard + slack)
    (hl : s.tunnel.loop = .select) : s.rearmed.Noticed slack where
  heard := h
  dead _ := by
    show (s.hb.reset s.now).dead ≤ s.heard + pingTimeout + slack
    rw [hi.reset]
    show s.now + pingTimeout ≤ _
    omega
  waits i r hx := by cases hl.symm.trans hx
  lasts _ := by
    show s.now ≤ s.heard + pingTimeout + 2 * slack
    omega

theorem Noticed.beat (h : s.Noticed slack) (hr : Reachable s) (hb : Beat s a s')
    (hwait : ∀ d, a ≠ .wait d) : s'.Noticed slack := by
  have hnow : ∀ f, (s.answered f).now = s.now := answered_now s
  have hdead : ∀ f, (s.answered f).hb.dead = s.hb.dead := fun f => by cases f <;> rfl
  have hon : ∀ {b t}, s.tunnel.step b = some t → t.loop ≠ .finished →
      s.tunnel.loop ≠ .finished := fun ht hl hx =>
    hl (Link.finished_of_move (Tunnel.move_of_step ht) hx).1
  have hi : Idle s.hb := hr.idle
  cases hb with
  | wait d => exact absurd rfl (hwait d)
  | dead hd ht => exact .finished (select_of_exit ht).2 h.heard
  | @frame m f t hm ht hl =>
    have hle : s.now ≤ (s.answered f).now := (hnow f).ge
    exact Noticed.rearmed (hi.answered f) hle ((hnow f).le.trans (Nat.le_add_right _ _)) hl
  | @held m f t i r hm ht hl =>
    have hlive : s.tunnel.loop ≠ .finished := by
      rw [recv_select ht]
      exact fun hx => by cases hx
    have hx := h.dead hlive
    have hy := h.heard
    refine ⟨(hnow f).ge, fun _ => ?_, fun _ _ _ => ?_, fun _ => ?_⟩
    · show (s.answered f).hb.dead ≤ s.now + pingTimeout + slack
      rw [hdead f]
      omega
    · exact (hnow f).le.trans (Nat.le_add_right _ _)
    · show (s.answered f).now ≤ s.now + pingTimeout + 2 * slack
      rw [hnow f]
      omega
  | @last m f t hm ht hl => exact .finished hl (hnow f).ge
  | replied ht hl hr =>
    obtain ⟨i, r, hloop⟩ := reply_of_step ht
    exact Noticed.rearmed hi h.heard (h.waits i r hloop) hl
  | refused ht hl hr =>
    obtain ⟨i, r, hloop⟩ := reply_of_step ht
    have hlive : s.tunnel.loop ≠ .finished := by
      rw [hloop]
      exact fun hx => by cases hx
    exact ⟨h.heard, fun _ => h.dead hlive, fun i r hx => (by cases hl.symm.trans hx),
      fun _ => h.lasts hlive⟩
  | pinged ht hl =>
    have hlive : s.tunnel.loop ≠ .finished := by
      rw [select_of_pingTick ht]
      exact fun hx => by cases hx
    exact ⟨h.heard, fun _ => h.dead hlive, fun i r hx => (by cases hl.symm.trans hx),
      fun _ => h.lasts hlive⟩
  | other ht hl hm =>
    rcases hl with hl | hl
    · exact ⟨h.heard, fun hx => h.dead (hon ht hx), fun i r hx => h.waits i r (hl.symm.trans hx),
        fun hx => h.lasts (hon ht hx)⟩
    · exact .finished hl h.heard

end TimedTunnel

/-! ## the hub -/

namespace TimedLink
variable {lib : HttpLib} {limit slack : Nat} {s s' u : TimedLink} {a : TimedLinkAction}

/-- how long either loop goes on without a sign of life -/
structure Noticed (slack : Nat) (s : TimedLink) : Prop where
  seen : s.hub.lastSeen ≤ s.now
  tick : s.hub.loop.out = false →
    s.tick ≤ s.hub.lastSeen + tetherSilence + tetherTick ∧ s.now ≤ s.tick + slack
  tether : s.tether.Noticed slack

/-- a step of the hub other than its tick -/
theorem Noticed.hubStep (h : s.Noticed slack) {b : SessionAction} {hub : Session}
    (hs : Session.step lib s.hub b = some hub) {down up : Chan Frame}
    (hb : ∀ m now, b = .recv m now → hubDecode m = .ok (some .pong) → now = s.now) :
    Noticed slack { s with hub := hub, down := down, up := up } := by
  have hm := Session.move_of_step hs
  have hseen : hub.lastSeen = s.hub.lastSeen ∨ hub.lastSeen = s.now := by
    by_cases hp : ∃ m now, b = .recv m now ∧ hubDecode m = .ok (some .pong)
    · obtain ⟨m, now, rfl, hd⟩ := hp
      obtain rfl := hb m now rfl hd
      cases hm with
      | alive => exact .inr rfl
      | _ => exact .inl rfl
    · exact .inl (Session.lastSeen_of_move hm fun m now ha hd => hp ⟨m, now, ha, hd⟩)
  have hx := h.seen
  refine ⟨?_, fun hout => ?_, h.tether⟩
  · show hub.lastSeen ≤ s.now
    omega
  · have hbefore : s.hub.loop.out = false :=
      Bool.eq_false_iff.mpr fun hx => by cases (Session.out_of_move hm hx).symm.trans hout
    obtain ⟨h1, h2⟩ := h.tick hbefore
    refine ⟨?_, h2⟩
    show s.tick ≤ hub.lastSeen + tetherSilence + tetherTick
    omega

/-- the tick is armed again only where the silence is not too long -/
theorem Noticed.armed (h : s.Noticed slack) (hq : s.now - s.hub.lastSeen ≤ tetherSilence)
    {hub : Session} (hseen : hub.lastSeen = s.hub.lastSeen) {lastPing : Int} :
    Noticed slack { s with hub := hub, lastPing := lastPing, tick := s.now + tetherTick } where
  seen := hseen.symm ▸ h.seen
  tick _ := by
    have hx := h.seen
    refine ⟨?_, (Nat.le_add_right _ _).trans (Nat.le_add_right _ _)⟩
    show s.now + tetherTick ≤ hub.lastSeen + tetherSilence + tetherTick
    omega
  tether := h.tether

theorem Noticed.hubTick (h : s.Noticed slack) {active : Bool} (hs : s.hubTick active = some s') :
    s'.Noticed slack := by
  cases ticked_of_hubTick hs with
  | exits hx he =>
    unfold Session.exit at hx
    split at hx
    · obtain rfl := Option.some.inj hx
      rw [he]
      exact ⟨h.seen, fun hout => (by cases hout), h.tether⟩
    · cases hx
  | pings hq hx he =>
    unfold Session.tickPing at hx
    split at hx
    · obtain rfl := Option.some.inj hx
      rw [he]
      refine h.armed hq ?_
      unfold Session.loopSend
      split <;> rfl
    · cases hx
  | rests hq hp he =>
    rw [he]
    exact h.armed hq rfl

/-- a step of the tether other than the passing of time -/
theorem Noticed.tetherStep (h : s.Noticed slack) {b : TimedAction} {tether : TimedTunnel}
    (hs : s.tether.step b = some tether) (hr : TimedTunnel.Reachable s.tether)
    (hb : ∀ d, b ≠ .wait d) (hnow : tether.now = s.now) {down up : Chan Frame} :
    Noticed slack { s with tether := tether, down := down, up := up } where
  seen := h.seen.trans hnow.ge
  tick hout := ⟨(h.tick hout).1, hnow.le.trans (h.tick hout).2⟩
  tether := h.tether.beat hr (TimedTunnel.beat_of_step hs) hb

theorem Noticed.step (h : s.Noticed slack) (hr : TimedTunnel.Reachable s.tether)
    (hprompt : Prompt slack s a)
    (hs : TimedLink.step lib limit s a = some s') : s'.Noticed slack := by
  obtain ⟨u, hm, rfl⟩ := Option.map_eq_some_iff.mp hs
  suffices hu : u.Noticed slack from ⟨hu.seen, hu.tick, hu.tether⟩
  cases a with
  | wait d =>
    obtain rfl := Option.some.inj hm
    exact ⟨h.seen.trans (Nat.le_add_right _ _),
      fun hout => ⟨(h.tick hout).1, hprompt.1 hout⟩, h.tether.wait hprompt.2⟩
  | hubTick active => exact h.hubTick hm
  | hub b =>
    change (if hubOwn b then _ else none) = some u at hm
    split at hm
    · next ho =>
      obtain ⟨x, hx, rfl⟩ := Option.map_eq_some_iff.mp hm
      exact h.hubStep hx fun m now hb hd =>
        absurd hd ((Link.hubOwn_recv (hubOwn_link ho)).2 m now _ hb)
    · cases hm
  | hubWrite =>
    obtain ⟨e, -, hm⟩ := Option.bind_eq_some_iff.mp hm
    obtain ⟨x, hx, rfl⟩ := Option.map_eq_some_iff.mp hm
    exact h.hubStep hx fun _ _ hb => by cases hb
  | hubRecv =>
    obtain ⟨e, -, hm⟩ := Option.bind_eq_some_iff.mp hm
    obtain ⟨x, hx, rfl⟩ := Option.map_eq_some_iff.mp hm
    refine h.hubStep hx fun m now hb _ => ?_
    unfold Link.hubReads at hb
    split at hb
    · exact (SessionAction.recv.inj hb).2.symm
    · cases hb
  | tether b =>
    change (if Link.tetherOwn b then _ else none) = some u at hm
    split at hm
    · obtain ⟨t, ht, rfl⟩ := Option.map_eq_some_iff.mp hm
      exact h.tetherStep ht hr (fun _ hb => by cases hb) (task_tunnel ht).2
    · cases hm
  | dead =>
    change (s.tether.step .dead).map (fun t => { s with tether := t }) = some u at hm
    obtain ⟨t, ht, rfl⟩ := Option.map_eq_some_iff.mp hm
    exact h.tetherStep ht hr (fun _ hb => by cases hb) (dead_tunnel ht).2
  | tetherWrite | tetherRecv =>
    obtain ⟨e, -, hm⟩ := Option.bind_eq_some_iff.mp hm
    obtain ⟨t, ht, rfl⟩ := Option.map_eq_some_iff.mp hm
    exact h.tetherStep ht hr (fun _ hb => by cases hb) (task_tunnel ht).2

theorem noticed_begun (id : String) (cred : Bytes) {attached welcomed now : Nat}
    (ha : attached ≤ now) (hw : welcomed ≤ now) (ha' : now ≤ attached + tetherTick)
    (hw' : now ≤ welcomed + tetherTick) :
    (begun id cred attached welcomed now).Noticed slack where
  seen := ha
  tick _ := by
    refine ⟨?_, ha'.trans (Nat.le_add_right _ _)⟩
    show attached + tetherTick ≤ attached + tetherSilence + tetherTick
    exact Nat.add_le_add_right (Nat.le_add_right _ _) _
  tether := by
    refine ⟨hw, fun _ => Nat.le_add_right _ _, fun i r hx => (by cases hx), fun _ => ?_⟩
    have hshort : tetherTick ≤ pingTimeout := by decide
    show now ≤ welcomed + pingTimeout + 2 * slack
    omega

/-- **Silence is noticed.** Where only the timers are on time up to `slack`, the hub's loop goes on
for at most the silence and one tick behind the last PONG, and the tether's loop for at most the
timeout behind the last frame; neither the network nor the other party has to do anything for it. -/
theorem silence_is_noticed (hlimit : limit < 2 ^ 32) (h : ReachablePromptly lib limit slack s) :
    (s.hub.loop.out = false → s.now ≤ s.hub.lastSeen + tetherSilence + tetherTick + slack) ∧
      (s.tether.tunnel.loop ≠ .finished → s.now ≤ s.tether.heard + pingTimeout + 2 * slack) := by
  have hboth : s.Clocked lib limit ∧ s.Noticed slack := by
    induction h with
    | init h =>
      obtain ⟨id, cred, attached, welcomed, now, rfl, ha, hw, ha', hw'⟩ := h
      exact ⟨clocked_begun id cred hw, noticed_begun id cred ha hw ha' hw'⟩
    | step _ hok h ih => exact ⟨ih.1.step hlimit h, ih.2.step ih.1.tether hok h⟩
  obtain ⟨-, hn⟩ := hboth
  refine ⟨fun hout => ?_, hn.tether.lasts⟩
  obtain ⟨h1, h2⟩ := hn.tick hout
  omega

/-- fifteen seconds in which neither party hears of the other -/
def unheardRun : List TimedLinkAction :=
  (List.replicate 3 [.wait (tetherTick + 1), .hubTick true]).flatten

theorem unheardRun_isSome : (Machine.runWhen (TimedLink.step okLib defaultLimit)
    (Prompt 1) pingedStart unheardRun).isSome = true := by
  decide

theorem silence_is_noticed_unheard : ∃ s : TimedLink, s.now = 15 * nanosPerSec + 3 ∧
    s.now ≤ s.hub.lastSeen + tetherSilence + tetherTick + 1 ∧
    s.now ≤ s.tether.heard + pingTimeout + 2 := by
  have hinit : TimedLink.Initial pingedStart :=
    ⟨_, _, 0, 0, 0, rfl, le_rfl, le_rfl, Nat.zero_le _, Nat.zero_le _⟩
  obtain ⟨h1, h2⟩ := silence_is_noticed (by decide)
    ((Machine.ReachableWhen.init hinit).runWhen (Option.some_get unheardRun_isSome).symm)
  exact ⟨_, by decide, h1 (by decide), h2 (by decide)⟩

end TimedLink

end AnvilRing
