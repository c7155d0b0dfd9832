import AnvilRing.Link.Rest
import AnvilRing.Tether.Bounds
import AnvilRing.Tether.Work

/-!
# A link comes to rest

Left to themselves, with no new request, no caller, no engine, no timer and no fault, the tasks of
both parties and the WebSocket between them stop: each of their steps takes something off the work
left, and where none is enabled nothing is under way.

* `LinkAction.internal`   the steps that need nobody else;
* `Link.work`             the work left in both parties and between them;
* `atRest_of_stuck`       where no such step is enabled, a link that is up is at rest;
* `comes_to_rest`         every run of such steps is bounded, and leads to rest.
-/

namespace AnvilRing
open Wire

/-- a step that needs no caller, no engine, no timer and no fault -/
def LinkAction.internal : LinkAction → Bool
  | .hub .loop => true
  | .hub .forward => true
  | .hub (.upload _) => true
  | .hub (.uploadCancel _) => true
  | .hub (.guard _) => true
  | .hub _ => false
  | .hubWrite => true
  | .hubRecv _ => true
  | .tether .reply => true
  | .tether .complete => true
  | .tether (.pumpSend _) => true
  | .tether (.cancel _) => true
  | .tether _ => false
  | .tetherWrite => true
  | .tetherRecv => true

/-! ## what a party can do by itself -/

namespace Session
variable {lib : HttpLib} {s : Session} {i : UInt16}

theorem loopStep_enabled (hl : s.loop ≠ .select) (ho : s.loop.out = false) :
    (s.loopStep lib).isSome = true := by
  unfold loopStep
  cases hloop : s.loop with
  | select => exact absurd hloop hl
  | frame | terminate | remove | reply => rfl
  | respHead | data =>
    simp only
    split <;> rfl
  | exited | closed | finished =>
    rw [hloop] at ho
    cases ho

theorem forwardStep_enabled (hf : s.forward ≠ .idle) : s.forwardStep.isSome = true := by
  unfold forwardStep
  cases hforward : s.forward with
  | idle => exact absurd hforward hf
  | _ => rfl

/-- an upload waits for its caller, or for room in the command queue -/
theorem uploadStep_enabled (hu : (s.state i).uploadPc.idle = false)
    (hroom : s.tx.canSend commandChannelCapacity = true) : (s.uploadStep i).isSome = true := by
  unfold uploadStep
  simp only
  cases hpc : (s.state i).uploadPc with
  | absent | reading | done | cancelled =>
    rw [hpc] at hu
    cases hu
  | erred | failing | aborting => rfl
  | sending f =>
    simp only [hroom, ↓reduceIte]
    split <;> rfl
  | ending =>
    simp only
    split <;> rfl

theorem guardStep_enabled (hg : (s.state i).guardPc.idle = false) :
    (s.guardStep i).isSome = true := by
  unfold guardStep
  simp only
  cases hpc : (s.state i).guardPc with
  | absent | held | dropped =>
    rw [hpc] at hg
    cases hg
  | abortUpload | remove | check | aborting => rfl
  | ending =>
    simp only
    split <;> rfl

theorem recv_enabled (hl : s.loop = .select) (m : Message) (now : Nat) :
    (s.recv m now).isSome = true := by
  unfold recv
  rw [if_pos hl]
  split
  · rfl
  · rfl
  · split <;> rfl

end Session

namespace Tunnel
variable {t : Tunnel} {k : Nat}

/-- a pump waits for its engine, or for room in the writer's queue -/
theorem pump_enabled (hk : (t.pump k).idle = false) (hroom : t.tx.canSend wsWriterCapacity = true) :
    (t.pumpSend k).isSome = true ∨ (t.pump k).cancel.isSome = true := by
  unfold Pump.idle at hk
  unfold pumpSend Pump.cancel
  simp only
  cases hpc : (t.pump k).pc with
  | engine b =>
    rw [hpc] at hk
    have hd : (t.pump k).dropped = true := by simpa using hk
    right
    rw [hd]
    rfl
  | sending | ending =>
    left
    simp only [hroom, ↓reduceIte]
    split <;> rfl
  | completing => exact .inl rfl
  | done | cancelled =>
    rw [hpc] at hk
    cases hk

theorem recv_enabled (hl : t.loop = .select) (m : Message) : (t.recv m).isSome = true := by
  unfold recv
  rw [if_pos hl]
  split <;> rfl

end Tunnel

namespace Link

/-- the work left in both parties and between them -/
def work (l : Link) : Nat :=
  l.hub.work + (l.down.queue.map downWork).sum + l.tether.work + 10 * l.up.queue.length

section
variable {lib : HttpLib} {limit : Nat} {l m : Link} {a : LinkAction}

/-! ## every step takes something off -/

theorem hub_work (h : Session.Reachable lib l.hub) {b : SessionAction} {s : Session}
    (hb : LinkAction.internal (.hub b) = true) (hs : Session.step lib l.hub b = some s) :
    s.work < l.hub.work := by
  cases b with
  | loop => exact Session.loopStep_work hs
  | forward => exact Session.forwardStep_work h.idInv h.started hs
  | upload i =>
    refine Session.uploadStep_work (h.untouched.registered fun hu => ?_) hs
    simp [Session.step, Session.uploadStep, hu, unusedStream] at hs
  | uploadCancel i =>
    refine Session.uploadCancel_work (h.untouched.registered fun hu => ?_) hs
    simp [Session.step, Session.uploadCancel, hu, unusedStream] at hs
  | guard i =>
    refine Session.guardStep_work (h.untouched.registered fun hu => ?_) hs
    simp [Session.step, Session.guardStep, hu, unusedStream] at hs
  | _ => cases hb

theorem tether_work (h : Tunnel.Reachable l.tether) {b : TunnelAction} {t : Tunnel}
    (hb : LinkAction.internal (.tether b) = true) (hs : l.tether.step b = some t) :
    t.work < l.tether.work := by
  cases b with
  | reply => exact Tunnel.replyStep_work hs
  | complete => exact Tunnel.complete_work hs
  | pumpSend k =>
    refine Tunnel.pumpSend_work (h.inv.working k fun hp => ?_) hs
    simp [Tunnel.step, Tunnel.pumpSend, hp] at hs
  | cancel k =>
    obtain ⟨p, hp, rfl⟩ := Option.map_eq_some_iff.mp hs
    refine Tunnel.cancel_work (h.inv.working k fun hd => ?_) hp
    simp [Pump.cancel, hd] at hp
  | _ => cases hb

/-- what the hub's reader makes of a frame weighs less than the frame -/
theorem hubReads_work {s : Session} {f : Frame} {now : Nat}
    (hs : Session.step lib l.hub (hubReads limit f now) = some s) : s.work ≤ l.hub.work + 9 := by
  unfold hubReads at hs
  split at hs
  · exact Session.recv_work hs
  · exact Nat.le_add_right_of_le (Session.exit_work hs)

theorem tetherReads_work (hlimit : limit < 2 ^ 32) {t : Tunnel} {f : Frame}
    (hs : l.tether.step (tetherReads limit f) = some t) :
    t.work < l.tether.work + downWork f := by
  unfold tetherReads at hs
  split at hs
  · next hlen =>
    exact Tunnel.recv_work hs fun g hg => decodeBinary_encode (hlen.trans_lt hlimit) hg
  · change l.tether.exit = some t at hs
    unfold Tunnel.exit at hs
    split at hs
    · obtain rfl := Option.some.inj hs
      have hleave := Tunnel.leave_work l.tether
      have hpos := downWork_pos f
      omega
    · cases hs

theorem work_of_step (hlimit : limit < 2 ^ 32) (h : Reachable lib limit l)
    (ha : a.internal = true) (hs : step lib limit l a = some m) : m.work < l.work := by
  cases a with
  | hub b =>
    change (if hubOwn b then _ else none) = some m at hs
    split at hs
    · obtain ⟨s, hst, rfl⟩ := Option.map_eq_some_iff.mp hs
      have hless := hub_work h.hub ha hst
      simp only [work]
      omega
    · cases hs
  | hubWrite =>
    obtain ⟨⟨f, tx⟩, hr, hs⟩ := Option.bind_eq_some_iff.mp hs
    obtain ⟨s, hst, rfl⟩ := Option.map_eq_some_iff.mp hs
    have hless := Session.write_work hr hst
    simp only [work, Chan.push, List.map_append, List.sum_append, List.map_cons, List.map_nil,
      List.sum_singleton]
    omega
  | hubRecv now =>
    obtain ⟨⟨f, up⟩, hr, hs⟩ := Option.bind_eq_some_iff.mp hs
    obtain ⟨s, hst, rfl⟩ := Option.map_eq_some_iff.mp hs
    have hless := hubReads_work hst
    simp only [work, (Chan.recv_some hr).1, List.length_cons]
    omega
  | tether b =>
    change (if tetherOwn b then _ else none) = some m at hs
    split at hs
    · obtain ⟨t, hst, rfl⟩ := Option.map_eq_some_iff.mp hs
      have hless := tether_work h.tether ha hst
      simp only [work]
      omega
    · cases hs
  | tetherWrite =>
    obtain ⟨⟨f, tx⟩, hr, hs⟩ := Option.bind_eq_some_iff.mp hs
    obtain ⟨t, hst, rfl⟩ := Option.map_eq_some_iff.mp hs
    have hless := Tunnel.write_work hst
    simp only [work, Chan.push, List.length_append, List.length_singleton]
    omega
  | tetherRecv =>
    obtain ⟨⟨f, down⟩, hr, hs⟩ := Option.bind_eq_some_iff.mp hs
    obtain ⟨t, hst, rfl⟩ := Option.map_eq_some_iff.mp hs
    have hless : t.work < l.tether.work + downWork f := tetherReads_work hlimit hst
    simp only [work, (Chan.recv_some hr).1, List.map_cons, List.sum_cons]
    omega

/-! ## where none is enabled, nothing is under way -/

/-- no step that a party makes by itself is enabled -/
def Stuck (lib : HttpLib) (limit : Nat) (l : Link) : Prop :=
  ∀ a, a.internal = true → step lib limit l a = none

theorem Stuck.hub (h : l.Stuck lib limit) {b : SessionAction}
    (hb : LinkAction.internal (.hub b) = true) : Session.step lib l.hub b = none := by
  have hnone := h (.hub b) hb
  have hown : hubOwn b = true := by
    cases b <;> first | rfl | cases hb
  simpa [step, hown] using hnone

theorem Stuck.tether (h : l.Stuck lib limit) {b : TunnelAction}
    (hb : LinkAction.internal (.tether b) = true) : l.tether.step b = none := by
  have hnone := h (.tether b) hb
  have hown : tetherOwn b = true := by
    cases b <;> first | rfl | cases hb
  simpa [step, hown] using hnone

theorem hubReads_enabled (hl : l.hub.loop = .select) (f : Frame) (now : Nat) :
    (Session.step lib l.hub (hubReads limit f now)).isSome = true := by
  unfold hubReads
  split
  · exact Session.recv_enabled hl _ _
  · simp [Session.step, Session.exit, hl]

theorem tetherReads_enabled (hl : l.tether.loop = .select) (f : Frame) :
    (l.tether.step (tetherReads limit f)).isSome = true := by
  unfold tetherReads
  split
  · exact Tunnel.recv_enabled hl _
  · simp [Tunnel.step, Tunnel.exit, hl]

/-- **No deadlock.**  Where no step of either party is enabled, a link that is up is at rest. -/
theorem atRest_of_stuck (h : Reachable lib limit l) (hu : l.Up) (hs : l.Stuck lib limit) :
    l.AtRest := by
  have hno : ∀ {α : Type} {o : Option α}, o = none → o.isSome = true → False :=
    fun ho => Option.not_isSome_iff_eq_none.mpr ho
  have hloop : l.hub.loop = .select := by
    by_contra hl
    exact hno (hs.hub (b := .loop) rfl) (Session.loopStep_enabled hl hu.loop)
  have hforward : l.hub.forward = .idle := by
    by_contra hf
    exact hno (hs.hub (b := .forward) rfl) (Session.forwardStep_enabled hf)
  have hcommands : l.hub.tx.queue = [] := by
    cases hq : l.hub.tx.queue with
    | nil => rfl
    | cons f fs =>
      have hwrite := hs .hubWrite rfl
      simp [step, Session.step, Session.write, Chan.recv, hq, hu.hubWriter] at hwrite
  have hreplies : l.tether.tx.queue = [] := by
    cases hq : l.tether.tx.queue with
    | nil => rfl
    | cons f fs =>
      have hwrite := hs .tetherWrite rfl
      simp [step, Tunnel.step, Tunnel.write, Chan.recv, hq, hu.tetherWriter] at hwrite
  have htether : l.tether.loop = .select := by
    cases hl : l.tether.loop with
    | select => rfl
    | reply i r =>
      have hreply := hs.tether (b := .reply) rfl
      simp [Tunnel.step, Tunnel.replyStep, hl] at hreply
    | finished => exact absurd hl hu.tether
  -- room for a command: the queue is empty, and no forward holds a slot
  have hroom : l.hub.tx.canSend commandChannelCapacity = true := by
    refine Chan.canSend_of_lt hcommands ?_
    rw [h.hub.bounded.permits, hforward]
    exact Nat.succ_pos _
  have hroom' : l.tether.tx.canSend wsWriterCapacity = true := by
    refine Chan.canSend_of_lt hreplies ?_
    rw [h.tether.bounded.permits]
    exact Nat.succ_pos _
  refine ⟨hloop, hforward, fun i => ?_, fun i => ?_, hcommands, ?_, htether, fun k => ?_, ?_,
    hreplies, ?_⟩
  · by_contra hx
    exact hno (hs.hub (b := .upload i) rfl)
      (Session.uploadStep_enabled (Bool.eq_false_iff.mpr hx) hroom)
  · by_contra hx
    exact hno (hs.hub (b := .guard i) rfl) (Session.guardStep_enabled (Bool.eq_false_iff.mpr hx))
  · cases hq : l.down.queue with
    | nil => rfl
    | cons f fs =>
      have hrecv := hs .tetherRecv rfl
      simp only [step, Chan.recv, hq, Option.bind_some, Option.map_eq_none_iff] at hrecv
      exact (hno hrecv (tetherReads_enabled htether f)).elim
  · by_contra hx
    rcases Tunnel.pump_enabled (Bool.eq_false_iff.mpr hx) hroom' with hsome | hsome
    · exact hno (hs.tether (b := .pumpSend k) rfl) hsome
    · exact hno (Option.map_eq_none_iff.mp (hs.tether (b := .cancel k) rfl)) hsome
  · cases hc : l.tether.completions with
    | nil => rfl
    | cons e rest =>
      have hcomplete := hs.tether (b := .complete) rfl
      simp [Tunnel.step, Tunnel.complete, htether, hc] at hcomplete
  · cases hq : l.up.queue with
    | nil => rfl
    | cons f fs =>
      have hrecv := hs (.hubRecv 0) rfl
      simp only [step, Chan.recv, hq, Option.bind_some, Option.map_eq_none_iff] at hrecv
      exact (hno hrecv (hubReads_enabled hloop f 0)).elim

end

end Link

/-- **A link comes to rest.**  From any reachable link, a run of the steps that the parties and the
WebSocket make by themselves is no longer than the work that was left, it can be continued to a link
that is at rest or going down, and where no such step is left the link is at rest or going down. -/
theorem comes_to_rest {lib : HttpLib} {limit : Nat} (hlimit : limit < 2 ^ 32) {l m : Link}
    (h : Link.Reachable lib limit l) {as : List LinkAction} (hi : ∀ a ∈ as, a.internal = true)
    (hrun : Machine.run (Link.step lib limit) l as = some m) :
    as.length ≤ l.work ∧
    (∃ bs u, (∀ a ∈ bs, a.internal = true) ∧ Machine.run (Link.step lib limit) m bs = some u ∧
      (u.Up → u.AtRest)) ∧
    ((∀ a : LinkAction, a.internal = true → Link.step lib limit m a = none) → m.Up → m.AtRest) := by
  have hkeep : ∀ s (a : LinkAction) t, a.internal = true → Link.Reachable lib limit s →
      Link.step lib limit s a = some t → Link.Reachable lib limit t :=
    fun _ _ _ _ hr hs => hr.step hs
  have hless : ∀ s (a : LinkAction) t, a.internal = true → Link.Reachable lib limit s →
      Link.step lib limit s a = some t → t.work < s.work :=
    fun _ _ _ ha hr hs => Link.work_of_step hlimit hr ha hs
  have hprog : ∀ s, Link.Reachable lib limit s → ¬ (s.Up → s.AtRest) →
      ∃ a : LinkAction, a.internal = true ∧ (Link.step lib limit s a).isSome = true := by
    intro s hr hx
    obtain ⟨hu, hnot⟩ := Classical.not_imp.mp hx
    by_contra hn
    refine hnot (Link.atRest_of_stuck hr hu fun a ha => ?_)
    exact Option.not_isSome_iff_eq_none.mp fun hsome => hn ⟨a, ha, hsome⟩
  obtain ⟨hlen, hrest⟩ := Machine.run_to hkeep hless hprog hi h hrun
  exact ⟨hlen, hrest, fun hs hu => Link.atRest_of_stuck (h.run hrun) hu hs⟩

/-- a caller with a body of one chunk -/
def askedRun : List LinkAction := [.hub (.reserve ⟨[], [.data (ascii "hi")], true⟩)]

/-- the forward opens stream 1, and its OPEN goes to the tether -/
def forwardRun : List LinkAction :=
  [.hub .forward, .hub .forward, .hub .forward, .hubWrite, .tetherRecv, .hub .forward]

theorem askedRun_isSome : (Machine.run (Link.step okLib defaultLimit) freshLink askedRun).isSome =
    true := by
  decide

theorem forwardRun_isSome : (Machine.run (Link.step okLib defaultLimit)
    (Option.get _ askedRun_isSome) forwardRun).isSome = true := by
  decide

theorem comes_to_rest_asked : ∃ l m, Link.Reachable okLib defaultLimit l ∧
    Machine.run (Link.step okLib defaultLimit) l forwardRun = some m ∧ 6 ≤ l.work ∧
      ∃ bs u, (∀ a ∈ bs, a.internal = true) ∧
        Machine.run (Link.step okLib defaultLimit) m bs = some u ∧ (u.Up → u.AtRest) := by
  have hasked : Link.Reachable okLib defaultLimit (Option.get _ askedRun_isSome) :=
    (Machine.Reachable.init ⟨_, _, _, rfl⟩).run (Option.some_get askedRun_isSome).symm
  obtain ⟨hlen, hrest, -⟩ := comes_to_rest (by decide) hasked
    (by decide : ∀ a ∈ forwardRun, a.internal = true) (Option.some_get forwardRun_isSome).symm
  exact ⟨_, _, hasked, (Option.some_get forwardRun_isSome).symm, hlen, hrest⟩

end AnvilRing
