import AnvilRing.Hub.Control
import AnvilRing.Hub.Response
import AnvilRing.Tether.Tunnel

/-!
# A fault of one stream is a fault of that stream only

The loops of both ends work for one stream at a time, on a map and a queue that all streams share.

* `Session.Isolated`          a step of the hub's loop changed stream `i` only;
* `loopStep_isolated`         every step that the loop makes for `i` is one;
* `loop_returns`              with a free slot for its END the loop comes back to `select!`;
* `Tunnel.enqueue_overflow`   an input queue that overflows costs its own stream only;
* `stream_faults_isolated`    both, in any hub and any tether.
-/

namespace AnvilRing
open Wire

/-- the loop works for stream `i` -/
def LoopPc.worksFor (i : UInt16) : LoopPc → Bool
  | .frame f => concerns i f
  | .respHead id _ => id == i
  | .data id _ => id == i
  | .terminate id _ _ _ => id == i
  | .remove id _ => id == i
  | .reply id _ => id == i
  | _ => false

/-- how many steps the loop is away from `select!` at most -/
def LoopPc.rank : LoopPc → Nat
  | .frame _ => 7
  | .respHead _ _ => 6
  | .data _ _ => 6
  | .terminate _ _ .completed _ => 5
  | .terminate _ _ .upload _ => 4
  | .terminate _ _ .outcome _ => 3
  | .remove _ _ => 2
  | .reply _ _ => 1
  | _ => 0

namespace Session
variable {lib : HttpLib} {s t u : Session} {i : UInt16}

/-- What the loop may change while it works for stream `i`: that stream, its membership in the map,
the loop's own position and history, and the command queue. -/
structure Isolated (i : UInt16) (s t : Session) : Prop where
  state : ∀ j, j ≠ i → t.state j = s.state j
  streams : ∀ j, j ≠ i → (j ∈ t.streams ↔ j ∈ s.streams)
  shrinks : t.streams ⊆ s.streams
  closed : t.closed = s.closed
  abort : t.abort = s.abort
  nextId : t.nextId = s.nextId
  forward : t.forward = s.forward
  ownClose : t.ownClose = s.ownClose
  registryClose : t.registryClose = s.registryClose
  identity : t.tetherId = s.tetherId ∧ t.credential = s.credential ∧ t.lastSeen = s.lastSeen

theorem Isolated.refl (i : UInt16) (s : Session) : Isolated i s s where
  state _ _ := rfl
  streams _ _ := Iff.rfl
  shrinks := subset_rfl
  closed := rfl
  abort := rfl
  nextId := rfl
  forward := rfl
  ownClose := rfl
  registryClose := rfl
  identity := ⟨rfl, rfl, rfl⟩

theorem Isolated.trans (h : Isolated i s t) (h' : Isolated i t u) : Isolated i s u where
  state j hj := (h'.state j hj).trans (h.state j hj)
  streams j hj := (h'.streams j hj).trans (h.streams j hj)
  shrinks := h'.shrinks.trans h.shrinks
  closed := h'.closed.trans h.closed
  abort := h'.abort.trans h.abort
  nextId := h'.nextId.trans h.nextId
  forward := h'.forward.trans h.forward
  ownClose := h'.ownClose.trans h.ownClose
  registryClose := h'.registryClose.trans h.registryClose
  identity := ⟨h'.identity.1.trans h.identity.1, h'.identity.2.1.trans h.identity.2.1,
    h'.identity.2.2.trans h.identity.2.2⟩

/-- the loop writes stream `i` -/
theorem isolated_setState (st : StreamState) (pc : LoopPc) :
    Isolated i s { s.setState i st with loop := pc } :=
  { Isolated.refl i s with state := fun _ hj => setState_of_ne s st hj }

/-- the loop takes stream `i` out of the map -/
theorem isolated_erase (pc : LoopPc) :
    Isolated i s { s with streams := s.streams.erase i, loop := pc } :=
  { Isolated.refl i s with
    streams := fun _ hj => by
      show _ ∈ s.streams.erase i ↔ _
      rw [Finset.mem_erase]
      exact and_iff_right hj
    shrinks := Finset.erase_subset _ _ }

/-- the loop moves on -/
theorem isolated_loop (tx : Chan Frame) (pc : LoopPc) (received : List Frame) :
    Isolated i s { s with tx := tx, loop := pc, received := received } :=
  { Isolated.refl i s with }

theorem isolated_loopSend (f : Frame) : Isolated i s (s.loopSend f) := by
  unfold loopSend
  split
  · exact isolated_loop _ _ s.received
  · exact isolated_loop s.tx _ s.received

/-- the command queue has a free slot -/
def HasSlot (s : Session) : Prop :=
  s.tx.rxClosed = false ∧ s.tx.canSend commandChannelCapacity = true

/-- looking a stream up leaves the loop with its frame's stream, or at `select!` -/
theorem takeUp_worksFor {f : Frame} (hf : concerns i f = true) :
    (s.takeUp f).worksFor i = true ∧ (s.takeUp f).rank < 7 ∨ s.takeUp f = .select := by
  unfold takeUp
  cases f with
  | respHead id head =>
    simp only
    split
    · exact .inl ⟨hf, by simp [LoopPc.rank]⟩
    · exact .inr rfl
  | data id bytes =>
    simp only
    split
    · exact .inl ⟨hf, by simp [LoopPc.rank]⟩
    · exact .inl ⟨hf, by simp [LoopPc.rank]⟩
  | «end» id reason =>
    simp only
    split
    · exact .inl ⟨hf, by simp [LoopPc.rank]⟩
    · exact .inr rfl
  | _ => cases hf

/-- **Step.** What the loop does for stream `i` it does to stream `i`; it stays with `i` and comes
nearer to `select!`, is there, or leaves because it found no slot for its END. -/
theorem loopStep_isolated (hi : s.loop.worksFor i = true) (h : s.loopStep lib = some t) :
    Isolated i s t ∧
      (t.loop = .select ∨ t.loop.worksFor i = true ∧ t.loop.rank < s.loop.rank ∧ t.tx = s.tx ∨
        t.loop = .exited ∧ ¬ s.HasSlot) := by
  unfold loopStep at h
  cases hl : s.loop with
  | frame f =>
    simp only [hl, Option.some.injEq] at h
    subst h
    rw [hl] at hi
    refine ⟨isolated_loop s.tx _ _, ?_⟩
    rcases takeUp_worksFor (s := s) hi with ⟨hw, hr⟩ | hsel
    · exact .inr (.inl ⟨hw, hr, rfl⟩)
    · exact .inl hsel
  | respHead id head =>
    rw [hl] at hi
    obtain rfl := eq_of_beq hi
    simp only [hl] at h
    split at h
    · obtain rfl := Option.some.inj h
      exact ⟨isolated_setState _ _, .inl rfl⟩
    · obtain rfl := Option.some.inj h
      exact ⟨isolated_loop s.tx _ s.received, .inr (.inl ⟨hi, by simp [LoopPc.rank], rfl⟩)⟩
  | data id bytes =>
    rw [hl] at hi
    obtain rfl := eq_of_beq hi
    simp only [hl] at h
    split at h
    · obtain rfl := Option.some.inj h
      exact ⟨isolated_setState _ _, .inl rfl⟩
    · obtain rfl := Option.some.inj h
      exact ⟨isolated_loop s.tx _ s.received, .inr (.inl ⟨hi, by simp [LoopPc.rank], rfl⟩)⟩
  | terminate id v stage reply =>
    rw [hl] at hi
    obtain rfl := eq_of_beq hi
    simp only [hl, Option.some.injEq] at h
    subst h
    refine ⟨isolated_setState _ _, .inr (.inl ?_)⟩
    cases stage <;> exact ⟨hi, by simp [LoopPc.rank, TermStage.next], rfl⟩
  | remove id reply =>
    rw [hl] at hi
    obtain rfl := eq_of_beq hi
    simp only [hl, Option.some.injEq] at h
    subst h
    refine ⟨isolated_erase _, ?_⟩
    cases reply with
    | none => exact .inl rfl
    | some r => exact .inr (.inl ⟨hi, by simp [LoopPc.rank], rfl⟩)
  | reply id reason =>
    simp only [hl, Option.some.injEq] at h
    subst h
    refine ⟨isolated_loopSend _, ?_⟩
    unfold loopSend
    cases hs : s.tx.trySend commandChannelCapacity (.end id reason) with
    | ok tx => exact .inl rfl
    | error e =>
      refine .inr (.inr ⟨rfl, fun hslot => ?_⟩)
      unfold Chan.trySend at hs
      rw [hslot.1, hslot.2] at hs
      cases hs
  | select | exited | closed | finished =>
    rw [hl] at hi
    cases hi

/-- a loop that works for a stream is not stuck -/
theorem loopStep_isSome (lib : HttpLib) (hi : s.loop.worksFor i = true) :
    ∃ t, s.loopStep lib = some t := by
  unfold loopStep
  cases hl : s.loop with
  | respHead id head =>
    simp only
    split <;> exact ⟨_, rfl⟩
  | data id bytes =>
    simp only
    split <;> exact ⟨_, rfl⟩
  | select | exited | closed | finished =>
    rw [hl] at hi
    cases hi
  | _ => exact ⟨_, rfl⟩

end Session

namespace World
variable {digest : Bytes → String} {lib : HttpLib} {w v x : World} {g : Nat} {i : UInt16}

/-- what happens in a hub while the loop of session `g` works for its stream `i` -/
structure Isolated (g : Nat) (i : UInt16) (w v : World) : Prop where
  reg : v.reg = w.reg
  others : ∀ k, k ≠ g → v.sess k = w.sess k
  session : Session.Isolated i (w.sess g) (v.sess g)
  lock : v.lock = w.lock
  displaced : v.displaced = w.displaced
  results : v.results = w.results

theorem Isolated.trans (h : Isolated g i w v) (h' : Isolated g i v x) : Isolated g i w x where
  reg := h'.reg.trans h.reg
  others k hk := (h'.others k hk).trans (h.others k hk)
  session := h.session.trans h'.session
  lock := h'.lock.trans h.lock
  displaced := h'.displaced.trans h.displaced
  results := h'.results.trans h.results

/-- a session that is not detaching itself moves -/
theorem sessionStep_eq {a : SessionAction} {s : Session} (h0 : 0 < g)
    (hg : g < w.reg.nextGeneration)
    (ho : own a = true) (hl : (w.sess g).loop ≠ .closed)
    (h : Session.step lib (w.sess g) a = some s) :
    step digest lib w (.session g a) = some (w.setSession g s) := by
  show w.sessionStep lib g a = _
  unfold sessionStep
  rw [if_pos ⟨h0, hg, ho⟩, h, Option.map_some]
  rw [if_neg fun hx => hl hx.1]
  rfl

theorem isolated_setSession {s : Session} (h : Session.Isolated i (w.sess g) s) :
    Isolated g i w (w.setSession g s) where
  reg := rfl
  others _ hk := setSession_of_ne w s hk
  session := by
    rw [setSession_self]
    exact h
  lock := rfl
  displaced := rfl
  results := rfl

/-- **Step.** What the loop of session `g` does for its stream `i` is isolated in the whole hub. -/
theorem step_isolated (hi : (w.sess g).loop.worksFor i = true)
    (h : step digest lib w (.session g .loop) = some v) :
    Isolated g i w v ∧ ((v.sess g).loop = .exited → ¬ (w.sess g).HasSlot) := by
  change w.sessionStep lib g .loop = some v at h
  unfold sessionStep at h
  split at h
  · obtain ⟨s, hs, rfl⟩ := Option.map_eq_some_iff.mp h
    have hne : ¬ ((w.sess g).loop = .closed ∧ s.loop = .finished) := by
      intro hx
      rw [hx.1] at hi
      cases hi
    rw [if_neg hne]
    obtain ⟨hiso, hpc⟩ := Session.loopStep_isolated hi hs
    refine ⟨isolated_setSession hiso, fun hx => ?_⟩
    change ((w.setSession g s).sess g).loop = _ at hx
    rw [setSession_self] at hx
    rcases hpc with hpc | ⟨hpc, _⟩ | hpc
    · rw [hx] at hpc
      cases hpc
    · rw [hx] at hpc
      cases hpc
    · exact hpc.2
  · cases h

/-- **Run.** With a slot free the loop comes back to `select!`. -/
theorem loop_returns (digest : Bytes → String) (lib : HttpLib) (h0 : 0 < g)
    (hg : g < w.reg.nextGeneration)
    (hi : (w.sess g).loop.worksFor i = true) (hslot : (w.sess g).HasSlot) :
    ∃ n v, Machine.run (step digest lib) w (List.replicate n (.session g .loop)) = some v ∧
      (v.sess g).loop = .select ∧ Isolated g i w v := by
  induction hr : (w.sess g).loop.rank using Nat.strong_induction_on generalizing w with
  | _ r ih =>
    obtain ⟨s, hs⟩ := Session.loopStep_isSome lib hi
    obtain ⟨hiso, hpc⟩ := Session.loopStep_isolated hi hs
    have hne : (w.sess g).loop ≠ .closed := by
      intro hx
      rw [hx] at hi
      cases hi
    have hstep : step digest lib w (.session g .loop) = some (w.setSession g s) :=
      sessionStep_eq h0 hg rfl hne hs
    rcases hpc with hsel | ⟨hw, hlt, htx⟩ | ⟨_, hno⟩
    · refine ⟨1, _, Machine.run_cons_some.mpr ⟨_, hstep, rfl⟩, ?_, isolated_setSession hiso⟩
      rw [setSession_self]
      exact hsel
    · have hslot' : s.HasSlot := by
        unfold Session.HasSlot
        rw [htx]
        exact hslot
      obtain ⟨n, v, hrun, hsel, hrest⟩ := ih s.loop.rank (hr ▸ hlt) (w := w.setSession g s) hg
        (by rwa [setSession_self]) (by rwa [setSession_self]) (by rw [setSession_self])
      exact ⟨n + 1, v, Machine.run_cons_some.mpr ⟨_, hstep, hrun⟩, hsel,
        (isolated_setSession hiso).trans hrest⟩
    · exact absurd hslot hno

end World

namespace Tunnel
variable {t : Tunnel} {id : UInt16} {bytes : Bytes} {k : Nat}

/-- an input queue that overflows: the handle is dropped, and the loop is about to say so -/
theorem enqueue_overflow (hk : t.streams.get id = some k)
    (hfull : (t.pump k).input.trySend streamInputCapacity bytes = .error .full) :
    t.enqueue id bytes =
      { t.setPump k { t.pump k with dropped := true } with
        streams := t.streams.remove id, loop := .reply id exceeded } := by
  unfold enqueue
  rw [hk]
  simp only [hfull]
  unfold remove
  rw [hk]

/-- the writer's queue has room -/
def HasRoom (t : Tunnel) : Prop := t.tx.rxClosed = false ∧ t.tx.canSend wsWriterCapacity = true

theorem loopSend_of_room (h : t.HasRoom) (f : Frame) :
    t.loopSend f = { t with tx := t.tx.push f, loop := .select } := by
  unfold loopSend Chan.trySend
  rw [h.1, h.2]
  rfl

end Tunnel

/-- **Faults are isolated.** At the hub, a response frame for stream `i` of session `g`, whatever is
wrong with it, leaves the session running at `select!` and everything but stream `i` as it was, if
the command queue has a slot; and so does every single step that the loop makes for `i`, with other
tasks in between.  At the tether, with room in the writer's queue, an input queue that overflows
costs its stream only. -/
theorem stream_faults_isolated (digest : Bytes → String) (lib : HttpLib) :
    (∀ (w : World) (g : Nat) (i : UInt16) (m : Message) (now : Nat) (f : Frame),
      0 < g → g < w.reg.nextGeneration → (w.sess g).loop = .select → (w.sess g).HasSlot →
      hubDecode m = .ok (some f) → concerns i f = true →
      ∃ n v, Machine.run (World.step digest lib) w
          (.session g (.recv m now) :: List.replicate n (.session g .loop)) = some v ∧
        (v.sess g).loop = .select ∧ World.Isolated g i w v) ∧
    (∀ (w v : World) (g : Nat) (i : UInt16), (w.sess g).loop.worksFor i = true →
      World.step digest lib w (.session g .loop) = some v →
      World.Isolated g i w v ∧ ((v.sess g).loop = .exited → ¬ (w.sess g).HasSlot)) ∧
    ∀ (t : Tunnel) (id : UInt16) (k : Nat) (m : Message) (f : Frame) (bytes : Bytes),
      t.loop = .select → t.HasRoom → tetherDecode m = .ok (some f) →
      (f = .data id bytes ∨ f = .halfEnd id ∧ bytes = []) → t.streams.get id = some k →
      (t.pump k).input.trySend streamInputCapacity bytes = .error .full →
      Machine.run Tunnel.step t [.recv m, .reply] = some
        { t.setPump k { t.pump k with dropped := true } with
          streams := t.streams.remove id
          tx := t.tx.push (.end id Tunnel.exceeded)
          loop := .select
          received := t.received ++ [f] } := by
  refine ⟨?_, fun w v g i hi h => World.step_isolated hi h, ?_⟩
  · intro w g i m now f h0 hg hl hslot hm hf
    have hrecv : Session.step lib (w.sess g) (.recv m now) =
        some { w.sess g with loop := .frame f } := by
      show (w.sess g).recv m now = _
      unfold Session.recv
      rw [if_pos hl, hm]
      cases f <;> first | rfl | cases hf
    have hne : (w.sess g).loop ≠ .closed := by
      rw [hl]
      exact nofun
    have hstep : World.step digest lib w (.session g (.recv m now)) =
        some (w.setSession g { w.sess g with loop := .frame f }) :=
      World.sessionStep_eq h0 hg rfl hne hrecv
    obtain ⟨n, v, hrun, hsel, hiso⟩ := World.loop_returns (i := i)
      (w := w.setSession g { w.sess g with loop := .frame f }) digest lib h0 hg
      (by rwa [World.setSession_self]) (by rwa [World.setSession_self])
    exact ⟨n, v, Machine.run_cons_some.mpr ⟨_, hstep, hrun⟩, hsel,
      (World.isolated_setSession (Session.isolated_loop _ _ _)).trans hiso⟩
  · intro t id k m f bytes hl hroom hm hf hk hfull
    have hrecv : Tunnel.step t (.recv m) = some { t.enqueue id bytes with
        received := t.received ++ [f] } := by
      show t.recv m = _
      unfold Tunnel.recv
      rw [if_pos hl, hm]
      rcases hf with rfl | ⟨rfl, rfl⟩ <;> rfl
    rw [Tunnel.enqueue_overflow hk hfull] at hrecv
    refine Machine.run_cons_some.mpr ⟨_, hrecv, Machine.run_cons_some.mpr ⟨_, ?_, rfl⟩⟩
    refine congrArg some (Tunnel.loopSend_of_room ?_ _)
    exact hroom

/-- two streams are open -/
def twoStreams : List SessionAction :=
  [.reserve ⟨[], [], true⟩, .forward, .forward, .forward, .forward, .forward, .forward,
    .reserve ⟨[], [], true⟩, .forward, .forward, .forward, .forward, .forward]

theorem twoStreams_ready : (Machine.run (Session.step okLib) (Session.new "t" [] 0)
    twoStreams).map (fun s => (s.loop, s.tx.rxClosed, s.tx.canSend commandChannelCapacity,
      s.streams)) = some (.select, false, true, {1, 2}) := by
  decide

/-- a tether whose stream 1 has a full input queue -/
def fullTunnel : Tunnel :=
  { Tunnel.new.setPump 0 { id := 1, head := [], input := { queue := List.replicate 64 [1] } } with
    streams := KeyMap.empty.insert 1 0, spawned := 1 }

/-- DATA before the head fails stream 1 and leaves stream 2; DATA for a full input queue costs the
tether that stream only -/
theorem stream_faults_isolated_two : (∃ w v : World, ∃ n : Nat,
      Machine.run (World.step twoDigests okLib) w
        (.session 1 (.recv (wsMsg (.data 1 [7])) 0) :: List.replicate n (.session 1 .loop)) =
        some v ∧ (v.sess 1).loop = .select ∧ 2 ∈ (v.sess 1).streams) ∧
    (Machine.run Tunnel.step fullTunnel [.recv (wsMsg (.data 1 [7])), .reply]).map
      (fun t => (t.loop, t.streams.size)) = some (.select, 0) := by
  constructor
  · obtain ⟨s, hs, hready⟩ := Option.map_eq_some_iff.mp twoStreams_ready
    obtain ⟨hl, hc, hq, hmap⟩ : s.loop = .select ∧ s.tx.rxClosed = false ∧
        s.tx.canSend commandChannelCapacity = true ∧ s.streams = {1, 2} := by
      simpa only [Prod.mk.injEq] using hready
    obtain ⟨n, v, hrun, hsel, hiso⟩ := (stream_faults_isolated twoDigests okLib).1
      { reg := { Registry.new 0 with nextGeneration := 2 }, sess := fun _ => s, now := 0 } 1 1
      (wsMsg (.data 1 [7])) 0 (.data 1 [7]) Nat.one_pos (Nat.lt_succ_self 1) hl ⟨hc, hq⟩
      (hubDecode_wsMsg (by decide)) rfl
    refine ⟨_, v, n, hrun, hsel, (hiso.session.streams 2 (by decide)).mpr ?_⟩
    rw [hmap]
    decide
  · rw [(stream_faults_isolated twoDigests okLib).2.2 fullTunnel 1 0 (wsMsg (.data 1 [7]))
      (.data 1 [7]) [7] rfl ⟨rfl, rfl⟩ (tetherDecode_wsMsg (by decide)) (.inl rfl) rfl rfl]
    rfl

end AnvilRing
