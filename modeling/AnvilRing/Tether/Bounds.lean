import AnvilRing.Hub.Bounds
import AnvilRing.Hub.Response
import AnvilRing.Tether.Handles

/-!
# The queues of a tether's session are bounded

Whatever the hub sends and the engine answers: the writer's queue, the input of every pump and the
map of handles keep within their capacities, and a pump without a handle was told to abort.

* `Tunnel.Bounded`, `Bounded.step`   the bounds, kept by every step;
* `Tunnel.working`                   the pumps that were not told to abort;
* `memory_bounded`                   the bounds of both parties, with any peer.
-/

namespace AnvilRing
open Wire

structure Tunnel.Bounded (t : Tunnel) : Prop where
  replies : t.tx.Within wsWriterCapacity
  permits : t.tx.reserved = 0
  handles : t.streams.size ≤ maxConcurrentStreams
  inputs : ∀ k, (t.pump k).input.Within streamInputCapacity

/-- the request body only takes from its input -/
theorem Pump.pollInput_within {p q : Pump} {cap : Nat} (h : p.pollInput = some q)
    (hc : p.input.Within cap) : q.input.Within cap := by
  unfold pollInput at h
  split at h
  · split at h
    · next bytes input hr =>
      have hd := hc.recv hr
      split at h
      · exact Option.some.inj h ▸ hd
      · exact Option.some.inj h ▸ hd
    · split at h
      · exact Option.some.inj h ▸ hc
      · cases h
  · exact Option.some.inj h ▸ hc
  · cases h

theorem Pump.forwardEngine_input {p q : Pump} {e : EngineEvent} (h : p.forwardEngine e = some q) :
    q.input = p.input := by
  unfold forwardEngine at h
  split at h
  all_goals first
    | exact Option.some.inj h ▸ rfl
    | cases h

theorem Pump.cancel_input {p q : Pump} (h : p.cancel = some q) : q.input = p.input := by
  unfold cancel at h
  split at h
  · split at h
    all_goals first
      | exact Option.some.inj h ▸ rfl
      | cases h
  · cases h

namespace Tunnel
namespace Bounded
variable {t u : Tunnel} {a : TunnelAction} {k : Nat} {p : Pump}

theorem setPump (h : t.Bounded) (hp : p.input.Within streamInputCapacity) :
    (t.setPump k p).Bounded :=
  ⟨h.replies, h.permits, h.handles,
    forall_setPump (P := fun _ p => p.input.Within streamInputCapacity) h.inputs hp⟩

/-- a task of a stream queues a frame -/
theorem push (h : t.Bounded) {f : Frame} (hroom : t.tx.canSend wsWriterCapacity = true)
    (hp : p.input.Within streamInputCapacity) :
    Bounded { t.setPump k p with tx := t.tx.push f } :=
  ⟨Chan.within_push hroom f, h.permits, h.handles, (h.setPump hp).inputs⟩

theorem remove (h : t.Bounded) (i : UInt16) : (t.remove i).Bounded where
  replies := by
    rw [remove_tx]
    exact h.replies
  permits := by
    rw [remove_tx]
    exact h.permits
  handles := (KeyMap.size_le fun _ _ hj => (get_of_remove hj).2).trans h.handles
  inputs k := by
    rw [remove_input]
    exact h.inputs k

theorem leave (h : t.Bounded) : t.leave.Bounded :=
  ⟨h.replies, h.permits, Nat.zero_le _, h.inputs⟩

theorem loopSend (h : t.Bounded) (f : Frame) : (t.loopSend f).Bounded := by
  unfold Tunnel.loopSend
  split
  · next tx hs =>
    obtain ⟨-, hroom, rfl⟩ := Chan.trySend_ok hs
    exact ⟨Chan.within_push hroom f, h.permits, h.handles, h.inputs⟩
  · exact h.leave

/-- a pump is spawned where there is room for its handle -/
theorem spawn (h : t.Bounded) (hroom : t.streams.size < maxConcurrentStreams) (i : UInt16)
    (head : Bytes) : (t.spawn i head).Bounded := by
  have hr := h.remove i
  have hsize : (t.remove i).streams.size ≤ t.streams.size :=
    KeyMap.size_le fun _ _ hj => (get_of_remove hj).2
  have hset := hr.setPump (k := (t.remove i).spawned)
    (p := { id := i, head := head }) (Nat.zero_le _)
  refine ⟨hset.replies, hset.permits, ?_, hset.inputs⟩
  exact (KeyMap.size_insert_le _ _ _).trans ((Nat.succ_le_succ hsize).trans hroom)

theorem enqueue (h : t.Bounded) (i : UInt16) (bytes : Bytes) : (t.enqueue i bytes).Bounded := by
  unfold Tunnel.enqueue
  split
  · exact h
  · split
    · next input hs =>
      obtain ⟨-, hroom, rfl⟩ := Chan.trySend_ok hs
      exact h.setPump (Chan.within_push hroom bytes)
    · have hr := h.remove i
      exact ⟨hr.replies, hr.permits, hr.handles, hr.inputs⟩
    · exact h

theorem handleFrame (h : t.Bounded) (f : Frame) : (t.handleFrame f).Bounded := by
  cases f with
  | ping => exact h.loopSend _
  | pong => exact h
  | «open» i head =>
    unfold Tunnel.handleFrame
    simp only
    split
    · exact ⟨h.replies, h.permits, h.handles, h.inputs⟩
    · next hroom => exact h.spawn (Nat.lt_of_not_le hroom) i head
  | data i bytes => exact h.enqueue i bytes
  | halfEnd i => exact h.enqueue i []
  | «end» i reason => exact h.remove i
  | _ => exact h.leave

theorem recv {m : Message} (h : t.Bounded) (hs : t.recv m = some u) : u.Bounded := by
  unfold Tunnel.recv at hs
  split at hs
  · split at hs
    · exact Option.some.inj hs ▸ h.leave
    · exact Option.some.inj hs ▸ h
    · next f _ =>
      have hf := h.handleFrame f
      exact Option.some.inj hs ▸ ⟨hf.replies, hf.permits, hf.handles, hf.inputs⟩
  · cases hs

theorem pumpSend (h : t.Bounded) (hs : t.pumpSend k = some u) : u.Bounded := by
  unfold Tunnel.pumpSend at hs
  simp only at hs
  split at hs
  · split at hs
    · exact Option.some.inj hs ▸ h.setPump (h.inputs k)
    · split at hs
      · next hroom => exact Option.some.inj hs ▸ h.push hroom (h.inputs k)
      · cases hs
  · split at hs
    · exact Option.some.inj hs ▸ h.setPump (h.inputs k)
    · split at hs
      · next hroom => exact Option.some.inj hs ▸ h.push hroom (h.inputs k)
      · cases hs
  · have hset := h.setPump (k := k) (p := { t.pump k with pc := .done }) (h.inputs k)
    exact Option.some.inj hs ▸ ⟨hset.replies, hset.permits, hset.handles, hset.inputs⟩
  · cases hs

theorem step (h : t.Bounded) (hs : t.step a = some u) : u.Bounded := by
  cases a with
  | recv m => exact h.recv hs
  | reply =>
    change t.replyStep = some u at hs
    unfold Tunnel.replyStep at hs
    split at hs
    · exact Option.some.inj hs ▸ h.loopSend _
    · cases hs
  | complete =>
    change t.complete = some u at hs
    unfold Tunnel.complete at hs
    split at hs
    · next i _ _ _ _ =>
      have hr := h.remove i
      exact Option.some.inj hs ▸ ⟨hr.replies, hr.permits, hr.handles, hr.inputs⟩
    · cases hs
  | pingTick =>
    change t.pingTick = some u at hs
    unfold Tunnel.pingTick at hs
    split at hs
    · exact Option.some.inj hs ▸ h.loopSend _
    · cases hs
  | leaseTick =>
    change t.leaseTick = some u at hs
    unfold Tunnel.leaseTick at hs
    split at hs
    · split at hs
      · next tx htx =>
        obtain ⟨-, hroom, rfl⟩ := Chan.trySend_ok htx
        exact Option.some.inj hs ▸
          ⟨Chan.within_push hroom _, h.permits, h.leave.handles, h.leave.inputs⟩
      · exact Option.some.inj hs ▸ h.leave
    · cases hs
  | exit =>
    change t.exit = some u at hs
    unfold Tunnel.exit at hs
    split at hs
    · exact Option.some.inj hs ▸ h.leave
    · cases hs
  | engine k e =>
    obtain ⟨p, hp, rfl⟩ := Option.map_eq_some_iff.mp hs
    exact h.setPump (Pump.forwardEngine_input hp ▸ h.inputs k)
  | pumpSend k => exact h.pumpSend hs
  | cancel k =>
    obtain ⟨p, hp, rfl⟩ := Option.map_eq_some_iff.mp hs
    exact h.setPump (Pump.cancel_input hp ▸ h.inputs k)
  | poll k =>
    obtain ⟨p, hp, rfl⟩ := Option.map_eq_some_iff.mp hs
    exact h.setPump (Pump.pollInput_within hp (h.inputs k))
  | dropInput k => exact Option.some.inj hs ▸ h.setPump (h.inputs k)
  | write =>
    change t.write = some u at hs
    unfold Tunnel.write at hs
    split at hs
    · cases hs
    · obtain ⟨⟨f, tx⟩, hr, rfl⟩ := Option.map_eq_some_iff.mp hs
      refine ⟨h.replies.recv hr, ?_, h.handles, h.inputs⟩
      obtain ⟨-, hd⟩ := Chan.recv_some hr
      show tx.reserved = 0
      rw [hd]
      exact h.permits
  | writerEnd => exact Option.some.inj hs ▸ ⟨h.replies, h.permits, h.handles, h.inputs⟩

end Bounded

variable {t : Tunnel}

theorem Reachable.bounded (h : Reachable t) : t.Bounded := by
  refine Machine.Reachable.invariant (P := Bounded) ?_ (fun _ _ _ hb hs => hb.step hs) h
  rintro t rfl
  exact ⟨Nat.zero_le _, rfl, Nat.zero_le _, fun _ => Nat.zero_le _⟩

/-- the pumps that were not told to abort -/
def working (t : Tunnel) : Finset Nat :=
  (Finset.range t.spawned).filter fun k => (t.pump k).dropped = false

/-- a pump that was not told to abort has a handle, and no other pump has it -/
theorem Reachable.card_working_le (h : Reachable t) : t.working.card ≤ t.streams.size := by
  have hget : ∀ k ∈ t.working, t.streams.get (t.pump k).id = some k := by
    intro k hk
    obtain ⟨hk, hd⟩ := Finset.mem_filter.mp hk
    rcases h.controlled.handled k (Finset.mem_range.mp hk) with hx | hx
    · rw [hd] at hx
      cases hx
    · exact hx
  rw [← KeyMap.card_keySet]
  refine Finset.card_le_card_of_injOn (fun k => (t.pump k).id)
    (fun k hk => KeyMap.mem_keySet.mpr ⟨k, hget k hk⟩) fun k hk m hm he => ?_
  have hk' := hget k hk
  have hm' := hget m hm
  have hid : (t.pump k).id = (t.pump m).id := he
  rw [hid, hm'] at hk'
  exact (Option.some.inj hk').symm

end Tunnel

/-- **Memory is bounded, whatever the peer does.**  A hub session with any tether and any callers
queues at most 256 commands, has at most 64 streams in its map and buffers at most 64 chunks for
each stream; a tether's session with any hub and any engine queues at most 256 frames and at most 64
pieces of each request body, and never has more than 64 pumps that were not told to abort. -/
theorem memory_bounded {lib : HttpLib} {s : Session} (hs : Session.Reachable lib s) {t : Tunnel}
    (ht : Tunnel.Reachable t) :
    (s.tx.queue.length + s.tx.reserved ≤ 256 ∧ s.streams.card ≤ 64 ∧
      ∀ i, (s.state i).chunks.queue.length ≤ 64) ∧
    t.tx.queue.length ≤ 256 ∧ t.working.card ≤ t.streams.size ∧ t.streams.size ≤ 64 ∧
      ∀ k, (t.pump k).input.queue.length ≤ 64 :=
  ⟨⟨hs.bounded.commands, hs.bounded.streams, fun i => (hs.bounded.chunks i).length_le⟩,
    ht.bounded.replies.length_le, ht.card_working_le, ht.bounded.handles,
    fun k => (ht.bounded.inputs k).length_le⟩

/-- a forward that has queued its OPEN -/
def openedRun : List SessionAction := [.reserve ⟨[], [], true⟩, .forward, .forward, .forward]

theorem openedRun_isSome :
    (Machine.run (Session.step okLib) (Session.new "t" [] 0) openedRun).isSome = true := by
  decide

theorem spawnRun_isSome :
    (Machine.run Tunnel.step Tunnel.new [.recv (wsMsg (.open 1 []))]).isSome = true := by
  decide

theorem memory_bounded_opened : ∃ s t, Session.Reachable okLib s ∧ Tunnel.Reachable t ∧
    1 ∈ s.streams ∧ 0 ∈ t.working ∧ s.tx.queue.length + s.tx.reserved ≤ 256 ∧
      t.working.card ≤ t.streams.size := by
  have hs : Session.Reachable okLib (Option.get _ openedRun_isSome) :=
    (Machine.Reachable.init ⟨_, _, _, rfl⟩).run (Option.some_get openedRun_isSome).symm
  have ht : Tunnel.Reachable (Option.get _ spawnRun_isSome) :=
    (Machine.Reachable.init rfl : Tunnel.Reachable Tunnel.new).run
      (Option.some_get spawnRun_isSome).symm
  obtain ⟨⟨hcommands, -, -⟩, -, hworking, -, -⟩ := memory_bounded hs ht
  exact ⟨_, _, hs, ht, by decide, by decide, hcommands, hworking⟩

end AnvilRing
