import AnvilRing.Hub.Work
import AnvilRing.Tether.Moves

/-!
# The work left in a tether's session

A variant of the tasks beside the engine: every step that the loop or a pump makes without the
engine takes something off it, and a frame from the hub brings no more than `downWork` says.

* `Tunnel.work`         the work left;
* `handleFrame_work`    what a frame from the hub brings;
* `replyStep_work`, `complete_work`, `pumpSend_work`, `cancel_work`.
-/

namespace AnvilRing
open Wire

def TunnelPc.work : TunnelPc → Nat
  | .select => 0
  | .reply _ _ => 12
  | .finished => 0

/-- a pump at its engine may still be cancelled -/
def PumpPc.work : PumpPc → Nat
  | .engine _ => 1
  | .sending _ => 15
  | .ending _ => 14
  | .completing => 2
  | .done => 0
  | .cancelled => 0

def pumpsWork (pump : Nat → Pump) (n : Nat) : Nat := ∑ k ∈ Finset.range n, (pump k).pc.work

def Tunnel.work (t : Tunnel) : Nat :=
  t.loop.work + pumpsWork t.pump t.spawned + t.completions.length + 11 * t.tx.queue.length

section
variable {pump pump' : Nat → Pump} {n k : Nat}

theorem pumpsWork_update (pump : Nat → Pump) (hk : k < n) (p : Pump) :
    pumpsWork (Function.update pump k p) n + (pump k).pc.work = pumpsWork pump n + p.pc.work :=
  sum_update (Finset.range n) pump (fun _ p => p.pc.work) (Finset.mem_range.mpr hk) p

/-- the work of the pumps is where they are -/
theorem pumpsWork_congr (h : ∀ k, (pump' k).pc = (pump k).pc) (n : Nat) :
    pumpsWork pump' n = pumpsWork pump n :=
  Finset.sum_congr rfl fun k _ => by rw [h k]

theorem pumpsWork_spawn (pump : Nat → Pump) (n : Nat) (p : Pump) :
    pumpsWork (Function.update pump n p) (n + 1) = pumpsWork pump n + p.pc.work := by
  unfold pumpsWork
  rw [Finset.sum_range_succ, Function.update_self]
  congr 1
  refine Finset.sum_congr rfl fun k hk => ?_
  rw [Function.update_of_ne (Finset.mem_range.mp hk).ne]

end

namespace Tunnel
variable {t u : Tunnel} {k : Nat}

theorem leave_work (t : Tunnel) : t.leave.work + t.loop.work = t.work := by
  have hsame : pumpsWork t.leave.pump t.leave.spawned = pumpsWork t.pump t.spawned :=
    pumpsWork_congr (fun _ => rfl) _
  simp only [work, hsame]
  simp only [leave, TunnelPc.work]
  omega

/-- a pump whose handle is dropped stays where it is -/
theorem remove_work (t : Tunnel) (id : UInt16) : (t.remove id).work = t.work := by
  have hsame : pumpsWork (t.remove id).pump t.spawned = pumpsWork t.pump t.spawned :=
    pumpsWork_congr (fun k => remove_pc t id k) _
  simp only [work, remove_loop, remove_spawned, remove_completions, remove_tx, hsame]

theorem loopSend_work (t : Tunnel) (f : Frame) :
    (t.loopSend f).work + t.loop.work ≤ t.work + 11 := by
  unfold loopSend
  split
  · next tx htx =>
    obtain ⟨-, -, rfl⟩ := Chan.trySend_ok htx
    simp only [work, Chan.push, List.length_append, List.length_singleton, TunnelPc.work]
    omega
  · have hleave := leave_work t
    omega

theorem spawn_work (t : Tunnel) (id : UInt16) (head : Bytes) :
    (t.spawn id head).work = t.work + 1 := by
  have hremove := remove_work t id
  have hpumps := pumpsWork_spawn (t.remove id).pump (t.remove id).spawned { id := id, head := head }
  simp only [work] at hremove ⊢
  simp only [spawn, setPump, hpumps, PumpPc.work]
  omega

theorem enqueue_work (hl : t.loop = .select) (id : UInt16) (bytes : Bytes) :
    (t.enqueue id bytes).work ≤ t.work + 12 := by
  unfold enqueue
  split
  · exact Nat.le_add_right _ _
  · next k hk =>
    split
    · next input hs =>
      have hsame : pumpsWork (t.setPump k { t.pump k with input := input }).pump t.spawned =
          pumpsWork t.pump t.spawned :=
        pumpsWork_congr (forall_setPump (P := fun j p => p.pc = (t.pump j).pc)
          (p := { t.pump k with input := input }) (fun _ => rfl) rfl) _
      change _ + pumpsWork (t.setPump k { t.pump k with input := input }).pump t.spawned + _ + _ ≤ _
      rw [hsame]
      exact Nat.le_add_right _ _
    · have hremove := remove_work t id
      have hselect := remove_loop t id
      rw [hl] at hselect
      simp only [work, hselect, hl, TunnelPc.work] at hremove ⊢
      omega
    · exact Nat.le_add_right _ _

/-- a frame from the hub brings less than it weighs -/
theorem handleFrame_work (hl : t.loop = .select) (f : Frame) :
    (t.handleFrame f).work < t.work + downWork f := by
  have hselect : t.loop.work = 0 := by rw [hl]; rfl
  have hleave := leave_work t
  cases f with
  | ping =>
    have hsend := loopSend_work t .pong
    show (t.loopSend .pong).work < t.work + 13
    omega
  | pong => exact Nat.lt_succ_self _
  | «open» id head =>
    unfold handleFrame
    simp only
    split
    · simp only [work, TunnelPc.work, downWork]
      omega
    · have hspawn := spawn_work t id head
      simp only [downWork]
      omega
  | data id bytes =>
    have hinput := enqueue_work hl id bytes
    show (t.enqueue id bytes).work < t.work + 13
    omega
  | halfEnd id =>
    have hinput := enqueue_work hl id []
    show (t.enqueue id []).work < t.work + 13
    omega
  | «end» id reason =>
    show (t.remove id).work < t.work + 1
    rw [remove_work]
    exact Nat.lt_succ_self _
  | _ =>
    show t.leave.work < t.work + 13
    omega

theorem recv_work {m : Message} {f : Frame} (h : t.recv m = some u)
    (hf : ∀ g, tetherDecode m = .ok (some g) → g = f) : u.work < t.work + downWork f := by
  have hpos := downWork_pos f
  unfold recv at h
  split at h
  · next hl =>
    split at h
    · obtain rfl := Option.some.inj h
      have hleave := leave_work t
      omega
    · obtain rfl := Option.some.inj h
      omega
    · next g hg =>
      obtain rfl := Option.some.inj h
      obtain rfl := hf g hg
      exact handleFrame_work hl g
  · cases h

/-- the frame that the writer takes leaves the queue -/
theorem write_work (h : t.write = some u) : u.work + 11 = t.work := by
  unfold write at h
  split at h
  · cases h
  · obtain ⟨⟨f, tx⟩, hr, rfl⟩ := Option.map_eq_some_iff.mp h
    simp only [work, (Chan.recv_some hr).1, List.length_cons]
    omega

theorem replyStep_work (h : t.replyStep = some u) : u.work < t.work := by
  unfold replyStep at h
  split at h
  · next id reason hl =>
    obtain rfl := Option.some.inj h
    have hsend := loopSend_work t (.end id reason)
    rw [hl] at hsend
    simp only [TunnelPc.work] at hsend
    omega
  · cases h

theorem complete_work (h : t.complete = some u) : u.work < t.work := by
  unfold complete at h
  split at h
  · next id _ rest hl hc =>
    obtain rfl := Option.some.inj h
    have hremove := remove_work t id
    simp only [work, remove_completions, hc, List.length_cons] at hremove ⊢
    omega
  · cases h

theorem pumpSend_work (hk : k < t.spawned) (h : t.pumpSend k = some u) : u.work < t.work := by
  have hpump := fun pc => pumpsWork_update t.pump hk { t.pump k with pc := pc }
  unfold pumpSend at h
  simp only at h
  split at h
  · next f hp =>
    split at h
    · obtain rfl := Option.some.inj h
      have hsum := hpump (.ending engineFailed)
      simp only [hp, PumpPc.work] at hsum
      simp only [work, setPump]
      omega
    · split at h
      · obtain rfl := Option.some.inj h
        have hsum := hpump (.engine true)
        simp only [hp, PumpPc.work] at hsum
        simp only [work, setPump, Chan.push, List.length_append, List.length_singleton]
        omega
      · cases h
  · next reason hp =>
    have hsum := hpump .completing
    simp only [hp, PumpPc.work] at hsum
    split at h
    · obtain rfl := Option.some.inj h
      simp only [work, setPump]
      omega
    · split at h
      · obtain rfl := Option.some.inj h
        simp only [work, setPump, Chan.push, List.length_append, List.length_singleton]
        omega
      · cases h
  · next hp =>
    obtain rfl := Option.some.inj h
    have hsum := hpump .done
    simp only [hp, PumpPc.work] at hsum
    simp only [work, setPump, List.length_append, List.length_singleton]
    omega
  · cases h

theorem cancel_work (hk : k < t.spawned) {p : Pump} (h : (t.pump k).cancel = some p) :
    (t.setPump k p).work < t.work := by
  have hsum := pumpsWork_update t.pump hk p
  suffices hless : p.pc.work < (t.pump k).pc.work by
    simp only [work, setPump]
    omega
  unfold Pump.cancel at h
  split at h
  · split at h
    · next hp =>
      obtain rfl := Option.some.inj h
      simp [hp, PumpPc.work]
    · next hp =>
      obtain rfl := Option.some.inj h
      simp [hp, PumpPc.work]
    · next hp =>
      obtain rfl := Option.some.inj h
      simp [hp, PumpPc.work]
    · cases h
  · cases h

end Tunnel

end AnvilRing
