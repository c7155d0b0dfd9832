import AnvilRing.Tether.Ends

/-!
# Handles and pumps

The map of a tether and the tasks that it controls.

* `Tunnel.Controlled`           a pump runs under its handle, or was told to abort;
* `Tunnel.Finishes`             a pump that is past its END leaves the map by its completion, and a
                                stream that was taken up leaves it with an END, one way or the other.
-/

namespace AnvilRing
open Wire

namespace Tunnel
variable {t u : Tunnel} {a : TunnelAction} {i : UInt16} {k : Nat}

/-! ## who controls a pump -/

structure Controlled (t : Tunnel) : Prop where
  handled : ∀ k < t.spawned, (t.pump k).dropped = true ∨ t.streams.get (t.pump k).id = some k
  live : ∀ i k, t.streams.get i = some k → (t.pump k).dropped = false
  cancelled : ∀ k, (t.pump k).pc = .cancelled → (t.pump k).dropped = true

theorem dropped_remove (t : Tunnel) (i : UInt16) (k : Nat) :
    ((t.remove i).pump k).dropped = true ↔
      (t.pump k).dropped = true ∨ t.streams.get i = some k := by
  unfold remove
  split
  · next hn =>
    rw [hn]
    simp
  · next m hm =>
    rw [hm]
    by_cases hk : k = m
    · subst hk
      show ((t.setPump k _).pump k).dropped = true ↔ _
      rw [setPump_self]
      simp
    · show ((t.setPump m _).pump k).dropped = true ↔ _
      rw [setPump_of_ne t _ hk]
      simp [Ne.symm hk]

theorem dropped_leave (t : Tunnel) (k : Nat) :
    (t.leave.pump k).dropped = true ↔
      (t.pump k).dropped = true ∨ ∃ i, t.streams.get i = some k := by
  show ((t.pump k).dropped || decide (k ∈ t.streams.values)) = true ↔ _
  rw [Bool.or_eq_true, decide_eq_true_iff, KeyMap.mem_values]

/-- a move that neither takes up nor drops a handle -/
theorem Controlled.frame (h : t.Controlled) (hn : u.spawned = t.spawned)
    (hs : u.streams = t.streams) (hid : ∀ k, (u.pump k).id = (t.pump k).id)
    (hd : ∀ k, (u.pump k).dropped = (t.pump k).dropped)
    (hc : ∀ k, (u.pump k).pc = .cancelled → (t.pump k).dropped = true) : u.Controlled where
  handled k hk := by
    rw [hd, hid, hs]
    exact h.handled k (hn ▸ hk)
  live i k hk := by
    rw [hd]
    exact h.live i k (hs ▸ hk)
  cancelled k hk := by
    rw [hd]
    exact hc k hk

/-- the map and the pumps are the same -/
theorem Controlled.same (h : t.Controlled) {loop : TunnelPc} {tx : Chan Frame}
    {received : List Frame} {completions : List (UInt16 × Nat)} : Controlled { t with
      loop := loop, tx := tx, received := received, completions := completions } :=
  h.frame rfl rfl (fun _ => rfl) (fun _ => rfl) h.cancelled

/-- one pump moves on -/
theorem Controlled.setPump (h : t.Controlled) {p : Pump} (hid : p.id = (t.pump k).id)
    (hd : p.dropped = (t.pump k).dropped) (hc : p.pc = .cancelled → p.dropped = true) :
    (t.setPump k p).Controlled := by
  refine h.frame rfl rfl ?_ ?_ ?_
  · exact forall_setPump (P := fun m q => q.id = (t.pump m).id) (fun _ => rfl) hid
  · exact forall_setPump (P := fun m q => q.dropped = (t.pump m).dropped) (fun _ => rfl) hd
  · refine forall_setPump (P := fun m q => q.pc = .cancelled → (t.pump m).dropped = true)
      h.cancelled fun hx => ?_
    rw [← hd]
    exact hc hx

theorem Controlled.remove (h : t.Controlled) (ht : t.Inv) (i : UInt16) :
    (t.remove i).Controlled where
  handled k hk := by
    rw [remove_spawned] at hk
    rw [dropped_remove, remove_id, get_remove]
    rcases h.handled k hk with hx | hx
    · exact .inl (.inl hx)
    · by_cases hi : (t.pump k).id = i
      · exact .inl (.inr (hi ▸ hx))
      · rw [if_neg hi]
        exact .inr hx
  live j k hk := by
    obtain ⟨hji, hk⟩ := get_of_remove hk
    refine Bool.eq_false_iff.mpr fun hx => ?_
    rcases (dropped_remove t i k).mp hx with hx | hx
    · rw [h.live j k hk] at hx
      cases hx
    · exact hji ((ht.handle j k hk).2.symm.trans (ht.handle i k hx).2)
  cancelled k hk := by
    rw [remove_pc] at hk
    exact (dropped_remove t i k).mpr (.inl (h.cancelled k hk))

theorem Controlled.leave (h : t.Controlled) {tx : Chan Frame} {received : List Frame} :
    Controlled { t.leave with tx := tx, received := received } where
  handled k hk := by
    left
    rcases h.handled k hk with hx | hx
    · exact (dropped_leave t k).mpr (.inl hx)
    · exact (dropped_leave t k).mpr (.inr ⟨_, hx⟩)
  live i k hk := by
    change t.leave.streams.get i = some k at hk
    rw [get_leave] at hk
    cases hk
  cancelled k hk := (dropped_leave t k).mpr (.inl (h.cancelled k hk))

theorem Controlled.spawn (h : t.Controlled) (ht : t.Inv) (i : UInt16) (head : Bytes)
    {received : List Frame} : Controlled { t.spawn i head with received := received } := by
  have hr := h.remove ht i
  have hnew : (t.spawn i head).pump t.spawned = { id := i, head := head } := by
    rw [spawn_eq]
    exact setPump_self _ _ _
  have hold : ∀ m, m ≠ t.spawned → (t.spawn i head).pump m = (t.remove i).pump m := by
    intro m hm
    rw [spawn_eq]
    exact setPump_of_ne _ _ hm
  constructor
  · intro k hk
    change k < (t.spawn i head).spawned at hk
    show ((t.spawn i head).pump k).dropped = true ∨
      (t.spawn i head).streams.get ((t.spawn i head).pump k).id = some k
    rw [get_spawn]
    by_cases hks : k = t.spawned
    · subst hks
      rw [hnew, if_pos rfl]
      exact .inr rfl
    · rw [hold k hks]
      have hlt : k < (t.remove i).spawned := by
        rw [remove_spawned]
        rw [spawn_eq] at hk
        exact lt_of_le_of_ne (Nat.lt_succ_iff.mp hk) hks
      rcases hr.handled k hlt with hx | hx
      · exact .inl hx
      · obtain ⟨hne, hx⟩ := get_of_remove hx
        rw [if_neg hne]
        exact .inr hx
  · intro j k hk
    change (t.spawn i head).streams.get j = some k at hk
    show ((t.spawn i head).pump k).dropped = false
    rw [get_spawn] at hk
    split at hk
    · obtain rfl := Option.some.inj hk
      rw [hnew]
    · next hji =>
      rw [hold k (ht.handle j k hk).1.ne]
      refine hr.live j k ?_
      rw [get_remove, if_neg hji]
      exact hk
  · intro k hk
    change ((t.spawn i head).pump k).pc = .cancelled at hk
    show ((t.spawn i head).pump k).dropped = true
    by_cases hks : k = t.spawned
    · subst hks
      rw [hnew] at hk
      cases hk
    · rw [hold k hks] at hk ⊢
      exact hr.cancelled k hk

theorem cancel_dropped {p q : Pump} (h : p.cancel = some q) : p.dropped = true := by
  unfold Pump.cancel at h
  split at h
  · next hd => exact hd
  · cases h

/-- what the engine gives leaves the pump at the engine or in front of a frame -/
theorem forwardEngine_running {p q : Pump} {e : EngineEvent} (h : p.forwardEngine e = some q) :
    q.pc ≠ .cancelled ∧ q.pc ≠ .completing ∧ q.pc ≠ .done := by
  unfold Pump.forwardEngine at h
  split at h
  · cases h
    simp
  · next bytes _ =>
    cases h
    by_cases hb : bytes = []
    · simp [hb]
    · simp [hb]
  · cases h
    simp
  · cases h
    simp
  · cases h

theorem Controlled.move (h : t.Controlled) (ht : t.Inv) (hm : Move t a u) : u.Controlled := by
  cases hm with
  | leave | leaveOn | goAway => exact h.leave
  | quiet => exact h
  | pong | ignore | refuse | reply | ping | write | writerEnd => exact h.same
  | spawn => exact h.spawn ht _ _
  | @queue m f i b k =>
    exact (h.setPump (p := { t.pump k with input := (t.pump k).input.push b }) rfl rfl
      (h.cancelled k)).same
  | exceed | «end» | complete => exact (h.remove ht _).same
  | engine hp =>
    obtain ⟨hid, _, _, _, _, hd, _, _⟩ := forwardEngine_sends hp
    exact h.setPump hid hd fun hx => absurd hx (forwardEngine_running hp).1
  | @sent k =>
    exact (h.setPump (p := { t.pump k with pc := .engine true }) rfl rfl
      fun hx => (by cases hx)).same
  | @endSent k =>
    exact (h.setPump (p := { t.pump k with pc := .completing }) rfl rfl
      fun hx => (by cases hx)).same
  | @completed k =>
    exact (h.setPump (p := { t.pump k with pc := .done }) rfl rfl fun hx => (by cases hx)).same
  | sendFailed | endFailed => exact h.setPump rfl rfl fun hx => (by cases hx)
  | cancel hp =>
    have hd := cancel_dropped hp
    obtain ⟨rfl, _⟩ := cancel_some hp
    exact h.setPump rfl rfl fun _ => hd
  | @poll k p hp =>
    rw [pollInput_eq hp]
    exact h.setPump rfl rfl (h.cancelled k)
  | dropInput => exact h.setPump rfl rfl (h.cancelled _)

theorem Reachable.controlled (h : Reachable t) : t.Controlled := by
  refine h.move (P := Controlled) ?_ fun _ _ _ hr hc hm => hc.move hr.inv hm
  exact ⟨fun k hk => (by cases hk), fun _ _ hk => (by cases hk), fun _ hk => (by cases hk)⟩

/-! ## how a stream leaves the map -/

/-- END for the stream is queued, or nothing can be queued any more -/
def EndQueued (t : Tunnel) (i : UInt16) : Prop :=
  (∃ r, .end i r ∈ t.tx.log) ∨ t.tx.rxClosed = true

/-- a stream that needs no handle: one of the parties has said END, or is about to, or the session
is over -/
def Released (t : Tunnel) (i : UInt16) : Prop :=
  t.EndQueued i ∨ (∃ r, t.loop = .reply i r) ∨ (∃ r, .end i r ∈ t.received) ∨ t.loop = .finished

structure Finishes (t : Tunnel) : Prop where
  ended : ∀ k < t.spawned, (t.pump k).pc.Past → t.EndQueued (t.pump k).id
  sent : ∀ i k, (i, k) ∈ t.completions → (t.pump k).pc = .done
  done : ∀ i k, t.streams.get i = some k → (t.pump k).pc = .done → (i, k) ∈ t.completions
  answered : ∀ i ∈ openedIds t.received, (∃ k, t.streams.get i = some k) ∨ t.Released i

theorem mem_push {c : Chan Frame} {f : Frame} {r : Bytes} (h : .end i r ∈ c.log) :
    .end i r ∈ (c.push f).log := by
  rw [Chan.log_push]
  exact List.mem_append_left _ h

theorem Move.endQueued (hm : Move t a u) (h : t.EndQueued i) : u.EndQueued i := by
  cases hm with
  | pong | reply | ping | goAway | sent | endSent =>
    rcases h with ⟨r, h⟩ | h
    · exact .inl ⟨r, mem_push h⟩
    · exact .inr h
  | spawn =>
    unfold EndQueued
    rw [show (Tunnel.spawn t _ _).tx = t.tx from spawn_tx ..]
    exact h
  | exceed | «end» | complete =>
    unfold EndQueued
    rw [show (Tunnel.remove t _).tx = t.tx from remove_tx ..]
    exact h
  | write hr =>
    rcases h with ⟨r, h⟩ | h
    · refine .inl ⟨r, ?_⟩
      rwa [show Chan.log _ = _ from Chan.log_recv hr]
    · right
      rw [(Chan.recv_some hr).2]
      exact h
  | writerEnd => exact .inr rfl
  | _ => exact h

theorem Move.released (hm : Move t a u) (h : t.Released i) : u.Released i := by
  rcases h with h | ⟨r, h⟩ | ⟨r, h⟩ | h
  · exact .inl (hm.endQueued h)
  · cases hm with
    | leave => exact .inr (.inr (.inr rfl))
    | leaveOn hl | pong hl | ignore hl | refuse hl | spawn hl | queue hl | exceed hl | «end» hl
    | complete hl | ping hl | goAway hl =>
      rw [h] at hl
      cases hl
    | reply hl =>
      rw [h] at hl
      cases hl
      refine .inl (.inl ⟨r, ?_⟩)
      rw [Chan.log_push]
      exact List.mem_append_right _ (List.mem_singleton_self _)
    | _ => exact .inr (.inl ⟨r, h⟩)
  · exact .inr (.inr (.inl ⟨r, hm.received.subset h⟩))
  · cases hm with
    | leave | leaveOn | goAway => exact .inr (.inr (.inr rfl))
    | pong hl | ignore hl | refuse hl | spawn hl | queue hl | exceed hl | «end» hl | reply hl
    | complete hl | ping hl =>
      rw [h] at hl
      cases hl
    | _ => exact .inr (.inr (.inr h))

/-- a handle is kept, or its stream released -/
theorem Finishes.handle (h : t.Finishes) (ht : t.Inv) (hm : Move t a u)
    (hk : t.streams.get i = some k) : (∃ m, u.streams.get i = some m) ∨ u.Released i := by
  have hremove : ∀ {j : UInt16}, i ≠ j → ∃ m, (t.remove j).streams.get i = some m := by
    intro j hj
    rw [get_remove, if_neg hj]
    exact ⟨k, hk⟩
  cases hm with
  | leave | leaveOn | goAway => exact .inr (.inr (.inr (.inr rfl)))
  | @spawn m j head =>
    left
    show ∃ m, (t.spawn j head).streams.get i = some m
    rw [get_spawn]
    split
    · exact ⟨_, rfl⟩
    · exact ⟨k, hk⟩
  | @exceed m f j b n =>
    by_cases hj : i = j
    · subst hj
      exact .inr (.inr (.inl ⟨exceeded, rfl⟩))
    · exact .inl (hremove hj)
  | @«end» m j r =>
    by_cases hj : i = j
    · subst hj
      exact .inr (.inr (.inr (.inl ⟨r, List.mem_append_right _ (List.mem_singleton_self _)⟩)))
    · exact .inl (hremove hj)
  | @complete j n rest hl hc =>
    by_cases hj : i = j
    · subst hj
      -- the completion is that of a pump that has sent its END
      have hmem : (i, n) ∈ t.completions := hc ▸ List.mem_cons_self
      obtain ⟨h1, h2⟩ := ht.completions i n hmem
      have hqueued := h.ended n h1 (.inr (h.sent i n hmem))
      rw [h2] at hqueued
      exact .inr (.inl ((Move.complete hl hc).endQueued hqueued))
    · exact .inl (hremove hj)
  | _ => exact .inl ⟨k, hk⟩

/-- a stream that is taken up has a handle, or is refused -/
theorem Move.takes (hm : Move t a u) (hi : i ∈ openedIds u.received)
    (hn : i ∉ openedIds t.received) :
    (∃ k, u.streams.get i = some k) ∨ ∃ r, u.loop = .reply i r := by
  have hnone : ∀ {f : Frame}, f.opens = none → i ∉ openedIds (t.received ++ [f]) := by
    intro f hf
    rwa [openedIds_snoc_of_none _ hf]
  have hone : ∀ {j : UInt16} {head : Bytes}, i ∈ openedIds (t.received ++ [.open j head]) →
      i = j := by
    intro j head hx
    rw [openedIds_append] at hx
    rcases List.mem_append.mp hx with hx | hx
    · exact absurd hx hn
    · exact List.mem_singleton.mp hx
  cases hm with
  | leaveOn _ _ ho => exact absurd hi (hnone ho)
  | pong => exact absurd hi (hnone rfl)
  | ignore _ _ ho => exact absurd hi (hnone ho)
  | refuse =>
    obtain rfl := hone hi
    exact .inr ⟨_, rfl⟩
  | @spawn m j head =>
    obtain rfl := hone hi
    left
    show ∃ k, (t.spawn i head).streams.get i = some k
    rw [get_spawn, if_pos rfl]
    exact ⟨_, rfl⟩
  | queue _ _ hf | exceed _ _ hf =>
    exact absurd hi (hnone (upload_not_opens hf))
  | «end» => exact absurd hi (hnone rfl)
  | complete =>
    rw [remove_received] at hi
    exact absurd hi hn
  | _ => exact absurd hi hn

theorem Finishes.answer (h : t.Finishes) (ht : t.Inv) (hm : Move t a u) :
    ∀ i ∈ openedIds u.received, (∃ k, u.streams.get i = some k) ∨ u.Released i := by
  intro i hi
  by_cases ho : i ∈ openedIds t.received
  · rcases h.answered i ho with ⟨k, hk⟩ | hx
    · exact h.handle ht hm hk
    · exact .inr (hm.released hx)
  · rcases hm.takes hi ho with hx | hx
    · exact .inl hx
    · exact .inr (.inr (.inl hx))

theorem done_iff {pc pc' : PumpPc} (h : pc' ≠ .done) {p : PumpPc} (hp : pc = p) (hne : p ≠ .done) :
    pc' = .done ↔ pc = .done :=
  ⟨fun hx => absurd hx h, fun hx => absurd (hp.symm.trans hx) hne⟩

/-- a move that spawns no pump -/
theorem Finishes.frame (h : t.Finishes) (ht : t.Inv) (hm : Move t a u)
    (hn : u.spawned = t.spawned) (hid : ∀ k, (u.pump k).id = (t.pump k).id)
    (hp : ∀ k, (u.pump k).pc.Past → (t.pump k).pc.Past ∨ u.EndQueued (t.pump k).id)
    (hs : ∀ i k, (i, k) ∈ u.completions → (u.pump k).pc = .done)
    (hd : ∀ i k, u.streams.get i = some k → (u.pump k).pc = .done → (i, k) ∈ u.completions) :
    u.Finishes where
  ended k hk hx := by
    rw [hid]
    rcases hp k hx with hx | hx
    · exact hm.endQueued (h.ended k (hn ▸ hk) hx)
    · exact hx
  sent := hs
  done := hd
  answered := h.answer ht hm

/-- one pump moves on, and is not done before or after -/
theorem Finishes.task (h : t.Finishes) (ht : t.Inv) (hm : Move t a u) {p : Pump}
    (hu : u.pump = (t.setPump k p).pump) (hn : u.spawned = t.spawned)
    (hs : u.streams = t.streams) (hc : u.completions = t.completions)
    (hid : p.id = (t.pump k).id) (hd : p.pc = .done ↔ (t.pump k).pc = .done)
    (hp : p.pc.Past → (t.pump k).pc.Past ∨ u.EndQueued (t.pump k).id) : u.Finishes := by
  have hdone : ∀ m, (u.pump m).pc = .done ↔ (t.pump m).pc = .done := by
    rw [hu]
    exact forall_setPump (P := fun m q => q.pc = .done ↔ (t.pump m).pc = .done)
      (fun _ => Iff.rfl) hd
  refine h.frame ht hm hn ?_ ?_ ?_ ?_
  · rw [hu]
    exact forall_setPump (P := fun m q => q.id = (t.pump m).id) (fun _ => rfl) hid
  · rw [hu]
    exact forall_setPump (P := fun m q => q.pc.Past → (t.pump m).pc.Past ∨
      u.EndQueued (t.pump m).id) (fun _ => .inl) hp
  · intro i m hx
    rw [hc] at hx
    exact (hdone m).mpr (h.sent i m hx)
  · intro i m hx hm'
    rw [hc]
    exact h.done i m (hs ▸ hx) ((hdone m).mp hm')

/-- the pumps go on as before, and no handle is new -/
theorem Finishes.still (h : t.Finishes) (ht : t.Inv) (hm : Move t a u)
    (hn : u.spawned = t.spawned) (hid : ∀ k, (u.pump k).id = (t.pump k).id)
    (hpc : ∀ k, (u.pump k).pc = (t.pump k).pc)
    (hs : ∀ i k, u.streams.get i = some k → t.streams.get i = some k)
    (hc : u.completions = t.completions) : u.Finishes := by
  refine h.frame ht hm hn hid (fun k hx => .inl (hpc k ▸ hx)) ?_ ?_
  · intro i k hx
    rw [hpc]
    exact h.sent i k (hc ▸ hx)
  · intro i k hx hdone
    rw [hpc] at hdone
    rw [hc]
    exact h.done i k (hs i k hx) hdone

theorem Finishes.spawn (h : t.Finishes) (ht : t.Inv) {m : Message} {head : Bytes}
    (hm : Move t (.recv m) { t.spawn i head with received := t.received ++ [.open i head] }) :
    Finishes { t.spawn i head with received := t.received ++ [.open i head] } := by
  have hcount : (t.spawn i head).spawned = t.spawned + 1 := by rw [spawn_eq]
  have hnew : (t.spawn i head).pump t.spawned = { id := i, head := head } := by
    rw [spawn_eq]
    exact setPump_self _ _ _
  have hold : ∀ n, n ≠ t.spawned → (t.spawn i head).pump n = (t.remove i).pump n := by
    intro n hn
    rw [spawn_eq]
    exact setPump_of_ne _ _ hn
  constructor
  · intro k hk hx
    change k < (t.spawn i head).spawned at hk
    change ((t.spawn i head).pump k).pc.Past at hx
    show EndQueued _ ((t.spawn i head).pump k).id
    by_cases hks : k = t.spawned
    · rw [hks, hnew] at hx
      rcases hx with hx | hx <;> cases hx
    · rw [hold k hks, remove_pc] at hx
      rw [hold k hks, remove_id]
      rw [hcount] at hk
      exact hm.endQueued (h.ended k (lt_of_le_of_ne (Nat.lt_succ_iff.mp hk) hks) hx)
  · intro j k hx
    change (j, k) ∈ (t.spawn i head).completions at hx
    rw [spawn_completions] at hx
    show ((t.spawn i head).pump k).pc = .done
    rw [hold k (ht.completions j k hx).1.ne, remove_pc]
    exact h.sent j k hx
  · intro j k hk hdone
    change (t.spawn i head).streams.get j = some k at hk
    change ((t.spawn i head).pump k).pc = .done at hdone
    show (j, k) ∈ (t.spawn i head).completions
    rw [spawn_completions]
    rw [get_spawn] at hk
    split at hk
    · obtain rfl := Option.some.inj hk
      rw [hnew] at hdone
      cases hdone
    · rw [hold k (ht.handle j k hk).1.ne, remove_pc] at hdone
      exact h.done j k hk hdone
  · exact h.answer ht hm

/-- a pump that is past its END has queued it, or found the writer gone -/
theorem endQueued_of_pumpSend {r : Bytes} (h : t.pumpSend k = some u)
    (hp : (t.pump k).pc = .ending r) : u.EndQueued (t.pump k).id := by
  unfold pumpSend at h
  simp only [hp] at h
  split at h
  · next hc => exact Option.some.inj h ▸ .inr hc
  · split at h
    · obtain rfl := Option.some.inj h
      refine .inl ⟨r, ?_⟩
      rw [Chan.log_push]
      exact List.mem_append_right _ (List.mem_singleton_self _)
    · cases h

theorem Finishes.move (h : t.Finishes) (ht : t.Inv) (hm : Move t a u)
    (hend : ∀ k r, a = .pumpSend k → (t.pump k).pc = .ending r → u.EndQueued (t.pump k).id) :
    u.Finishes := by
  have hm' := hm
  cases hm' with
  | leave | leaveOn | goAway =>
    refine h.still ht hm rfl (fun _ => rfl) (fun _ => rfl) (fun i k hk => ?_) rfl
    change t.leave.streams.get i = some k at hk
    rw [get_leave] at hk
    cases hk
  | quiet => exact h
  | pong | ignore | refuse | reply | ping | write | writerEnd =>
    exact h.still ht hm rfl (fun _ => rfl) (fun _ => rfl) (fun _ _ hk => hk) rfl
  | spawn => exact h.spawn ht hm
  | queue => exact h.task ht hm rfl rfl rfl rfl rfl Iff.rfl .inl
  | exceed | «end» =>
    exact h.still ht hm (remove_spawned t _) (remove_id t _) (remove_pc t _)
      (fun _ _ hk => (get_of_remove hk).2) (remove_completions t _)
  | @complete i k rest hl hc =>
    refine h.frame ht hm (remove_spawned t i) (remove_id t i) ?_ ?_ ?_
    · intro m hx
      left
      rwa [show ((t.remove i).pump m).pc = _ from remove_pc t i m] at hx
    · intro j m hx
      show ((t.remove i).pump m).pc = .done
      rw [remove_pc]
      refine h.sent j m ?_
      rw [hc]
      exact List.mem_cons_of_mem _ hx
    · intro j m hx hdone
      change ((t.remove i).pump m).pc = .done at hdone
      rw [remove_pc] at hdone
      obtain ⟨hne, hx⟩ := get_of_remove hx
      have hmem := h.done j m hx hdone
      rw [hc] at hmem
      rcases List.mem_cons.mp hmem with he | hmem
      · cases he
        exact absurd rfl hne
      · exact hmem
  | @engine k e p hp =>
    obtain ⟨hid, hne, _, _, _, _, hne', _⟩ := forwardEngine_sends hp
    refine h.task ht hm rfl rfl rfl rfl hid ?_ ?_
    · exact ⟨fun hx => absurd hx hne', fun hx => absurd hx hne⟩
    · obtain ⟨-, hcompleting, hdone⟩ := forwardEngine_running hp
      exact fun hx => absurd hx (not_or.mpr ⟨hcompleting, hdone⟩)
  | @sent k f hp | @sendFailed k f hp =>
    refine h.task ht hm rfl rfl rfl rfl rfl (done_iff ?_ hp ?_) fun hx => absurd hx ?_
    · exact fun hx => (by cases hx)
    · exact fun hx => (by cases hx)
    · exact not_past rfl (fun hx => (by cases hx)) fun hx => (by cases hx)
  | @endSent k r hp | @endFailed k r hp =>
    refine h.task ht hm rfl rfl rfl rfl rfl (done_iff ?_ hp ?_) fun _ => .inr (hend k r rfl hp)
    · exact fun hx => (by cases hx)
    · exact fun hx => (by cases hx)
  | @completed k hp =>
    have hdone : ∀ m, ((t.setPump k { t.pump k with pc := .done }).pump m).pc = .done →
        m = k ∨ (t.pump m).pc = .done :=
      forall_setPump (P := fun m q => q.pc = .done → m = k ∨ (t.pump m).pc = .done)
        (fun _ => .inr) fun _ => .inl rfl
    refine h.frame ht hm rfl ?_ ?_ ?_ ?_
    · exact forall_setPump (P := fun m q => q.id = (t.pump m).id) (fun _ => rfl) rfl
    · exact forall_setPump (P := fun m q => q.pc.Past → (t.pump m).pc.Past ∨ _) (fun _ => .inl)
        fun _ => .inl (.inl hp)
    · intro i m hx
      show ((t.setPump k _).pump m).pc = .done
      rcases List.mem_append.mp hx with hx | hx
      · by_cases hmk : m = k
        · rw [hmk, setPump_self]
        · rw [setPump_of_ne t _ hmk]
          exact h.sent i m hx
      · cases List.mem_singleton.mp hx
        rw [setPump_self]
    · intro i m hx hd
      rcases hdone m hd with rfl | hd
      · refine List.mem_append_right _ (List.mem_singleton.mpr ?_)
        rw [(ht.handle i m hx).2]
      · exact List.mem_append_left _ (h.done i m hx hd)
  | @cancel k p hp =>
    obtain ⟨rfl, hne⟩ := cancel_some hp
    refine h.task ht hm rfl rfl rfl rfl rfl ?_ fun hx => absurd hx ?_
    · exact ⟨fun hx => (by cases hx), fun hx => absurd hx hne⟩
    · exact not_past rfl (fun hx => (by cases hx)) fun hx => (by cases hx)
  | @poll k p hp =>
    have hpoll := pollInput_eq hp
    refine h.task ht hm rfl rfl rfl rfl ?_ ?_ ?_
    · rw [hpoll]
    · rw [hpoll]
    · rw [hpoll]
      exact .inl
  | dropInput => exact h.task ht hm rfl rfl rfl rfl rfl Iff.rfl .inl

theorem Reachable.finishes (h : Reachable t) : t.Finishes := by
  refine Machine.Reachable.invariant_of (P := Finishes) ?_ ?_ h
  · rintro t rfl
    exact ⟨fun k hk => (by cases hk), fun _ _ hk => (by cases hk), fun _ _ hk => (by cases hk),
      fun _ hi => (by cases hi)⟩
  · intro t a u hr ih hs
    refine ih.move (Reachable.inv hr) (move_of_step hs) ?_
    rintro k r rfl hp
    exact endQueued_of_pumpSend hs hp

end Tunnel

end AnvilRing
