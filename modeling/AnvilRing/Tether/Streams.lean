import AnvilRing.Tether.Moves

/-!
# The streams of a tether

* `Tunnel.Inv`               handles, pumps, completions and replies belong to streams that were
                             opened, in the order of their OPENs;
* `Tunnel.Reachable.inv`     every reachable tether satisfies it.
-/

namespace AnvilRing
open Wire

namespace Tunnel
variable {t u : Tunnel} {a : TunnelAction} {i j : UInt16} {k : Nat}

/-- the states of all runs of a tether -/
abbrev Reachable (t : Tunnel) : Prop := Machine.Reachable step (fun t => t = new) t

theorem Reachable.move {P : Tunnel → Prop} (hinit : P new)
    (hmove : ∀ t a u, Reachable t → P t → Move t a u → P u) (h : Reachable t) : P t := by
  refine Machine.Reachable.invariant_of ?_ ?_ h
  · intro t ht
    rw [ht]
    exact hinit
  · intro t a u hr hp hstep
    exact hmove t a u hr hp (move_of_step hstep)

/-- the stream ids of the pumps, in the order in which they were spawned -/
def ids (t : Tunnel) : List UInt16 := (List.range t.spawned).map fun k => (t.pump k).id

structure Inv (t : Tunnel) : Prop where
  handle : ∀ i k, t.streams.get i = some k → k < t.spawned ∧ (t.pump k).id = i
  ids : t.ids.Sublist (openedIds t.received)
  working : ∀ k, (t.pump k).pc ≠ .done → k < t.spawned
  sending : ∀ k f, (t.pump k).pc = .sending f →
    f.isResponse = true ∧ f.stream = (t.pump k).id
  reply : ∀ i r, t.loop = .reply i r → i ∈ openedIds t.received
  sent : ∀ f ∈ t.tx.log, f.isResponse = true → f.stream ∈ openedIds t.received
  completions : ∀ i k, (i, k) ∈ t.completions → k < t.spawned ∧ (t.pump k).id = i
  finished : t.loop = .finished → ∀ i, t.streams.get i = none

theorem Inv.opened (h : t.Inv) (hk : k < t.spawned) : (t.pump k).id ∈ openedIds t.received :=
  h.ids.subset (List.mem_map.mpr ⟨k, List.mem_range.mpr hk, rfl⟩)

/-- where every stream was opened once, a stream has one pump -/
theorem Inv.pump_unique (h : t.Inv) (hn : (openedIds t.received).Nodup) {k m : Nat}
    (hk : k < t.spawned) (hm : m < t.spawned) (he : (t.pump k).id = (t.pump m).id) : k = m :=
  List.inj_on_of_nodup_map (h.ids.nodup hn) (List.mem_range.mpr hk) (List.mem_range.mpr hm) he

/-! ## the invariant is kept -/

/-- a move that spawns no pump, and queues only frames of streams that were opened -/
theorem Inv.frame (h : t.Inv) (hid : ∀ k, (u.pump k).id = (t.pump k).id)
    (hn : u.spawned = t.spawned)
    (hs : ∀ i k, u.streams.get i = some k → t.streams.get i = some k)
    (hrec : (openedIds t.received).Sublist (openedIds u.received))
    (hw : ∀ k, (u.pump k).pc ≠ .done → (t.pump k).pc ≠ .done)
    (hf : ∀ k f, (u.pump k).pc = .sending f → f.isResponse = true ∧ f.stream = (t.pump k).id)
    (hr : ∀ i r, u.loop = .reply i r → i ∈ openedIds u.received)
    (htx : ∀ f ∈ u.tx.log, f.isResponse = true → f ∈ t.tx.log ∨ f.stream ∈ openedIds t.received)
    (hc : ∀ i k, (i, k) ∈ u.completions → k < t.spawned ∧ (t.pump k).id = i)
    (hv : u.loop = .finished → t.loop = .finished ∨ ∀ i, u.streams.get i = none) : u.Inv where
  handle i k hk := by
    rw [hn, hid]
    exact h.handle i k (hs i k hk)
  ids := by
    have he : u.ids = t.ids := by
      unfold Tunnel.ids
      rw [hn]
      exact List.map_congr_left fun k _ => hid k
    rw [he]
    exact h.ids.trans hrec
  working k hk := by
    rw [hn]
    exact h.working k (hw k hk)
  sending k f hk := by
    rw [hid]
    exact hf k f hk
  reply := hr
  sent f hx hfr := by
    rcases htx f hx hfr with hx | hx
    · exact hrec.subset (h.sent f hx hfr)
    · exact hrec.subset hx
  completions i k hk := by
    rw [hn, hid]
    exact hc i k hk
  finished hx i := by
    rcases hv hx with hx | hx
    · cases hg : u.streams.get i with
      | none => rfl
      | some k =>
        have hg' := hs i k hg
        rw [h.finished hx i] at hg'
        cases hg'
    · exact hx i

/-- one pump moves on -/
theorem Inv.setPump (h : t.Inv) {p : Pump} (hid : p.id = (t.pump k).id)
    (hw : p.pc ≠ .done → (t.pump k).pc ≠ .done)
    (hf : ∀ f, p.pc = .sending f → f.isResponse = true ∧ f.stream = (t.pump k).id) :
    (t.setPump k p).Inv := by
  refine h.frame ?_ rfl (fun _ _ hx => hx) (List.Sublist.refl _) ?_ ?_ h.reply
    (fun _ hx _ => .inl hx) h.completions .inl
  · exact forall_setPump (P := fun m q => q.id = (t.pump m).id) (fun _ => rfl) hid
  · exact forall_setPump (P := fun m q => q.pc ≠ .done → (t.pump m).pc ≠ .done)
      (fun _ hx => hx) hw
  · exact forall_setPump (P := fun m q => ∀ f, q.pc = .sending f →
      f.isResponse = true ∧ f.stream = (t.pump m).id) h.sending hf

/-- a frame is queued -/
theorem Inv.push (h : t.Inv) {f : Frame}
    (hf : f.isResponse = true → f.stream ∈ openedIds t.received)
    {loop : TunnelPc} (hl : loop = t.loop ∨ loop = .select) :
    Inv { t with tx := t.tx.push f, loop := loop } := by
  refine h.frame (fun _ => rfl) rfl (fun _ _ hx => hx) (List.Sublist.refl _) (fun _ hx => hx)
    h.sending ?_ ?_ h.completions ?_
  · intro i r hx
    rcases hl with rfl | rfl
    · exact h.reply i r hx
    · cases hx
  · intro g hx hg
    rw [Chan.log_push, List.mem_append, List.mem_singleton] at hx
    rcases hx with hx | rfl
    · exact .inl hx
    · exact .inr (hf hg)
  · intro hx
    rcases hl with rfl | rfl
    · exact .inl hx
    · cases hx

theorem Inv.leave (h : t.Inv) : t.leave.Inv :=
  h.frame (fun _ => rfl) rfl (fun i k hx => by rw [get_leave] at hx; cases hx)
    (List.Sublist.refl _) (fun _ hx => hx) h.sending nofun (fun _ hx _ => .inl hx) h.completions
    fun _ => .inr (get_leave t)

theorem Inv.remove (h : t.Inv) (i : UInt16) : (t.remove i).Inv := by
  refine h.frame (remove_id t i) (remove_spawned t i) (fun j k hx => (get_of_remove hx).2) ?_ ?_ ?_
    ?_ ?_ ?_ ?_
  · rw [remove_received]
  · intro k hx
    rwa [remove_pc] at hx
  · intro k f hx
    rw [remove_pc] at hx
    exact h.sending k f hx
  · intro j r hx
    rw [remove_loop] at hx
    rw [remove_received]
    exact h.reply j r hx
  · intro f hx _
    rw [remove_tx] at hx
    exact .inl hx
  · intro j k hx
    rw [remove_completions] at hx
    exact h.completions j k hx
  · intro hx
    rw [remove_loop] at hx
    exact .inl hx

/-- a frame of the hub was handled -/
theorem Inv.receive (h : t.Inv) (f : Frame) : Inv { t with received := t.received ++ [f] } := by
  have hsub : (openedIds t.received).Sublist (openedIds (t.received ++ [f])) := by
    rw [openedIds_append]
    exact List.sublist_append_left _ _
  exact h.frame (fun _ => rfl) rfl (fun _ _ hx => hx) hsub (fun _ hx => hx) h.sending
    (fun i r hx => hsub.subset (h.reply i r hx)) (fun _ hx _ => .inl hx) h.completions .inl

/-- the loop turns to a reply -/
theorem Inv.turn (h : t.Inv) {r : Bytes} (hi : i ∈ openedIds t.received) :
    Inv { t with loop := .reply i r } := by
  refine h.frame (fun _ => rfl) rfl (fun _ _ hx => hx) (List.Sublist.refl _) (fun _ hx => hx)
    h.sending ?_ (fun _ hx _ => .inl hx) h.completions nofun
  intro j r' hx
  cases hx
  exact hi

/-- an OPEN spawns the pump of its stream -/
theorem Inv.spawn (h : t.Inv) (hl : t.loop = .select) (i : UInt16) (head : Bytes) :
    Inv { t.spawn i head with received := t.received ++ [.open i head] } := by
  have hr := h.remove i
  have hsame : ∀ m < t.spawned, (t.spawn i head).pump m = (t.remove i).pump m := by
    intro m hm
    rw [spawn_eq]
    exact setPump_of_ne _ _ hm.ne
  have hnew : (t.spawn i head).pump t.spawned = { id := i, head := head } := by
    rw [spawn_eq]
    exact setPump_self _ _ _
  have hother : ∀ m, m ≠ t.spawned → (t.spawn i head).pump m = (t.remove i).pump m := by
    intro m hm
    rw [spawn_eq]
    exact setPump_of_ne _ _ hm
  have hcount : (t.spawn i head).spawned = t.spawned + 1 := by rw [spawn_eq]
  have hopen : openedIds (t.received ++ [.open i head]) = openedIds t.received ++ [i] := by
    rw [openedIds_append]
    rfl
  constructor
  · intro j k hk
    change (t.spawn i head).streams.get j = some k at hk
    rw [get_spawn] at hk
    split at hk
    · next hj =>
      obtain rfl := Option.some.inj hk
      refine ⟨?_, ?_⟩
      · show t.spawned < (t.spawn i head).spawned
        rw [hcount]
        exact Nat.lt_succ_self _
      · show ((t.spawn i head).pump t.spawned).id = j
        rw [hnew, hj]
    · obtain ⟨h1, h2⟩ := h.handle j k hk
      refine ⟨?_, ?_⟩
      · show k < (t.spawn i head).spawned
        rw [hcount]
        exact Nat.lt_succ_of_lt h1
      · show ((t.spawn i head).pump k).id = j
        rw [hsame k h1, remove_id]
        exact h2
  · show (List.map (fun k => ((t.spawn i head).pump k).id)
      (List.range (t.spawn i head).spawned)).Sublist (openedIds (t.received ++ [.open i head]))
    rw [hcount, List.range_succ, List.map_append, hopen]
    refine List.Sublist.append ?_ ?_
    · have he : List.map (fun k => ((t.spawn i head).pump k).id) (List.range t.spawned)
          = t.ids := by
        refine List.map_congr_left fun m hm => ?_
        rw [hsame m (List.mem_range.mp hm), remove_id]
      rw [he]
      exact h.ids
    · rw [List.map_singleton, hnew]
  · intro k hk
    change ((t.spawn i head).pump k).pc ≠ .done at hk
    show k < (t.spawn i head).spawned
    rw [hcount]
    by_cases hks : k = t.spawned
    · rw [hks]
      exact Nat.lt_succ_self _
    · rw [hother k hks, remove_pc] at hk
      exact Nat.lt_succ_of_lt (h.working k hk)
  · intro k f hk
    change ((t.spawn i head).pump k).pc = .sending f at hk
    show f.isResponse = true ∧ f.stream = ((t.spawn i head).pump k).id
    by_cases hks : k = t.spawned
    · rw [hks, hnew] at hk
      cases hk
    · rw [hother k hks] at hk ⊢
      exact hr.sending k f hk
  · intro j r hx
    change (t.spawn i head).loop = .reply j r at hx
    rw [spawn_loop, hl] at hx
    cases hx
  · intro f hx hf
    change f ∈ (t.spawn i head).tx.log at hx
    rw [spawn_tx] at hx
    show f.stream ∈ openedIds (t.received ++ [.open i head])
    rw [hopen]
    exact List.mem_append_left _ (h.sent f hx hf)
  · intro j k hx
    change (j, k) ∈ (t.spawn i head).completions at hx
    rw [spawn_completions] at hx
    obtain ⟨h1, h2⟩ := h.completions j k hx
    refine ⟨?_, ?_⟩
    · show k < (t.spawn i head).spawned
      rw [hcount]
      exact Nat.lt_succ_of_lt h1
    · show ((t.spawn i head).pump k).id = j
      rw [hsame k h1, remove_id]
      exact h2
  · intro hx
    change (t.spawn i head).loop = .finished at hx
    rw [spawn_loop, hl] at hx
    cases hx

/-- what the engine gives a pump is about the pump's own stream -/
theorem forwardEngine_sends {p q : Pump} {e : EngineEvent} (h : p.forwardEngine e = some q) :
    q.id = p.id ∧ p.pc ≠ .done ∧ q.input = p.input ∧ q.inputPc = p.inputPc ∧ q.polls = p.polls ∧
      q.dropped = p.dropped ∧ q.pc ≠ .done ∧
      ∀ f, q.pc = .sending f → f.isResponse = true ∧ f.stream = p.id := by
  unfold Pump.forwardEngine at h
  split at h
  · next hp =>
    cases h
    refine ⟨rfl, by rw [hp]; exact nofun, rfl, rfl, rfl, rfl, nofun, ?_⟩
    intro f hf
    cases hf
    exact ⟨rfl, rfl⟩
  · next bytes hp =>
    cases h
    refine ⟨rfl, by rw [hp]; exact nofun, rfl, rfl, rfl, rfl, ?_, ?_⟩
    · by_cases hb : bytes = []
      · simp [hb]
      · simp [hb]
    · intro f hf
      by_cases hb : bytes = []
      · simp [hb] at hf
      · simp only [if_neg hb] at hf
        cases hf
        exact ⟨rfl, rfl⟩
  · next hp =>
    cases h
    exact ⟨rfl, by rw [hp]; exact nofun, rfl, rfl, rfl, rfl, nofun, fun f hf => nomatch hf⟩
  · next hp =>
    cases h
    exact ⟨rfl, by rw [hp]; exact nofun, rfl, rfl, rfl, rfl, nofun, fun f hf => nomatch hf⟩
  · cases h

theorem cancel_some {p q : Pump} (h : p.cancel = some q) :
    q = { p with pc := .cancelled } ∧ p.pc ≠ .done := by
  unfold Pump.cancel at h
  split at h
  · split at h
    · next hp =>
      cases h
      exact ⟨rfl, by rw [hp]; exact nofun⟩
    · next hp =>
      cases h
      exact ⟨rfl, by rw [hp]; exact nofun⟩
    · next hp =>
      cases h
      exact ⟨rfl, by rw [hp]; exact nofun⟩
    · cases h
  · cases h

theorem pollInput_eq {p q : Pump} (h : p.pollInput = some q) :
    q = { p with input := q.input, inputPc := q.inputPc, polls := q.polls } := by
  unfold Pump.pollInput at h
  split at h
  · split at h
    · split at h
      · cases h
        rfl
      · cases h
        rfl
    · split at h
      · cases h
        rfl
      · cases h
  · cases h
    rfl
  · cases h

/-- the frames that a tether has handled only grow -/
theorem Move.received (hm : Move t a u) : t.received <+: u.received := by
  cases hm with
  | leaveOn | pong | ignore | refuse | spawn | queue | exceed | «end» =>
    exact List.prefix_append _ _
  | complete =>
    rw [remove_received]
  | _ => exact List.prefix_rfl

theorem Inv.move (h : t.Inv) (hm : Move t a u) : u.Inv := by
  cases hm with
  | leave => exact h.leave
  | quiet => exact h
  | leaveOn => exact h.leave.receive _
  | pong hl => exact (h.push (f := .pong) nofun (.inr rfl)).receive _
  | ignore => exact h.receive _
  | @refuse m i head hl hm hn =>
    refine (h.receive (.open i head)).turn ?_
    show i ∈ openedIds (t.received ++ [.open i head])
    rw [openedIds_append]
    exact List.mem_append_right _ (List.mem_singleton_self i)
  | spawn hl => exact h.spawn hl _ _
  | @queue m f i b k hl hm hf hk hc =>
    have hx := h.setPump (k := k)
      (p := { t.pump k with input := (t.pump k).input.push b }) rfl (fun hx => hx) (h.sending k)
    exact hx.receive f
  | @exceed m f i b k hl hm hf hk =>
    obtain ⟨h1, h2⟩ := h.handle i k hk
    have hi : i ∈ openedIds t.received := h2 ▸ h.opened h1
    have hr := ((h.remove i).receive f).turn (i := i) (r := exceeded) (by
      show i ∈ openedIds ((t.remove i).received ++ [f])
      rw [remove_received, openedIds_append]
      exact List.mem_append_left _ hi)
    rwa [remove_received] at hr
  | @«end» m i r hl hm =>
    have hr := (h.remove i).receive (.end i r)
    rwa [remove_received] at hr
  | @reply i r hl => exact h.push (f := .end i r) (fun _ => h.reply i r hl) (.inr rfl)
  | @complete i k rest hl hc =>
    have hr := h.remove i
    refine hr.frame (fun _ => rfl) rfl (fun _ _ hx => hx) (List.Sublist.refl _) (fun _ hx => hx)
      hr.sending hr.reply (fun _ hx _ => .inl hx) ?_ .inl
    intro j m hx
    refine hr.completions j m ?_
    rw [remove_completions, hc]
    exact List.mem_cons_of_mem _ hx
  | ping => exact h.push (f := .ping) nofun (.inr rfl)
  | goAway => exact h.leave.push (f := .goAway _) nofun (.inl rfl)
  | engine hp =>
    obtain ⟨h1, h2, _, _, _, _, _, h3⟩ := forwardEngine_sends hp
    exact h.setPump h1 (fun _ => h2) h3
  | @sent k f hp =>
    have hx := h.setPump (k := k) (p := { t.pump k with pc := .engine true }) rfl
      (fun _ => by rw [hp]; exact nofun) nofun
    refine hx.push (fun _ => ?_) (.inl rfl)
    rw [(h.sending k f hp).2]
    exact h.opened (h.working k (by rw [hp]; exact nofun))
  | @sendFailed k f hp =>
    exact h.setPump rfl (fun _ => by rw [hp]; exact nofun) nofun
  | @endSent k r hp =>
    have hx := h.setPump (k := k) (p := { t.pump k with pc := .completing }) rfl
      (fun _ => by rw [hp]; exact nofun) nofun
    exact hx.push (f := .end (t.pump k).id r)
      (fun _ => h.opened (h.working k (by rw [hp]; exact nofun))) (.inl rfl)
  | @endFailed k r hp => exact h.setPump rfl (fun _ => by rw [hp]; exact nofun) nofun
  | @completed k hp =>
    have hx := h.setPump (k := k) (p := { t.pump k with pc := .done }) rfl
      (fun _ => by rw [hp]; exact nofun) nofun
    refine hx.frame (fun _ => rfl) rfl (fun _ _ hy => hy) (List.Sublist.refl _) (fun _ hy => hy)
      hx.sending hx.reply (fun _ hy _ => .inl hy) ?_ .inl
    intro j m hy
    rcases List.mem_append.mp hy with hy | hy
    · exact hx.completions j m hy
    · cases List.mem_singleton.mp hy
      refine ⟨h.working k (by rw [hp]; exact nofun), ?_⟩
      rw [setPump_self]
  | cancel hp =>
    obtain ⟨rfl, h2⟩ := cancel_some hp
    exact h.setPump rfl (fun _ => h2) nofun
  | @poll k p hp =>
    refine h.setPump ?_ ?_ ?_
    · rw [pollInput_eq hp]
    · rw [pollInput_eq hp]
      exact fun hx => hx
    · rw [pollInput_eq hp]
      exact h.sending k
  | @dropInput k => exact h.setPump rfl (fun hx => hx) (h.sending k)
  | @write f tx hr =>
    refine h.frame (fun _ => rfl) rfl (fun _ _ hx => hx) (List.Sublist.refl _) (fun _ hx => hx)
      h.sending h.reply ?_ h.completions .inl
    intro g hx _
    left
    change g ∈ tx.log at hx
    rwa [Chan.log_recv hr] at hx
  | writerEnd =>
    exact h.frame (fun _ => rfl) rfl (fun _ _ hx => hx) (List.Sublist.refl _) (fun _ hx => hx)
      h.sending h.reply (fun _ hx _ => .inl hx) h.completions .inl

theorem inv_new : new.Inv where
  handle _ _ hk := nomatch hk
  ids := List.Sublist.refl _
  working _ hk := absurd rfl hk
  sending _ _ hk := nomatch hk
  reply _ _ hx := nomatch hx
  sent _ hx := nomatch hx
  completions _ _ hx := nomatch hx
  finished hx := nomatch hx

theorem Reachable.inv (h : Reachable t) : t.Inv := h.move inv_new fun _ _ _ _ hi hm => hi.move hm

end Tunnel

end AnvilRing
