import AnvilRing.Tether.Streams

/-!
# The ENDs of a tether

A tether queues END from the pump of the stream, or from its loop, which has no handle for the
stream then.

* `Tunnel.Ended`             a stream whose END is queued has a pump that is past its END;
* `Tunnel.Reachable.ended`   so it is as long as every stream is opened once.
-/

namespace AnvilRing
open Wire

/-- the pump has only its completion left to send -/
def PumpPc.Past (pc : PumpPc) : Prop := pc = .completing ∨ pc = .done

namespace Tunnel
variable {t u : Tunnel} {a : TunnelAction} {i j : UInt16} {k : Nat}

/-- the pump has sent its END -/
def EndSent (t : Tunnel) (k : Nat) : Prop :=
  (t.pump k).pc.Past ∧ ∃ r, .end (t.pump k).id r ∈ t.tx.log

structure Ended (t : Tunnel) : Prop where
  past : ∀ i k r, t.streams.get i = some k → .end i r ∈ t.tx.log → (t.pump k).pc.Past
  reply : ∀ i r, t.loop = .reply i r → t.streams.get i = none
  sending : ∀ k f, (t.pump k).pc = .sending f → ∀ i r, f ≠ .end i r

/-- a move that takes up no stream -/
theorem Ended.frame (h : t.Ended)
    (hs : ∀ i k, u.streams.get i = some k → t.streams.get i = some k)
    (hp : ∀ k, (t.pump k).pc.Past → (u.pump k).pc.Past)
    (hf : ∀ k f, (u.pump k).pc = .sending f → ∀ i r, f ≠ .end i r)
    (htx : ∀ i r, .end i r ∈ u.tx.log → .end i r ∈ t.tx.log ∨
      ∀ k, u.streams.get i = some k → (u.pump k).pc.Past)
    (hl : ∀ i r, u.loop = .reply i r → t.loop = .reply i r ∨ u.streams.get i = none) :
    u.Ended where
  past i k r hk hr := by
    rcases htx i r hr with hx | hx
    · exact hp k (h.past i k r (hs i k hk) hx)
    · exact hx k hk
  reply i r hi := by
    rcases hl i r hi with hx | hx
    · cases hg : u.streams.get i with
      | none => rfl
      | some k =>
        have hn := h.reply i r hx
        rw [hs i k hg] at hn
        cases hn
    · exact hx
  sending := hf

/-- one pump moves on -/
theorem Ended.setPump (h : t.Ended) {p : Pump} (hp : (t.pump k).pc.Past → p.pc.Past)
    (hf : ∀ f, p.pc = .sending f → ∀ i r, f ≠ .end i r) : (t.setPump k p).Ended := by
  refine h.frame (fun _ _ hx => hx) ?_ ?_ (fun _ _ hx => .inl hx) fun _ _ hx => .inl hx
  · exact forall_setPump (P := fun m q => (t.pump m).pc.Past → q.pc.Past) (fun _ hx => hx) hp
  · exact forall_setPump (P := fun _ q => ∀ f, q.pc = .sending f → ∀ i r, f ≠ .end i r)
      h.sending hf

/-- a frame that ends no stream is queued -/
theorem Ended.push (h : t.Ended) {f : Frame} (hf : ∀ i r, f ≠ .end i r) {loop : TunnelPc}
    (hl : loop = t.loop ∨ loop = .select) : Ended { t with tx := t.tx.push f, loop := loop } := by
  refine h.frame (fun _ _ hx => hx) (fun _ hx => hx) h.sending ?_ ?_
  · intro i r hx
    rw [Chan.log_push, List.mem_append, List.mem_singleton] at hx
    rcases hx with hx | hx
    · exact .inl hx
    · exact absurd hx.symm (hf i r)
  · intro i r hx
    rcases hl with rfl | rfl
    · exact .inl hx
    · cases hx

/-- what the loop has handled does not matter -/
theorem Ended.receive (h : t.Ended) (received : List Frame) :
    Ended { t with received := received } := ⟨h.past, h.reply, h.sending⟩

/-- a session that is over has no handle -/
theorem Ended.finished (h : t.Ended) {tx : Chan Frame} {received : List Frame} :
    Ended { t.leave with tx := tx, received := received } := by
  have hnone : ∀ i, t.leave.streams.get i = none := get_leave t
  constructor
  · intro i k r hk
    change t.leave.streams.get i = some k at hk
    rw [hnone] at hk
    cases hk
  · exact fun i _ _ => hnone i
  · exact h.sending

theorem Ended.remove (h : t.Ended) (i : UInt16) : (t.remove i).Ended := by
  refine h.frame (fun j k hx => (get_of_remove hx).2) ?_ ?_ ?_ ?_
  · intro k hx
    rwa [remove_pc]
  · intro k f hx
    rw [remove_pc] at hx
    exact h.sending k f hx
  · intro j r hx
    rw [remove_tx] at hx
    exact .inl hx
  · intro j r hx
    rw [remove_loop] at hx
    exact .inl hx

/-- an OPEN takes up a stream that has no END yet -/
theorem Ended.spawn (h : t.Ended) (ht : t.Inv) (hl : t.loop = .select)
    (hi : i ∉ openedIds t.received) (head : Bytes) {received : List Frame} :
    Ended { t.spawn i head with received := received } := by
  have hpump : ∀ k, k ≠ t.spawned → ((t.spawn i head).pump k).pc = (t.pump k).pc := by
    intro k hk
    rw [spawn_eq]
    show (((t.remove i).setPump _ _).pump k).pc = _
    rw [setPump_of_ne _ _ hk, remove_pc]
  have hnew : ((t.spawn i head).pump t.spawned).pc = .engine false := by
    rw [spawn_eq]
    show (((t.remove i).setPump _ _).pump t.spawned).pc = _
    rw [setPump_self]
  constructor
  · intro j k r hk hr
    change (t.spawn i head).streams.get j = some k at hk
    change .end j r ∈ (t.spawn i head).tx.log at hr
    rw [spawn_tx] at hr
    rw [get_spawn] at hk
    split at hk
    · next hji =>
      subst hji
      exact absurd (ht.sent _ hr rfl) hi
    · have hlt := (ht.handle j k hk).1
      show ((t.spawn i head).pump k).pc.Past
      rw [hpump k hlt.ne]
      exact h.past j k r hk hr
  · intro j r hx
    change (t.spawn i head).loop = _ at hx
    rw [spawn_loop, hl] at hx
    cases hx
  · intro k f hx
    change ((t.spawn i head).pump k).pc = _ at hx
    by_cases hk : k = t.spawned
    · rw [hk, hnew] at hx
      cases hx
    · rw [hpump k hk] at hx
      exact h.sending k f hx

theorem forwardEngine_past {p q : Pump} {e : EngineEvent} (h : p.forwardEngine e = some q) :
    ¬ p.pc.Past ∧ ∀ f, q.pc = .sending f → ∀ i r, f ≠ .end i r := by
  have hpast : ¬ p.pc.Past := by
    intro hx
    unfold Pump.forwardEngine at h
    rcases hx with hx | hx
    · rw [hx] at h
      cases h
    · rw [hx] at h
      cases h
  refine ⟨hpast, ?_⟩
  unfold Pump.forwardEngine at h
  split at h
  · cases h
    intro f hf
    cases hf
    exact fun _ _ => nofun
  · next bytes hp =>
    cases h
    intro f hf
    by_cases hb : bytes = []
    · simp [hb] at hf
    · simp only [if_neg hb] at hf
      cases hf
      exact fun _ _ => nofun
  · cases h
    exact nofun
  · cases h
    exact nofun
  · cases h

theorem cancel_past {p q : Pump} (h : p.cancel = some q) : ¬ p.pc.Past := by
  intro hx
  unfold Pump.cancel at h
  split at h
  · rcases hx with hx | hx
    · rw [hx] at h
      cases h
    · rw [hx] at h
      cases h
  · cases h

theorem not_past {pc pc' : PumpPc} (h : pc = pc') (h1 : pc' ≠ .completing) (h2 : pc' ≠ .done) :
    ¬ pc.Past := by
  intro hx
  rcases hx with hx | hx
  · exact h1 (h.symm.trans hx)
  · exact h2 (h.symm.trans hx)

theorem Ended.move (h : t.Ended) (ht : t.Inv) (hm : Move t a u) (hprop : Proper u.received) :
    u.Ended := by
  have hfresh : ∀ {j head}, u.received = t.received ++ [.open j head] →
      j ∉ openedIds t.received := by
    intro j head he
    rw [he] at hprop
    exact hprop.last.2.1 j rfl
  cases hm with
  | leave | leaveOn | goAway => exact h.finished
  | quiet => exact h
  | pong => exact (h.push (f := .pong) (fun _ _ => nofun) (.inr rfl)).receive _
  | ignore => exact h.receive _
  | @refuse m i head hl =>
    have hi : i ∉ openedIds t.received := hfresh rfl
    refine h.frame (fun _ _ hx => hx) (fun _ hx => hx) h.sending (fun _ _ hx => .inl hx) ?_
    intro j r hx
    right
    cases hx
    show t.streams.get i = none
    by_contra hne
    obtain ⟨k, hg⟩ := Option.ne_none_iff_exists'.mp hne
    obtain ⟨h1, h2⟩ := ht.handle i k hg
    exact hi (h2 ▸ ht.opened h1)
  | spawn hl => exact h.spawn ht hl (hfresh rfl) _
  | @queue m f i b k =>
    have hx := h.setPump (k := k) (p := { t.pump k with input := (t.pump k).input.push b })
      (fun hx => hx) (h.sending k)
    exact hx.receive _
  | @exceed m f i b k hl =>
    have hr := h.remove i
    refine hr.frame (fun _ _ hx => hx) (fun _ hx => hx) hr.sending (fun _ _ hx => .inl hx) ?_
    intro j r hx
    right
    cases hx
    show (t.remove i).streams.get i = none
    rw [get_remove, if_pos rfl]
  | «end» => exact (h.remove _).receive _
  | @reply i r hl =>
    refine h.frame (fun _ _ hx => hx) (fun _ hx => hx) h.sending ?_ nofun
    intro j r' hx
    rw [Chan.log_push, List.mem_append, List.mem_singleton] at hx
    rcases hx with hx | hx
    · exact .inl hx
    · right
      cases hx
      intro k hk
      rw [h.reply i r hl] at hk
      cases hk
  | @complete i k rest hl =>
    have hr := h.remove i
    exact hr.frame (fun _ _ hx => hx) (fun _ hx => hx) hr.sending (fun _ _ hx => .inl hx)
      fun _ _ hx => .inl hx
  | ping => exact h.push (f := .ping) (fun _ _ => nofun) (.inr rfl)
  | engine hp =>
    obtain ⟨h1, h2⟩ := forwardEngine_past hp
    exact h.setPump (fun hx => absurd hx h1) h2
  | @sent k f hp =>
    have hx := h.setPump (k := k) (p := { t.pump k with pc := .engine true })
      (fun hx => absurd hx (not_past hp nofun nofun)) nofun
    exact hx.push (h.sending k f hp) (.inl rfl)
  | @sendFailed k f hp =>
    exact h.setPump (fun hx => absurd hx (not_past hp nofun nofun)) nofun
  | @endSent k r hp =>
    have hx := h.setPump (k := k) (p := { t.pump k with pc := .completing })
      (fun _ => .inl rfl) nofun
    refine hx.frame (fun _ _ hy => hy) (fun _ hy => hy) hx.sending ?_ fun _ _ hy => .inl hy
    intro i r' hy
    rw [Chan.log_push, List.mem_append, List.mem_singleton] at hy
    rcases hy with hy | hy
    · exact .inl hy
    · right
      cases hy
      intro m hm
      obtain ⟨h1, h2⟩ := ht.handle _ m hm
      have hk : k < t.spawned := ht.working k (by rw [hp]; exact nofun)
      obtain rfl := ht.pump_unique hprop.nodup h1 hk h2
      show ((t.setPump m _).pump m).pc.Past
      rw [setPump_self]
      exact .inl rfl
  | endFailed => exact h.setPump (fun _ => .inl rfl) nofun
  | @completed k hp =>
    have hx := h.setPump (k := k) (p := { t.pump k with pc := .done }) (fun _ => .inr rfl) nofun
    exact hx.frame (fun _ _ hy => hy) (fun _ hy => hy) hx.sending (fun _ _ hy => .inl hy)
      fun _ _ hy => .inl hy
  | cancel hp =>
    have hn := cancel_past hp
    obtain ⟨rfl, _⟩ := cancel_some hp
    exact h.setPump (fun hx => absurd hx hn) nofun
  | @poll k p hp =>
    refine h.setPump ?_ ?_
    · rw [pollInput_eq hp]
      exact fun hx => hx
    · rw [pollInput_eq hp]
      exact h.sending k
  | dropInput => exact h.setPump (fun hx => hx) (h.sending _)
  | @write f tx hr =>
    refine h.frame (fun _ _ hx => hx) (fun _ hx => hx) h.sending ?_ fun _ _ hx => .inl hx
    intro i r hx
    left
    change _ ∈ tx.log at hx
    rwa [Chan.log_recv hr] at hx
  | writerEnd =>
    exact h.frame (fun _ _ hx => hx) (fun _ hx => hx) h.sending (fun _ _ hx => .inl hx)
      fun _ _ hx => .inl hx

theorem ended_new : new.Ended where
  past _ _ _ hk := nomatch hk
  reply _ _ hx := nomatch hx
  sending _ _ hx := nomatch hx

theorem Reachable.ended (h : Reachable t) (hprop : Proper t.received) : t.Ended := by
  revert hprop
  refine h.move (P := fun t => Proper t.received → t.Ended) (fun _ => ended_new) ?_
  intro t a u hr hi hm hprop
  exact (hi (hprop.of_initial hm.received)).move hr.inv hm hprop

/-- the END of a stream with a handle comes from the pump of that handle -/
theorem Ended.endSent (h : t.Ended) (ht : t.Inv) {r : Bytes} (hk : t.streams.get i = some k)
    (hr : .end i r ∈ t.tx.log) : t.EndSent k := by
  refine ⟨h.past i k r hk hr, r, ?_⟩
  rw [(ht.handle i k hk).2]
  exact hr

end Tunnel

end AnvilRing
