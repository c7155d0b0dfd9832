import AnvilRing.Link.Wire

/-!
# The streams that a tether serves, now and once it has read what is on its way

* `load`                       what the frames of a hub make of a set of streams;
* `Tunnel.serving`             the streams with a handle, less those whose END the tether queued;
* `Link.Reachable.no_return`   a stream whose END the hub has queued is in no load any more.
-/

namespace AnvilRing
open Wire

/-! ## loads -/

/-- the streams served after a frame -/
def loadOne (s : Finset UInt16) : Frame → Finset UInt16
  | .open i _ => insert i s
  | .end i _ => s.erase i
  | _ => s

/-- the streams served after the frames `fs` -/
def load (s : Finset UInt16) (fs : List Frame) : Finset UInt16 := fs.foldl loadOne s

section
variable {s t : Finset UInt16} {fs gs : List Frame} {f : Frame} {i : UInt16}

theorem load_append (s : Finset UInt16) (fs gs : List Frame) :
    load s (fs ++ gs) = load (load s fs) gs := List.foldl_append

theorem loadOne_of_quiet (ho : f.opens = none) (he : ∀ i r, f ≠ .end i r) : loadOne s f = s := by
  cases f with
  | «open» i head => cases ho
  | «end» i r => exact absurd rfl (he i r)
  | _ => rfl

theorem loadOne_of_upload {b : Bytes} (h : f.upload i = some b) : loadOne s f = s := by
  cases f with
  | «open» i head => cases h
  | «end» i r => cases h
  | _ => rfl

theorem loadOne_mono (h : s ⊆ t) (f : Frame) : loadOne s f ⊆ loadOne t f := by
  cases f with
  | «open» i head => exact Finset.insert_subset_insert i h
  | «end» i r => exact Finset.erase_subset_erase i h
  | _ => exact h

theorem load_mono (h : s ⊆ t) (fs : List Frame) : load s fs ⊆ load t fs := by
  induction fs generalizing s t with
  | nil => exact h
  | cons f fs ih => exact ih (loadOne_mono h f)

/-- a stream leaves a load by its END only -/
theorem mem_load (h : i ∈ s) (hn : i ∉ endedIds fs) : i ∈ load s fs := by
  induction fs generalizing s with
  | nil => exact h
  | cons f fs ih =>
    have hcons : endedIds (f :: fs) = endedIds [f] ++ endedIds fs := endedIds_append [f] fs
    rw [hcons, List.mem_append, not_or] at hn
    refine ih ?_ hn.2
    cases f with
    | «open» j head => exact Finset.mem_insert_of_mem h
    | «end» j r =>
      refine Finset.mem_erase.mpr ⟨?_, h⟩
      rintro rfl
      exact hn.1 (List.mem_singleton_self i)
    | _ => exact h

/-- a stream comes into a load by its OPEN only -/
theorem mem_of_mem_load (h : i ∈ load s fs) : i ∈ s ∨ i ∈ openedIds fs := by
  induction fs generalizing s with
  | nil => exact .inl h
  | cons f fs ih =>
    have hcons : openedIds (f :: fs) = openedIds [f] ++ openedIds fs := openedIds_append [f] fs
    rw [hcons, List.mem_append]
    rcases ih h with hx | hx
    · cases f with
      | «open» j head =>
        rcases Finset.mem_insert.mp hx with rfl | hx
        · exact .inr (.inl (List.mem_singleton_self i))
        · exact .inl hx
      | «end» j r => exact .inl (Finset.mem_of_mem_erase hx)
      | _ => exact .inl hx
    · exact .inr (.inr hx)

end

/-! ## what a tether serves -/

namespace Tunnel
variable {t u : Tunnel} {a : TunnelAction} {i : UInt16} {f : Frame}

/-- the streams that have a handle and whose END the tether has not queued -/
def serving (t : Tunnel) : Finset UInt16 :=
  t.streams.keySet.filter fun i => i ∉ endedIds t.tx.log

theorem mem_serving : i ∈ t.serving ↔
    (∃ k, t.streams.get i = some k) ∧ i ∉ endedIds t.tx.log := by
  unfold serving
  rw [Finset.mem_filter, KeyMap.mem_keySet]

theorem serving_of_finished (h : t.Inv) (ho : t.loop = .finished) : t.serving = ∅ := by
  refine Finset.eq_empty_of_forall_notMem fun i hi => ?_
  obtain ⟨⟨k, hk⟩, _⟩ := mem_serving.mp hi
  rw [h.finished ho i] at hk
  cases hk

/-- what a tether has queued stays queued or was sent -/
theorem Move.log_subset (hm : Move t a u) (hi : i ∈ endedIds t.tx.log) : i ∈ endedIds u.tx.log := by
  unfold Chan.log at hi ⊢
  rcases Link.command_of_move hm with ⟨h1, h2⟩ | ⟨f, h1, h2⟩ | ⟨_, f, h1, h2⟩
  · rw [h1, h2]
    exact hi
  · rw [h1, h2, ← List.append_assoc, endedIds_append]
    exact List.mem_append_left _ hi
  · rw [h1, List.append_assoc]
    rw [h2] at hi
    exact hi

/-- where the handles come from, the tether's own ENDs left aside -/
theorem Move.serving_of_handles {s : Finset UInt16} (hm : Move t a u)
    (h : ∀ i k, u.streams.get i = some k → i ∈ t.serving → i ∈ s)
    (hnew : ∀ i k, u.streams.get i = some k → t.streams.get i = none → i ∈ s) : u.serving ⊆ s := by
  intro i hi
  obtain ⟨⟨k, hk⟩, hn⟩ := mem_serving.mp hi
  cases hg : t.streams.get i with
  | none => exact hnew i k hk hg
  | some m => exact h i k hk (mem_serving.mpr ⟨⟨m, hg⟩, fun hx => hn (hm.log_subset hx)⟩)

/-- handles that were there before -/
theorem Move.serving_of_subset (hm : Move t a u)
    (h : ∀ i k, u.streams.get i = some k → t.streams.get i = some k) : u.serving ⊆ t.serving := by
  refine hm.serving_of_handles (fun _ _ _ hi => hi) fun i k hk hn => ?_
  rw [h i k hk] at hn
  cases hn

/-- without a frame of the hub a tether takes up no stream -/
theorem Move.serving_own (hm : Move t a u)
    (hf : ∀ m g, a = .recv m → tetherDecode m ≠ .ok (some g)) : u.serving ⊆ t.serving := by
  have hm' := hm
  cases hm' with
  | leave | goAway =>
    refine hm.serving_of_subset fun i k hk => ?_
    change t.leave.streams.get i = some k at hk
    rw [get_leave] at hk
    cases hk
  | leaveOn _ hd | pong _ hd | ignore _ hd | refuse _ hd | spawn _ hd | queue _ hd | exceed _ hd
  | «end» _ hd => exact absurd hd (hf _ _ rfl)
  | complete => exact hm.serving_of_subset fun i k hk => (get_of_remove hk).2
  | _ => exact hm.serving_of_subset fun _ _ hk => hk

/-- a frame of the hub has the effect that `loadOne` says, or less -/
theorem Move.serving_recv (hm : Move t a u) (hu : u.Inv)
    (hf : ∀ m g, a = .recv m → tetherDecode m = .ok (some g) → g = f)
    (hr : u.received = t.received ++ [f] ∨ u.received = t.received ∧ u.loop = .finished) :
    u.serving ⊆ loadOne t.serving f := by
  rcases hr with hr | ⟨_, ho⟩
  · have hne : t.received ≠ t.received ++ [f] := by simp
    have hm' := hm
    cases hm' with
    | leaveOn =>
      rw [serving_of_finished hu rfl]
      exact Finset.empty_subset _
    | pong _ hd =>
      obtain rfl := hf _ _ rfl hd
      exact hm.serving_of_subset fun _ _ hk => hk
    | ignore _ hd ho he =>
      obtain rfl := hf _ _ rfl hd
      rw [loadOne_of_quiet ho he]
      exact hm.serving_of_subset fun _ _ hk => hk
    | refuse _ hd =>
      obtain rfl := hf _ _ rfl hd
      exact (hm.serving_of_subset fun _ _ hk => hk).trans (Finset.subset_insert _ _)
    | @spawn _ i head _ hd =>
      obtain rfl := hf _ _ rfl hd
      have hget : ∀ j k, (t.spawn i head).streams.get j = some k →
          j = i ∨ t.streams.get j = some k := by
        intro j k hk
        rw [get_spawn] at hk
        split at hk
        · next hj => exact .inl hj
        · exact .inr hk
      refine hm.serving_of_handles (fun _ _ _ hj => Finset.mem_insert_of_mem hj) ?_
      intro j k hk hn
      rcases hget j k hk with rfl | hk
      · exact Finset.mem_insert_self j _
      · rw [hn] at hk
        cases hk
    | queue _ hd hup =>
      obtain rfl := hf _ _ rfl hd
      rw [loadOne_of_upload hup]
      exact hm.serving_of_subset fun _ _ hk => hk
    | exceed _ hd hup =>
      obtain rfl := hf _ _ rfl hd
      rw [loadOne_of_upload hup]
      exact hm.serving_of_subset fun _ _ hk => (get_of_remove hk).2
    | «end» _ hd =>
      obtain rfl := hf _ _ rfl hd
      refine hm.serving_of_handles ?_ ?_
      · intro j k hk hj
        exact Finset.mem_erase.mpr ⟨(get_of_remove hk).1, hj⟩
      · intro j k hk hn
        rw [(get_of_remove hk).2] at hn
        cases hn
    | @complete i =>
      change (t.remove i).received = t.received ++ [f] at hr
      rw [remove_received] at hr
      exact absurd hr hne
    | _ => exact absurd (show t.received = t.received ++ [f] from hr) hne
  · rw [serving_of_finished hu ho]
    exact Finset.empty_subset _

end Tunnel

/-! ## no stream comes back -/

namespace Link

section
variable {lib : HttpLib} {limit : Nat} {l m : Link} {a : LinkAction}

/-- the streams that the tether will serve when it has read what is on its way -/
def destined (l : Link) : Finset UInt16 := load l.tether.serving l.path

/-- what a step of the hub queues is taken up last -/
theorem destined_hub (hl : Reachable lib limit l) {b : SessionAction} {t : Session}
    (hm : Session.Move lib l.hub b t) (hw : b ≠ .write) {up : Chan Frame} :
    (t.tx.log = l.hub.tx.log ∧ destined { l with hub := t, up := up } ⊆ l.destined) ∨
    ∃ f, l.hub.Command f ∧ t.tx.log = l.hub.tx.log ++ [f] ∧
      destined { l with hub := t, up := up } = loadOne l.destined f := by
  unfold Chan.log
  rcases hm.command hl.hub.sends with ⟨h1, h2⟩ | ⟨f, hf, h1, h2⟩ | ⟨hx, _⟩
  · left
    rw [h1, h2]
    refine ⟨rfl, ?_⟩
    show load l.tether.serving (l.down.queue ++ t.tx.queue) ⊆ _
    rw [h2]
    rfl
  · right
    refine ⟨f, hf, ?_, ?_⟩
    · rw [h1, h2, List.append_assoc]
    · show load l.tether.serving (l.down.queue ++ t.tx.queue) = _
      rw [h2, ← List.append_assoc, load_append]
      rfl
  · exact absurd hx hw

/-- a step lets the tether serve no other streams, but for those that it queues an OPEN for -/
theorem Move.destined (hl : Reachable lib limit l) (hm : Move lib l a m) :
    (m.hub.tx.log = l.hub.tx.log ∧ m.destined ⊆ l.destined) ∨
    ∃ f, l.hub.Command f ∧ m.hub.tx.log = l.hub.tx.log ++ [f] ∧
      m.destined = loadOne l.destined f := by
  cases hm with
  | hub hm hw => exact destined_hub hl hm hw
  | hubRecv _ hm hw => exact destined_hub hl hm hw
  | @hubWrite f tx s hr hm ht =>
    obtain ⟨hq, _⟩ := Chan.recv_some hr
    left
    refine ⟨?_, ?_⟩
    · rw [ht]
      exact Chan.log_recv hr
    · show load l.tether.serving ((l.down.queue ++ [f]) ++ s.tx.queue) ⊆ load _ _
      have hpath : l.path = (l.down.queue ++ [f]) ++ s.tx.queue := by
        show l.down.queue ++ l.hub.tx.queue = _
        rw [hq, ht, List.append_assoc]
        rfl
      rw [hpath]
  | tether hm _ hf => exact .inl ⟨rfl, load_mono (hm.serving_own hf) _⟩
  | tetherWrite _ hm => exact .inl ⟨rfl, load_mono (hm.serving_own nofun) _⟩
  | @tetherRecv f down b t hr hm hw hf ht =>
    obtain ⟨hq, _⟩ := Chan.recv_some hr
    have hpath : l.path = f :: (down.queue ++ l.hub.tx.queue) := by
      show l.down.queue ++ l.hub.tx.queue = _
      rw [hq]
      rfl
    left
    refine ⟨rfl, ?_⟩
    show load t.serving (down.queue ++ l.hub.tx.queue) ⊆ load _ _
    rw [hpath]
    exact load_mono (hm.serving_recv (hl.tether.inv.move hm) hf ht) _

/-- a stream whose END the hub has queued is not served once the tether has read the END -/
theorem Reachable.no_return (hlimit : limit < 2 ^ 32) (h : Reachable lib limit l) :
    ∀ i ∈ endedIds l.hub.tx.log, i ∉ l.destined := by
  refine h.move (P := fun l => ∀ i ∈ endedIds l.hub.tx.log, i ∉ l.destined) hlimit ?_ ?_
  · intro id cred now i hi
    cases hi
  · intro l a m hl hp hm i hi
    rcases hm.destined hl with ⟨hlog, hsub⟩ | ⟨f, hf, hlog, heq⟩
    · rw [hlog] at hi
      exact fun hx => hp i hi (hsub hx)
    · have hinv := hl.inv hlimit
      rw [hlog, endedIds_append, List.mem_append] at hi
      rw [heq]
      rcases hi with hi | hi
      · -- the stream is no other one that is opened now
        obtain ⟨r, hr⟩ := mem_endedIds.mp hi
        have hopen : i ∈ openedIds l.hub.tx.log := hinv.proper.mem_opened hr rfl
        have hnew := (proper_of_command hl.hub hinv.proper hinv.about hf).last.2.1
        intro hx
        rcases mem_of_mem_load (show i ∈ load l.destined [f] from hx) with hx | hx
        · exact hp i hi hx
        · obtain ⟨g, hg, hi⟩ := List.mem_filterMap.mp hx
          obtain rfl := List.mem_singleton.mp hg
          exact hnew i hi hopen
      · obtain ⟨r, hr⟩ := mem_endedIds.mp hi
        obtain rfl := List.mem_singleton.mp hr
        exact Finset.notMem_erase i _

/-- so the END of a stream that is served is still on its way -/
theorem Reachable.end_on_path (hlimit : limit < 2 ^ 32) (h : Reachable lib limit l) {i : UInt16}
    (hs : i ∈ l.tether.serving) (he : i ∈ endedIds l.hub.tx.log) : i ∈ endedIds l.path := by
  by_contra hn
  exact h.no_return hlimit i he (mem_load hs hn)

end

end Link

end AnvilRing
