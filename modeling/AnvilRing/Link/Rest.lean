import AnvilRing.Hub.Parting
import AnvilRing.Link.Exchange
import AnvilRing.Link.Load
import AnvilRing.Tether.Handles

/-!
# A link at rest

Where nothing is under way, in either direction and in no task, the map of the hub and the map of
the tether hold the same streams: neither party keeps a slot for a stream that the other one has
given up.

* `Link.Up`              neither session is going down;
* `Link.AtRest`          nothing is queued or in flight, and no task has a step to make by itself;
* `tables_agree`         the streams of both parties, and who works on them.
-/

namespace AnvilRing
open Wire

/-- the upload task waits for its caller, or is over -/
def UploadPc.idle : UploadPc → Bool
  | .absent => true
  | .reading => true
  | .done => true
  | .cancelled => true
  | _ => false

/-- the guard waits for its caller, or is over -/
def GuardPc.idle : GuardPc → Bool
  | .absent => true
  | .held => true
  | .dropped => true
  | _ => false

/-- the pump waits for its engine, or is over -/
def Pump.idle (p : Pump) : Bool :=
  match p.pc with
  | .engine _ => !p.dropped
  | .done => true
  | .cancelled => true
  | _ => false

/-- what holds of an unused stream and of the streams with the ids taken so far holds of all -/
theorem Session.Reachable.forall_state {lib : HttpLib} {s : Session} {P : StreamState → Prop}
    (h : Session.Reachable lib s) (hu : P unusedStream)
    (hn : ∀ n < s.nextId, P (s.state (UInt16.ofNat n))) (i : UInt16) : P (s.state i) := by
  cases hi : (s.state i).registered with
  | false =>
    rw [h.untouched.unused i hi]
    exact hu
  | true =>
    rw [← UInt16.ofNat_toNat (x := i)]
    exact hn _ (h.idInv.registered i hi).2

/-- what holds of a pump that is done and of the pumps spawned so far holds of all -/
theorem Tunnel.Reachable.forall_pump {t : Tunnel} {P : Pump → Prop} (h : Tunnel.Reachable t)
    (hd : ∀ p : Pump, p.pc = .done → P p) (hn : ∀ k < t.spawned, P (t.pump k)) (k : Nat) : P (t.pump k) := by
  by_cases hk : k < t.spawned
  · exact hn k hk
  · exact hd _ (by_contra fun hx => hk (h.inv.working k hx))

namespace Link

structure Up (l : Link) : Prop where
  loop : l.hub.loop.out = false
  closed : l.hub.closed = false
  abort : l.hub.abort = false
  hubWriter : l.hub.tx.rxClosed = false
  tether : l.tether.loop ≠ .finished
  tetherWriter : l.tether.tx.rxClosed = false

structure AtRest (l : Link) : Prop where
  hub : l.hub.loop = .select
  forward : l.hub.forward = .idle
  uploads : ∀ i, (l.hub.state i).uploadPc.idle = true
  guards : ∀ i, (l.hub.state i).guardPc.idle = true
  commands : l.hub.tx.queue = []
  down : l.down.queue = []
  tether : l.tether.loop = .select
  pumps : ∀ k, (l.tether.pump k).idle = true
  completions : l.tether.completions = []
  replies : l.tether.tx.queue = []
  up : l.up.queue = []

section
variable {lib : HttpLib} {limit : Nat} {l m : Link} {a : LinkAction} {i : UInt16} {k : Nat}

/-- who parts from a stream at the hub of a link has given it up -/
theorem Reachable.parts (hlimit : limit < 2 ^ 32) (h : Reachable lib limit l) : l.hub.Parts := by
  refine h.move (P := fun l => l.hub.Parts) hlimit (fun _ _ _ _ hi => (by cases hi)) ?_
  intro l a m hl hp hm
  have hinv := hl.inv hlimit
  have habout : ∀ i r, l.hub.loop = .reply i r → i ∈ openedIds l.hub.tx.log :=
    fun i r hr => hinv.about i (by rw [hr]; rfl)
  cases hm with
  | hub hm => exact hp.move hl.hub hinv.proper habout hm
  | hubWrite _ hm => exact hp.move hl.hub hinv.proper habout hm
  | hubRecv _ hm => exact hp.move hl.hub hinv.proper habout hm
  | tether | tetherWrite | tetherRecv => exact hp

/-- what the hub has queued was handled by the tether -/
theorem AtRest.received (hr : l.AtRest) (hinv : l.Inv) : l.tether.received = l.hub.tx.log := by
  have hlog := hinv.log
  rw [path, hr.down, hr.commands, List.append_nil, List.append_nil] at hlog
  rw [hlog]
  rcases hinv.handled with hx | ⟨hx, _⟩
  · exact hx
  · rw [hr.tether] at hx
    cases hx

/-- what the tether has queued was taken up by the hub -/
theorem AtRest.taken (hr : l.AtRest) (hinv : l.Inv) (ho : l.Ordered) :
    l.hub.received = l.tether.tx.log.filter Frame.isResponse := by
  have hup : l.tether.tx.log = l.up.taken := by
    have hx : l.up.taken ++ l.up.queue = l.tether.tx.taken := hinv.up
    rw [hr.up, List.append_nil] at hx
    rw [Chan.log, hr.replies, List.append_nil, hx]
  have hall : l.hub.received ++ l.hub.loop.held = l.up.taken.filter Frame.isResponse :=
    ho.whole (by rw [hr.hub]; rfl)
  rw [hr.hub] at hall
  rw [hup, ← hall]
  exact (List.append_nil _).symm

/-- a frame that was taken up for a stream came after its registration -/
theorem Ordered.mem_since (h : l.Ordered) {f : Frame} (hf : f ∈ l.hub.received)
    (hc : concerns i f = true) : f ∈ l.hub.since i := by
  unfold Session.since
  rw [← List.take_append_drop (l.hub.state i).start l.hub.received] at hf
  rcases List.mem_append.mp hf with hf | hf
  · rw [(h.start i).2 f hf] at hc
    cases hc
  · exact List.mem_filter.mpr ⟨hf, hc⟩

/-- the tether has taken up what the hub has in its map -/
theorem AtRest.handle_of_mapped (hlimit : limit < 2 ^ 32) (h : Reachable lib limit l) (hu : l.Up)
    (hr : l.AtRest) (hi : i ∈ l.hub.streams) (hc : (l.hub.state i).completed = false) :
    ∃ k, l.tether.streams.get i = some k := by
  have hinv := h.inv hlimit
  have hreg := h.hub.idInv.mapped i hi
  have hopen : i ∈ openedIds l.tether.received := by
    rw [hr.received hinv]
    rcases h.hub.opened_or_admitted i hreg with hx | hx
    · exact hx
    · rw [hr.forward] at hx
      cases hx
  have hnot : ¬ l.hub.Parting i := by
    intro hx
    rcases h.parts hlimit i hreg hx with hx | hx
    · exact hx hi
    · rw [hc] at hx
      cases hx
  rcases h.tether.finishes.answered i hopen with hk | (⟨r, hx⟩ | hx) | ⟨r, hx⟩ | ⟨r, hx⟩ | hx
  · exact hk
  · -- the END of the tether was taken up by the hub
    have ho := h.ordered hlimit
    have hrec : .end i r ∈ l.hub.received := by
      rw [hr.taken hinv ho]
      exact List.mem_filter.mpr ⟨hx, rfl⟩
    refine absurd ?_ hnot
    refine .inr (.inr (.inr (.inr ⟨⟨r, ho.mem_since hrec (by simp [concerns])⟩, ?_⟩)))
    rw [hr.hub]
    exact fun hx => (by cases hx)
  · rw [hu.tetherWriter] at hx
    cases hx
  · rw [hr.tether] at hx
    cases hx
  · -- the END of the hub came from a task that had given the stream up
    exact absurd (.inl ⟨r, hinv.handled_isPrefix.subset hx⟩) hnot
  · exact absurd hx hu.tether

/-- the pump of a handle works on its exchange -/
theorem AtRest.engine (h : Reachable lib limit l) (hr : l.AtRest)
    (hk : l.tether.streams.get i = some k) : ∃ b, (l.tether.pump k).pc = .engine b := by
  have hidle := hr.pumps k
  unfold Pump.idle at hidle
  split at hidle
  · next b hpc => exact ⟨b, hpc⟩
  · next hpc =>
    have hmem := h.tether.finishes.done i k hk hpc
    rw [hr.completions] at hmem
    cases hmem
  · next hpc =>
    have hd := h.tether.controlled.cancelled k hpc
    rw [h.tether.controlled.live i k hk] at hd
    cases hd
  · cases hidle

/-- the hub has a stream that the tether works on -/
theorem AtRest.mapped_of_handle (hlimit : limit < 2 ^ 32) (h : Reachable lib limit l) (hu : l.Up)
    (hr : l.AtRest) (hk : l.tether.streams.get i = some k) :
    i ∈ l.hub.streams ∧ ¬ (l.hub.state i).Terminal := by
  have hinv := h.inv hlimit
  obtain ⟨b, hb⟩ := hr.engine h hk
  have hended := h.tether.ended (hinv.proper.of_initial hinv.handled_isPrefix)
  have hnone : ∀ r, .end i r ∉ l.tether.tx.log := by
    intro r hx
    have hpast := hended.past i k r hk hx
    rw [hb] at hpast
    rcases hpast with hx | hx <;> cases hx
  have hserved : i ∈ l.tether.serving := by
    refine Tunnel.mem_serving.mpr ⟨⟨k, hk⟩, fun hx => ?_⟩
    obtain ⟨r, hr⟩ := mem_endedIds.mp hx
    exact hnone r hr
  have hopen : i ∈ openedIds l.hub.tx.log := by
    obtain ⟨h1, h2⟩ := h.tether.inv.handle i k hk
    exact openedIds_mono hinv.handled_isPrefix (h2 ▸ h.tether.inv.opened h1)
  have hupload := hr.uploads i
  have hguard := hr.guards i
  rcases h.hub.released (h.hub.idInv.opened i hopen) with hx | ⟨r, hx⟩ | hx | ⟨r, hx⟩ | hx
  · exact hx
  · -- the END of the hub would be on its way
    have hpath := h.end_on_path hlimit hserved (mem_endedIds.mpr ⟨r, hx⟩)
    rw [path, hr.down, hr.commands] at hpath
    cases hpath
  · rcases hx with hx | (⟨stage, hx⟩ | hx) | ⟨hx, _⟩ | hx
    · rw [hr.hub] at hx
      cases hx
    · rw [hx] at hupload
      cases hupload
    · rw [hx] at hupload
      cases hupload
    · rw [hx] at hguard
      cases hguard
    · rw [hx] at hguard
      cases hguard
  · have hrec : Frame.end i r ∈ l.hub.received := List.mem_of_mem_drop (List.mem_of_mem_filter hx)
    exact absurd (hinv.mem_tether (hinv.received _ hrec)) (hnone r)
  · rcases hx with hx | hx | hx | hx | ⟨j, hx | hx⟩
    · rw [hu.closed] at hx
      cases hx
    · rw [hu.abort] at hx
      cases hx
    · rw [hu.hubWriter] at hx
      cases hx
    · rw [hu.loop] at hx
      cases hx
    · have hidle := hr.uploads j
      rw [hx] at hidle
      cases hidle
    · have hidle := hr.guards j
      rw [hx] at hidle
      cases hidle

end

end Link

/-- **Both parties have the same streams.**  Wherever a link that is up is at rest, a stream is in
the hub's map with no outcome if and only if the tether has a handle for it; the handles are those
of the pumps that work on the engine, and every stream in the hub's map still has its caller. -/
theorem tables_agree {lib : HttpLib} {limit : Nat} (hlimit : limit < 2 ^ 32) {l : Link}
    (h : Link.Reachable lib limit l) (hu : l.Up) (hr : l.AtRest) :
    (∀ i, (i ∈ l.hub.streams ∧ ¬ (l.hub.state i).Terminal) ↔
      ∃ k, l.tether.streams.get i = some k) ∧
    (∀ i k, l.tether.streams.get i = some k ↔
      (l.tether.pump k).id = i ∧ ∃ b, (l.tether.pump k).pc = .engine b) ∧
    ∀ i ∈ l.hub.streams, (l.hub.state i).guardPc = .held := by
  refine ⟨fun i => ⟨fun ⟨hi, hc⟩ => ?_, fun ⟨k, hk⟩ => ?_⟩, fun i k => ⟨fun hk => ?_, ?_⟩,
    fun i hi => ?_⟩
  · exact hr.handle_of_mapped hlimit h hu hi (Bool.eq_false_iff.mpr fun hx => hc (.inl hx))
  · exact hr.mapped_of_handle hlimit h hu hk
  · exact ⟨(h.tether.inv.handle i k hk).2, hr.engine h hk⟩
  · rintro ⟨rfl, b, hb⟩
    have hk : k < l.tether.spawned := h.tether.inv.working k (by rw [hb]; exact nofun)
    have hidle := hr.pumps k
    unfold Pump.idle at hidle
    rw [hb] at hidle
    rcases h.tether.controlled.handled k hk with hx | hx
    · rw [hx] at hidle
      cases hidle
    · exact hx
  · obtain ⟨hremoved, habsent⟩ := h.hub.manned i hi
    have hidle := hr.guards i
    cases hg : (l.hub.state i).guardPc with
    | held => rfl
    | absent =>
      have hx := habsent hg
      rw [hr.forward] at hx
      cases hx
    | dropped =>
      rw [hg] at hremoved
      cases hremoved
    | _ =>
      rw [hg] at hidle
      cases hidle

/-- a caller is answered with stream 1, and its request is with the engine -/
def restRun : List LinkAction :=
  [.hub (.reserve ⟨[], [], true⟩), .hub .forward, .hub .forward, .hub .forward, .hub .forward,
    .hub .forward, .hub .forward, .hubWrite, .tetherRecv]

theorem restRun_isSome : (Machine.run (Link.step okLib defaultLimit) freshLink restRun).isSome =
    true := by
  decide

theorem tables_agree_served : ∃ l, Link.Reachable okLib defaultLimit l ∧ l.Up ∧ l.AtRest ∧
    1 ∈ l.hub.streams ∧ (l.hub.state 1).guardPc = .held ∧
      ∃ k, l.tether.streams.get 1 = some k := by
  have hreach : Link.Reachable okLib defaultLimit (Option.get _ restRun_isSome) :=
    (Machine.Reachable.init ⟨_, _, _, rfl⟩).run (Option.some_get restRun_isSome).symm
  have hup : (Option.get _ restRun_isSome).Up :=
    ⟨by decide, by decide, by decide, by decide,
      by decide, by decide⟩
  have hrest : (Option.get _ restRun_isSome).AtRest := by
    refine ⟨by decide, by decide, ?_, ?_, by decide, by decide,
      by decide, ?_, by decide, by decide, by decide⟩
    · exact hreach.hub.forall_state (P := fun st => st.uploadPc.idle = true) rfl
        (by decide)
    · exact hreach.hub.forall_state (P := fun st => st.guardPc.idle = true) rfl
        (by decide)
    · exact hreach.tether.forall_pump (P := fun p => p.idle = true)
        (fun p hp => by rw [Pump.idle, hp]) (by decide)
  have hmapped : 1 ∈ (Option.get _ restRun_isSome).hub.streams := by decide
  have hopen : ¬ ((Option.get _ restRun_isSome).hub.state 1).Terminal := by
    unfold StreamState.Terminal
    decide
  obtain ⟨hboth, -, hheld⟩ := tables_agree (by decide) hreach hup hrest
  exact ⟨_, hreach, hup, hrest, hmapped, hheld 1 hmapped,
    (hboth 1).mp ⟨hmapped, hopen⟩⟩

end AnvilRing
