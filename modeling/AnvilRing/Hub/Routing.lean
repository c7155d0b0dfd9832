import AnvilRing.Hub.World
import Mathlib.Data.String.Basic
import Mathlib.Order.Basic

/-!
# Which tether a request goes to

`reserve_route` filters the live sessions, sorts what is left, and takes the first with room.

* `World.reserveFirst`    the loop over the candidates;
* `World.route`           `reserve_route` on the state of the hub at one moment;
* `routing_picks_least`   its answer, without the sort and the loop;
* `World.route_run`       the machine's `forward_any` gets to that answer.
-/

namespace AnvilRing
open Wire

/-- the first element of a sorted list that passes a test is the least that does -/
theorem find?_sorted {α : Type*} {le : α → α → Bool} {p : α → Bool} {l : List α} {c : α}
    (hs : l.Pairwise fun a b => le a b = true) (h : l.find? p = some c) :
    ∀ d ∈ l, p d = true → d = c ∨ le c d = true := by
  obtain ⟨_, as, bs, rfl, has⟩ := List.find?_eq_some_iff_append.mp h
  intro d hd hp
  rcases List.mem_append.mp hd with hd | hd
  · have hnp := has d hd
    rw [hp] at hnp
    cases hnp
  · rcases List.mem_cons.mp hd with rfl | hd
    · exact .inl rfl
    · have hrest := (List.pairwise_append.mp hs).2.1
      exact .inr ((List.pairwise_cons.mp hrest).1 d hd)

namespace World
variable {digest : Bytes → String} {lib : HttpLib} {w v : World}

/-- the loop of `reserve_route` on the candidates left -/
def reserveFirst (w : World) :
    List (Nat × String × Nat) → Bool → Except ForwardError (String × Nat)
  | [], busy => .error (if busy then .tetherBusy else .noTether)
  | (count, id, g) :: rest, busy =>
    if maxConcurrentStreams ≤ count ∨ 65535 < (w.sess g).nextId then w.reserveFirst rest true
    else
      match (w.sess g).tx.tryReserve commandChannelCapacity with
      | .ok _ => .ok (id, g)
      | .error .full => w.reserveFirst rest true
      | .error .closed => w.reserveFirst rest busy

/-- `reserve_route`: the tether and the session that it reserves a permit of -/
def route (w : World) : Except ForwardError (String × Nat) :=
  w.reserveFirst w.reserveRoute false

/-! ## what it stands for -/

/-- the session serves tether `id`: its registration is active and unexpired, the session is not
closed, its writer is open, and its last PONG is recent -/
structure Eligible (w : World) (id : String) (g : Nat) : Prop where
  live : w.reg.live.get id = some g
  active : w.reg.isActive w.now id = true
  «open» : (w.sess g).closed = false
  writer : (w.sess g).tx.rxClosed = false
  recent : w.now - (w.sess g).lastSeen ≤ tetherSilence

/-- how many streams the session has registered -/
def load (w : World) (g : Nat) : Nat := (w.sess g).streams.card

/-- room for one more stream: in the map, in the numbering, and in the command queue -/
structure HasCapacity (w : World) (g : Nat) : Prop where
  streams : w.load g < maxConcurrentStreams
  ids : (w.sess g).nextId ≤ 65535
  slot : (w.sess g).tx.canSend commandChannelCapacity = true

/-- (stream count, id), the ids compared lexically -/
def Precedes (w : World) (id : String) (g : Nat) (id' : String) (g' : Nat) : Prop :=
  w.load g < w.load g' ∨ w.load g = w.load g' ∧ id ≤ id'

theorem eligible_iff {id : String} {g : Nat} :
    w.Eligible id g ↔ w.reg.live.get id = some g ∧ w.eligible id g = true := by
  unfold eligible
  simp only [Bool.and_eq_true, Bool.not_eq_true', decide_eq_true_eq]
  constructor
  · intro h
    exact ⟨h.live, ⟨⟨h.active, h.open⟩, h.writer⟩, h.recent⟩
  · intro h
    obtain ⟨hl, ⟨⟨ha, ho⟩, hw⟩, hr⟩ := h
    exact ⟨hl, ha, ho, hw, hr⟩

/-- the candidates are the eligible sessions, each with its load -/
theorem mem_reserveRoute {c : Nat × String × Nat} :
    c ∈ w.reserveRoute ↔ c.1 = w.load c.2.2 ∧ w.Eligible c.2.1 c.2.2 := by
  unfold reserveRoute
  rw [List.mem_mergeSort, List.mem_map]
  constructor
  · intro h
    obtain ⟨e, he, rfl⟩ := h
    obtain ⟨hm, helig⟩ := List.mem_filter.mp he
    exact ⟨rfl, eligible_iff.mpr ⟨KeyMap.mem_toList.mp hm, helig⟩⟩
  · intro h
    obtain ⟨hload, helig⟩ := h
    obtain ⟨hl, he⟩ := eligible_iff.mp helig
    refine ⟨c.2, List.mem_filter.mpr ⟨KeyMap.mem_toList.mpr hl, he⟩, ?_⟩
    rw [show (w.sess c.2.2).streams.card = c.1 from hload.symm]

theorem before_iff {a b : Nat × String × Nat} :
    before a b = true ↔ a.1 < b.1 ∨ a.1 = b.1 ∧ a.2.1 ≤ b.2.1 := by
  simp [before]

theorem before_trans (a b c : Nat × String × Nat) (h : before a b = true)
    (h' : before b c = true) : before a c = true := by
  rw [before_iff] at h h' ⊢
  rcases h with h | ⟨h, hid⟩
  · rcases h' with h' | ⟨h', _⟩
    · exact .inl (h.trans h')
    · exact .inl (h' ▸ h)
  · rcases h' with h' | ⟨h', hid'⟩
    · exact .inl (h ▸ h')
    · exact .inr ⟨h.trans h', hid.trans hid'⟩

theorem before_total (a b : Nat × String × Nat) : (before a b || before b a) = true := by
  rw [Bool.or_eq_true, before_iff, before_iff]
  rcases Nat.lt_trichotomy a.1 b.1 with h | h | h
  · exact .inl (.inl h)
  · rcases le_total a.2.1 b.2.1 with hid | hid
    · exact .inl (.inr ⟨h, hid⟩)
    · exact .inr (.inr ⟨h.symm, hid⟩)
  · exact .inr (.inl h)

theorem reserveRoute_sorted (w : World) :
    w.reserveRoute.Pairwise fun a b => before a b = true :=
  List.pairwise_mergeSort before_trans before_total _

/-- the test of the loop -/
def hasRoom (w : World) (c : Nat × String × Nat) : Bool :=
  decide (c.1 < maxConcurrentStreams) && decide ((w.sess c.2.2).nextId ≤ 65535) &&
    (w.sess c.2.2).tx.canSend commandChannelCapacity

theorem hasRoom_iff {c : Nat × String × Nat} (hc : c.1 = w.load c.2.2) :
    w.hasRoom c = true ↔ w.HasCapacity c.2.2 := by
  unfold hasRoom
  simp only [Bool.and_eq_true, decide_eq_true_eq]
  rw [hc]
  constructor
  · intro h
    exact ⟨h.1.1, h.1.2, h.2⟩
  · intro h
    exact ⟨⟨h.streams, h.ids⟩, h.slot⟩

/-- **The loop.** On sessions whose writer is open it takes the first with room, and is busy if it
has skipped any. -/
theorem reserveFirst_eq {cs : List (Nat × String × Nat)} (busy : Bool)
    (hw : ∀ c ∈ cs, (w.sess c.2.2).tx.rxClosed = false) :
    w.reserveFirst cs busy =
      match cs.find? w.hasRoom with
      | some c => .ok (c.2.1, c.2.2)
      | none => .error (if busy = true ∨ cs ≠ [] then .tetherBusy else .noTether) := by
  induction cs generalizing busy with
  | nil => simp [reserveFirst]
  | cons c rest ih =>
    obtain ⟨count, id, g⟩ := c
    have hopen : (w.sess g).tx.rxClosed = false := hw (count, id, g) List.mem_cons_self
    have ih := ih true fun c hc => hw c (List.mem_cons_of_mem _ hc)
    have hskip : w.hasRoom (count, id, g) = false → w.reserveFirst rest true =
        match ((count, id, g) :: rest).find? w.hasRoom with
        | some c => .ok (c.2.1, c.2.2)
        | none => .error (if busy = true ∨ (count, id, g) :: rest ≠ [] then .tetherBusy
            else .noTether) := by
      intro hno
      rw [ih, List.find?_cons_of_neg (by rw [hno]; exact nofun)]
      simp
    unfold reserveFirst
    split
    · next hfull =>
      refine hskip ?_
      unfold hasRoom
      rcases hfull with hc | hn
      · simp [Nat.not_lt.mpr hc]
      · simp [Nat.not_le.mpr hn]
    · next hroom =>
      obtain ⟨hc, hn⟩ := not_or.mp hroom
      unfold Chan.tryReserve
      rw [hopen]
      simp only [Bool.false_eq_true, ↓reduceIte]
      cases hs : (w.sess g).tx.canSend commandChannelCapacity with
      | true =>
        have hyes : w.hasRoom (count, id, g) = true := by
          unfold hasRoom
          simp [Nat.not_le.mp hc, Nat.not_lt.mp hn, hs]
        rw [List.find?_cons_of_pos hyes]
        rfl
      | false =>
        refine hskip ?_
        unfold hasRoom
        simp [hs]

theorem route_eq (w : World) : w.route =
    match w.reserveRoute.find? w.hasRoom with
    | some c => .ok (c.2.1, c.2.2)
    | none => .error (if w.reserveRoute ≠ [] then .tetherBusy else .noTether) := by
  unfold route
  rw [reserveFirst_eq false fun c hc => (mem_reserveRoute.mp hc).2.writer]
  simp

/-- the candidate that stands for an eligible session -/
theorem candidate {id : String} {g : Nat} (h : w.Eligible id g) :
    (w.load g, id, g) ∈ w.reserveRoute := mem_reserveRoute.mpr ⟨rfl, h⟩

theorem reserveRoute_eq_nil : w.reserveRoute = [] ↔ ∀ id g, ¬ w.Eligible id g := by
  constructor
  · intro h id g helig
    have hm := candidate helig
    rw [h] at hm
    cases hm
  · intro h
    rw [List.eq_nil_iff_forall_not_mem]
    intro c hc
    exact h _ _ (mem_reserveRoute.mp hc).2

theorem find?_eq_none_iff : w.reserveRoute.find? w.hasRoom = none ↔
    ∀ id g, w.Eligible id g → ¬ w.HasCapacity g := by
  rw [List.find?_eq_none]
  constructor
  · intro h id g helig hcap
    exact h _ (candidate helig) ((hasRoom_iff rfl).mpr hcap)
  · intro h c hc hroom
    obtain ⟨hload, helig⟩ := mem_reserveRoute.mp hc
    exact h _ _ helig ((hasRoom_iff hload).mp hroom)

/-- a session that `reserve_route` may answer -/
structure Least (w : World) (id : String) (g : Nat) : Prop where
  eligible : w.Eligible id g
  capacity : w.HasCapacity g
  least : ∀ id' g', w.Eligible id' g' → w.HasCapacity g' → w.Precedes id g id' g'

/-- there is one such session at most -/
theorem Least.unique {id id' : String} {g g' : Nat} (h : w.Least id g) (h' : w.Least id' g') :
    id = id' ∧ g = g' := by
  have hid : id = id' := by
    rcases h.least id' g' h'.eligible h'.capacity with hlt | ⟨heq, hle⟩
    · rcases h'.least id g h.eligible h.capacity with hlt' | ⟨heq', _⟩
      · exact absurd hlt' (Nat.lt_asymm hlt)
      · exact absurd heq' hlt.ne'
    · rcases h'.least id g h.eligible h.capacity with hlt' | ⟨_, hle'⟩
      · exact absurd heq hlt'.ne'
      · exact le_antisymm hle hle'
  subst hid
  exact ⟨rfl, Option.some.inj (h.eligible.live.symm.trans h'.eligible.live)⟩

theorem least_of_find? {c : Nat × String × Nat} (h : w.reserveRoute.find? w.hasRoom = some c) :
    w.Least c.2.1 c.2.2 := by
  obtain ⟨hload, helig⟩ := mem_reserveRoute.mp (List.mem_of_find?_eq_some h)
  refine ⟨helig, (hasRoom_iff hload).mp (List.find?_some h), ?_⟩
  intro id' g' helig' hcap'
  have hle := find?_sorted w.reserveRoute_sorted h _ (candidate helig')
    ((hasRoom_iff rfl).mpr hcap')
  rcases hle with rfl | hle
  · exact .inr ⟨rfl, le_rfl⟩
  · rw [before_iff, hload] at hle
    exact hle

theorem route_ok_iff {id : String} {g : Nat} : w.route = .ok (id, g) ↔ w.Least id g := by
  rw [route_eq]
  cases hf : w.reserveRoute.find? w.hasRoom with
  | some c =>
    have hleast := least_of_find? hf
    constructor
    · intro h
      cases h
      exact hleast
    · intro h
      obtain ⟨hid, hg⟩ := h.unique hleast
      rw [hid, hg]
  | none =>
    constructor
    · exact nofun
    · intro h
      exact absurd h.capacity (find?_eq_none_iff.mp hf id g h.eligible)

theorem route_busy_iff : w.route = .error .tetherBusy ↔
    (∃ id g, w.Eligible id g) ∧ ∀ id g, w.Eligible id g → ¬ w.HasCapacity g := by
  rw [route_eq, ← find?_eq_none_iff]
  have hex : (∃ id g, w.Eligible id g) ↔ w.reserveRoute ≠ [] := by
    rw [Ne, reserveRoute_eq_nil]
    simp only [not_forall, not_not]
  rw [hex]
  cases hf : w.reserveRoute.find? w.hasRoom with
  | some c => simp
  | none =>
    by_cases hn : w.reserveRoute = []
    · simp [hn]
    · simp [hn]

theorem route_none_iff : w.route = .error .noTether ↔ ∀ id g, ¬ w.Eligible id g := by
  rw [route_eq, ← reserveRoute_eq_nil]
  cases hf : w.reserveRoute.find? w.hasRoom with
  | some c =>
    have hm := List.mem_of_find?_eq_some hf
    constructor
    · exact nofun
    · intro h
      rw [h] at hm
      cases hm
  | none =>
    by_cases hn : w.reserveRoute = []
    · simp [hn]
    · simp [hn]

/-- two hubs that a lookup cannot tell apart -/
structure SameMaps (w v : World) : Prop where
  live : ∀ id, v.reg.live.get id = w.reg.live.get id
  byId : ∀ id, v.reg.byId.get id = w.reg.byId.get id
  sess : v.sess = w.sess
  now : v.now = w.now

theorem SameMaps.eligible (h : SameMaps w v) {id : String} {g : Nat} :
    v.Eligible id g ↔ w.Eligible id g := by
  have hactive : v.reg.isActive v.now id = w.reg.isActive w.now id := by
    unfold Registry.isActive
    rw [h.byId, h.now]
  constructor
  · intro he
    exact ⟨h.live id ▸ he.live, hactive ▸ he.active, h.sess ▸ he.open, h.sess ▸ he.writer,
      h.sess ▸ h.now ▸ he.recent⟩
  · intro he
    exact ⟨(h.live id).trans he.live, hactive.trans he.active, h.sess ▸ he.open, h.sess ▸ he.writer,
      h.sess ▸ h.now ▸ he.recent⟩

/-- the answer depends on what the maps hold only -/
theorem SameMaps.route (h : SameMaps w v) : v.route = w.route := by
  have hload : ∀ g, v.load g = w.load g := fun g => by
    unfold load
    rw [h.sess]
  have hcap : ∀ g, v.HasCapacity g ↔ w.HasCapacity g := by
    intro g
    constructor
    · intro hc
      exact ⟨hload g ▸ hc.streams, h.sess ▸ hc.ids, h.sess ▸ hc.slot⟩
    · intro hc
      exact ⟨(hload g).symm ▸ hc.streams, h.sess ▸ hc.ids, h.sess ▸ hc.slot⟩
  cases hr : w.route with
  | ok r =>
    obtain ⟨id, g⟩ := r
    have hleast := route_ok_iff.mp hr
    refine route_ok_iff.mpr ⟨h.eligible.mpr hleast.eligible, (hcap g).mpr hleast.capacity, ?_⟩
    intro id' g' he' hc'
    have hp := hleast.least id' g' (h.eligible.mp he') ((hcap g').mp hc')
    unfold Precedes at hp ⊢
    rwa [hload, hload]
  | error e =>
    have he : e = .tetherBusy ∨ e = .noTether := by
      rw [route_eq] at hr
      split at hr
      · cases hr
      · split at hr
        · cases hr
          exact .inl rfl
        · cases hr
          exact .inr rfl
    rcases he with rfl | rfl
    · obtain ⟨⟨id, g, hel⟩, hno⟩ := route_busy_iff.mp hr
      refine route_busy_iff.mpr ⟨⟨id, g, h.eligible.mpr hel⟩, ?_⟩
      intro id' g' he' hc'
      exact hno id' g' (h.eligible.mp he') ((hcap g').mp hc')
    · have hno := route_none_iff.mp hr
      exact route_none_iff.mpr fun id g he => hno id g (h.eligible.mp he)

/-! ## the machine -/

/-- only the forward that holds the routing lock is under way in a session -/
def ForwardIdle (w : World) : Prop :=
  ∀ g, (w.sess g).forward ≠ .idle → ∃ id «at», w.lock = .forwarding id g «at»

theorem forward_of_own {s t : Session} {a : SessionAction} (hm : Session.Move lib s a t)
    (ho : own a = true) : t.forward = s.forward := by
  cases hm <;> first | rfl | cases ho

theorem forward_registryStep (lib : HttpLib) {s t : Session} {order : List UInt16}
    (h : s.registryStep order = some t) : t.forward = s.forward := by
  have hm : Session.Move lib s (.registryClose order) t := Session.move_registryStep h
  cases hm <;> rfl

/-- while no forward holds the lock, no session is at one -/
theorem ForwardIdle.idle (h : w.ForwardIdle) (hl : ∀ id g «at», w.lock ≠ .forwarding id g «at»)
    (g : Nat) : (w.sess g).forward = .idle := by
  by_contra hx
  obtain ⟨id, t, hlock⟩ := h g hx
  exact hl id g t hlock

theorem ForwardIdle.move {a : WorldAction} (h : w.ForwardIdle) (hm : Move digest lib w a v) :
    v.ForwardIdle := by
  have hset : ∀ {g : Nat} {s : Session}, s.forward = .idle → (∀ k, (w.sess k).forward = .idle) →
      ∀ k, ((w.setSession g s).sess k).forward = .idle := by
    intro g s hs hw
    exact forall_setSession (P := fun _ t => t.forward = .idle) hw hs
  cases hm with
  | register hl | replaceRecords hl | revoke hl | refuse hl | route hl | skip hl | refuseTo hl
  | noRoute hl | release hl =>
    have hidle := h.idle (by rw [hl]; exact nofun)
    exact fun g hg => absurd (hidle g) hg
  | tick => exact h
  | attach hl ha =>
    have hidle := h.idle (by rw [hl]; exact nofun)
    exact fun g hg => absurd (hset rfl hidle g) hg
  | @select req count g id rest busy t s hl hs =>
    have hidle := h.idle (by rw [hl]; exact nofun)
    intro k hk
    by_cases hkg : k = g
    · exact ⟨id, t, by rw [hkg]⟩
    · refine absurd ?_ hk
      show ((w.setSession g s).sess k).forward = _
      rw [setSession_of_ne w s hkg]
      exact hidle k
  | @selectTo req g id s hl hg ha hs =>
    have hidle := h.idle (by rw [hl]; exact nofun)
    intro k hk
    by_cases hkg : k = g
    · exact ⟨id, w.now, by rw [hkg]⟩
    · refine absurd ?_ hk
      show ((w.setSession g s).sess k).forward = _
      rw [setSession_of_ne w s hkg]
      exact hidle k
  | @forward id g t s hl hs =>
    intro k hk
    by_cases hkg : k = g
    · exact ⟨id, t, by rw [hkg]; exact hl⟩
    · refine h k ?_
      change ((w.setSession g s).sess k).forward ≠ _ at hk
      rwa [setSession_of_ne w s hkg] at hk
  | @forwarded id g t s r hl hr hs =>
    have hother : ∀ k, k ≠ g → (w.sess k).forward = .idle := by
      intro k hk
      by_contra hx
      obtain ⟨id', t', hlock⟩ := h k hx
      rw [hl] at hlock
      cases hlock
      exact hk rfl
    have hdone : s.forward = .idle := by
      unfold Session.forwardStep at hs
      rw [hr] at hs
      obtain rfl := Option.some.inj hs
      rfl
    intro k hk
    refine absurd ?_ hk
    show ((w.setSession g s).sess k).forward = _
    by_cases hkg : k = g
    · rw [hkg, setSession_self]
      exact hdone
    · rw [setSession_of_ne w s hkg]
      exact hother k hkg
  | closing hl hs | closed hl _ hs =>
    have hidle := h.idle (by rw [hl]; exact nofun)
    have hsame := (forward_registryStep lib hs).trans (hidle _)
    exact fun g hg => absurd (hset hsame hidle g) hg
  | @session g b s h0 hg ho hs =>
    have hsame := forward_of_own (Session.move_of_step hs) ho
    intro k hk
    refine h k ?_
    change ((w.setSession g s).sess k).forward ≠ _ at hk
    by_cases hkg : k = g
    · rw [hkg, setSession_self, hsame] at hk
      rwa [hkg]
    · rwa [setSession_of_ne w s hkg] at hk

theorem Reachable.forwardIdle (h : Reachable digest lib w) : w.ForwardIdle :=
  h.move (P := ForwardIdle) (fun _ _ _ hg => absurd rfl hg) fun _ _ _ _ hw hm => hw.move hm

/-- what the holder of the lock makes of the candidates left: `v` asks the session that the loop
picks, or answers what the loop answers -/
def Selected (w : World) (req : Request) («at» : Nat) (r : Except ForwardError (String × Nat))
    (v : World) : Prop :=
  match r with
  | .ok (id, g) => ∃ s, (w.sess g).reserve req = some s ∧ s.forward = .reserved req ∧
      v = { w.setSession g s with lock := .forwarding id g «at» }
  | .error e => v = w.answer (.error e)

theorem selecting_run (digest : Bytes → String) (lib : HttpLib) (req : Request) («at» : Nat)
    (hidle : ∀ g, (w.sess g).forward = .idle) (cs : List (Nat × String × Nat)) (busy : Bool) :
    ∃ n v, Machine.run (step digest lib) { w with lock := .selecting req cs busy «at» }
      (List.replicate n .forward) = some v ∧ Selected w req «at» (w.reserveFirst cs busy) v := by
  induction cs generalizing busy with
  | nil => exact ⟨1, _, Machine.run_cons_some.mpr ⟨_, rfl, rfl⟩, rfl⟩
  | cons c rest ih =>
    obtain ⟨count, id, g⟩ := c
    have hskip : ∀ {b : Bool}, step digest lib
          { w with lock := .selecting req ((count, id, g) :: rest) busy «at» } .forward =
          some { w with lock := .selecting req rest b «at» } →
        ∃ n v, Machine.run (step digest lib)
          { w with lock := .selecting req ((count, id, g) :: rest) busy «at» }
          (List.replicate n .forward) = some v ∧
          Selected w req «at» (w.reserveFirst rest b) v := by
      intro b hstep
      obtain ⟨n, v, hrun, hv⟩ := ih b
      exact ⟨n + 1, v, Machine.run_cons_some.mpr ⟨_, hstep, hrun⟩, hv⟩
    unfold reserveFirst
    split
    · next hfull => exact hskip (if_pos hfull)
    · next hroom =>
      have htry : step digest lib
          { w with lock := .selecting req ((count, id, g) :: rest) busy «at» } .forward =
          match (w.sess g).tx.tryReserve commandChannelCapacity with
          | .ok _ => ((w.sess g).reserve req).map fun s =>
              { w.setSession g s with lock := .forwarding id g «at» }
          | .error .full => some { w with lock := .selecting req rest true «at» }
          | .error .closed => some { w with lock := .selecting req rest busy «at» } :=
        if_neg hroom
      cases hr : (w.sess g).tx.tryReserve commandChannelCapacity with
      | ok tx =>
        have hres : (w.sess g).reserve req =
            some { w.sess g with tx := tx, forward := .reserved req } := by
          unfold Session.reserve
          rw [if_pos (hidle g), hr]
        rw [hr, hres] at htry
        exact ⟨1, _, Machine.run_cons_some.mpr ⟨_, htry, rfl⟩, _, hres, rfl, rfl⟩
      | error e =>
        rw [hr] at htry
        cases e with
        | full => exact hskip htry
        | closed => exact hskip htry

/-- **The machine routes so.** `forward_any`, left to itself, asks the session that `route` picks,
or answers what it answers. -/
theorem route_run (h : Reachable digest lib w) (hl : w.lock = .free) (req : Request) :
    ∃ n v, Machine.run (step digest lib) w (.forwardAny req :: List.replicate n .forward) = some v ∧
      Selected w req w.now w.route v := by
  have hidle := h.forwardIdle.idle (by rw [hl]; exact nofun)
  obtain ⟨n, v, hrun, hv⟩ := selecting_run digest lib req w.now hidle w.reserveRoute false
  refine ⟨n, v, Machine.run_cons_some.mpr ⟨_, ?_, hrun⟩, hv⟩
  unfold step
  simp only [hl]

end World

/-- **Routing picks the documented tether.** -/
theorem routing_picks_least (w : World) :
    (∀ id g, w.route = .ok (id, g) ↔ w.Eligible id g ∧ w.HasCapacity g ∧
      ∀ id' g', w.Eligible id' g' → w.HasCapacity g' → w.Precedes id g id' g') ∧
    (w.route = .error .tetherBusy ↔
      (∃ id g, w.Eligible id g) ∧ ∀ id g, w.Eligible id g → ¬ w.HasCapacity g) ∧
    (w.route = .error .noTether ↔ ∀ id g, ¬ w.Eligible id g) ∧
    ∀ v : World, World.SameMaps w v → v.route = w.route := by
  refine ⟨fun id g => ?_, World.route_busy_iff, World.route_none_iff, fun v h => h.route⟩
  rw [World.route_ok_iff]
  constructor
  · intro h
    exact ⟨h.eligible, h.capacity, h.least⟩
  · intro h
    exact ⟨h.1, h.2.1, h.2.2⟩

/-- two tethers, of which "a" serves a stream -/
def twoTethers : World where
  reg := { Registry.new 0 with
    byId := (KeyMap.empty.insert "a" ⟨"a", "", "", true, none⟩).insert "b" ⟨"b", "", "", true, none⟩
    live := (KeyMap.empty.insert "a" 1).insert "b" 2
    nextGeneration := 3 }
  sess g := { Session.new "" [] 0 with streams := if g = 1 then {1} else ∅ }
  now := 0

/-- the tether without a stream is chosen -/
theorem routing_picks_least_two : twoTethers.route = .ok ("b", 2) := by
  refine ((routing_picks_least twoTethers).1 "b" 2).mpr ⟨?_, ?_, ?_⟩
  · exact ⟨rfl, rfl, rfl, rfl, by decide⟩
  · exact ⟨by decide, by decide, rfl⟩
  · intro id g he _
    have hg : (((KeyMap.empty.insert "a" 1).insert "b" 2).get id : Option Nat) = some g := he.live
    rw [KeyMap.get_insert, KeyMap.get_insert, KeyMap.get_empty] at hg
    split at hg
    · next hid =>
      obtain rfl := Option.some.inj hg
      exact .inr ⟨rfl, hid.ge⟩
    · split at hg
      · obtain rfl := Option.some.inj hg
        exact .inl (by decide)
      · cases hg

end AnvilRing
