import AnvilRing.Hub.Release
import AnvilRing.Hub.Routing

/-!
# The account of a forward

`forward_any` and `forward` reserve a slot, take an id, register it and send OPEN, beside sessions
that end meanwhile.

* `Session.Booked`, `Session.Entered`   what a forward has added to its session;
* `Session.Underway`                    the same, point by point of `start_forward`;
* `World.Forwarding`                    how the hub stands to the one that the call found;
* `World.Forwarding.step`               the call goes on, or returns.
-/

namespace AnvilRing
open Wire

/-! ## one session -/

/-- the stream of the forward is registered -/
def ForwardPc.entered : ForwardPc → Option UInt16
  | .admitted i => some i
  | .opened i => some i
  | .spawned i => some i
  | .returned (.ok i) => some i
  | _ => none

namespace Session
variable {lib : HttpLib} {s t u : Session} {a : SessionAction}

/-- Beside the forward's own account nothing was added: `slots` permits and `ids` stream ids. -/
structure Booked (s t : Session) (slots ids : Nat) : Prop where
  reserved : t.tx.reserved = s.tx.reserved + slots
  nextId : t.nextId = s.nextId + ids
  registered : ∀ j, (t.state j).registered = (s.state j).registered
  opened : openedIds t.tx.log = openedIds s.tx.log
  streams : t.streams ⊆ s.streams

/-- a step of anyone but a forward -/
structure Kept (s t : Session) : Prop extends Booked s t 0 0 where
  forward : t.forward = s.forward

/-- stream `i` is registered; `slots` permits are held, and these OPENs are sent -/
structure Entered (s t : Session) (i : UInt16) (slots : Nat) (opens : List UInt16) : Prop where
  id : i.toNat = s.nextId
  reserved : t.tx.reserved = s.tx.reserved + slots
  nextId : t.nextId = s.nextId + 1
  registered : (t.state i).registered = true
  opened : openedIds t.tx.log = openedIds s.tx.log ++ opens

/-- what a forward has done to session `s` when it is at this point -/
def Underway (s t : Session) : ForwardPc → Prop
  | .idle => False
  | .reserved _ => Booked s t 1 0
  | .allocated _ i => Booked s t 1 1 ∧ i.toNat = s.nextId
  | .admitted i => Entered s t i 1 []
  | .opened i => Entered s t i 0 [i]
  | .spawned i => Entered s t i 0 [i]
  | .returned (.ok i) => Entered s t i 0 [i]
  | .returned (.error _) => Booked s t 0 0 ∨ Booked s t 0 1

/-- the room that `reserve_route` found is there until the stream is registered -/
def Roomy (s : Session) : ForwardPc → Prop
  | .reserved _ => s.streams.card < maxConcurrentStreams ∧ s.nextId ≤ 65535
  | .allocated _ _ => s.streams.card < maxConcurrentStreams
  | .returned (.error e) => e = .tetherGone
  | _ => True

theorem booked_refl (s : Session) : Booked s s 0 0 :=
  ⟨rfl, rfl, fun _ => rfl, rfl, subset_rfl⟩

theorem Booked.trans {m n m' n' : Nat} (h : Booked s t m n) (h' : Booked t u m' n') :
    Booked s u (m + m') (n + n') where
  reserved := by rw [h'.reserved, h.reserved, Nat.add_assoc]
  nextId := by rw [h'.nextId, h.nextId, Nat.add_assoc]
  registered j := (h'.registered j).trans (h.registered j)
  opened := h'.opened.trans h.opened
  streams := h'.streams.trans h.streams

theorem kept_refl (s : Session) : Kept s s := ⟨booked_refl s, rfl⟩

theorem Kept.trans (h : Kept s t) (h' : Kept t u) : Kept s u :=
  ⟨h.toBooked.trans h'.toBooked, h'.forward.trans h.forward⟩

theorem Entered.kept {i : UInt16} {slots : Nat} {opens : List UInt16}
    (h : Entered s t i slots opens) (hk : Kept t u) : Entered s u i slots opens where
  id := h.id
  reserved := hk.reserved.trans h.reserved
  nextId := hk.nextId.trans h.nextId
  registered := (hk.registered i).trans h.registered
  opened := hk.opened.trans h.opened

/-- the steps of others do not matter to a forward -/
theorem Underway.kept {pc : ForwardPc} (h : Underway s t pc) (hk : Kept t u) :
    Underway s u pc := by
  cases pc with
  | idle => exact h
  | reserved req => exact Booked.trans h hk.toBooked
  | allocated req i => exact ⟨h.1.trans hk.toBooked, h.2⟩
  | admitted i => exact Entered.kept h hk
  | opened i => exact Entered.kept h hk
  | spawned i => exact Entered.kept h hk
  | returned r =>
    cases r with
    | ok i => exact Entered.kept h hk
    | error e => exact Or.imp (fun hb => hb.trans hk.toBooked) (fun hb => hb.trans hk.toBooked) h

theorem Roomy.kept {pc : ForwardPc} (h : Roomy t pc) (hk : Kept t u) : Roomy u pc := by
  have hcard := Finset.card_le_card hk.streams
  cases pc with
  | reserved req => exact ⟨hcard.trans_lt h.1, hk.nextId ▸ h.2⟩
  | allocated req i => exact hcard.trans_lt h
  | returned r =>
    cases r with
    | ok i => exact trivial
    | error e => exact h
  | _ => exact trivial

/-- what a session does of itself keeps the account of a forward -/
theorem Move.kept (hm : Move lib s a t) (hr : Reachable lib s) (ho : World.own a = true) :
    Kept s t := by
  have ha : a ≠ .forward := by
    rintro rfl
    cases ho
  have hreserved : t.tx.reserved = s.tx.reserved := by
    cases hm with
    | write hc hr =>
      obtain ⟨_, he⟩ := Chan.recv_some hr
      rw [he]
    | _ => first | rfl | cases ho
  have hid : t.nextId = s.nextId := by
    cases hm <;> first | rfl | cases ho
  rcases hm.registers with ⟨hreg, hsub⟩ | ⟨_, _, hx, _⟩
  · exact ⟨⟨hreserved, hid, hreg, hm.opened hr.sends ha, hsub⟩, World.forward_of_own hm ho⟩
  · exact absurd hx ha

/-- a step of the forward itself -/
theorem Underway.forward (h : Underway s t t.forward) (hr : Reachable lib t)
    (hm : Move lib t .forward u) (hn : ∀ r, t.forward ≠ .returned r) :
    Underway s u u.forward := by
  have hreg : ∀ i, (t.state i).registered = true → (u.state i).registered = true :=
    fun _ => hm.registered
  cases hm with
  | @exhausted req hf hx =>
    rw [hf] at h
    have hb : Booked s t 1 0 := h
    refine .inl ⟨?_, hb.nextId, hb.registered, hb.opened, hb.streams⟩
    show t.tx.reserved - 1 = _
    rw [hb.reserved]
    rfl
  | @allocate req hf hx =>
    rw [hf] at h
    have hb : Booked s t 1 0 := h
    refine ⟨⟨hb.reserved, congrArg (· + 1) hb.nextId, hb.registered, hb.opened, hb.streams⟩, ?_⟩
    have hid : t.nextId = s.nextId := hb.nextId
    rw [← hid]
    exact UInt16.toNat_ofNat_of_lt' (by rw [UInt16.size]; omega)
  | gone hf _ | busy hf _ _ =>
    rw [hf] at h
    obtain ⟨hb, _⟩ : Booked s t 1 1 ∧ _ := h
    refine .inr ⟨?_, hb.nextId, hb.registered, hb.opened, hb.streams⟩
    show t.tx.reserved - 1 = _
    rw [hb.reserved]
    rfl
  | @register req id hf _ _ =>
    rw [hf] at h
    obtain ⟨hb, hid⟩ := h
    refine ⟨hid, hb.reserved, hb.nextId, ?_, hb.opened.trans (List.append_nil _).symm⟩
    show ((t.setState id _).state id).registered = true
    rw [setState_self]
    rfl
  | @«open» id hf =>
    rw [hf] at h
    have he : Entered s t id 1 [] := h
    refine ⟨he.id, ?_, he.nextId, he.registered, ?_⟩
    · show t.tx.reserved - 1 = _
      rw [he.reserved]
      rfl
    · show openedIds (t.tx.sendPermit _).log = _
      rw [Chan.log_sendPermit, openedIds_append, he.opened, List.append_nil]
      rfl
  | @spawn id hf =>
    rw [hf] at h
    have he : Entered s t id 0 [id] := h
    exact ⟨he.id, he.reserved, he.nextId, hreg id he.registered, he.opened⟩
  | @install id hf =>
    rw [hf] at h
    have he : Entered s t id 0 [id] := h
    exact ⟨he.id, he.reserved, he.nextId, hreg id he.registered, he.opened⟩
  | answered hf => exact absurd hf (hn _)
  | leave hl => exact h.kept ((Move.leave (a := .tickPing) hl).kept hr rfl)
  | control hl hf hc => exact h.kept ((Move.control (a := .tickPing) hl hf hc).kept hr rfl)

theorem Roomy.forward (h : Roomy t t.forward) (hr : Reachable lib t) (hm : Move lib t .forward u)
    (hn : ∀ r, t.forward ≠ .returned r) : Roomy u u.forward := by
  cases hm with
  | exhausted hf hx =>
    rw [hf] at h
    exact absurd h.2 (Nat.not_le.mpr hx)
  | allocate hf hx =>
    rw [hf] at h
    exact h.1
  | gone hf _ => rfl
  | busy hf _ hx =>
    rw [hf] at h
    exact absurd h (Nat.not_lt.mpr hx)
  | answered hf => exact absurd hf (hn _)
  | leave hl => exact h.kept ((Move.leave (a := .tickPing) hl).kept hr rfl)
  | control hl hf hc => exact h.kept ((Move.control (a := .tickPing) hl hf hc).kept hr rfl)
  | _ => exact trivial

end Session

/-! ## the hub -/

/-- the two calls that begin a forward -/
def WorldAction.begins : WorldAction → Bool
  | .forwardAny _ => true
  | .forwardTo _ _ => true
  | _ => false

/-- a step of a forward -/
def WorldAction.forwards : WorldAction → Bool
  | .forward => true
  | a => a.begins

/-- the call chooses the session itself -/
def WorldAction.chooses : WorldAction → Bool
  | .forwardAny _ => true
  | _ => false

namespace World
open Session (Kept Booked Entered Underway Roomy)
variable {digest : Bytes → String} {lib : HttpLib} {w x y v : World} {a : WorldAction}

/-- a session that was asked with a slot free has its permit -/
theorem reserve_reserved {s t : Session} {req : Request} {tx : Chan Frame}
    (hs : s.reserve req = some t) (htx : s.tx.tryReserve commandChannelCapacity = .ok tx) :
    t.forward = .reserved req := by
  unfold Session.reserve at hs
  rw [htx] at hs
  split at hs
  · cases hs
    rfl
  · cases hs

/-- a candidate is asked only if it had room when it was listed -/
theorem tryRoute_cases {req : Request} {count g : Nat} {id : String}
    {rest : List (Nat × String × Nat)} {busy : Bool} {t : Nat}
    (h : x.tryRoute req (count, id, g) rest busy t = some y) :
    (∃ b, y = { x with lock := .selecting req rest b t }) ∨
    (count < maxConcurrentStreams ∧ (x.sess g).nextId ≤ 65535 ∧
      ∃ s, (x.sess g).reserve req = some s ∧ s.forward = .reserved req ∧
        y = { x.setSession g s with lock := .forwarding id g t }) := by
  unfold tryRoute at h
  simp only at h
  split at h
  · exact .inl ⟨_, (Option.some.inj h).symm⟩
  · next hroom =>
    obtain ⟨hc, hn⟩ := not_or.mp hroom
    split at h
    · next tx htx =>
      obtain ⟨s, hs, rfl⟩ := Option.map_eq_some_iff.mp h
      exact .inr ⟨Nat.lt_of_not_le hc, Nat.le_of_not_lt hn, s, hs, reserve_reserved hs htx, rfl⟩
    · exact .inl ⟨_, (Option.some.inj h).symm⟩
    · exact .inl ⟨_, (Option.some.inj h).symm⟩

/-- Where the call stands that found the hub as `w`: it holds the routing lock, and no session has
changed but for its own account with one of them. -/
def Forwarding (w x : World) (any : Prop) : Prop :=
  x.results = w.results ∧
  match x.lock with
  | .selecting _ cs _ _ =>
    (∀ g, Kept (w.sess g) (x.sess g)) ∧ ∀ c ∈ cs, (x.sess c.2.2).streams.card ≤ c.1
  | .forwarding _ g _ =>
    (∀ g', g' ≠ g → Kept (w.sess g') (x.sess g')) ∧
      Underway (w.sess g) (x.sess g) (x.sess g).forward ∧
      (any → Roomy (x.sess g) (x.sess g).forward)
  | _ => False

theorem Forwarding.results {any : Prop} (h : Forwarding w x any) : x.results = w.results := h.1

theorem Forwarding.selecting {any : Prop} (h : Forwarding w x any) {req : Request}
    {cs : List (Nat × String × Nat)} {busy : Bool} {t : Nat}
    (hl : x.lock = .selecting req cs busy t) :
    (∀ g, Kept (w.sess g) (x.sess g)) ∧ ∀ c ∈ cs, (x.sess c.2.2).streams.card ≤ c.1 := by
  have h2 := h.2
  rw [hl] at h2
  exact h2

theorem Forwarding.forwarding {any : Prop} (h : Forwarding w x any) {id : String} {g t : Nat}
    (hl : x.lock = .forwarding id g t) :
    (∀ g', g' ≠ g → Kept (w.sess g') (x.sess g')) ∧
      Underway (w.sess g) (x.sess g) (x.sess g).forward ∧
      (any → Roomy (x.sess g) (x.sess g).forward) := by
  have h2 := h.2
  rw [hl] at h2
  exact h2

theorem Forwarding.lock {any : Prop} (h : Forwarding w x any) :
    (∃ req cs busy t, x.lock = .selecting req cs busy t) ∨
      ∃ id g t, x.lock = .forwarding id g t := by
  have h2 := h.2
  split at h2
  · next hl => exact .inl ⟨_, _, _, _, hl⟩
  · next hl => exact .inr ⟨_, _, _, hl⟩
  · exact h2.elim

/-- the steps of the sessions and of the clock -/
theorem Forwarding.kept {any : Prop} (h : Forwarding w x any)
    (hk : ∀ g, Kept (x.sess g) (y.sess g)) (hl : y.lock = x.lock) (hr : y.results = x.results) :
    Forwarding w y any := by
  refine ⟨hr.trans h.results, ?_⟩
  rw [hl]
  rcases h.lock with ⟨req, cs, busy, t, hx⟩ | ⟨id, g, t, hx⟩
  · rw [hx]
    obtain ⟨hkept, hcount⟩ := h.selecting hx
    refine ⟨fun g => (hkept g).trans (hk g), fun c hc => ?_⟩
    exact (Finset.card_le_card (hk c.2.2).streams).trans (hcount c hc)
  · rw [hx]
    obtain ⟨hkept, hunder, hroom⟩ := h.forwarding hx
    refine ⟨fun g' hg => (hkept g' hg).trans (hk g'), ?_, fun hany => ?_⟩
    · rw [(hk g).forward]
      exact hunder.kept (hk g)
    · rw [(hk g).forward]
      exact (hroom hany).kept (hk g)

/-- a reservation on session `g` that the call has kept as it found it -/
theorem booked_reserve {s t u : Session} {req : Request} (hk : Kept s t)
    (hs : t.reserve req = some u) (hu : u.forward = .reserved req) :
    Booked s u 1 0 ∧ u.streams = t.streams ∧ u.nextId = t.nextId := by
  unfold Session.reserve at hs
  split at hs
  · split at hs
    · next tx htx =>
      obtain ⟨_, _, rfl⟩ := Chan.tryReserve_ok htx
      cases hs
      exact ⟨⟨congrArg (· + 1) hk.reserved, hk.nextId, hk.registered, hk.opened, hk.streams⟩,
        rfl, rfl⟩
    · cases hs
      cases hu
    · cases hs
      cases hu
  · cases hs

theorem kept_setSession {g g' : Nat} {s : Session} (hg : g' ≠ g)
    (h : Kept (w.sess g') (x.sess g')) :
    Kept (w.sess g') ((x.setSession g s).sess g') := by
  rw [setSession_of_ne x s hg]
  exact h

/-- the call has its permit -/
theorem Forwarding.reserved {any : Prop} {req : Request} {id : String} {g t : Nat} {s : Session}
    (hres : x.results = w.results) (hk : ∀ g, Kept (w.sess g) (x.sess g))
    (hs : (x.sess g).reserve req = some s) (hf : s.forward = .reserved req)
    (hroom : any → (x.sess g).streams.card < maxConcurrentStreams ∧ (x.sess g).nextId ≤ 65535) :
    Forwarding w { x.setSession g s with lock := .forwarding id g t } any := by
  obtain ⟨hbooked, hstreams, hid⟩ := booked_reserve (hk g) hs hf
  refine ⟨hres, fun g' hg => kept_setSession hg (hk g'), ?_, fun hany => ?_⟩
  · show Underway _ ((x.setSession g s).sess g) ((x.setSession g s).sess g).forward
    rw [setSession_self, hf]
    exact hbooked
  · show Roomy ((x.setSession g s).sess g) ((x.setSession g s).sess g).forward
    rw [setSession_self, hf]
    show s.streams.card < _ ∧ s.nextId ≤ _
    rw [hstreams, hid]
    exact hroom hany

/-- the first step of a call -/
theorem forwarding_start (ha : a.begins = true) (hs : step digest lib w a = some x) :
    Forwarding w x (a.chooses = true) ∨ ∃ e, x = w.answer (.error e) := by
  cases a with
  | forwardAny req =>
    unfold step at hs
    simp only at hs
    split at hs
    · cases hs
      refine .inl ⟨rfl, fun g => Session.kept_refl _, fun c hc => ?_⟩
      exact (mem_reserveRoute.mp hc).1.ge
    · cases hs
  | forwardTo id req =>
    unfold step at hs
    simp only at hs
    split at hs
    · unfold forwardTo at hs
      split at hs
      · exact .inr ⟨_, (Option.some.inj hs).symm⟩
      · next g hg =>
        split at hs
        · split at hs
          · next tx htx =>
            obtain ⟨s, hres, rfl⟩ := Option.map_eq_some_iff.mp hs
            exact .inl (.reserved rfl (fun g => Session.kept_refl _) hres
              (reserve_reserved hres htx) nofun)
          · exact .inr ⟨_, (Option.some.inj hs).symm⟩
          · exact .inr ⟨_, (Option.some.inj hs).symm⟩
        · exact .inr ⟨_, (Option.some.inj hs).symm⟩
    · cases hs
  | _ => cases ha

/-- the last step of a call: no session was asked, or the session that was asked has its answer -/
inductive Returning (x : World) : World → Prop where
  | noRoute {req : Request} {busy : Bool} {t : Nat} (hl : x.lock = .selecting req [] busy t)
      (e : ForwardError) : Returning x (x.answer (.error e))
  | answered {id : String} {g t : Nat} {r : Except ForwardError UInt16}
      (hl : x.lock = .forwarding id g t) (hr : (x.sess g).forward = .returned r) :
      Returning x ((x.setSession g { x.sess g with forward := .idle }).answer
        (r.map fun i => (g, i)))

/-- a step of anyone else while a forward holds the lock -/
theorem kept_other (hl : x.lock ≠ .free) (hc : ∀ gens, x.lock ≠ .closing gens)
    (hr : Reachable digest lib x) (hs : step digest lib x a = some y) (ha : a ≠ .forward) :
    (∀ g, Kept (x.sess g) (y.sess g)) ∧ y.lock = x.lock ∧ y.results = x.results ∧
      a.forwards = false := by
  cases move_of_step hs with
  | register hx | replaceRecords hx | revoke hx | refuse hx | attach hx | route hx | selectTo hx
  | refuseTo hx => exact absurd hx hl
  | closing hx | closed hx | release hx => exact absurd hx (hc _)
  | skip | select | noRoute | forward | forwarded => exact absurd rfl ha
  | tick hn => exact ⟨fun g => Session.kept_refl _, rfl, rfl, rfl⟩
  | @session g b s h0 hg ho hb =>
    have hkept := (Session.move_of_step hb).kept (hr.session g) ho
    exact ⟨forall_setSession (w := x) (P := fun k t => Kept (x.sess k) t)
      (fun k => Session.kept_refl _) hkept, rfl, rfl, rfl⟩

theorem Forwarding.other {any : Prop} (h : Forwarding w x any) (hr : Reachable digest lib x)
    (hs : step digest lib x a = some y) (ha : a ≠ .forward) :
    Forwarding w y any ∧ (∀ g, Kept (x.sess g) (y.sess g)) ∧ a.forwards = false := by
  have hlock : x.lock ≠ .free ∧ ∀ gens, x.lock ≠ .closing gens := by
    rcases h.lock with ⟨_, _, _, _, hx⟩ | ⟨_, _, _, hx⟩
    · rw [hx]
      exact ⟨nofun, nofun⟩
    · rw [hx]
      exact ⟨nofun, nofun⟩
  obtain ⟨hk, hl, hres, hf⟩ := kept_other hlock.1 hlock.2 hr hs ha
  exact ⟨h.kept hk hl hres, hk, hf⟩

/-- the forward goes on inside its session -/
theorem Forwarding.session {any : Prop} (h : Forwarding w x any) (hr : Reachable digest lib x)
    {id : String} {g t : Nat} {s : Session} (hl : x.lock = .forwarding id g t)
    (hs : (x.sess g).forwardStep = some s) (hn : ∀ r, (x.sess g).forward ≠ .returned r) :
    Forwarding w (x.setSession g s) any := by
  obtain ⟨hkept, hunder, hroom⟩ := h.forwarding hl
  have hm : Session.Move lib (x.sess g) .forward s := Session.move_forwardStep hs
  have hrs := hr.session g
  refine ⟨h.results, ?_⟩
  have hlock : (x.setSession g s).lock = .forwarding id g t := hl
  rw [hlock]
  refine ⟨fun g' hg => kept_setSession hg (hkept g' hg), ?_, fun hany => ?_⟩
  · rw [setSession_self]
    exact hunder.forward hrs hm hn
  · rw [setSession_self]
    exact (hroom hany).forward hrs hm hn

/-- **One step of the forward that holds the lock.** It goes on, or it returns. -/
theorem Forwarding.forwardStep {any : Prop} (h : Forwarding w x any) (hr : Reachable digest lib x)
    (hs : x.forwardStep = some y) : Forwarding w y any ∨ Returning x y := by
  unfold World.forwardStep at hs
  split at hs
  · next req busy t hl =>
    cases hs
    exact .inr (.noRoute hl _)
  · next req c rest busy t hl =>
    obtain ⟨count, id, g⟩ := c
    obtain ⟨hkept, hcount⟩ := h.selecting hl
    rcases tryRoute_cases hs with ⟨b, rfl⟩ | ⟨hc, hn, s, hres, hf, rfl⟩
    · exact .inl ⟨h.results, hkept, fun c hc => hcount c (List.mem_cons_of_mem _ hc)⟩
    · refine .inl (.reserved h.results hkept hres hf fun _ => ⟨?_, hn⟩)
      exact (hcount (count, id, g) List.mem_cons_self).trans_lt hc
  · next id g t hl =>
    obtain ⟨s, hb, rfl⟩ := Option.map_eq_some_iff.mp hs
    split
    · next r hx =>
      unfold Session.forwardStep at hb
      rw [hx] at hb
      cases hb
      exact .inr (.answered hl hx)
    · next hx => exact .inl (h.session hr hl hb hx)
  · cases hs

theorem Forwarding.step {any : Prop} (h : Forwarding w x any) (hr : Reachable digest lib x)
    (hs : step digest lib x a = some y) : Forwarding w y any ∨ a = .forward ∧ Returning x y := by
  by_cases ha : a = .forward
  · subst ha
    exact (h.forwardStep hr hs).imp_right fun hret => ⟨rfl, hret⟩
  · exact .inl (h.other hr hs ha).1

end World

end AnvilRing
