import AnvilRing.Http.Bearer
import AnvilRing.Http.Proxy
import AnvilRing.Hub.Control
import AnvilRing.Hub.Opening
import AnvilRing.Hub.Release
import AnvilRing.Hub.Routing

/-!
# The callers of the hub

What the frontend decides about a call before it forwards it, and which call each stream of the hub
belongs to.

* `World.status`           `Registry::status`, with the state of every registered tether;
* `World.handle`           `frontend::handle` up to `forward_any`;
* `World.Owned`            every stream has a call of its own, whose request it carries;
* `World.Owned.move`       whatever the hub does, no call gets a second stream.
-/

namespace AnvilRing
open Wire

/-- a request as the frontend's HTTP server gives it to `handle` -/
structure HttpCall where
  method : Bytes
  uri : Uri
  headers : HeaderMap
  /-- the frames of the body, and whether it ends cleanly -/
  body : List CallerFrame
  bodyOk : Bool

/-- the request that `start_forward` makes of a call -/
def HttpCall.request (c : HttpCall) : Request :=
  { head := openHead c.method c.uri c.headers, body := c.body, bodyOk := c.bodyOk }

inductive TetherState where
  | up (idle : Nat)
  /-- connected, and silent for longer than `TETHER_SILENCE` -/
  | stale (idle : Nat)
  | down
  deriving DecidableEq, Repr

def TetherState.isUp : TetherState → Bool
  | .up _ => true
  | _ => false

/-- what `handle` does with a call -/
inductive Handling where
  | health (up : Bool)
  | unauthorized
  | forward
  deriving DecidableEq, Repr

namespace World

/-- the state of one registration -/
def tetherState (w : World) (t : Tether) : TetherState :=
  match (w.reg.live.get t.id).filter fun _ => (t.remaining w.now).isSome with
  | some g =>
    let idle := w.now - (w.sess g).lastSeen
    if tetherSilence < idle then .stale idle else .up idle
  | none => .down

def status (w : World) : List (String × String × TetherState) :=
  w.reg.byId.values.map fun t => (t.id, t.label, w.tetherState t)

/-- some tether is up, for `handle` -/
def tetherUp (w : World) : Bool := w.status.any fun e => e.2.2.isUp

/-- `handle`: the health check comes before the authentication, and that before any forward -/
def handle (w : World) (callerToken : Bytes) (c : HttpCall) : Handling :=
  if c.method = ascii "GET" ∧ c.uri.pathStr = ascii "/healthz" then
    .health w.tetherUp
  else if authorized c.headers callerToken then .forward
  else .unauthorized

/-- the action begins a forward -/
def asks : WorldAction → Bool
  | .forwardAny _ => true
  | .forwardTo _ _ => true
  | _ => false

end World

/-! ## what a step of a session registers -/

namespace Session
variable {lib : HttpLib} {s t : Session} {a : SessionAction} {i : UInt16}

/-- `start_forward` registers the stream of its request, or none -/
theorem forwardStep_registers (h : s.forwardStep = some t) :
    (∃ req i, s.forward = .allocated req i ∧ t.forward = .admitted i ∧
      t.state = (s.setState i (StreamState.fresh req s.received.length)).state) ∨
    (∀ i, (t.state i).registered = (s.state i).registered ∧
      (t.state i).request = (s.state i).request) ∧
    (∀ req, t.forward ≠ .reserved req) ∧
    ∀ req i, t.forward = .allocated req i → s.forward = .reserved req := by
  have hset : ∀ {j : UInt16} {st : StreamState}, st.registered = (s.state j).registered →
      st.request = (s.state j).request → ∀ i,
      ((s.setState j st).state i).registered = (s.state i).registered ∧
        ((s.setState j st).state i).request = (s.state i).request :=
    fun hr hq i => ⟨setState_apply StreamState.registered s hr i,
      setState_apply StreamState.request s hq i⟩
  have hnot : ∀ {r : Except ForwardError UInt16},
      (∀ req, ForwardPc.returned r ≠ .reserved req) ∧
        ∀ req i, ForwardPc.returned r = .allocated req i → s.forward = .reserved req :=
    ⟨fun _ hx => (by cases hx), fun _ _ hx => (by cases hx)⟩
  unfold forwardStep at h
  split at h
  · next req hf =>
    right
    obtain rfl := Option.some.inj h
    unfold allocate
    split
    · exact ⟨fun _ => ⟨rfl, rfl⟩, hnot⟩
    · refine ⟨fun _ => ⟨rfl, rfl⟩, fun _ hx => (by cases hx), fun req' i hx => ?_⟩
      cases hx
      exact hf
  · next req id hf =>
    obtain rfl := Option.some.inj h
    unfold admitStream
    split
    · exact .inr ⟨fun _ => ⟨rfl, rfl⟩, hnot⟩
    · split
      · exact .inr ⟨fun _ => ⟨rfl, rfl⟩, hnot⟩
      · exact .inl ⟨req, id, hf, rfl, rfl⟩
  · right
    obtain rfl := Option.some.inj h
    exact ⟨fun _ => ⟨rfl, rfl⟩, fun _ hx => (by cases hx), fun _ _ hx => (by cases hx)⟩
  · right
    obtain rfl := Option.some.inj h
    exact ⟨hset rfl rfl, fun _ hx => (by cases hx), fun _ _ hx => (by cases hx)⟩
  · right
    obtain rfl := Option.some.inj h
    refine ⟨hset ?_ ?_, hnot⟩
    · rw [StreamState.installUpload_eq]
    · rw [StreamState.installUpload_eq]
  · right
    obtain rfl := Option.some.inj h
    exact ⟨fun _ => ⟨rfl, rfl⟩, fun _ hx => (by cases hx), fun _ _ hx => (by cases hx)⟩
  · cases h

/-- any other step registers no stream, and leaves the requests alone -/
theorem registered_of_other (hr : Reachable lib s) (hm : Move lib s a t) (ha : a ≠ .forward)
    (hi : (t.state i).registered = true) :
    (s.state i).registered = true ∧ (t.state i).request = (s.state i).request := by
  have hreg : (s.state i).registered = true := by
    rcases hm.registers with ⟨hx, -⟩ | ⟨_, _, hx, _⟩
    · rw [← hx i]
      exact hi
    · exact absurd hx ha
  rcases origin_of_move hm i with ho | ⟨req, hf, -⟩
  · exact ⟨hreg, congrArg Prod.fst ho⟩
  · exact absurd hf (hr.idInv.not_allocated hreg req)

end Session

/-! ## whose stream it is -/

namespace World

section
variable {digest : Bytes → String} {lib : HttpLib} {w v : World} {a : WorldAction}
  {calls : List HttpCall} {owner : Nat → UInt16 → Nat} {req : Request}

def Registered (w : World) (g : Nat) (i : UInt16) : Prop := ((w.sess g).state i).registered = true

/-- the last call is the one with this request, and it has no stream yet -/
def Awaits (w : World) (calls : List HttpCall) (owner : Nat → UInt16 → Nat) (req : Request) :
    Prop :=
  ∃ pre c, calls = pre ++ [c] ∧ c.request = req ∧ ∀ g i, w.Registered g i → owner g i < pre.length

structure Owned (w : World) (calls : List HttpCall) (owner : Nat → UInt16 → Nat) : Prop where
  call : ∀ g i, w.Registered g i → ∃ c, calls[owner g i]? = some c ∧
    ((w.sess g).state i).request = c.request
  inj : ∀ g i h j, w.Registered g i → w.Registered h j → owner g i = owner h j → g = h ∧ i = j
  selecting : ∀ req cs busy t, w.lock = .selecting req cs busy t → w.Awaits calls owner req
  reserved : ∀ g req, (w.sess g).forward = .reserved req → w.Awaits calls owner req
  allocated : ∀ g req i, (w.sess g).forward = .allocated req i → w.Awaits calls owner req

theorem Awaits.mono (h : w.Awaits calls owner req)
    (hreg : ∀ g i, v.Registered g i → w.Registered g i) : v.Awaits calls owner req := by
  obtain ⟨pre, c, hcalls, hreq, hless⟩ := h
  exact ⟨pre, c, hcalls, hreq, fun g i hi => hless g i (hreg g i hi)⟩

/-- a step that changes no session -/
theorem Owned.same (h : w.Owned calls owner) (hs : v.sess = w.sess)
    (hl : ∀ req cs busy t, v.lock = .selecting req cs busy t →
      ∃ cs busy, w.lock = .selecting req cs busy t) : v.Owned calls owner := by
  obtain ⟨hcall, hinj, hsel, hres, hall⟩ := h
  unfold Awaits Registered at *
  rw [← hs] at hcall hinj hsel hres hall
  refine ⟨hcall, hinj, fun req cs busy t hlock => ?_, hres, hall⟩
  obtain ⟨cs', busy', hlock'⟩ := hl req cs busy t hlock
  exact hsel req cs' busy' t hlock'

/-- a step of one session that registers no stream -/
theorem Owned.session (h : w.Owned calls owner) {g : Nat} {s : Session}
    (hs : v.sess = (w.setSession g s).sess)
    (hreg : ∀ i, (s.state i).registered = true → w.Registered g i ∧
      (s.state i).request = ((w.sess g).state i).request)
    (hsel : ∀ req cs busy t, v.lock = .selecting req cs busy t → w.Awaits calls owner req)
    (hres : ∀ req, s.forward = .reserved req → w.Awaits calls owner req)
    (hall : ∀ req i, s.forward = .allocated req i → w.Awaits calls owner req) :
    v.Owned calls owner := by
  have hself : v.sess g = s := by
    rw [hs]
    exact setSession_self w g s
  have hother : ∀ k, k ≠ g → v.sess k = w.sess k := fun k hk => by
    rw [hs]
    exact setSession_of_ne w s hk
  have hback : ∀ k i, v.Registered k i → w.Registered k i ∧
      ((v.sess k).state i).request = ((w.sess k).state i).request := by
    intro k i hi
    unfold Registered at hi
    by_cases hk : k = g
    · subst hk
      rw [hself] at hi ⊢
      exact hreg i hi
    · rw [hother k hk] at hi ⊢
      exact ⟨hi, rfl⟩
  refine ⟨fun k i hi => ?_, fun k i k' i' hi hi' => ?_, fun req cs busy t hlock => ?_,
    fun k req hf => ?_, fun k req i hf => ?_⟩
  · obtain ⟨hi', hreq⟩ := hback k i hi
    rw [hreq]
    exact h.call k i hi'
  · exact h.inj k i k' i' (hback k i hi).1 (hback k' i' hi').1
  · exact (hsel req cs busy t hlock).mono fun k i hi => (hback k i hi).1
  · refine Awaits.mono ?_ fun k i hi => (hback k i hi).1
    by_cases hk : k = g
    · subst hk
      exact hres req (hself ▸ hf)
    · exact h.reserved k req (hother k hk ▸ hf)
  · refine Awaits.mono ?_ fun k i hi => (hback k i hi).1
    by_cases hk : k = g
    · subst hk
      exact hall req i (hself ▸ hf)
    · exact h.allocated k req i (hother k hk ▸ hf)

/-- the call of the forward in progress gets its stream -/
theorem Owned.register (h : w.Owned calls owner) {g : Nat} {s : Session} {i : UInt16} {start : Nat}
    (hf : (w.sess g).forward = .allocated req i) (hnew : ¬ w.Registered g i)
    (hidle : ∀ k, k ≠ g → (w.sess k).forward = .idle)
    (hs : v.sess = (w.setSession g s).sess) (hforward : s.forward = .admitted i)
    (hstate : s.state = ((w.sess g).setState i (StreamState.fresh req start)).state)
    (hl : ∀ req cs busy t, v.lock ≠ .selecting req cs busy t) :
    ∃ owner', v.Owned calls owner' := by
  obtain ⟨pre, c, hcalls, hreq, hless⟩ := h.allocated g req i hf
  have hself : v.sess g = s := by
    rw [hs]
    exact setSession_self w g s
  have hother : ∀ k, k ≠ g → v.sess k = w.sess k := fun k hk => by
    rw [hs]
    exact setSession_of_ne w s hk
  -- what is registered is the new stream, or was registered before
  have hback : ∀ k j, v.Registered k j → ¬ (k = g ∧ j = i) → w.Registered k j ∧
      ((v.sess k).state j).request = ((w.sess k).state j).request := by
    intro k j hj hne
    unfold Registered at hj
    by_cases hk : k = g
    · subst hk
      have hji : j ≠ i := fun hx => hne ⟨rfl, hx⟩
      rw [hself, hstate, Session.setState_of_ne _ _ hji] at hj ⊢
      exact ⟨hj, rfl⟩
    · rw [hother k hk] at hj ⊢
      exact ⟨hj, rfl⟩
  refine ⟨fun k j => if k = g ∧ j = i then pre.length else owner k j, ?_, ?_,
    fun req cs busy t hx => absurd hx (hl req cs busy t), fun k req' hx => ?_,
    fun k req' j hx => ?_⟩
  · intro k j hj
    by_cases hk : k = g ∧ j = i
    · obtain ⟨rfl, rfl⟩ := hk
      refine ⟨c, ?_, ?_⟩
      · rw [if_pos ⟨rfl, rfl⟩, hcalls]
        exact List.getElem?_concat_length
      · rw [hself, hstate, Session.setState_self]
        exact hreq.symm
    · obtain ⟨hj', hsame⟩ := hback k j hj hk
      rw [if_neg hk, hsame]
      exact h.call k j hj'
  · intro k j k' j' hj hj' he
    by_cases hk : k = g ∧ j = i
    · by_cases hk' : k' = g ∧ j' = i
      · exact ⟨hk.1.trans hk'.1.symm, hk.2.trans hk'.2.symm⟩
      · rw [if_pos hk, if_neg hk'] at he
        exact absurd he.symm (hless k' j' (hback k' j' hj' hk').1).ne
    · by_cases hk' : k' = g ∧ j' = i
      · rw [if_neg hk, if_pos hk'] at he
        exact absurd he (hless k j (hback k j hj hk).1).ne
      · rw [if_neg hk, if_neg hk'] at he
        exact h.inj k j k' j' (hback k j hj hk).1 (hback k' j' hj' hk').1 he
  · by_cases hk : k = g
    · rw [hk, hself, hforward] at hx
      cases hx
    · rw [hother k hk, hidle k hk] at hx
      cases hx
  · by_cases hk : k = g
    · rw [hk, hself, hforward] at hx
      cases hx
    · rw [hother k hk, hidle k hk] at hx
      cases hx

/-- the forward that holds the lock goes on -/
theorem Owned.forward (h : w.Owned calls owner) (hr : Reachable digest lib w) {g : Nat}
    {s : Session} {id : String} {t : Nat} (hlock : w.lock = .forwarding id g t)
    (hstep : (w.sess g).forwardStep = some s) (hs : v.sess = (w.setSession g s).sess)
    (hl : ∀ req cs busy t, v.lock ≠ .selecting req cs busy t) : ∃ owner', v.Owned calls owner' := by
  have hnone : ∀ req cs busy t, v.lock = .selecting req cs busy t → w.Awaits calls owner req :=
    fun req cs busy t hx => absurd hx (hl req cs busy t)
  rcases Session.forwardStep_registers hstep with ⟨req, i, hf, hadmitted, hstate⟩ |
    ⟨hsame, hres, hall⟩
  · refine h.register hf ?_ (fun k hk => ?_) hs hadmitted hstate hl
    · unfold Registered
      rw [(hr.session g).idInv.allocated req i hf]
      exact Bool.false_ne_true
    · by_contra hx
      obtain ⟨id', t', hlock'⟩ := hr.forwardIdle k hx
      rw [hlock] at hlock'
      cases hlock'
      exact hk rfl
  · refine ⟨owner, h.session hs (fun i hi => ?_) hnone (fun req hx => absurd hx (hres req))
      fun req i hx => h.reserved g req (hall req i hx)⟩
    unfold Registered
    rw [← (hsame i).1]
    exact ⟨hi, (hsame i).2⟩

/-- a step of one session that is no step of a forward -/
theorem Owned.other (h : w.Owned calls owner) (hr : Reachable digest lib w) {g : Nat} {s : Session}
    {b : SessionAction} (hm : Session.Move lib (w.sess g) b s) (hb : b ≠ .forward)
    (hforward : s.forward = (w.sess g).forward) (hs : v.sess = (w.setSession g s).sess)
    (hl : ∀ req cs busy t, v.lock = .selecting req cs busy t →
      w.lock = .selecting req cs busy t) : v.Owned calls owner :=
  h.session hs (fun _ hi => Session.registered_of_other (hr.session g) hm hb hi)
    (fun req cs busy t hx => h.selecting req cs busy t (hl req cs busy t hx))
    (fun req hx => h.reserved g req (hforward ▸ hx))
    fun req i hx => h.allocated g req i (hforward ▸ hx)

/-- **No call gets a second stream.** -/
theorem Owned.move (h : w.Owned calls owner) (hr : Reachable digest lib w)
    (hm : Move digest lib w a v) (ha : asks a = false) : ∃ owner', v.Owned calls owner' := by
  cases hm with
  | register | replaceRecords | revoke | noRoute | release =>
    exact ⟨owner, h.same rfl fun _ _ _ _ hx => (by cases hx)⟩
  | refuse => exact ⟨owner, h⟩
  | route | selectTo | refuseTo => cases ha
  | tick => exact ⟨owner, h.same rfl fun _ cs busy _ hx => ⟨cs, busy, hx⟩⟩
  | @skip req c rest busy busy' t hl =>
    refine ⟨owner, h.same rfl fun req' cs' b' t' hx => ?_⟩
    cases hx
    exact ⟨_, _, hl⟩
  | attach hl ha =>
    refine ⟨owner, h.session rfl (fun i hi => (by cases hi)) (fun _ _ _ _ hx => (by cases hx))
      (fun _ hx => (by cases hx)) fun _ _ hx => (by cases hx)⟩
  | @select req count g id rest busy t s hl hs =>
    have hm : Session.Move lib (w.sess g) (.reserve req) s :=
      Session.move_of_step (a := .reserve req) hs
    have hawait := h.selecting req _ _ _ hl
    have hforward : (∀ req', s.forward = .reserved req' → req' = req) ∧
        ∀ req' i, s.forward ≠ .allocated req' i := by
      unfold Session.reserve at hs
      split at hs
      · split at hs
        · obtain rfl := Option.some.inj hs
          exact ⟨fun _ hx => (ForwardPc.reserved.inj hx).symm, fun _ _ hx => (by cases hx)⟩
        all_goals
          obtain rfl := Option.some.inj hs
          exact ⟨fun _ hx => (by cases hx), fun _ _ hx => (by cases hx)⟩
      · cases hs
    refine ⟨owner, h.session rfl (fun i hi => ?_) (fun _ _ _ _ hx => (by cases hx))
      (fun req' hx => ?_) fun req' i hx => absurd hx (hforward.2 req' i)⟩
    · exact Session.registered_of_other (hr.session g) hm (fun hx => (by cases hx)) hi
    · rw [hforward.1 req' hx]
      exact hawait
  | @forward id g t s hl hs =>
    refine h.forward hr hl hs rfl fun _ _ _ _ hx => ?_
    have hlock := hl.symm.trans hx
    cases hlock
  | forwarded hl hx hs => exact h.forward hr hl hs rfl fun _ _ _ _ hx => (by cases hx)
  | @closing order g rest s hl hs =>
    exact ⟨owner, h.other hr (Session.move_registryStep hs) (fun hx => (by cases hx))
      (forward_registryStep lib hs) rfl fun _ _ _ _ hx => hx⟩
  | @closed order drained g rest s hl hd hs =>
    exact ⟨owner, h.other hr (Session.move_registryStep hs) (fun hx => (by cases hx))
      (forward_registryStep lib hs) rfl fun _ _ _ _ hx => (by cases hx)⟩
  | @session g b s h0 hg ho hs =>
    have hm := Session.move_of_step hs
    refine ⟨owner, h.other hr hm ?_ (forward_of_own hm ho) rfl fun _ _ _ _ hx => hx⟩
    rintro rfl
    cases ho

end

/-! ## the health check -/

section
variable {digest : Bytes → String} {lib : HttpLib} {w : World}

theorem isUp_tetherState {t : Tether} : (w.tetherState t).isUp = true ↔
    ∃ g, w.reg.live.get t.id = some g ∧ (t.remaining w.now).isSome = true ∧
      w.now - (w.sess g).lastSeen ≤ tetherSilence := by
  unfold tetherState
  split
  · next g hg =>
    obtain ⟨hlive, hactive⟩ := Option.filter_eq_some_iff.mp hg
    simp only
    split
    · next hstale =>
      constructor
      · exact fun h => (by cases h)
      · rintro ⟨g', hg', -, hrecent⟩
        obtain rfl := Option.some.inj (hlive.symm.trans hg')
        exact absurd hrecent (Nat.not_le_of_lt hstale)
    · next hrecent => exact ⟨fun _ => ⟨g, hlive, hactive, Nat.le_of_not_lt hrecent⟩, fun _ => rfl⟩
  · next hnone =>
    constructor
    · exact fun h => (by cases h)
    · rintro ⟨g, hlive, hactive, -⟩
      rw [Option.filter_eq_none_iff] at hnone
      exact absurd hactive (hnone g hlive)

/-- some tether is up where a live session of an active registration was heard in time -/
theorem tetherUp_iff (hkeys : ∀ id t, w.reg.byId.get id = some t → t.id = id) :
    w.tetherUp = true ↔ ∃ id g, w.reg.live.get id = some g ∧ w.reg.isActive w.now id = true ∧
      w.now - (w.sess g).lastSeen ≤ tetherSilence := by
  unfold tetherUp status Registry.isActive
  rw [List.any_eq_true]
  constructor
  · rintro ⟨e, he, hup⟩
    obtain ⟨t, ht, rfl⟩ := List.mem_map.mp he
    obtain ⟨id, hid⟩ := KeyMap.mem_values.mp ht
    obtain ⟨g, hlive, hactive, hrecent⟩ := isUp_tetherState.mp hup
    have hkey := hkeys id t hid
    refine ⟨id, g, hkey ▸ hlive, ?_, hrecent⟩
    rw [hid]
    exact hactive
  · rintro ⟨id, g, hlive, hactive, hrecent⟩
    obtain ⟨t, ht, hremaining⟩ := (Option.any_eq_true _ _).mp hactive
    have hkey := hkeys id t ht
    refine ⟨_, List.mem_map.mpr ⟨t, KeyMap.mem_values.mpr ⟨id, ht⟩, rfl⟩, ?_⟩
    exact isUp_tetherState.mpr ⟨g, hkey.symm ▸ hlive, hremaining, hrecent⟩

/-- without a candidate a forward is answered at once -/
theorem run_noRoute (hl : w.lock = .free) (hnone : w.reserveRoute = []) (req : Request) :
    Machine.run (step digest lib) w [.forwardAny req, .forward] =
      some { w with lock := .free, results := w.results ++ [.error .noTether] } := by
  simp [Machine.run, step, hl, forwardStep, hnone, answer]

end

end World

/-- **What `/healthz` says agrees with the routing table.**  The check is answered without a token;
it says that a tether is up just where a live session of an active registration was heard within
`TETHER_SILENCE`, so wherever a request could be routed; and where it says that none is, a request
that arrives then is refused as `NoTether`, and no session sees anything of it. -/
theorem health_agrees {digest : Bytes → String} {lib : HttpLib} {w : World}
    (h : World.Reachable digest lib w) (callerToken : Bytes) {c : HttpCall}
    (hm : c.method = ascii "GET") (hp : c.uri.pathStr = ascii "/healthz") :
    ∃ up, w.handle callerToken c = .health up ∧
      (up = true ↔ ∃ id g, w.reg.live.get id = some g ∧ w.reg.isActive w.now id = true ∧
        w.now - (w.sess g).lastSeen ≤ tetherSilence) ∧
      (∀ id g, w.Eligible id g → up = true) ∧
      (up = false → w.lock = .free → ∀ req, ∃ v,
        Machine.run (World.step digest lib) w [.forwardAny req, .forward] = some v ∧
        v.results = w.results ++ [.error .noTether] ∧ v.sess = w.sess) := by
  have hiff := World.tetherUp_iff h.inv.registry.keys
  have helig : ∀ id g, w.Eligible id g → w.tetherUp = true :=
    fun id g he => hiff.mpr ⟨id, g, he.live, he.active, he.recent⟩
  refine ⟨w.tetherUp, if_pos ⟨hm, hp⟩, hiff, helig, fun hup hl req => ?_⟩
  have hnone : w.reserveRoute = [] := by
    refine World.reserveRoute_eq_nil.mpr fun id g he => ?_
    rw [helig id g he] at hup
    cases hup
  exact ⟨_, World.run_noRoute hl hnone req, rfl, rfl⟩

/-- a tether registers and connects -/
def connectedRun : List WorldAction :=
  [.register "a" "" (ascii "first"), .close [], .attach "a" (ascii "first"), .close []]

def healthCall : HttpCall where
  method := ascii "GET"
  uri := ⟨none, none, ascii "/healthz", none⟩
  headers := ⟨[], fun _ hf => (by cases hf)⟩
  body := []
  bodyOk := true

theorem connectedRun_isSome :
    (Machine.run (World.step twoDigests okLib) freshHub connectedRun).isSome = true := by
  decide

theorem health_agrees_connected : ∃ w, World.Reachable twoDigests okLib w ∧
    w.handle (ascii "secret") healthCall = .health true := by
  have h : World.Reachable twoDigests okLib (Option.get _ connectedRun_isSome) :=
    (Machine.Reachable.init ⟨_, _, rfl⟩).run (Option.some_get connectedRun_isSome).symm
  have helig : (Option.get _ connectedRun_isSome).Eligible "a" 1 :=
    ⟨by decide, by decide, by decide, by decide, by decide⟩
  obtain ⟨up, hup, -, hroutes, -⟩ :=
    health_agrees h (ascii "secret") (c := healthCall) rfl (by decide)
  exact ⟨_, h, hroutes "a" 1 helig ▸ hup⟩

end AnvilRing
