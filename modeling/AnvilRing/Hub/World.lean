import AnvilRing.Hub.Registry
import AnvilRing.Hub.Closing

/-!
# The hub: registry, routing lock and sessions

Every task of a hub.  Control operations and forwards hold the routing lock and proceed one access
at a time; the sessions run beside them and never wait for it.  A session that ends detaches itself.

* `World.step`               the machine;
* `World.reserveRoute`       the candidates of `reserve_route`, in its order;
* `World.step_session`       a step of the hub is at most one step of a given session;
* `World.Reachable.session`  the sessions of a reachable hub are reachable sessions.
-/

namespace AnvilRing
open Wire

/-- `TETHER_SILENCE` -/
def tetherSilence : Nat := 45 * nanosPerSec

/-- the routing lock and the call that holds it -/
inductive RoutingPc where
  | free
  /-- `forward_any` tries the candidates left; it looked at the registry at time `at` -/
  | selecting (req : Request) (candidates : List (Nat × String × Nat)) (busy : Bool) («at» : Nat)
  /-- `start_forward` on session `g` of tether `id`, selected at time `at` -/
  | forwarding (id : String) (g : Nat) («at» : Nat)
  /-- a control operation closes the sessions that it displaced -/
  | closing (gens : List Nat)

/-- the sessions that the holder of the lock still has to close -/
def RoutingPc.pending : RoutingPc → List Nat
  | .closing gens => gens
  | _ => []

structure World where
  reg : Registry
  /-- the session of each generation -/
  sess : Nat → Session
  lock : RoutingPc := .free
  now : Nat
  /-- history: the generations that a control operation took out of `live` -/
  displaced : List Nat := []
  /-- history: what the forwards returned -/
  results : List (Except ForwardError (Nat × UInt16)) := []

inductive WorldAction where
  | register (id label : String) (credential : Bytes)
  | replaceRecords (records : List Record) (order : List Tether)
  | revoke (id : String)
  | attach (id : String) (credential : Bytes)
  /-- the control operation goes on; `order` is an iteration order of a stream map -/
  | close (order : List UInt16)
  | forwardAny (req : Request)
  | forwardTo (id : String) (req : Request)
  /-- the forward goes on -/
  | forward
  | session (g : Nat) (a : SessionAction)
  | tick (now : Nat)

namespace World

def setSession (w : World) (g : Nat) (s : Session) : World :=
  { w with sess := Function.update w.sess g s }

@[simp] theorem setSession_self (w : World) (g : Nat) (s : Session) :
    (w.setSession g s).sess g = s := Function.update_self ..

theorem setSession_of_ne (w : World) {g g' : Nat} (s : Session) (h : g' ≠ g) :
    (w.setSession g s).sess g' = w.sess g' := Function.update_of_ne h ..

theorem forall_setSession {P : Nat → Session → Prop} {w : World} {g : Nat} {s : Session}
    (h : ∀ k, P k (w.sess k)) (hg : P g s) (k : Nat) : P k ((w.setSession g s).sess k) := by
  by_cases hk : k = g
  · subst hk
    rwa [setSession_self]
  · rw [setSession_of_ne w s hk]
    exact h k

/-- a control operation gives the maps back and goes on to close what it displaced -/
def controlled (w : World) (reg : Registry) (gens : List Nat) : World :=
  { w with reg := reg, lock := .closing gens, displaced := w.displaced ++ gens }

/-! ## routing -/

/-- the session may be chosen: its registration is active, and it neither ended nor fell silent -/
def eligible (w : World) (id : String) (g : Nat) : Bool :=
  w.reg.isActive w.now id && !(w.sess g).closed && !(w.sess g).tx.rxClosed &&
    decide (w.now - (w.sess g).lastSeen ≤ tetherSilence)

/-- ordered by load, then by tether id -/
def before (a b : Nat × String × Nat) : Bool :=
  a.1 < b.1 || (a.1 == b.1 && decide (a.2.1 ≤ b.2.1))

/-- the candidates of `reserve_route`: load, tether id, generation -/
def reserveRoute (w : World) : List (Nat × String × Nat) :=
  ((w.reg.live.toList.filter fun e => w.eligible e.1 e.2).map fun e =>
    ((w.sess e.2).streams.card, e.1, e.2)).mergeSort before

/-- the next candidate: skipped when it is full, else asked for a permit -/
def tryRoute (w : World) (req : Request) (candidate : Nat × String × Nat)
    (rest : List (Nat × String × Nat)) (busy : Bool) («at» : Nat) : Option World :=
  let (count, id, g) := candidate
  if maxConcurrentStreams ≤ count ∨ 65535 < (w.sess g).nextId then
    some { w with lock := .selecting req rest true «at» }
  else
    match (w.sess g).tx.tryReserve commandChannelCapacity with
    | .ok _ =>
      ((w.sess g).reserve req).map fun s =>
        { w.setSession g s with lock := .forwarding id g «at» }
    | .error .full => some { w with lock := .selecting req rest true «at» }
    | .error .closed => some { w with lock := .selecting req rest busy «at» }

/-- a forward returns and lets go of the lock -/
def answer (w : World) (r : Except ForwardError (Nat × UInt16)) : World :=
  { w with lock := .free, results := w.results ++ [r] }

/-- `forward`, up to its permit -/
def forwardTo (w : World) (id : String) (req : Request) : Option World :=
  match w.reg.live.get id with
  | none => some (w.answer (.error .noTether))
  | some g =>
    if w.reg.isActive w.now id then
      match (w.sess g).tx.tryReserve commandChannelCapacity with
      | .ok _ =>
        ((w.sess g).reserve req).map fun s =>
          { w.setSession g s with lock := .forwarding id g w.now }
      | .error .full => some (w.answer (.error .tetherBusy))
      | .error .closed => some (w.answer (.error .tetherGone))
    else some (w.answer (.error .revoked))

/-- the forward that holds the lock goes on -/
def forwardStep (w : World) : Option World :=
  match w.lock with
  | .selecting _ [] busy _ => some (w.answer (.error (if busy then .tetherBusy else .noTether)))
  | .selecting req (candidate :: rest) busy «at» => w.tryRoute req candidate rest busy «at»
  | .forwarding _ g _ =>
    ((w.sess g).forwardStep).map fun s =>
      match (w.sess g).forward with
      | .returned r => (w.setSession g s).answer (r.map fun id => (g, id))
      | _ => w.setSession g s
  | _ => none

/-! ## control operations and sessions -/

/-- the control operation closes the next displaced session, then raises its `abort_tx` -/
def closeStep (w : World) (order : List UInt16) : Option World :=
  match w.lock with
  | .closing [] => some { w with lock := .free }
  | .closing (g :: rest) =>
    ((w.sess g).registryStep order).map fun s =>
      match (w.sess g).registryClose with
      | .returned _ => { w.setSession g s with lock := .closing rest }
      | _ => w.setSession g s
  | _ => none

/-- `attach`: the new session goes into the map, the one before it is displaced -/
def attach (digest : Bytes → String) (w : World) (id : String) (credential : Bytes) : World :=
  match w.reg.attach digest w.now id credential with
  | none => w
  | some (g, reg, gens) => (w.setSession g (Session.new id credential w.now)).controlled reg gens

/-- what a session does of itself; the rest is up to the holder of the routing lock -/
def own : SessionAction → Bool
  | .registryClose _ => false
  | .reserve _ => false
  | .forward => false
  | _ => true

/-- a session moves; the last step of its teardown is the `detach` -/
def sessionStep (lib : HttpLib) (w : World) (g : Nat) (a : SessionAction) : Option World :=
  if 0 < g ∧ g < w.reg.nextGeneration ∧ own a = true then
    (Session.step lib (w.sess g) a).map fun s =>
      { w.setSession g s with
        reg := if (w.sess g).loop = .closed ∧ s.loop = .finished then
            w.reg.detach (w.sess g).tetherId g
          else w.reg }
  else none

def step (digest : Bytes → String) (lib : HttpLib) (w : World) : WorldAction → Option World
  | .close order => w.closeStep order
  | .forward => w.forwardStep
  | .session g a => w.sessionStep lib g a
  | .tick now => if w.now ≤ now then some { w with now := now } else none
  | a =>
    match w.lock with
    | .free =>
      match a with
      | .register id label credential =>
        let r := w.reg.register digest id label credential
        some (w.controlled r.1 r.2)
      | .replaceRecords records order =>
        if order.Perm (Registry.replacement records).values then
          let r := w.reg.replaceRecords w.now records order
          some (w.controlled r.1 r.2)
        else none
      | .revoke id =>
        let r := w.reg.revoke id
        some (w.controlled r.2.1 r.2.2)
      | .attach id credential => some (w.attach digest id credential)
      | .forwardAny req => some { w with lock := .selecting req w.reserveRoute false w.now }
      | .forwardTo id req => w.forwardTo id req
      | _ => none
    | _ => none

/-- a hub that has just started -/
def Initial (w : World) : Prop :=
  ∃ lease now, w = { reg := .new lease, sess := fun _ => Session.new "" [] now, now := now }

abbrev Reachable (digest : Bytes → String) (lib : HttpLib) (w : World) : Prop :=
  Machine.Reachable (step digest lib) Initial w

/-! ## what a step of the hub can do -/

/-- the branches of `step`, with their guards -/
inductive Move (digest : Bytes → String) (lib : HttpLib) (w : World) :
    WorldAction → World → Prop where
  | register {id label : String} {credential : Bytes} (hl : w.lock = .free) :
      Move digest lib w (.register id label credential)
        (w.controlled (w.reg.register digest id label credential).1
          (w.reg.register digest id label credential).2)
  | replaceRecords {records : List Record} {order : List Tether} (hl : w.lock = .free)
      (ho : order.Perm (Registry.replacement records).values) :
      Move digest lib w (.replaceRecords records order)
        (w.controlled (w.reg.replaceRecords w.now records order).1
          (w.reg.replaceRecords w.now records order).2)
  | revoke {id : String} (hl : w.lock = .free) :
      Move digest lib w (.revoke id) (w.controlled (w.reg.revoke id).2.1 (w.reg.revoke id).2.2)
  | refuse {id : String} {credential : Bytes} (hl : w.lock = .free) :
      Move digest lib w (.attach id credential) w
  | attach {id : String} {credential : Bytes} {g : Nat} {reg : Registry} {gens : List Nat}
      (hl : w.lock = .free) (ha : w.reg.attach digest w.now id credential = some (g, reg, gens)) :
      Move digest lib w (.attach id credential)
        ((w.setSession g (Session.new id credential w.now)).controlled reg gens)
  | route {req : Request} (hl : w.lock = .free) :
      Move digest lib w (.forwardAny req)
        { w with lock := .selecting req w.reserveRoute false w.now }
  | skip {req : Request} {c : Nat × String × Nat} {rest : List (Nat × String × Nat)}
      {busy busy' : Bool} {«at» : Nat} (hl : w.lock = .selecting req (c :: rest) busy «at») :
      Move digest lib w .forward { w with lock := .selecting req rest busy' «at» }
  | select {req : Request} {count g : Nat} {id : String} {rest : List (Nat × String × Nat)}
      {busy : Bool} {«at» : Nat} {s : Session}
      (hl : w.lock = .selecting req ((count, id, g) :: rest) busy «at»)
      (hs : (w.sess g).reserve req = some s) :
      Move digest lib w .forward { w.setSession g s with lock := .forwarding id g «at» }
  | selectTo {req : Request} {g : Nat} {id : String} {s : Session} (hl : w.lock = .free)
      (hg : w.reg.live.get id = some g) (ha : w.reg.isActive w.now id = true)
      (hs : (w.sess g).reserve req = some s) :
      Move digest lib w (.forwardTo id req)
        { w.setSession g s with lock := .forwarding id g w.now }
  | refuseTo {id : String} {req : Request} {e : ForwardError} (hl : w.lock = .free) :
      Move digest lib w (.forwardTo id req) (w.answer (.error e))
  | noRoute {req : Request} {busy : Bool} {«at» : Nat} {e : ForwardError}
      (hl : w.lock = .selecting req [] busy «at») : Move digest lib w .forward (w.answer (.error e))
  | forward {id : String} {g «at» : Nat} {s : Session} (hl : w.lock = .forwarding id g «at»)
      (hs : (w.sess g).forwardStep = some s) : Move digest lib w .forward (w.setSession g s)
  | forwarded {id : String} {g «at» : Nat} {s : Session} {r : Except ForwardError UInt16}
      (hl : w.lock = .forwarding id g «at») (hr : (w.sess g).forward = .returned r)
      (hs : (w.sess g).forwardStep = some s) :
      Move digest lib w .forward ((w.setSession g s).answer (r.map fun id => (g, id)))
  | closing {order : List UInt16} {g : Nat} {rest : List Nat} {s : Session}
      (hl : w.lock = .closing (g :: rest)) (hs : (w.sess g).registryStep order = some s) :
      Move digest lib w (.close order) (w.setSession g s)
  | closed {order drained : List UInt16} {g : Nat} {rest : List Nat} {s : Session}
      (hl : w.lock = .closing (g :: rest)) (hr : (w.sess g).registryClose = .returned drained)
      (hs : (w.sess g).registryStep order = some s) :
      Move digest lib w (.close order) { w.setSession g s with lock := .closing rest }
  | release {order : List UInt16} (hl : w.lock = .closing []) :
      Move digest lib w (.close order) { w with lock := .free }
  | session {g : Nat} {a : SessionAction} {s : Session} (h0 : 0 < g)
      (hg : g < w.reg.nextGeneration) (ho : own a = true)
      (hs : Session.step lib (w.sess g) a = some s) :
      Move digest lib w (.session g a) { w.setSession g s with
        reg := if (w.sess g).loop = .closed ∧ s.loop = .finished then
            w.reg.detach (w.sess g).tetherId g
          else w.reg }
  | tick {now : Nat} (hn : w.now ≤ now) : Move digest lib w (.tick now) { w with now := now }

section
variable {digest : Bytes → String} {lib : HttpLib} {w v : World} {a : WorldAction}

theorem move_forwardStep (h : w.forwardStep = some v) : Move digest lib w .forward v := by
  unfold forwardStep at h
  split at h
  · next req busy t hl => exact Option.some.inj h ▸ .noRoute hl
  · next req c rest busy t hl =>
    obtain ⟨count, id, g⟩ := c
    unfold tryRoute at h
    simp only at h
    split at h
    · exact Option.some.inj h ▸ .skip hl
    · split at h
      · obtain ⟨s, hs, rfl⟩ := Option.map_eq_some_iff.mp h
        exact .select hl hs
      · exact Option.some.inj h ▸ .skip hl
      · exact Option.some.inj h ▸ .skip hl
  · next id g t hl =>
    obtain ⟨s, hs, rfl⟩ := Option.map_eq_some_iff.mp h
    split
    · next r hr => exact .forwarded hl hr hs
    · exact .forward hl hs
  · cases h

theorem move_closeStep {order : List UInt16} (h : w.closeStep order = some v) :
    Move digest lib w (.close order) v := by
  unfold closeStep at h
  split at h
  · next hl => exact Option.some.inj h ▸ .release hl
  · next g rest hl =>
    obtain ⟨s, hs, rfl⟩ := Option.map_eq_some_iff.mp h
    split
    · next drained hr => exact .closed hl hr hs
    · exact .closing hl hs
  · cases h

theorem move_attach (hl : w.lock = .free) (id : String) (credential : Bytes) :
    Move digest lib w (.attach id credential) (w.attach digest id credential) := by
  unfold World.attach
  split
  · exact .refuse hl
  · next g reg gens ha => exact .attach hl ha

theorem move_forwardTo {id : String} {req : Request} (hl : w.lock = .free)
    (h : w.forwardTo id req = some v) : Move digest lib w (.forwardTo id req) v := by
  unfold forwardTo at h
  split at h
  · exact Option.some.inj h ▸ .refuseTo hl
  · next g hg =>
    split at h
    · next ha =>
      split at h
      · obtain ⟨s, hs, rfl⟩ := Option.map_eq_some_iff.mp h
        exact .selectTo hl hg ha hs
      · exact Option.some.inj h ▸ .refuseTo hl
      · exact Option.some.inj h ▸ .refuseTo hl
    · exact Option.some.inj h ▸ .refuseTo hl

/-- **Inversion.** Every step of the hub is one of the moves. -/
theorem move_of_step (h : step digest lib w a = some v) : Move digest lib w a v := by
  cases a with
  | close order => exact move_closeStep h
  | forward => exact move_forwardStep h
  | session g a =>
    change w.sessionStep lib g a = some v at h
    unfold sessionStep at h
    split at h
    · next hg =>
      obtain ⟨s, hs, rfl⟩ := Option.map_eq_some_iff.mp h
      exact .session hg.1 hg.2.1 hg.2.2 hs
    · cases h
  | tick now =>
    change (if w.now ≤ now then some { w with now := now } else none) = some v at h
    split at h
    · next hn => exact Option.some.inj h ▸ .tick hn
    · cases h
  | _ =>
    unfold step at h
    simp only at h
    split at h
    · next hl =>
      first
        | exact Option.some.inj h ▸ .register hl
        | exact Option.some.inj h ▸ .revoke hl
        | exact Option.some.inj h ▸ move_attach hl _ _
        | exact Option.some.inj h ▸ .route hl
        | exact move_forwardTo hl h
        | (split at h
           · next ho => exact Option.some.inj h ▸ .replaceRecords hl ho
           · cases h)
    · cases h

theorem Reachable.move {P : World → Prop}
    (hinit : ∀ lease now,
      P { reg := .new lease, sess := fun _ => Session.new "" [] now, now := now })
    (hmove : ∀ w a v, Reachable digest lib w → P w → Move digest lib w a v → P v) {w : World}
    (h : Reachable digest lib w) : P w := by
  refine Machine.Reachable.invariant_of ?_ ?_ h
  · intro w hw
    obtain ⟨lease, now, rfl⟩ := hw
    exact hinit lease now
  · intro w a v hr hp hstep
    exact hmove w a v hr hp (move_of_step hstep)

/-! ## the sessions of a hub -/

theorem nextGeneration_detach (reg : Registry) (id : String) (g : Nat) :
    (reg.detach id g).nextGeneration = reg.nextGeneration := by
  unfold Registry.detach
  split <;> rfl

theorem Move.nextGeneration (hm : Move digest lib w a v) :
    w.reg.nextGeneration ≤ v.reg.nextGeneration := by
  cases hm with
  | attach hl ha =>
    obtain ⟨_, _, rfl, _⟩ := Registry.attach_some ha
    exact Nat.le_succ _
  | session =>
    show _ ≤ Registry.nextGeneration (if _ then _ else _)
    split
    · rw [nextGeneration_detach]
    · exact le_rfl
  | _ => exact le_rfl

theorem sess_setSession {g g' : Nat} {s : Session} {b : SessionAction}
    (hs : Session.step lib (w.sess g) b = some s) :
    (w.setSession g s).sess g' = w.sess g' ∨
      ∃ b, Session.step lib (w.sess g') b = some ((w.setSession g s).sess g') :=
  forall_setSession (w := w)
    (P := fun k t => t = w.sess k ∨ ∃ b, Session.step lib (w.sess k) b = some t)
    (fun _ => .inl rfl) (.inr ⟨b, hs⟩) g'

/-- a step of the hub is at most one step of a given session -/
theorem Move.session_step (hm : Move digest lib w a v) {g : Nat} (hg : g < w.reg.nextGeneration) :
    v.sess g = w.sess g ∨ ∃ b, Session.step lib (w.sess g) b = some (v.sess g) := by
  cases hm with
  | attach hl ha =>
    obtain ⟨rfl, _, _, _⟩ := Registry.attach_some ha
    exact .inl (setSession_of_ne w _ hg.ne)
  | @select req count g' id rest busy t s hl hs => exact sess_setSession (b := .reserve req) hs
  | @selectTo req g' id s hl hg' ha hs => exact sess_setSession (b := .reserve req) hs
  | forward hl hs => exact sess_setSession (b := .forward) hs
  | forwarded hl hr hs => exact sess_setSession (b := .forward) hs
  | @closing order g' rest s hl hs => exact sess_setSession (b := .registryClose order) hs
  | @closed order drained g' rest s hl hr hs => exact sess_setSession (b := .registryClose order) hs
  | session h0 hg' ho hs => exact sess_setSession hs
  | _ => exact .inl rfl

/-- the sessions of a reachable hub are reachable sessions -/
theorem Reachable.session (h : Reachable digest lib w) (g : Nat) :
    Session.Reachable lib (w.sess g) := by
  revert g
  refine h.move (P := fun w => ∀ g, Session.Reachable lib (w.sess g)) ?_ ?_
  · exact fun lease now g => .init ⟨"", [], now, rfl⟩
  · intro w a v _ hw hm g
    have hset : ∀ {g' : Nat} {s : Session} {b : SessionAction},
        Session.step lib (w.sess g') b = some s →
        Session.Reachable lib ((w.setSession g' s).sess g) := by
      intro g' s b hs
      exact forall_setSession (P := fun _ t => Session.Reachable lib t) hw ((hw g').step hs) g
    cases hm with
    | @attach id credential g' reg gens hl ha =>
      have hnew : Session.Reachable lib (Session.new id credential w.now) :=
        .init ⟨id, credential, w.now, rfl⟩
      exact forall_setSession (P := fun _ t => Session.Reachable lib t) hw hnew g
    | @select req count g' id rest busy t s hl hs => exact hset (b := .reserve req) hs
    | @selectTo req g' id s hl hg' ha hs => exact hset (b := .reserve req) hs
    | forward hl hs => exact hset (b := .forward) hs
    | forwarded hl hr hs => exact hset (b := .forward) hs
    | @closing order g' rest s hl hs => exact hset (b := .registryClose order) hs
    | @closed order drained g' rest s hl hr hs => exact hset (b := .registryClose order) hs
    | session h0 hg' ho hs => exact hset hs
    | _ => exact hw g

/-- a run of the hub is a run of each of its sessions -/
theorem run_session {as : List WorldAction} (h : Machine.run (step digest lib) w as = some v)
    {g : Nat} (hg : g < w.reg.nextGeneration) :
    ∃ bs, Machine.run (Session.step lib) (w.sess g) bs = some (v.sess g) := by
  induction as generalizing w with
  | nil =>
    obtain rfl := Option.some.inj h
    exact ⟨[], rfl⟩
  | cons a as ih =>
    obtain ⟨u, hu, h⟩ := Machine.run_cons_some.mp h
    have hm := move_of_step hu
    obtain ⟨bs, hbs⟩ := ih h (hg.trans_le hm.nextGeneration)
    rcases hm.session_step hg with he | ⟨b, hb⟩
    · rw [he] at hbs
      exact ⟨bs, hbs⟩
    · exact ⟨b :: bs, Machine.run_cons_some.mpr ⟨_, hb, hbs⟩⟩

end

end World

end AnvilRing
