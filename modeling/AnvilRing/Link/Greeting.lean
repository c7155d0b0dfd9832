import AnvilRing.Hub.Control
import AnvilRing.Link.Exchange
import AnvilRing.Link.Lease

/-!
# A connection, from its first message on

`handle_tether` and `serve_over` up to the session: HELLO, the authorization, WELCOME, the attach,
and behind them the session of both ends.  The registry is the hub's own, and other tasks change it
at any time.

* `Connection.step`        the machine;
* `Connection.link`        the session of both ends, HELLO and WELCOME left aside;
* `Connection.Alone`       the tether goes on before the hub has attached;
* `Connection.Stage`       how far the greeting is, and what holds of both ends there;
* `greeting_refines_link`  behind its greeting a connection is a link.
-/

namespace AnvilRing
open Wire

/-- `handle_tether`, up to its loop -/
inductive HubPc where
  /-- waits for HELLO -/
  | hello
  /-- is about to say GOAWAY -/
  | refusing
  /-- is about to say WELCOME to the tether that presented the credential -/
  | welcoming (credential : Bytes) (hs : Handshake)
  | attaching (credential : Bytes) (hs : Handshake)
  /-- the loop runs, or has run -/
  | session (hs : Handshake)
  | ended
  deriving DecidableEq

/-- `serve_over`, up to `run_session` -/
inductive TetherPc where
  | hello
  /-- waits for WELCOME -/
  | welcome
  /-- the loop runs, or has run; the lease is in seconds -/
  | session (lease : UInt64)
  | ended
  deriving DecidableEq

structure Connection where
  reg : Registry
  now : Nat
  /-- `cfg.credential` -/
  credential : Bytes
  hubPc : HubPc := .hello
  /-- means nothing before the attach -/
  hub : Session
  tetherPc : TetherPc := .hello
  /-- HELLO is in the queue of the tether's writer -/
  greeting : Bool := false
  tether : Tunnel := .new
  down : Chan Frame := {}
  up : Chan Frame := {}

inductive ConnectionAction where
  /-- the other tasks of the hub -/
  | registry (reg : Registry)
  | tick (now : Nat)
  /-- before its loop the hub gives up: no HELLO in time, the WebSocket fails or ends, or a message
  comes that is not binary -/
  | hubFail
  | hubRefuse
  | hubWelcome
  | hubAttach
  | hub (a : SessionAction)
  | hubWrite
  | hubRecv
  | tetherHello
  /-- before its loop the tether gives up -/
  | tetherFail
  | tether (a : TunnelAction)
  | tetherWrite
  | tetherRecv

namespace Connection

def unauthorized : Bytes := ascii "unauthorized"

/-- what a reader makes of a frame, by the `decode` of its side; nothing for an error -/
def reads (decode : Message → Except SessionError (Option Frame)) (limit : Nat) (f : Frame) :
    Option Frame :=
  if f.encode.length ≤ limit then (decode (wsMsg f)).toOption.join else none

/-- the first frame: it must be HELLO, and then the registry decides -/
def greeted (digest : Bytes → String) (limit : Nat) (c : Connection) (f : Frame) : HubPc :=
  match reads hubDecode limit f with
  | some (.hello credential) =>
    match handshake digest c.now c.now c.reg credential with
    | some hs => .welcoming credential hs
    | none => .refusing
  | _ => .ended

/-- the tether's first frame: it must be WELCOME -/
def welcomed (limit : Nat) (f : Frame) : TetherPc :=
  match reads tetherDecode limit f with
  | some (.welcome lease) => .session lease
  | _ => .ended

/-- both ends with everything that was said between them -/
def parties (c : Connection) : Link :=
  { hub := c.hub, tether := c.tether, down := c.down, up := c.up }

/-- a step of the session -/
def sessionStep (lib : HttpLib) (limit : Nat) (c : Connection) (a : LinkAction) :
    Option Connection :=
  (Link.step lib limit c.parties a).map fun l =>
    { c with hub := l.hub, tether := l.tether, down := l.down, up := l.up }

def step (digest : Bytes → String) (lib : HttpLib) (limit : Nat) (c : Connection) :
    ConnectionAction → Option Connection
  | .registry reg => some { c with reg := reg }
  | .tick now => if c.now ≤ now then some { c with now := now } else none
  | .hubFail =>
    match c.hubPc with
    | .hello => some { c with hubPc := .ended }
    | .refusing => some { c with hubPc := .ended }
    | .welcoming _ _ => some { c with hubPc := .ended }
    | _ => none
  | .hubRefuse =>
    match c.hubPc with
    | .refusing => some { c with hubPc := .ended, down := c.down.push (.goAway unauthorized) }
    | _ => none
  | .hubWelcome =>
    match c.hubPc with
    | .welcoming credential hs =>
      some { c with hubPc := .attaching credential hs, down := c.down.push hs.welcome }
    | _ => none
  | .hubAttach =>
    match c.hubPc with
    | .attaching credential hs =>
      match c.reg.attach digest c.now hs.lease.tetherId credential with
      | some (_, reg, _) =>
        some { c with
          reg := reg
          hubPc := .session hs
          hub := .new hs.lease.tetherId credential c.now }
      | none => some { c with hubPc := .ended }
    | _ => none
  | .hub a =>
    match c.hubPc with
    | .session _ => c.sessionStep lib limit (.hub a)
    | _ => none
  | .hubWrite =>
    match c.hubPc with
    | .session _ => c.sessionStep lib limit .hubWrite
    | _ => none
  | .hubRecv =>
    match c.hubPc with
    | .hello =>
      c.up.recv.map fun e => { c with hubPc := c.greeted digest limit e.1, up := e.2 }
    | .session _ => c.sessionStep lib limit (.hubRecv c.now)
    | _ => none
  | .tetherHello =>
    match c.tetherPc with
    | .hello => some { c with tetherPc := .welcome, greeting := true }
    | _ => none
  | .tetherFail =>
    match c.tetherPc with
    | .hello => some { c with tetherPc := .ended }
    | .welcome => some { c with tetherPc := .ended }
    | _ => none
  | .tether a =>
    match c.tetherPc with
    | .session _ => c.sessionStep lib limit (.tether a)
    | _ => none
  | .tetherWrite =>
    match c.tetherPc with
    | .welcome =>
      if c.greeting then
        some { c with greeting := false, up := c.up.push (.hello c.credential) }
      else none
    | .session _ => c.sessionStep lib limit .tetherWrite
    | _ => none
  | .tetherRecv =>
    match c.tetherPc with
    | .welcome => c.down.recv.map fun e => { c with tetherPc := welcomed limit e.1, down := e.2 }
    | .session _ => c.sessionStep lib limit .tetherRecv
    | _ => none

/-- the WebSocket is open -/
def Initial (c : Connection) : Prop :=
  ∃ reg now credential, c = { reg := reg, now := now, credential := credential,
                              hub := .new "" [] 0 }

abbrev Reachable (digest : Bytes → String) (lib : HttpLib) (limit : Nat) (c : Connection) : Prop :=
  Machine.Reachable (step digest lib limit) Initial c

/-- the session of both ends, without the first frame of either direction -/
def link (c : Connection) : Link :=
  { hub := c.hub, tether := c.tether, down := c.down.behind, up := c.up.behind }

/-- the registry granted the tether's credential at some time -/
def Granted (digest : Bytes → String) (c : Connection) (hs : Handshake) : Prop :=
  ∃ reg now, handshake digest now now reg c.credential = some hs

/-! ## the session of a connection -/

section
variable {digest : Bytes → String} {lib : HttpLib} {limit : Nat} {c d : Connection}

/-- whoever reads a frame reads that frame -/
theorem reads_some {f g : Frame} (hlimit : limit < 2 ^ 32)
    (h : reads hubDecode limit f = some g ∨ reads tetherDecode limit f = some g) : g = f := by
  have hboth : reads hubDecode limit f = some g := h.elim id id
  unfold reads at hboth
  split at hboth
  · next hlen =>
    cases hd : hubDecode (wsMsg f) with
    | error e =>
      rw [hd] at hboth
      cases hboth
    | ok o =>
      rw [hd] at hboth
      obtain rfl : o = some g := hboth
      exact decodeBinary_encode (hlen.trans_lt hlimit) hd
  · cases hboth

/-- a step of the session is one of the link, once the first frames of both directions are queued
and that of the direction that is read is taken -/
theorem link_of_sessionStep {a : LinkAction} (hup : c.up.log ≠ []) (hdown : c.down.log ≠ [])
    (hr : ∀ now, a = .hubRecv now → c.up.taken ≠ []) (ht : a = .tetherRecv → c.down.taken ≠ [])
    (hs : c.sessionStep lib limit a = some d) : Link.step lib limit c.link a = some d.link := by
  obtain ⟨l, hl, rfl⟩ := Option.map_eq_some_iff.mp hs
  cases a with
  | hub b =>
    change (if Link.hubOwn b then _ else none) = some l at hl
    show (if Link.hubOwn b then _ else none) = _
    split at hl
    · next ho =>
      obtain ⟨s, hst, rfl⟩ := Option.map_eq_some_iff.mp hl
      rw [if_pos ho]
      show (Session.step lib c.hub b).map _ = _
      rw [show Session.step lib c.hub b = some s from hst]
      rfl
    · cases hl
  | hubWrite =>
    obtain ⟨e, he, hl⟩ := Option.bind_eq_some_iff.mp hl
    obtain ⟨s, hst, rfl⟩ := Option.map_eq_some_iff.mp hl
    show c.hub.tx.recv.bind (fun e => (Session.step lib c.hub .write).map _) = _
    change c.hub.tx.recv = some e at he
    rw [he, Option.bind_some, show Session.step lib c.hub .write = some s from hst]
    show some (Link.mk s c.tether (c.down.behind.push e.1) c.up.behind) = _
    rw [← Chan.behind_push hdown]
    rfl
  | hubRecv now =>
    obtain ⟨⟨f, up⟩, he, hl⟩ := Option.bind_eq_some_iff.mp hl
    obtain ⟨s, hst, rfl⟩ := Option.map_eq_some_iff.mp hl
    show c.up.behind.recv.bind
      (fun e => (Session.step lib c.hub (Link.hubReads limit e.1 now)).map _) = _
    rw [(Chan.behind_recv (hr now rfl) he).1, Option.bind_some,
      show Session.step lib c.hub (Link.hubReads limit f now) = some s from hst]
    rfl
  | tether b =>
    change (if Link.tetherOwn b then _ else none) = some l at hl
    show (if Link.tetherOwn b then _ else none) = _
    split at hl
    · next ho =>
      obtain ⟨t, hst, rfl⟩ := Option.map_eq_some_iff.mp hl
      rw [if_pos ho]
      show (c.tether.step b).map _ = _
      rw [show c.tether.step b = some t from hst]
      rfl
    · cases hl
  | tetherWrite =>
    obtain ⟨e, he, hl⟩ := Option.bind_eq_some_iff.mp hl
    obtain ⟨t, hst, rfl⟩ := Option.map_eq_some_iff.mp hl
    show c.tether.tx.recv.bind (fun e => (c.tether.step .write).map _) = _
    change c.tether.tx.recv = some e at he
    rw [he, Option.bind_some, show c.tether.step .write = some t from hst]
    show some (Link.mk c.hub t c.down.behind (c.up.behind.push e.1)) = _
    rw [← Chan.behind_push hup]
    rfl
  | tetherRecv =>
    obtain ⟨⟨f, down⟩, he, hl⟩ := Option.bind_eq_some_iff.mp hl
    obtain ⟨t, hst, rfl⟩ := Option.map_eq_some_iff.mp hl
    show c.down.behind.recv.bind
      (fun e => (c.tether.step (Link.tetherReads limit e.1)).map _) = _
    rw [(Chan.behind_recv (ht rfl) he).1, Option.bind_some,
      show c.tether.step (Link.tetherReads limit f) = some t from hst]
    rfl

/-- what a step of the session leaves alone -/
theorem sessionStep_kept {a : LinkAction} (hs : c.sessionStep lib limit a = some d) :
    d.credential = c.credential ∧ d.hubPc = c.hubPc ∧ d.tetherPc = c.tetherPc ∧
      d.greeting = c.greeting := by
  obtain ⟨l, hl, rfl⟩ := Option.map_eq_some_iff.mp hs
  exact ⟨rfl, rfl, rfl, rfl⟩

/-- what a step of either end does to the other end, and to the directions -/
theorem sessionStep_ends {a : LinkAction} (hs : c.sessionStep lib limit a = some d) :
    (d.hub = c.hub ∨ ∃ b, Session.step lib c.hub b = some d.hub) ∧
      (c.up.taken ≠ [] → d.up.taken ≠ []) ∧ (c.down.taken ≠ [] → d.down.taken ≠ []) ∧
      (∀ f, c.down.log.head? = some f → d.down.log.head? = some f) := by
  obtain ⟨l, hl, rfl⟩ := Option.map_eq_some_iff.mp hs
  have htaken : ∀ {ch ch' : Chan Frame} {f : Frame}, ch.recv = some (f, ch') → ch'.taken ≠ [] := by
    intro ch ch' f hr
    rw [(Chan.recv_some hr).2]
    exact List.append_ne_nil_of_right_ne_nil _ (List.cons_ne_nil _ _)
  cases a with
  | hub b =>
    change (if Link.hubOwn b then _ else none) = some l at hl
    split at hl
    · obtain ⟨x, hx, rfl⟩ := Option.map_eq_some_iff.mp hl
      exact ⟨.inr ⟨b, hx⟩, id, id, fun _ => id⟩
    · cases hl
  | hubWrite =>
    obtain ⟨e, he, hl⟩ := Option.bind_eq_some_iff.mp hl
    obtain ⟨x, hx, rfl⟩ := Option.map_eq_some_iff.mp hl
    refine ⟨.inr ⟨_, hx⟩, id, id, fun f hf => ?_⟩
    show (c.down.push e.1).log.head? = some f
    rw [Chan.log_push, List.head?_append, hf]
    rfl
  | hubRecv now =>
    obtain ⟨e, he, hl⟩ := Option.bind_eq_some_iff.mp hl
    obtain ⟨x, hx, rfl⟩ := Option.map_eq_some_iff.mp hl
    exact ⟨.inr ⟨_, hx⟩, fun _ => htaken he, id, fun _ => id⟩
  | tether b =>
    change (if Link.tetherOwn b then _ else none) = some l at hl
    split at hl
    · obtain ⟨x, hx, rfl⟩ := Option.map_eq_some_iff.mp hl
      exact ⟨.inl rfl, id, id, fun _ => id⟩
    · cases hl
  | tetherWrite =>
    obtain ⟨e, he, hl⟩ := Option.bind_eq_some_iff.mp hl
    obtain ⟨x, hx, rfl⟩ := Option.map_eq_some_iff.mp hl
    exact ⟨.inl rfl, id, id, fun _ => id⟩
  | tetherRecv =>
    obtain ⟨e, he, hl⟩ := Option.bind_eq_some_iff.mp hl
    obtain ⟨x, hx, rfl⟩ := Option.map_eq_some_iff.mp hl
    refine ⟨.inl rfl, id, fun _ => htaken he, fun f hf => ?_⟩
    show e.2.log.head? = some f
    rw [Chan.log_recv he]
    exact hf

/-! ## what a step can do -/

/-- a step of the session that the hub takes -/
def ofHub : LinkAction → Bool
  | .hub _ => true
  | .hubWrite => true
  | .hubRecv _ => true
  | _ => false

inductive Move (digest : Bytes → String) (lib : HttpLib) (limit : Nat) (c : Connection) :
    Connection → Prop where
  | others (reg : Registry) (now : Nat) : Move digest lib limit c { c with reg := reg, now := now }
  -- the hub
  | hubFail (hpc : ∀ credential hs, c.hubPc ≠ .attaching credential hs ∧ c.hubPc ≠ .session hs) :
      Move digest lib limit c { c with hubPc := .ended }
  | hubRefuse (hpc : c.hubPc = .refusing) :
      Move digest lib limit c
        { c with hubPc := .ended, down := c.down.push (.goAway unauthorized) }
  | hubWelcome {credential : Bytes} {hs : Handshake} (hpc : c.hubPc = .welcoming credential hs) :
      Move digest lib limit c
        { c with hubPc := .attaching credential hs, down := c.down.push hs.welcome }
  | hubAttach {credential : Bytes} {hs : Handshake} (reg : Registry)
      (hpc : c.hubPc = .attaching credential hs) :
      Move digest lib limit c
        { c with
          reg := reg
          hubPc := .session hs
          hub := .new hs.lease.tetherId credential c.now }
  | notAttached {credential : Bytes} {hs : Handshake} (hpc : c.hubPc = .attaching credential hs) :
      Move digest lib limit c { c with hubPc := .ended }
  | greeted {f : Frame} {up : Chan Frame} (hpc : c.hubPc = .hello)
      (hr : c.up.recv = some (f, up)) :
      Move digest lib limit c { c with hubPc := c.greeted digest limit f, up := up }
  | hubSession {hs : Handshake} {a : LinkAction} {d : Connection} (hpc : c.hubPc = .session hs)
      (ha : ofHub a = true) (hs : c.sessionStep lib limit a = some d) : Move digest lib limit c d
  -- the tether
  | tetherHello (hpc : c.tetherPc = .hello) :
      Move digest lib limit c { c with tetherPc := .welcome, greeting := true }
  | tetherFail (hpc : ∀ lease, c.tetherPc ≠ .session lease) :
      Move digest lib limit c { c with tetherPc := .ended }
  | greets (hpc : c.tetherPc = .welcome) (hg : c.greeting = true) :
      Move digest lib limit c
        { c with greeting := false, up := c.up.push (.hello c.credential) }
  | welcomed {f : Frame} {down : Chan Frame} (hpc : c.tetherPc = .welcome)
      (hr : c.down.recv = some (f, down)) :
      Move digest lib limit c { c with tetherPc := welcomed limit f, down := down }
  | tetherSession {lease : UInt64} {a : LinkAction} {d : Connection}
      (hpc : c.tetherPc = .session lease) (ha : ofHub a = false)
      (hs : c.sessionStep lib limit a = some d) : Move digest lib limit c d

theorem move_of_step {a : ConnectionAction} (h : step digest lib limit c a = some d) :
    Move digest lib limit c d := by
  unfold step at h
  cases a with
  | registry reg =>
    obtain rfl := Option.some.inj h
    exact .others reg c.now
  | tick now =>
    simp only at h
    split at h
    · obtain rfl := Option.some.inj h
      exact .others c.reg now
    · cases h
  | hubFail =>
    simp only at h
    split at h
    · next hpc =>
      obtain rfl := Option.some.inj h
      refine .hubFail fun _ _ => ?_
      rw [hpc]
      exact ⟨fun hx => (by cases hx), fun hx => (by cases hx)⟩
    · next hpc =>
      obtain rfl := Option.some.inj h
      refine .hubFail fun _ _ => ?_
      rw [hpc]
      exact ⟨fun hx => (by cases hx), fun hx => (by cases hx)⟩
    · next hpc =>
      obtain rfl := Option.some.inj h
      refine .hubFail fun _ _ => ?_
      rw [hpc]
      exact ⟨fun hx => (by cases hx), fun hx => (by cases hx)⟩
    · cases h
  | hubRefuse =>
    simp only at h
    split at h
    · next hpc =>
      obtain rfl := Option.some.inj h
      exact .hubRefuse hpc
    · cases h
  | hubWelcome =>
    simp only at h
    split at h
    · next hpc =>
      obtain rfl := Option.some.inj h
      exact .hubWelcome hpc
    · cases h
  | hubAttach =>
    simp only at h
    split at h
    · next hpc =>
      split at h
      · obtain rfl := Option.some.inj h
        exact .hubAttach _ hpc
      · obtain rfl := Option.some.inj h
        exact .notAttached hpc
    · cases h
  | hub b =>
    simp only at h
    split at h
    · next hpc => exact .hubSession hpc rfl h
    · cases h
  | hubWrite =>
    simp only at h
    split at h
    · next hpc => exact .hubSession hpc rfl h
    · cases h
  | hubRecv =>
    simp only at h
    split at h
    · next hpc =>
      obtain ⟨⟨f, up⟩, hr, rfl⟩ := Option.map_eq_some_iff.mp h
      exact .greeted hpc hr
    · next hpc => exact .hubSession hpc rfl h
    · cases h
  | tetherHello =>
    simp only at h
    split at h
    · next hpc =>
      obtain rfl := Option.some.inj h
      exact .tetherHello hpc
    · cases h
  | tetherFail =>
    simp only at h
    split at h
    · next hpc =>
      obtain rfl := Option.some.inj h
      refine .tetherFail fun _ => ?_
      rw [hpc]
      exact fun hx => by cases hx
    · next hpc =>
      obtain rfl := Option.some.inj h
      refine .tetherFail fun _ => ?_
      rw [hpc]
      exact fun hx => by cases hx
    · cases h
  | tether b =>
    simp only at h
    split at h
    · next hpc => exact .tetherSession hpc rfl h
    · cases h
  | tetherWrite =>
    simp only at h
    split at h
    · next hpc =>
      split at h
      · next hg =>
        obtain rfl := Option.some.inj h
        exact .greets hpc hg
      · cases h
    · next hpc => exact .tetherSession hpc rfl h
    · cases h
  | tetherRecv =>
    simp only at h
    split at h
    · next hpc =>
      obtain ⟨⟨f, down⟩, hr, rfl⟩ := Option.map_eq_some_iff.mp h
      exact .welcomed hpc hr
    · next hpc => exact .tetherSession hpc rfl h
    · cases h

theorem sessionStep_tether {a : LinkAction} (ha : ofHub a = true)
    (hs : c.sessionStep lib limit a = some d) :
    d.tether = c.tether ∧ d.down.taken = c.down.taken := by
  obtain ⟨l, hl, rfl⟩ := Option.map_eq_some_iff.mp hs
  cases a with
  | hub b =>
    change (if Link.hubOwn b then _ else none) = some l at hl
    split at hl
    · obtain ⟨x, -, rfl⟩ := Option.map_eq_some_iff.mp hl
      exact ⟨rfl, rfl⟩
    · cases hl
  | hubWrite | hubRecv =>
    obtain ⟨e, -, hl⟩ := Option.bind_eq_some_iff.mp hl
    obtain ⟨x, -, rfl⟩ := Option.map_eq_some_iff.mp hl
    exact ⟨rfl, rfl⟩
  | tether | tetherWrite | tetherRecv => cases ha

/-! ## the tether alone -/

/-- whatever session the hub is to begin, the tether has come here without it -/
def Alone (lib : HttpLib) (limit : Nat) (c : Connection) : Prop :=
  ∀ s : Session, ∃ as, Machine.run (Link.step lib limit) { hub := s, tether := .new } as =
    some { hub := s, tether := c.tether, up := c.up.behind }

theorem Alone.snoc (h : c.Alone lib limit) {a : LinkAction}
    (hs : ∀ s, Link.step lib limit { hub := s, tether := c.tether, up := c.up.behind } a =
      some { hub := s, tether := d.tether, up := d.up.behind }) : d.Alone lib limit := by
  intro s
  obtain ⟨as, has⟩ := h s
  exact ⟨as ++ [a], Machine.run_append_some.mpr
    ⟨_, has, Machine.run_cons_some.mpr ⟨_, hs s, rfl⟩⟩⟩

theorem Alone.tether (h : c.Alone lib limit) {b : TunnelAction}
    (hs : c.sessionStep lib limit (.tether b) = some d) :
    d.Alone lib limit ∧ d.up = c.up ∧ d.down = c.down ∧ d.hub = c.hub := by
  obtain ⟨l, hl, rfl⟩ := Option.map_eq_some_iff.mp hs
  change (if Link.tetherOwn b then _ else none) = some l at hl
  split at hl
  · next ho =>
    obtain ⟨t, ht, rfl⟩ := Option.map_eq_some_iff.mp hl
    refine ⟨h.snoc (a := .tether b) fun s => ?_, rfl, rfl, rfl⟩
    show (if Link.tetherOwn b then (c.tether.step b).map _ else none) = _
    rw [if_pos ho, show c.tether.step b = some t from ht]
    rfl
  · cases hl

theorem Alone.tetherWrite (h : c.Alone lib limit) (hup : c.up.log ≠ [])
    (hs : c.sessionStep lib limit .tetherWrite = some d) :
    d.Alone lib limit ∧ d.up.taken = c.up.taken ∧ d.down = c.down ∧ d.hub = c.hub := by
  obtain ⟨l, hl, rfl⟩ := Option.map_eq_some_iff.mp hs
  obtain ⟨e, he, hl⟩ := Option.bind_eq_some_iff.mp hl
  obtain ⟨t, ht, rfl⟩ := Option.map_eq_some_iff.mp hl
  refine ⟨h.snoc (a := .tetherWrite) fun s => ?_, rfl, rfl, rfl⟩
  show c.tether.tx.recv.bind (fun e => (c.tether.step .write).map _) = _
  change c.tether.tx.recv = some e at he
  rw [he, Option.bind_some, show c.tether.step .write = some t from ht]
  show some (Link.mk s t {} (c.up.behind.push e.1)) = _
  rw [← Chan.behind_push hup]
  rfl

/-- the attach -/
theorem Alone.reachable (h : c.Alone lib limit) (id : String) (credential : Bytes) (now : Nat) :
    Link.Reachable lib limit
      { hub := .new id credential now, tether := c.tether, up := c.up.behind } := by
  obtain ⟨as, has⟩ := h (.new id credential now)
  exact (Machine.Reachable.init ⟨id, credential, now, rfl⟩).run has

/-- a tether alone has handled no frame and begun no stream -/
theorem Alone.unused (h : c.Alone lib limit) (hlimit : limit < 2 ^ 32) :
    c.tether.received = [] ∧ c.tether.spawned = 0 := by
  have hr := h.reachable "" [] 0
  have hreceived : c.tether.received = [] :=
    List.prefix_nil.mp (hr.inv hlimit).received_isPrefix
  refine ⟨hreceived, Nat.eq_zero_of_not_pos fun hpos => ?_⟩
  have hx := hr.tether.opened 0 hpos
  rw [show Link.tether _ = c.tether from rfl, hreceived] at hx
  cases hx

/-! ## how far the greeting is -/

/-- HELLO is queued at most once, and only before the session -/
def Greets (c : Connection) : Prop :=
  c.up = {} ∨ (c.greeting = false ∧ c.tetherPc ≠ .hello ∧
    (c.up = { queue := [.hello c.credential] } ∨ c.up = { taken := [.hello c.credential] }))

/-- HELLO was sent and taken, and nothing else -/
def Heard (c : Connection) : Prop :=
  c.greeting = false ∧ c.tetherPc ≠ .hello ∧ c.up = { taken := [.hello c.credential] }

/-- the tether has not begun its session -/
def Before (c : Connection) : Prop := c.tether = .new ∧ ∀ lease, c.tetherPc ≠ .session lease

/-- the tether has not begun its session, or has taken WELCOME -/
def Welcomed (c : Connection) (hs : Handshake) : Prop :=
  (c.Before ∧ (c.tetherPc = .welcome → c.down.taken = [])) ∨
    ∃ lease, c.tetherPc = .session lease ∧ hs.welcome = .welcome lease ∧ c.down.taken ≠ []

/-- the hub has said nothing -/
structure Silent (digest : Bytes → String) (c : Connection) : Prop where
  hub : ∀ credential hs, c.hubPc ≠ .attaching credential hs ∧ c.hubPc ≠ .session hs
  down : c.down = {}
  before : c.Before
  greets : c.Greets
  heard : c.hubPc ≠ .hello → c.hubPc ≠ .ended → c.Heard
  granted : ∀ credential hs, c.hubPc = .welcoming credential hs →
    credential = c.credential ∧ c.Granted digest hs

/-- the hub has said WELCOME and has not attached -/
structure Awaited (digest : Bytes → String) (lib : HttpLib) (limit : Nat) (c : Connection)
    (hs : Handshake) : Prop where
  hub : c.hubPc = .attaching c.credential hs ∨ c.hubPc = .ended
  granted : c.Granted digest hs
  down : c.down = { queue := [hs.welcome] } ∨ c.down = { taken := [hs.welcome] }
  welcomed : c.Welcomed hs
  up : c.up.taken ≠ []
  greeting : c.greeting = false
  said : c.tetherPc ≠ .hello
  alone : c.Alone lib limit

structure Attached (digest : Bytes → String) (lib : HttpLib) (limit : Nat) (c : Connection)
    (hs : Handshake) : Prop where
  hub : c.hubPc = .session hs
  granted : c.Granted digest hs
  down : c.down.log.head? = some hs.welcome
  welcomed : c.Welcomed hs
  up : c.up.taken ≠ []
  greeting : c.greeting = false
  said : c.tetherPc ≠ .hello
  identity : c.hub.tetherId = hs.lease.tetherId ∧ c.hub.credential = c.credential
  link : Link.Reachable lib limit c.link

inductive Stage (digest : Bytes → String) (lib : HttpLib) (limit : Nat) (c : Connection) : Prop
  | silent (h : c.Silent digest)
  /-- the hub has said GOAWAY -/
  | refused (hhub : c.hubPc = .ended) (hdown : c.down.log = [.goAway unauthorized])
      (hbefore : c.Before)
  | awaited {hs : Handshake} (h : c.Awaited digest lib limit hs)
  | attached {hs : Handshake} (h : c.Attached digest lib limit hs)

/-! ### one step of each stage -/

theorem greeted_cases (digest : Bytes → String) (c : Connection) (hlimit : limit < 2 ^ 32)
    (f : Frame) :
    c.greeted digest limit f = .ended ∨ c.greeted digest limit f = .refusing ∨
      ∃ credential hs, c.greeted digest limit f = .welcoming credential hs ∧
        f = .hello credential ∧ handshake digest c.now c.now c.reg credential = some hs := by
  unfold greeted
  split
  · next credential hr =>
    have hf := reads_some hlimit (.inl hr)
    split
    · next hs hh => exact .inr (.inr ⟨credential, hs, rfl, hf.symm, hh⟩)
    · exact .inr (.inl rfl)
  · exact .inl rfl

theorem welcomed_cases (hlimit : limit < 2 ^ 32) (f : Frame) :
    Connection.welcomed limit f = .ended ∨
      ∃ lease, Connection.welcomed limit f = .session lease ∧ f = .welcome lease := by
  unfold Connection.welcomed
  split
  · next lease hr => exact .inr ⟨lease, rfl, (reads_some hlimit (.inr hr)).symm⟩
  · exact .inl rfl

/-- HELLO that is read was queued -/
theorem Greets.recv (h : c.Greets) {f : Frame} {up : Chan Frame} (hr : c.up.recv = some (f, up)) :
    f = .hello c.credential ∧ up = { taken := [.hello c.credential] } ∧ c.greeting = false ∧
      c.tetherPc ≠ .hello := by
  rcases h with hup | ⟨hg, hpc, hup | hup⟩
  · rw [hup] at hr
    cases hr
  · rw [hup] at hr
    cases hr
    exact ⟨rfl, rfl, hg, hpc⟩
  · rw [hup] at hr
    cases hr

theorem Silent.move (h : c.Silent digest) (hlimit : limit < 2 ^ 32)
    (hm : Move digest lib limit c d) : Stage digest lib limit d := by
  have hended : ∀ credential hs, HubPc.ended ≠ .attaching credential hs ∧
      HubPc.ended ≠ .session hs := fun _ _ =>
    ⟨fun hx => (by cases hx), fun hx => (by cases hx)⟩
  cases hm with
  | others reg now => exact .silent ⟨h.hub, h.down, h.before, h.greets, h.heard, h.granted⟩
  | hubFail hpc =>
    exact .silent ⟨hended, h.down, h.before, h.greets, fun _ hx => absurd rfl hx,
      fun _ _ hx => (by cases hx)⟩
  | hubRefuse hpc =>
    refine .refused rfl ?_ h.before
    show (c.down.push _).log = _
    rw [h.down]
    rfl
  | @hubWelcome credential hs hpc =>
    obtain ⟨rfl, hgranted⟩ := h.granted credential hs hpc
    obtain ⟨hg, hsaid, hup⟩ := h.heard (by rw [hpc]; exact fun hx => by cases hx)
      (by rw [hpc]; exact fun hx => by cases hx)
    refine .awaited ⟨.inl rfl, hgranted, .inl ?_, .inl ⟨h.before, fun _ => ?_⟩, ?_, hg,
      hsaid, fun s => ⟨[], ?_⟩⟩
    · show c.down.push _ = _
      rw [h.down]
      rfl
    · show (c.down.push _).taken = []
      rw [h.down]
      rfl
    · show c.up.taken ≠ []
      rw [hup]
      exact List.cons_ne_nil _ _
    · show some (Link.mk s .new {} {}) = some (Link.mk s c.tether {} c.up.behind)
      rw [h.before.1, hup]
      rfl
  | @hubAttach credential hs reg hpc => exact absurd hpc (h.hub credential hs).1
  | @notAttached credential hs hpc => exact absurd hpc (h.hub credential hs).1
  | @greeted f up hpc hr =>
    obtain ⟨rfl, rfl, hg, hsaid⟩ := h.greets.recv hr
    have hheard : ∀ pc, Heard { c with hubPc := pc, up := { taken := [.hello c.credential] } } :=
      fun _ => ⟨hg, hsaid, rfl⟩
    have hgreets : ∀ pc, Greets { c with hubPc := pc, up := { taken := [.hello c.credential] } } :=
      fun _ => .inr ⟨hg, hsaid, .inr rfl⟩
    rcases greeted_cases digest c hlimit (.hello c.credential)
      with hx | hx | ⟨credential, hs, hx, hf, hh⟩
    · rw [hx]
      exact .silent ⟨hended, h.down, h.before, hgreets _, fun _ hy => absurd rfl hy,
        fun _ _ hy => (by cases hy)⟩
    · rw [hx]
      exact .silent ⟨fun _ _ => ⟨fun hy => (by cases hy), fun hy => (by cases hy)⟩, h.down,
        h.before, hgreets _, fun _ _ => hheard _, fun _ _ hy => (by cases hy)⟩
    · obtain rfl := Frame.hello.inj hf
      rw [hx]
      refine .silent ⟨fun _ _ => ⟨fun hy => (by cases hy), fun hy => (by cases hy)⟩, h.down,
        h.before, hgreets _, fun _ _ => hheard _, fun credential hs' hy => ?_⟩
      obtain ⟨rfl, rfl⟩ := HubPc.welcoming.inj hy
      exact ⟨rfl, c.reg, c.now, hh⟩
  | @hubSession hs a d hpc ha hstep => exact absurd hpc (h.hub [] hs).2
  | tetherHello hpc =>
    refine .silent ⟨h.hub, h.down, ⟨h.before.1, fun _ hx => (by cases hx)⟩, .inl ?_,
      fun h1 h2 => absurd hpc (h.heard h1 h2).2.1, h.granted⟩
    exact h.greets.resolve_right fun hx => hx.2.1 hpc
  | tetherFail hpc =>
    refine .silent ⟨h.hub, h.down, ⟨h.before.1, fun _ hx => (by cases hx)⟩, ?_,
      fun h1 h2 => ?_, h.granted⟩
    · exact h.greets.imp_right fun hx => ⟨hx.1, fun hy => (by cases hy), hx.2.2⟩
    · exact ⟨(h.heard h1 h2).1, fun hy => (by cases hy), (h.heard h1 h2).2.2⟩
  | greets hpc hg =>
    have hup : c.up = {} := h.greets.resolve_right fun hx => by cases hg.symm.trans hx.1
    refine .silent ⟨h.hub, h.down, h.before, .inr ⟨rfl, ?_, .inl ?_⟩, fun h1 h2 => ?_, h.granted⟩
    · exact fun hx => by cases hpc.symm.trans hx
    · show c.up.push _ = _
      rw [hup]
      rfl
    · cases hg.symm.trans (h.heard h1 h2).1
  | welcomed hpc hr =>
    rw [h.down] at hr
    cases hr
  | tetherSession hpc ha hstep => exact absurd hpc (h.before.2 _)

theorem Stage.refusedMove (hhub : c.hubPc = .ended) (hdown : c.down.log = [.goAway unauthorized])
    (hbefore : c.Before) (hlimit : limit < 2 ^ 32) (hm : Move digest lib limit c d) :
    Stage digest lib limit d := by
  cases hm with
  | others reg now => exact .refused hhub hdown hbefore
  | hubFail hpc => exact .refused rfl hdown hbefore
  | hubRefuse hpc | hubWelcome hpc | hubAttach reg hpc | notAttached hpc | greeted hpc hr
  | hubSession hpc ha hstep => cases hpc.symm.trans hhub
  | tetherHello hpc | tetherFail hpc =>
    exact .refused hhub hdown ⟨hbefore.1, fun _ hx => (by cases hx)⟩
  | greets hpc hg => exact .refused hhub hdown hbefore
  | @welcomed f down hpc hr =>
    have hlog : down.log = [.goAway unauthorized] := (Chan.log_recv hr).trans hdown
    obtain ⟨hq, hrest⟩ := Chan.recv_some hr
    have hf : f ∈ c.down.log := List.mem_append_right _ (hq ▸ List.mem_cons_self)
    rw [hdown] at hf
    obtain rfl := List.mem_singleton.mp hf
    refine .refused hhub hlog ⟨hbefore.1, fun lease hx => ?_⟩
    rcases welcomed_cases hlimit (.goAway unauthorized) with hy | ⟨_, -, hy⟩
    · cases hx.symm.trans hy
    · cases hy
  | tetherSession hpc ha hstep => exact absurd hpc (hbefore.2 _)

/-- WELCOME is taken -/
theorem Welcomed.recv {hs : Handshake} {f : Frame} {down : Chan Frame} (h : c.Welcomed hs)
    (hlimit : limit < 2 ^ 32) (hdown : c.down.log.head? = some hs.welcome)
    (hpc : c.tetherPc = .welcome) (hr : c.down.recv = some (f, down)) :
    Welcomed { c with tetherPc := Connection.welcomed limit f, down := down } hs ∧
      down.behind = c.down.behind ∧ Connection.welcomed limit f ≠ .hello := by
  rcases h with ⟨hbefore, htaken⟩ | ⟨lease, hx, -⟩
  · obtain ⟨hbehind, htaken'⟩ := Chan.behind_first (htaken hpc) hr
    have hf : f = hs.welcome := by
      obtain ⟨hq, -⟩ := Chan.recv_some hr
      rw [Chan.log, htaken hpc, hq] at hdown
      exact Option.some.inj hdown
    rcases welcomed_cases hlimit f with hx | ⟨lease, hx, hw⟩
    · rw [hx]
      exact ⟨.inl ⟨⟨hbefore.1, fun _ hy => (by cases hy)⟩, fun hy => (by cases hy)⟩, hbehind,
        fun hy => (by cases hy)⟩
    · rw [hx]
      refine ⟨.inr ⟨lease, rfl, hf.symm.trans hw, ?_⟩, hbehind, fun hy => (by cases hy)⟩
      show down.taken ≠ []
      rw [htaken']
      exact List.cons_ne_nil _ _
  · cases hpc.symm.trans hx

theorem Awaited.move {hs : Handshake} (h : c.Awaited digest lib limit hs) (hlimit : limit < 2 ^ 32)
    (hm : Move digest lib limit c d) : Stage digest lib limit d := by
  have hhead : c.down.log.head? = some hs.welcome := by
    rcases h.down with hx | hx
    · rw [hx]
      rfl
    · rw [hx]
      rfl
  have hnot : ∀ {pc}, c.hubPc = pc → pc ≠ .attaching c.credential hs → pc ≠ .ended → False := by
    rintro pc rfl h1 h2
    exact h.hub.elim h1 h2
  cases hm with
  | others reg now =>
    exact .awaited ⟨h.hub, h.granted, h.down, h.welcomed, h.up, h.greeting, h.said, h.alone⟩
  | hubFail hpc =>
    exact .awaited ⟨.inr rfl, h.granted, h.down, h.welcomed, h.up, h.greeting, h.said, h.alone⟩
  | hubRefuse hpc | hubWelcome hpc | greeted hpc hr | hubSession hpc ha hstep =>
    exact (hnot hpc (fun hx => (by cases hx)) fun hx => (by cases hx)).elim
  | @hubAttach credential hs' reg hpc =>
    obtain ⟨rfl, rfl⟩ : credential = c.credential ∧ hs' = hs := by
      rcases h.hub with hx | hx
      · exact HubPc.attaching.inj (hpc.symm.trans hx)
      · cases hpc.symm.trans hx
    refine .attached ⟨rfl, h.granted, hhead, h.welcomed, h.up, h.greeting, h.said, ⟨rfl, rfl⟩, ?_⟩
    have hbehind : c.down.behind = {} := by
      rcases h.down with hx | hx
      · rw [hx]
        rfl
      · rw [hx]
        rfl
    show Link.Reachable lib limit (Link.mk _ c.tether c.down.behind c.up.behind)
    rw [hbehind]
    exact h.alone.reachable _ _ _
  | notAttached hpc =>
    exact .awaited ⟨.inr rfl, h.granted, h.down, h.welcomed, h.up, h.greeting, h.said, h.alone⟩
  | tetherHello hpc => exact absurd hpc h.said
  | tetherFail hpc =>
    refine .awaited ⟨h.hub, h.granted, h.down, .inl ⟨⟨?_, fun _ hx => (by cases hx)⟩,
      fun hx => (by cases hx)⟩, h.up, h.greeting, fun hx => (by cases hx), h.alone⟩
    exact h.welcomed.elim (fun hx => hx.1.1) fun ⟨lease, hx, _⟩ => absurd hx (hpc lease)
  | greets hpc hg => cases hg.symm.trans h.greeting
  | @welcomed f down hpc hr =>
    obtain ⟨hw, hbehind, hsaid⟩ := h.welcomed.recv hlimit hhead hpc hr
    refine .awaited ⟨h.hub, h.granted, ?_, hw, h.up, h.greeting, hsaid, h.alone⟩
    rcases h.down with hx | hx
    · rw [hx] at hr
      cases hr
      exact .inr rfl
    · rw [hx] at hr
      cases hr
  | @tetherSession lease a d hpc ha hstep =>
    obtain ⟨hcred, hhub, htether, hgreeting⟩ := sessionStep_kept hstep
    have hsession : ∃ lease, c.tetherPc = .session lease ∧ hs.welcome = .welcome lease ∧
        c.down.taken ≠ [] := h.welcomed.resolve_left fun hx => hx.1.2 lease hpc
    have hkeep : d.Alone lib limit → d.up.taken ≠ [] → d.down = c.down →
        Stage digest lib limit d := by
      intro halone hup hdown
      refine @Stage.awaited digest lib limit d hs
        ⟨?_, ?_, ?_, .inr ?_, hup, hgreeting.trans h.greeting, ?_, halone⟩
      · rw [hcred, hhub]
        exact h.hub
      · unfold Granted
        rw [hcred]
        exact h.granted
      · rw [hdown]
        exact h.down
      · rw [htether, hdown]
        exact hsession
      · rw [htether]
        exact h.said
    have hlog : c.up.log ≠ [] := List.append_ne_nil_of_left_ne_nil h.up _
    cases a with
    | hub | hubWrite | hubRecv => cases ha
    | tether b =>
      obtain ⟨halone, hup, hdown, -⟩ := h.alone.tether hstep
      exact hkeep halone (hup ▸ h.up) hdown
    | tetherWrite =>
      obtain ⟨halone, hup, hdown, -⟩ := h.alone.tetherWrite hlog hstep
      exact hkeep halone (hup ▸ h.up) hdown
    | tetherRecv =>
      -- WELCOME is all that the hub has said, and it is taken
      obtain ⟨l, hl, -⟩ := Option.map_eq_some_iff.mp hstep
      obtain ⟨e, he, -⟩ := Option.bind_eq_some_iff.mp hl
      change c.down.recv = some e at he
      obtain ⟨-, -, -, htaken⟩ := hsession
      rcases h.down with hx | hx
      · rw [hx] at htaken
        exact absurd rfl htaken
      · rw [hx] at he
        cases he

theorem Attached.session {hs : Handshake} (h : c.Attached digest lib limit hs) {a : LinkAction}
    (hstep : c.sessionStep lib limit a = some d)
    (ht : ofHub a = false → ∃ lease, c.tetherPc = .session lease) :
    d.Attached digest lib limit hs := by
  obtain ⟨hcred, hhub, hpc, hgreeting⟩ := sessionStep_kept hstep
  obtain ⟨hsess, hup, hdown, hhead⟩ := sessionStep_ends hstep
  have hlog : ∀ {ch : Chan Frame}, ch.taken ≠ [] → ch.log ≠ [] :=
    fun hx => List.append_ne_nil_of_left_ne_nil hx _
  have hdownlog : c.down.log ≠ [] := fun hx => by
    have hy := h.down
    rw [hx] at hy
    cases hy
  have htaken : ofHub a = false → c.down.taken ≠ [] := by
    intro ha
    obtain ⟨lease, hl⟩ := ht ha
    obtain ⟨-, -, -, hx⟩ := h.welcomed.resolve_left fun hx => hx.1.2 lease hl
    exact hx
  have hlink : Link.Reachable lib limit d.link :=
    h.link.step (link_of_sessionStep (hlog h.up) hdownlog (fun _ _ => h.up)
      (fun ha => htaken (by rw [ha]; rfl)) hstep)
  refine ⟨hhub.trans h.hub, ?_, hhead _ h.down, ?_, hup h.up, hgreeting.trans h.greeting, ?_, ?_,
    hlink⟩
  · unfold Granted
    rw [hcred]
    exact h.granted
  · rcases h.welcomed with ⟨hbefore, hw⟩ | ⟨lease, hl, hw, htk⟩
    · have ha : ofHub a = true := Bool.of_not_eq_false fun ha => by
        obtain ⟨lease, hl⟩ := ht ha
        exact hbefore.2 lease hl
      obtain ⟨htether, hdowntaken⟩ := sessionStep_tether ha hstep
      refine .inl ⟨⟨htether.trans hbefore.1, fun lease hx => ?_⟩, fun hx => ?_⟩
      · exact hbefore.2 lease (hpc.symm.trans hx)
      · exact hdowntaken.trans (hw (hpc.symm.trans hx))
    · exact .inr ⟨lease, hpc.trans hl, hw, hdown htk⟩
  · rw [hpc]
    exact h.said
  · rw [hcred]
    rcases hsess with hx | ⟨b, hx⟩
    · rw [hx]
      exact h.identity
    · obtain ⟨h1, h2⟩ := Session.step_identity hx
      exact ⟨h1.trans h.identity.1, h2.trans h.identity.2⟩

theorem Attached.move {hs : Handshake} (h : c.Attached digest lib limit hs)
    (hlimit : limit < 2 ^ 32) (hm : Move digest lib limit c d) : Stage digest lib limit d := by
  cases hm with
  | others reg now =>
    exact .attached ⟨h.hub, h.granted, h.down, h.welcomed, h.up, h.greeting, h.said, h.identity,
      h.link⟩
  | hubFail hpc => exact absurd h.hub (hpc [] hs).2
  | hubRefuse hpc | hubWelcome hpc | hubAttach reg hpc | notAttached hpc | greeted hpc hr =>
    cases hpc.symm.trans h.hub
  | hubSession hpc ha hstep => exact .attached (h.session hstep fun hx => by cases ha.symm.trans hx)
  | tetherHello hpc => exact absurd hpc h.said
  | tetherFail hpc =>
    refine .attached ⟨h.hub, h.granted, h.down, .inl ⟨⟨?_, fun _ hx => (by cases hx)⟩,
      fun hx => (by cases hx)⟩, h.up, h.greeting, fun hx => (by cases hx), h.identity, h.link⟩
    exact h.welcomed.elim (fun hx => hx.1.1) fun ⟨lease, hx, _⟩ => absurd hx (hpc lease)
  | greets hpc hg => cases hg.symm.trans h.greeting
  | @welcomed f down hpc hr =>
    obtain ⟨hw, hbehind, hsaid⟩ := h.welcomed.recv hlimit h.down hpc hr
    refine .attached ⟨h.hub, h.granted, ?_, hw, h.up, h.greeting, hsaid, h.identity, ?_⟩
    · exact (congrArg List.head? (Chan.log_recv hr)).trans h.down
    · show Link.Reachable lib limit (Link.mk c.hub c.tether down.behind c.up.behind)
      rw [hbehind]
      exact h.link
  | tetherSession hpc ha hstep => exact .attached (h.session hstep fun _ => ⟨_, hpc⟩)

theorem Reachable.stage (h : Reachable digest lib limit c) (hlimit : limit < 2 ^ 32) :
    Stage digest lib limit c := by
  refine Machine.Reachable.invariant (P := Stage digest lib limit) ?_ ?_ h
  · rintro c ⟨reg, now, credential, rfl⟩
    exact .silent ⟨fun _ _ => ⟨fun hx => (by cases hx), fun hx => (by cases hx)⟩, rfl,
      ⟨rfl, fun _ hx => (by cases hx)⟩, .inl rfl, fun hx => absurd rfl hx,
      fun _ _ hx => (by cases hx)⟩
  · intro c a d hc hs
    have hm := move_of_step hs
    cases hc with
    | silent h => exact h.move hlimit hm
    | refused hhub hdown hbefore => exact Stage.refusedMove hhub hdown hbefore hlimit hm
    | awaited h => exact h.move hlimit hm
    | attached h => exact h.move hlimit hm

theorem Before.unused (h : c.Before) : c.tether.received = [] ∧ c.tether.spawned = 0 := by
  rw [h.1]
  exact ⟨rfl, rfl⟩

theorem Welcomed.lease {hs : Handshake} (h : c.Welcomed hs) {lease : UInt64}
    (hpc : c.tetherPc = .session lease) : hs.welcome = .welcome lease := by
  rcases h with ⟨hbefore, -⟩ | ⟨lease', hl, hw, -⟩
  · exact absurd hpc (hbefore.2 lease)
  · obtain rfl := TetherPc.session.inj (hl.symm.trans hpc)
    exact hw

end

end Connection

/-- a tether that is registered, from its HELLO to a PING on either side -/
def greetedRun : List ConnectionAction :=
  [.tetherHello, .tetherWrite, .hubRecv, .hubWelcome, .tetherRecv, .tether .pingTick, .tetherWrite,
    .hubAttach, .hub .tickPing, .hubWrite, .hubRecv, .tetherRecv]

def newcomer : Connection where
  reg := ((Registry.new (900 * nanosPerSec)).register twoDigests "a" "" (ascii "first")).1
  now := 0
  credential := ascii "first"
  hub := .new "" [] 0

theorem greetedRun_isSome : (Machine.run (Connection.step twoDigests okLib defaultLimit)
    newcomer greetedRun).isSome = true := by
  decide

end AnvilRing
