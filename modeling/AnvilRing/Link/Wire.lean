import AnvilRing.Hub.Release
import AnvilRing.Tether.Input

/-!
# A hub session and its tether, joined by a WebSocket

Both parties and the two directions of the connection between them.  Every frame is one binary
message; a direction delivers in order, and may stop delivering at any time.  `limit` is the
longest message that a WebSocket reader accepts: a longer one ends the reader's session.

* `Link.step`               the machine;
* `Link.Inv`                what each party has received is what the other one has sent;
* `Link.Reachable.inv`      every reachable link satisfies it.
-/

namespace AnvilRing
open Wire

/-- the stream that the session loop is busy with -/
def LoopPc.about : LoopPc → Option UInt16
  | .frame f => some f.stream
  | .respHead i _ => some i
  | .data i _ => some i
  | .terminate i _ _ _ => some i
  | .remove i _ => some i
  | .reply i _ => some i
  | _ => none

structure Link where
  hub : Session
  tether : Tunnel
  /-- the frames that the hub's writer has sent -/
  down : Chan Frame := {}
  /-- the frames that the tether's writer has sent -/
  up : Chan Frame := {}

inductive LinkAction where
  /-- a step of the hub, its dealings with the other party apart -/
  | hub (a : SessionAction)
  | hubWrite
  | hubRecv (now : Nat)
  /-- a step of the tether, its dealings with the other party apart -/
  | tether (a : TunnelAction)
  | tetherWrite
  | tetherRecv
  deriving DecidableEq, Repr

namespace Link

/-- frames come from the other party; WebSocket control messages may come at any time -/
def hubOwn : SessionAction → Bool
  | .write => false
  | .recv (.binary _) _ => false
  | _ => true

def tetherOwn : TunnelAction → Bool
  | .write => false
  | .recv (.binary _) => false
  | _ => true

/-- the hub's reader is given the message of `f` -/
def hubReads (limit : Nat) (f : Frame) (now : Nat) : SessionAction :=
  if f.encode.length ≤ limit then .recv (wsMsg f) now else .exit .streamError

/-- the tether's reader is given the message of `f` -/
def tetherReads (limit : Nat) (f : Frame) : TunnelAction :=
  if f.encode.length ≤ limit then .recv (wsMsg f) else .exit

def step (lib : HttpLib) (limit : Nat) (l : Link) : LinkAction → Option Link
  | .hub a => if hubOwn a then (Session.step lib l.hub a).map fun s => { l with hub := s } else none
  | .hubWrite =>
    l.hub.tx.recv.bind fun e =>
      (Session.step lib l.hub .write).map fun s => { l with hub := s, down := l.down.push e.1 }
  | .hubRecv now =>
    l.up.recv.bind fun e =>
      (Session.step lib l.hub (hubReads limit e.1 now)).map fun s => { l with hub := s, up := e.2 }
  | .tether a => if tetherOwn a then (l.tether.step a).map fun t => { l with tether := t } else none
  | .tetherWrite =>
    l.tether.tx.recv.bind fun e =>
      (l.tether.step .write).map fun t => { l with tether := t, up := l.up.push e.1 }
  | .tetherRecv =>
    l.down.recv.bind fun e =>
      (l.tether.step (tetherReads limit e.1)).map fun t => { l with tether := t, down := e.2 }

/-- the hub has attached the session, and the tether has been welcomed -/
def Initial (l : Link) : Prop :=
  ∃ id cred now, l = { hub := .new id cred now, tether := .new }

abbrev Reachable (lib : HttpLib) (limit : Nat) (l : Link) : Prop :=
  Machine.Reachable (step lib limit) Initial l

/-- the frames on their way to the tether, the oldest first -/
def path (l : Link) : List Frame := l.down.queue ++ l.hub.tx.queue

/-! ## what a step can do -/

inductive Move (lib : HttpLib) (l : Link) : LinkAction → Link → Prop where
  | hub {a : SessionAction} {s : Session} (hm : Session.Move lib l.hub a s) (hw : a ≠ .write)
      (hf : ∀ m now g, a = .recv m now → hubDecode m ≠ .ok (some g)) :
      Move lib l (.hub a) { l with hub := s }
  | hubWrite {f : Frame} {tx : Chan Frame} {s : Session} (hr : l.hub.tx.recv = some (f, tx))
      (hm : Session.Move lib l.hub .write s) (ht : s = { l.hub with tx := tx }) :
      Move lib l .hubWrite { l with hub := s, down := l.down.push f }
  | hubRecv {f : Frame} {up : Chan Frame} {a : SessionAction} {s : Session} {now : Nat}
      (hr : l.up.recv = some (f, up)) (hm : Session.Move lib l.hub a s) (hw : a ≠ .write)
      (hf : ∀ m now g, a = .recv m now → hubDecode m = .ok (some g) → g = f) :
      Move lib l (.hubRecv now) { l with hub := s, up := up }
  | tether {a : TunnelAction} {t : Tunnel} (hm : Tunnel.Move l.tether a t) (hw : a ≠ .write)
      (hf : ∀ m g, a = .recv m → tetherDecode m ≠ .ok (some g)) :
      Move lib l (.tether a) { l with tether := t }
  | tetherWrite {f : Frame} {tx : Chan Frame} {t : Tunnel} (hr : l.tether.tx.recv = some (f, tx))
      (hm : Tunnel.Move l.tether .write t) (ht : t = { l.tether with tx := tx }) :
      Move lib l .tetherWrite { l with tether := t, up := l.up.push f }
  | tetherRecv {f : Frame} {down : Chan Frame} {a : TunnelAction} {t : Tunnel}
      (hr : l.down.recv = some (f, down)) (hm : Tunnel.Move l.tether a t) (hw : a ≠ .write)
      (hf : ∀ m g, a = .recv m → tetherDecode m = .ok (some g) → g = f)
      (ht : t.received = l.tether.received ++ [f] ∨
        t.received = l.tether.received ∧ t.loop = .finished) :
      Move lib l .tetherRecv { l with tether := t, down := down }

section
variable {lib : HttpLib} {limit : Nat} {l m : Link} {a : LinkAction}

theorem hubOwn_recv {a : SessionAction} (h : hubOwn a = true) :
    a ≠ .write ∧ ∀ m now g, a = .recv m now → hubDecode m ≠ .ok (some g) := by
  constructor
  · rintro rfl
    cases h
  · rintro m now g rfl
    cases m with
    | binary b => cases h
    | _ => exact nofun

theorem tetherOwn_recv {a : TunnelAction} (h : tetherOwn a = true) :
    a ≠ .write ∧ ∀ m g, a = .recv m → tetherDecode m ≠ .ok (some g) := by
  constructor
  · rintro rfl
    cases h
  · rintro m g rfl
    cases m with
    | binary b => cases h
    | _ => exact nofun

theorem move_hubRecv {f : Frame} {up : Chan Frame} {s : Session} {now : Nat}
    (hlimit : limit < 2 ^ 32) (hr : l.up.recv = some (f, up))
    (hs : Session.step lib l.hub (hubReads limit f now) = some s) :
    Move lib l (.hubRecv now) { l with hub := s, up := up } := by
  refine .hubRecv hr (Session.move_of_step hs) ?_ ?_
  · unfold hubReads
    split
    · exact nofun
    · exact nofun
  · intro m now' g ha hg
    unfold hubReads at ha
    split at ha
    · next hlen =>
      cases ha
      exact decodeBinary_encode (hlen.trans_lt hlimit) hg
    · cases ha

theorem move_tetherRecv {f : Frame} {down : Chan Frame} {t : Tunnel} (hlimit : limit < 2 ^ 32)
    (hr : l.down.recv = some (f, down)) (ht : l.tether.step (tetherReads limit f) = some t) :
    Move lib l .tetherRecv { l with tether := t, down := down } := by
  refine .tetherRecv hr (Tunnel.move_of_step ht) ?_ ?_ ?_
  · unfold tetherReads
    split
    · exact nofun
    · exact nofun
  · intro m g ha hg
    unfold tetherReads at ha
    split at ha
    · next hlen =>
      cases ha
      exact decodeBinary_encode (hlen.trans_lt hlimit) hg
    · cases ha
  · unfold tetherReads at ht
    split at ht
    · next hlen =>
      change l.tether.recv (wsMsg f) = some t at ht
      unfold Tunnel.recv at ht
      split at ht
      · cases hd : tetherDecode (wsMsg f) with
        | error e =>
          rw [hd] at ht
          obtain rfl := Option.some.inj ht
          exact .inr ⟨rfl, rfl⟩
        | ok o =>
          cases o with
          | none =>
            -- a binary message is never ignored
            change decodeBinary f.encode = .ok none at hd
            unfold decodeBinary at hd
            split at hd <;> cases hd
          | some g =>
            rw [hd] at ht
            obtain rfl := Option.some.inj ht
            left
            rw [decodeBinary_encode (hlen.trans_lt hlimit) hd]
      · cases ht
    · change l.tether.exit = some t at ht
      unfold Tunnel.exit at ht
      split at ht
      · obtain rfl := Option.some.inj ht
        exact .inr ⟨rfl, rfl⟩
      · cases ht

/-- **Inversion.** Every step of the link is one of the moves. -/
theorem move_of_step (hlimit : limit < 2 ^ 32) (h : step lib limit l a = some m) :
    Move lib l a m := by
  cases a with
  | hub a =>
    change (if hubOwn a then _ else none) = some m at h
    split at h
    · next ho =>
      obtain ⟨s, hs, rfl⟩ := Option.map_eq_some_iff.mp h
      obtain ⟨h1, h2⟩ := hubOwn_recv ho
      exact .hub (Session.move_of_step hs) h1 h2
    · cases h
  | hubWrite =>
    obtain ⟨⟨f, tx⟩, hr, h⟩ := Option.bind_eq_some_iff.mp h
    obtain ⟨s, hs, rfl⟩ := Option.map_eq_some_iff.mp h
    refine .hubWrite hr (Session.move_of_step hs) ?_
    change l.hub.write = some s at hs
    unfold Session.write at hs
    split at hs
    · cases hs
    · rw [hr] at hs
      exact (Option.some.inj hs).symm
  | hubRecv now =>
    obtain ⟨⟨f, up⟩, hr, h⟩ := Option.bind_eq_some_iff.mp h
    obtain ⟨s, hs, rfl⟩ := Option.map_eq_some_iff.mp h
    exact move_hubRecv hlimit hr hs
  | tether a =>
    change (if tetherOwn a then _ else none) = some m at h
    split at h
    · next ho =>
      obtain ⟨t, ht, rfl⟩ := Option.map_eq_some_iff.mp h
      obtain ⟨h1, h2⟩ := tetherOwn_recv ho
      exact .tether (Tunnel.move_of_step ht) h1 h2
    · cases h
  | tetherWrite =>
    obtain ⟨⟨f, tx⟩, hr, h⟩ := Option.bind_eq_some_iff.mp h
    obtain ⟨t, ht, rfl⟩ := Option.map_eq_some_iff.mp h
    refine .tetherWrite hr (Tunnel.move_of_step ht) ?_
    change l.tether.write = some t at ht
    unfold Tunnel.write at ht
    split at ht
    · cases ht
    · rw [hr] at ht
      exact (Option.some.inj ht).symm
  | tetherRecv =>
    obtain ⟨⟨f, down⟩, hr, h⟩ := Option.bind_eq_some_iff.mp h
    obtain ⟨t, ht, rfl⟩ := Option.map_eq_some_iff.mp h
    exact move_tetherRecv hlimit hr ht

theorem Reachable.move {P : Link → Prop} (hlimit : limit < 2 ^ 32)
    (hinit : ∀ id cred now, P { hub := .new id cred now, tether := .new })
    (hmove : ∀ l a m, Reachable lib limit l → P l → Move lib l a m → P m)
    (h : Reachable lib limit l) : P l := by
  refine Machine.Reachable.invariant_of ?_ ?_ h
  · intro l hl
    obtain ⟨id, cred, now, rfl⟩ := hl
    exact hinit id cred now
  · intro l a m hr hp hstep
    exact hmove l a m hr hp (move_of_step hlimit hstep)

/-! ## the two parties -/

/-- the parties of a reachable link are a reachable session and a reachable tether -/
theorem Reachable.parties (h : Reachable lib limit l) :
    Session.Reachable lib l.hub ∧ Tunnel.Reachable l.tether := by
  refine Machine.Reachable.invariant (P := fun l => Session.Reachable lib l.hub ∧
    Tunnel.Reachable l.tether) ?_ ?_ h
  · intro l hl
    obtain ⟨id, cred, now, rfl⟩ := hl
    exact ⟨.init ⟨id, cred, now, rfl⟩, .init rfl⟩
  · intro l a m hl hs
    obtain ⟨hhub, htether⟩ := hl
    cases a with
    | hub a =>
      change (if hubOwn a then _ else none) = some m at hs
      split at hs
      · obtain ⟨s, hst, rfl⟩ := Option.map_eq_some_iff.mp hs
        exact ⟨hhub.step hst, htether⟩
      · cases hs
    | tether a =>
      change (if tetherOwn a then _ else none) = some m at hs
      split at hs
      · obtain ⟨t, hst, rfl⟩ := Option.map_eq_some_iff.mp hs
        exact ⟨hhub, htether.step hst⟩
      · cases hs
    | hubWrite | hubRecv =>
      obtain ⟨e, _, hs⟩ := Option.bind_eq_some_iff.mp hs
      obtain ⟨s, hst, rfl⟩ := Option.map_eq_some_iff.mp hs
      exact ⟨hhub.step hst, htether⟩
    | tetherWrite | tetherRecv =>
      obtain ⟨e, _, hs⟩ := Option.bind_eq_some_iff.mp hs
      obtain ⟨t, hst, rfl⟩ := Option.map_eq_some_iff.mp hs
      exact ⟨hhub, htether.step hst⟩

theorem Reachable.hub (h : Reachable lib limit l) : Session.Reachable lib l.hub := h.parties.1

theorem Reachable.tether (h : Reachable lib limit l) : Tunnel.Reachable l.tether := h.parties.2

end

/-! ## where the frames of each party come from -/

section
variable {lib : HttpLib} {s t : Session} {a : SessionAction} {i : UInt16} {f : Frame}

/-- a frame that the session loop holds came in a message -/
theorem loopFrame_of_move (hm : Session.Move lib s a t) (hf : t.loop = .frame f) :
    s.loop = .frame f ∨
      ∃ m now, a = .recv m now ∧ hubDecode m = .ok (some f) ∧ f.isResponse = true := by
  cases hm with
  | frame hl hm hr =>
    cases hf
    exact .inr ⟨_, _, rfl, hm, hr⟩
  | leave | control | headOk | headBad | dataOk | dataBad | reply | noReply | ownReturned
  | detached => cases hf
  | @takeUp g hl =>
    change s.takeUp g = .frame f at hf
    unfold Session.takeUp at hf
    split at hf
    · split at hf <;> cases hf
    · split at hf <;> cases hf
    · split at hf <;> cases hf
    · cases hf
  | @terminate id v stage reply hl => cases stage <;> cases hf
  | @remove id reply hl => cases reply <;> cases hf
  | _ => exact .inl hf

theorem received_of_move (hm : Session.Move lib s a t) :
    t.received = s.received ∨ ∃ f, s.loop = .frame f ∧ t.received = s.received ++ [f] := by
  cases hm with
  | takeUp hl => exact .inr ⟨_, hl, rfl⟩
  | _ => exact .inl rfl

/-- the loop turns to a stream only for a frame that came in -/
theorem about_of_move (hm : Session.Move lib s a t) (hi : t.loop.about = some i) :
    s.loop.about = some i ∨
      ∃ m now f, a = .recv m now ∧ hubDecode m = .ok (some f) ∧ f.isResponse = true ∧
        f.stream = i := by
  cases hm with
  | frame hl hm hr => exact .inr ⟨_, _, _, rfl, hm, hr, Option.some.inj hi⟩
  | leave | control | headOk | dataOk | reply | noReply | ownReturned | detached => cases hi
  | headBad hl | dataBad hl =>
    left
    rw [hl]
    exact hi
  | @takeUp g hl =>
    left
    rw [hl]
    change (s.takeUp g).about = some i at hi
    unfold Session.takeUp at hi
    split at hi
    · split at hi
      · exact hi
      · cases hi
    · split at hi
      · exact hi
      · exact hi
    · split at hi
      · exact hi
      · cases hi
    · cases hi
  | @terminate id v stage reply hl =>
    left
    rw [hl]
    cases stage <;> exact hi
  | @remove id reply hl =>
    left
    rw [hl]
    cases reply with
    | none => cases hi
    | some r => exact hi
  | _ => exact .inl hi

/-- a command keeps the order, if the loop replies to streams that were opened only -/
theorem proper_of_command (hr : Session.Reachable lib s) (hp : Proper s.tx.log)
    (ha : ∀ i, s.loop.about = some i → i ∈ openedIds s.tx.log) (hf : s.Command f) :
    Proper (s.tx.log ++ [f]) := by
  have htask : ∀ i, ¬ Session.Unstarted (s.state i) → i ∈ openedIds s.tx.log := hr.started.tasks
  cases hf with
  | control hf =>
    rcases hf with rfl | rfl
    · exact hp.snoc nofun nofun
    · exact hp.snoc nofun nofun
  | @«open» i head hf =>
    refine hp.snoc ?_ nofun
    intro j hj
    obtain rfl := Option.some.inj hj
    exact hr.idInv.unopened i (by rw [hf]; rfl)
  | @upload i _ hu hf =>
    refine hp.snoc ?_ ?_
    · rw [hf.opens]
      exact nofun
    · intro j hj
      obtain rfl := Option.some.inj (hf.follows.symm.trans hj)
      refine htask i fun hx => ?_
      rw [hx.1] at hu
      cases hu
  | @reply i r hl =>
    refine hp.snoc nofun fun j hj => ?_
    obtain rfl := Option.some.inj hj
    exact ha i (by rw [hl]; rfl)
  | @uploadEnd i hu =>
    refine hp.snoc nofun fun j hj => ?_
    obtain rfl := Option.some.inj hj
    refine htask i fun hx => ?_
    rw [hx.1] at hu
    cases hu
  | @guardEnd i hg =>
    refine hp.snoc nofun fun j hj => ?_
    obtain rfl := Option.some.inj hj
    refine htask i fun hx => ?_
    rw [hx.2.1] at hg
    cases hg

end

section
variable {t u : Tunnel} {a : TunnelAction}

/-- a step leaves the writer's queue alone, adds a frame to it, or sends its oldest frame -/
theorem command_of_move (hm : Tunnel.Move t a u) :
    (u.tx.taken = t.tx.taken ∧ u.tx.queue = t.tx.queue) ∨
    (∃ f, u.tx.taken = t.tx.taken ∧ u.tx.queue = t.tx.queue ++ [f]) ∨
    (a = .write ∧ ∃ f, u.tx.taken = t.tx.taken ++ [f] ∧ t.tx.queue = f :: u.tx.queue) := by
  cases hm with
  | pong | reply | ping | goAway | sent | endSent => exact .inr (.inl ⟨_, rfl, rfl⟩)
  | @write f tx hr =>
    obtain ⟨hq, htx⟩ := Chan.recv_some hr
    refine .inr (.inr ⟨rfl, f, ?_, hq⟩)
    show tx.taken = _
    rw [htx]
  | @spawn m i head =>
    have htx := Tunnel.spawn_tx t i head
    exact .inl ⟨congrArg Chan.taken htx, congrArg Chan.queue htx⟩
  | exceed | «end» | complete =>
    exact .inl ⟨congrArg Chan.taken (Tunnel.remove_tx ..),
      congrArg Chan.queue (Tunnel.remove_tx ..)⟩
  | _ => exact .inl ⟨rfl, rfl⟩

/-- a session that is over handles no frame any more -/
theorem finished_of_move (hm : Tunnel.Move t a u) (h : t.loop = .finished) :
    u.loop = .finished ∧ u.received = t.received := by
  cases hm with
  | leave => exact ⟨rfl, rfl⟩
  | leaveOn hl | pong hl | ignore hl | refuse hl | spawn hl | queue hl | exceed hl | «end» hl
  | reply hl | complete hl | ping hl | goAway hl =>
    rw [h] at hl
    cases hl
  | _ => exact ⟨h, rfl⟩

/-- frames come in messages only -/
theorem received_of_own (hm : Tunnel.Move t a u)
    (hf : ∀ m g, a = .recv m → tetherDecode m ≠ .ok (some g)) : u.received = t.received := by
  cases hm with
  | leaveOn _ hm | pong _ hm | ignore _ hm | refuse _ hm | spawn _ hm | queue _ hm | exceed _ hm
  | «end» _ hm => exact absurd hm (hf _ _ rfl)
  | complete => exact Tunnel.remove_received t _
  | _ => rfl

end

/-! ## the invariant -/

section
variable {lib : HttpLib} {limit : Nat} {l m : Link} {a : LinkAction}

structure Inv (l : Link) : Prop where
  down : l.down.log = l.hub.tx.taken
  up : l.up.log = l.tether.tx.taken
  handled : l.tether.received = l.down.taken ∨
    l.tether.loop = .finished ∧ l.tether.received <+: l.down.taken
  received : ∀ f ∈ l.hub.received, f ∈ l.up.taken
  looped : ∀ f, l.hub.loop = .frame f → f ∈ l.up.taken
  about : ∀ i, l.hub.loop.about = some i → i ∈ openedIds l.hub.tx.log
  proper : Proper l.hub.tx.log

/-- what the hub has queued is what the tether has taken and what is on its way -/
theorem Inv.log (h : l.Inv) : l.hub.tx.log = l.down.taken ++ l.path := by
  show l.hub.tx.taken ++ l.hub.tx.queue = _
  rw [← h.down]
  exact List.append_assoc _ _ _

theorem Inv.received_isPrefix (h : l.Inv) : l.tether.received <+: l.down.taken := by
  rcases h.handled with hx | ⟨_, hx⟩
  · rw [hx]
  · exact hx

/-- the frames that a tether has handled are the first ones that its hub queued -/
theorem Inv.handled_isPrefix (h : l.Inv) : l.tether.received <+: l.hub.tx.log := by
  rw [h.log]
  exact h.received_isPrefix.trans (List.prefix_append _ _)

theorem openedIds_mono {fs gs : List Frame} (h : fs <+: gs) {i : UInt16} (hi : i ∈ openedIds fs) :
    i ∈ openedIds gs := by
  obtain ⟨rest, rfl⟩ := h
  rw [openedIds_append]
  exact List.mem_append_left _ hi

/-- what came from the tether was queued there -/
theorem Inv.mem_tether (h : l.Inv) {f : Frame} (hf : f ∈ l.up.taken) : f ∈ l.tether.tx.log := by
  have hx : f ∈ l.up.log := List.mem_append_left _ hf
  rw [h.up] at hx
  exact List.mem_append_left _ hx

/-- a frame from the tether is about a stream that was opened -/
theorem Inv.opened (h : l.Inv) (ht : l.tether.Inv) {f : Frame} (hf : f ∈ l.up.log)
    (hr : f.isResponse = true) : f.stream ∈ openedIds l.hub.tx.log := by
  rw [h.up] at hf
  exact openedIds_mono h.handled_isPrefix (ht.sent f (List.mem_append_left _ hf) hr)

/-- a step of the hub that sends nothing -/
theorem Inv.hubMove (h : l.Inv) (hl : Reachable lib limit l) {b : SessionAction} {s : Session}
    (hm : Session.Move lib l.hub b s) (hw : b ≠ .write) {up : Chan Frame}
    (hup : up.log = l.up.log) (hsub : ∀ f ∈ l.up.taken, f ∈ up.taken)
    (hf : ∀ m now g, b = .recv m now → hubDecode m = .ok (some g) → g ∈ up.taken) :
    Inv { l with hub := s, up := up } := by
  have hlog := hm.log hl.hub.sends
  have htaken : s.tx.taken = l.hub.tx.taken := by
    rcases hm.command hl.hub.sends with ⟨hx, _⟩ | ⟨f, _, hx, _⟩ | ⟨hx, _⟩
    · exact hx
    · exact hx
    · exact absurd hx hw
  have hopen : ∀ i ∈ openedIds l.hub.tx.log, i ∈ openedIds s.tx.log :=
    fun i => hm.openedIds_subset hl.hub.sends
  constructor
  · exact h.down.trans htaken.symm
  · exact hup.trans h.up
  · exact h.handled
  · intro f hx
    rcases received_of_move hm with he | ⟨g, hg, he⟩
    · rw [he] at hx
      exact hsub f (h.received f hx)
    · rw [he] at hx
      rcases List.mem_append.mp hx with hx | hx
      · exact hsub f (h.received f hx)
      · obtain rfl := List.mem_singleton.mp hx
        exact hsub f (h.looped f hg)
  · intro f hx
    rcases loopFrame_of_move hm hx with hx | ⟨m, now, ha, hd, _⟩
    · exact hsub f (h.looped f hx)
    · exact hf m now f ha hd
  · intro i hi
    rcases about_of_move hm hi with hx | ⟨m, now, f, ha, hd, hr, rfl⟩
    · exact hopen i (h.about i hx)
    · refine hopen _ (h.opened hl.tether.inv ?_ hr)
      rw [← hup]
      exact List.mem_append_left _ (hf m now f ha hd)
  · show Proper s.tx.log
    rcases hlog with hx | ⟨f, hc, hx⟩
    · rw [hx]
      exact h.proper
    · rw [hx]
      exact proper_of_command hl.hub h.proper h.about hc

theorem Inv.move (h : l.Inv) (hl : Reachable lib limit l) (hm : Move lib l a m) : m.Inv := by
  cases hm with
  | hub hm hw hf =>
    exact h.hubMove hl hm hw rfl (fun _ hx => hx) fun m now g ha hd => absurd hd (hf m now g ha)
  | @hubRecv f up b s now hr hm hw hf =>
    obtain ⟨hq, hup⟩ := Chan.recv_some hr
    have htaken : up.taken = l.up.taken ++ [f] := by rw [hup]
    refine h.hubMove hl hm hw (Chan.log_recv hr) ?_ ?_
    · intro g hg
      rw [htaken]
      exact List.mem_append_left _ hg
    · intro m now g ha hd
      rw [hf m now g ha hd, htaken]
      exact List.mem_append_right _ (List.mem_singleton_self f)
  | @hubWrite f tx s hr hm ht =>
    obtain ⟨hq, htx⟩ := Chan.recv_some hr
    have hlog : s.tx.log = l.hub.tx.log := by
      rw [ht]
      exact Chan.log_recv hr
    constructor
    · show (l.down.push f).log = s.tx.taken
      rw [Chan.log_push, h.down, ht]
      show l.hub.tx.taken ++ [f] = tx.taken
      rw [htx]
    · exact h.up
    · exact h.handled
    · rw [ht]
      exact h.received
    · rw [ht]
      exact h.looped
    · intro i hi
      rw [hlog]
      rw [ht] at hi
      exact h.about i hi
    · show Proper s.tx.log
      rw [hlog]
      exact h.proper
  | @tether b t hm hw hf =>
    have hrec := received_of_own hm hf
    have htaken : t.tx.taken = l.tether.tx.taken := by
      rcases command_of_move hm with ⟨hx, _⟩ | ⟨f, hx, _⟩ | ⟨hx, _⟩
      · exact hx
      · exact hx
      · exact absurd hx hw
    constructor
    · exact h.down
    · exact h.up.trans htaken.symm
    · show t.received = l.down.taken ∨ t.loop = .finished ∧ t.received <+: l.down.taken
      rw [hrec]
      rcases h.handled with hx | ⟨ho, hx⟩
      · exact .inl hx
      · exact .inr ⟨(finished_of_move hm ho).1, hx⟩
    · exact h.received
    · exact h.looped
    · exact h.about
    · exact h.proper
  | @tetherWrite f tx t hr hm ht =>
    obtain ⟨hq, htx⟩ := Chan.recv_some hr
    constructor
    · exact h.down
    · show (l.up.push f).log = t.tx.taken
      rw [Chan.log_push, h.up, ht]
      show l.tether.tx.taken ++ [f] = tx.taken
      rw [htx]
    · show t.received = l.down.taken ∨ t.loop = .finished ∧ t.received <+: l.down.taken
      rw [ht]
      exact h.handled
    · exact h.received
    · exact h.looped
    · exact h.about
    · exact h.proper
  | @tetherRecv f down b t hr hm hw hf ht =>
    obtain ⟨hq, hdown⟩ := Chan.recv_some hr
    have htaken : t.tx.taken = l.tether.tx.taken := by
      rcases command_of_move hm with ⟨hx, _⟩ | ⟨f, hx, _⟩ | ⟨hx, _⟩
      · exact hx
      · exact hx
      · exact absurd hx hw
    have hdt : down.taken = l.down.taken ++ [f] := by rw [hdown]
    constructor
    · exact (Chan.log_recv hr).trans h.down
    · exact h.up.trans htaken.symm
    · show t.received = down.taken ∨ t.loop = .finished ∧ t.received <+: down.taken
      rw [hdt]
      rcases ht with ht | ⟨ht, ho⟩
      · rw [ht]
        rcases h.handled with hx | ⟨ho, hx⟩
        · left
          rw [hx]
        · -- a session that is over handles nothing
          have he := (finished_of_move hm ho).2
          rw [ht] at he
          exact absurd he (by simp)
      · right
        refine ⟨ho, ?_⟩
        rw [ht]
        exact h.received_isPrefix.trans (List.prefix_append _ _)
    · exact h.received
    · exact h.looped
    · exact h.about
    · exact h.proper

theorem inv_new (id : String) (cred : Bytes) (now : Nat) :
    Inv { hub := .new id cred now, tether := .new } where
  down := rfl
  up := rfl
  handled := .inl rfl
  received _ hf := nomatch hf
  looped _ hf := nomatch hf
  about _ hi := nomatch hi
  proper := .nil

theorem Reachable.inv (hlimit : limit < 2 ^ 32) (h : Reachable lib limit l) : l.Inv :=
  h.move hlimit inv_new fun _ _ _ hl hi hm => hi.move hl hm

end

end Link

end AnvilRing
