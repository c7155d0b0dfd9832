import AnvilRing.Link.Exchange

/-!
# Neither party breaks the protocol

Each party ends a session over a frame that the other one may not send.  No party of this program
sends such a frame, in whatever order the tasks of both run.

* `Session.Speaks`, `Tunnel.Speaks`   the frames that each party sends;
* `Link.exit_of_recv`                 what the message of a frame may end the hub's loop for;
* `no_protocol_violation`             the messages with which a session ends, on either side.
-/

namespace AnvilRing
open Wire

/-- a frame that the hub sends while the session lasts -/
def Frame.fromHub : Frame → Bool
  | .ping => true
  | .pong => true
  | .open _ _ => true
  | .data _ _ => true
  | .halfEnd _ => true
  | .end _ _ => true
  | _ => false

/-- why a tether says GOAWAY -/
def leaseRefresh : Bytes := ascii "lease refresh"

/-- a frame that the tether sends while the session lasts -/
def Frame.fromTether : Frame → Bool
  | .ping => true
  | .pong => true
  | .goAway reason => reason = leaseRefresh
  | .respHead _ _ => true
  | .data _ _ => true
  | .end _ _ => true
  | _ => false

/-! ## the hub -/

namespace Session
variable {lib : HttpLib} {s t : Session} {a : SessionAction} {f : Frame}

theorem fromHub_of_command (h : s.Command f) : f.fromHub = true := by
  cases h with
  | control hf =>
    rcases hf with rfl | rfl
    · rfl
    · rfl
  | upload hu hf =>
    rcases hf with rfl | ⟨b, -, rfl⟩
    · rfl
    · rfl
  | «open» | reply | uploadEnd | guardEnd => rfl

def Speaks (s : Session) : Prop := ∀ f ∈ s.tx.log, f.fromHub = true

theorem Speaks.move (h : s.Speaks) (hr : Reachable lib s) (hm : Move lib s a t) : t.Speaks := by
  intro f hf
  rcases hm.log hr.sends with hlog | ⟨g, hg, hlog⟩
  · rw [hlog] at hf
    exact h f hf
  · rw [hlog] at hf
    rcases List.mem_append.mp hf with hf | hf
    · exact h f hf
    · rw [List.mem_singleton.mp hf]
      exact fromHub_of_command hg

theorem Reachable.speaks (h : Reachable lib s) : s.Speaks :=
  h.move (fun _ _ _ _ hf => absurd hf List.not_mem_nil) fun _ _ _ hr hi hm => hi.move hr hm

/-- a PING is answered, or the loop is over -/
theorem loopSend_exited (h : (s.loopSend f).loop = .exited) :
    ∃ e, s.tx.trySend commandChannelCapacity f = .error e := by
  unfold loopSend at h
  split at h
  · cases h
  · next e he => exact ⟨e, he⟩

/-- what the message of a frame of a tether ends the loop for -/
theorem exit_of_recv {limit now : Nat} (hf : f.fromTether = true)
    (h : step lib s (Link.hubReads limit f now) = some t) (hx : t.loop = .exited) :
    limit < f.encode.length ∨ maxPayload < f.parts.1.length ∨ f = .goAway leaseRefresh ∨
      f = .ping ∧ ∃ e, s.tx.trySend commandChannelCapacity .pong = .error e := by
  by_cases hlen : f.encode.length ≤ limit
  swap
  · exact .inl (Nat.lt_of_not_le hlen)
  by_cases hp : f.parts.1.length ≤ maxPayload
  swap
  · exact .inr (.inl (Nat.lt_of_not_le hp))
  right
  right
  unfold Link.hubReads at h
  rw [if_pos hlen] at h
  change s.recv (wsMsg f) now = some t at h
  unfold recv at h
  split at h
  · next hl =>
    rw [hubDecode_wsMsg hp] at h
    cases f with
    | ping =>
      obtain rfl := Option.some.inj h
      exact .inr ⟨rfl, loopSend_exited hx⟩
    | pong =>
      obtain rfl := Option.some.inj h
      rw [show s.loop = .exited from hx] at hl
      cases hl
    | respHead | data | «end» =>
      obtain rfl := Option.some.inj h
      cases hx
    | goAway reason => exact .inl (congrArg _ (of_decide_eq_true hf))
    | hello | welcome | «open» | halfEnd => cases hf
  · cases h

end Session

/-! ## the tether -/

namespace Tunnel
variable {t u : Tunnel} {a : TunnelAction} {f : Frame}

def Speaks (t : Tunnel) : Prop := ∀ f ∈ t.tx.log, f.fromTether = true

theorem fromTether_of_response (h : f.isResponse = true) : f.fromTether = true := by
  cases f with
  | respHead i b => rfl
  | data i b => rfl
  | «end» i r => rfl
  | _ => cases h

theorem Speaks.push (h : t.Speaks) (hf : f.fromTether = true) {tx : Chan Frame}
    (htx : tx.log = t.tx.log ++ [f]) : ∀ g ∈ tx.log, g.fromTether = true := by
  intro g hg
  rw [htx] at hg
  rcases List.mem_append.mp hg with hg | hg
  · exact h g hg
  · rw [List.mem_singleton.mp hg]
    exact hf

theorem Speaks.move (h : t.Speaks) (ht : t.Inv) (hm : Move t a u) : u.Speaks := by
  cases hm with
  | pong | ping | reply => exact h.push rfl (Chan.log_push ..)
  | goAway =>
    exact h.push (f := .goAway leaseRefresh) (by decide) (Chan.log_push ..)
  | @sent k f hp =>
    exact h.push (fromTether_of_response (ht.sending k f hp).1) (Chan.log_push ..)
  | endSent => exact h.push rfl (Chan.log_push ..)
  | @spawn m i head =>
    intro f hf
    change f ∈ (t.spawn i head).tx.log at hf
    rw [spawn_tx] at hf
    exact h f hf
  | @exceed m g i | @«end» m i | @complete i =>
    intro f hf
    change f ∈ (t.remove i).tx.log at hf
    rw [remove_tx] at hf
    exact h f hf
  | @write g tx hr =>
    intro f hf
    change f ∈ tx.log at hf
    rw [Chan.log_recv hr] at hf
    exact h f hf
  | _ => exact h

theorem Reachable.speaks (h : Reachable t) : t.Speaks :=
  h.move (fun _ hf => absurd hf List.not_mem_nil) fun _ _ _ hr hi hm => hi.move hr.inv hm

theorem loopSend_finished (h : (t.loopSend f).loop = .finished) :
    ∃ e, t.tx.trySend wsWriterCapacity f = .error e := by
  unfold loopSend at h
  split at h
  · cases h
  · next e he => exact ⟨e, he⟩

theorem enqueue_loop (i : UInt16) (bytes : Bytes) (hl : t.loop = .select) :
    (t.enqueue i bytes).loop ≠ .finished := by
  unfold enqueue
  split
  · rw [hl]
    exact fun hx => by cases hx
  · split
    · show t.loop ≠ _
      rw [hl]
      exact fun hx => by cases hx
    · exact fun hx => by cases hx
    · rw [hl]
      exact fun hx => by cases hx

/-- what the message of a frame of a hub ends the loop for -/
theorem exit_of_recv {limit : Nat} (hf : f.fromHub = true)
    (h : t.step (Link.tetherReads limit f) = some u) (hx : u.loop = .finished) :
    limit < f.encode.length ∨ maxPayload < f.parts.1.length ∨
      f = .ping ∧ ∃ e, t.tx.trySend wsWriterCapacity .pong = .error e := by
  by_cases hlen : f.encode.length ≤ limit
  swap
  · exact .inl (Nat.lt_of_not_le hlen)
  by_cases hp : f.parts.1.length ≤ maxPayload
  swap
  · exact .inr (.inl (Nat.lt_of_not_le hp))
  right
  right
  unfold Link.tetherReads at h
  rw [if_pos hlen] at h
  change t.recv (wsMsg f) = some u at h
  unfold recv at h
  split at h
  · next hl =>
    rw [tetherDecode_wsMsg hp] at h
    obtain rfl := Option.some.inj h
    change (t.handleFrame f).loop = .finished at hx
    cases f with
    | ping => exact ⟨rfl, loopSend_finished hx⟩
    | pong =>
      change t.loop = .finished at hx
      rw [hl] at hx
      cases hx
    | «open» i head =>
      unfold handleFrame at hx
      simp only at hx
      split at hx
      · cases hx
      · rw [spawn_loop, hl] at hx
        cases hx
    | data i bytes => exact absurd hx (enqueue_loop i bytes hl)
    | halfEnd i => exact absurd hx (enqueue_loop i [] hl)
    | «end» i r =>
      change (t.remove i).loop = .finished at hx
      rw [remove_loop, hl] at hx
      cases hx
    | hello | welcome | goAway | respHead => cases hf
  · cases h

end Tunnel

/-! ## both -/

/-- **No protocol violation.**  In every state that a hub session and its tether can reach, a
message from the tether ends the hub's loop only if it is longer than the reader or the codec
accepts, the GOAWAY of a lease refresh, or a PING that there is no room to answer; and a message
from the hub ends the tether's loop only if it is too long or a PING that there is no room to
answer.  No RESP_HEAD, OPEN, HALF_END, HELLO, WELCOME or GOAWAY ever ends a session as a protocol
violation. -/
theorem no_protocol_violation {lib : HttpLib} {limit : Nat} (hlimit : limit < 2 ^ 32) {l : Link}
    (h : Link.Reachable lib limit l) :
    (∀ now m, Link.step lib limit l (.hubRecv now) = some m → m.hub.loop = .exited →
      ∃ f rest, l.up.queue = f :: rest ∧ (limit < f.encode.length ∨
        maxPayload < f.parts.1.length ∨ f = .goAway leaseRefresh ∨
          f = .ping ∧ ∃ e, l.hub.tx.trySend commandChannelCapacity .pong = .error e)) ∧
    ∀ m, Link.step lib limit l .tetherRecv = some m → m.tether.loop = .finished →
      ∃ f rest, l.down.queue = f :: rest ∧ (limit < f.encode.length ∨
        maxPayload < f.parts.1.length ∨
          f = .ping ∧ ∃ e, l.tether.tx.trySend wsWriterCapacity .pong = .error e) := by
  have hinv := h.inv hlimit
  constructor
  · intro now m hs hx
    obtain ⟨⟨f, up⟩, hr, hs⟩ := Option.bind_eq_some_iff.mp hs
    obtain ⟨s, hst, rfl⟩ := Option.map_eq_some_iff.mp hs
    obtain ⟨hq, -⟩ := Chan.recv_some hr
    refine ⟨f, up.queue, hq, Session.exit_of_recv ?_ hst hx⟩
    have hmem : f ∈ l.up.log := List.mem_append_right _ (hq ▸ List.mem_cons_self)
    rw [hinv.up] at hmem
    exact h.tether.speaks f (List.mem_append_left _ hmem)
  · intro m hs hx
    obtain ⟨⟨f, down⟩, hr, hs⟩ := Option.bind_eq_some_iff.mp hs
    obtain ⟨t, ht, rfl⟩ := Option.map_eq_some_iff.mp hs
    obtain ⟨hq, -⟩ := Chan.recv_some hr
    refine ⟨f, down.queue, hq, Tunnel.exit_of_recv ?_ ht hx⟩
    have hmem : f ∈ l.down.log := List.mem_append_right _ (hq ▸ List.mem_cons_self)
    rw [hinv.down] at hmem
    exact h.hub.speaks f (List.mem_append_left _ hmem)

/-- the lease tick of a tether, whose GOAWAY is on its way -/
def goAwayRun : List LinkAction := [.tether .leaseTick, .tetherWrite]

theorem goAwayRun_isSome :
    (Machine.run (Link.step okLib defaultLimit) freshLink goAwayRun).isSome = true := by
  decide

theorem goAwayStep_isSome : (Link.step okLib defaultLimit (Option.get _ goAwayRun_isSome)
    (.hubRecv 0)).isSome = true := by
  decide

theorem no_protocol_violation_refresh : ∃ l m, Link.Reachable okLib defaultLimit l ∧
    Link.step okLib defaultLimit l (.hubRecv 0) = some m ∧ m.hub.loop = .exited ∧
    ∃ f rest, l.up.queue = f :: rest ∧ f = .goAway leaseRefresh := by
  have hr : Link.Reachable okLib defaultLimit (Option.get _ goAwayRun_isSome) :=
    (Machine.Reachable.init ⟨_, _, _, rfl⟩).run (Option.some_get goAwayRun_isSome).symm
  have hs := (Option.some_get goAwayStep_isSome).symm
  have hx : (Option.get _ goAwayStep_isSome).hub.loop = .exited := by decide
  obtain ⟨f, rest, hq, hf⟩ :=
    (no_protocol_violation (by decide) hr).1 0 _ hs hx
  have hup : (Option.get _ goAwayRun_isSome).up.queue = [.goAway leaseRefresh] := by
    decide
  rw [hup] at hq
  exact ⟨_, _, hr, hs, hx, f, rest, hup.trans hq, (List.head_eq_of_cons_eq hq).symm⟩

end AnvilRing
