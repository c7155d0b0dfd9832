import AnvilRing.Hub.Callers
import AnvilRing.Hub.Statuses
import AnvilRing.Link.Network
import AnvilRing.Link.Upload
import AnvilRing.Tether.Exchange

/-!
# The caller-facing frontend of a network

The frontend in front of a hub with all its tethers: every call is checked before it reaches the
registry, and no other party starts a forward.

* `Frontend.step`       a call comes in, or the network goes on;
* `Frontend.Reachable`  the states of all its runs;
* `served_once`         every engine exchange of any tether belongs to an authenticated call of its
                        own.
-/

namespace AnvilRing
open Wire

/-- a response with a fixed body -/
structure FixedReply where
  response : CallerResponse
  body : Bytes

def healthResponse (up : Bool) : FixedReply where
  response := { status := 200, headers := [] }
  body := if up then ascii "ok tether-up\n" else ascii "ok tether-down\n"

structure Frontend where
  net : Network
  callerToken : Bytes
  /-- history: the calls that were given to `forward_any` -/
  admitted : List HttpCall := []
  /-- history: the answers given without it -/
  replies : List FixedReply := []

inductive FrontendAction where
  | call (c : HttpCall)
  /-- anything but a new forward -/
  | net (a : NetworkAction)

/-- the action begins a forward -/
def NetworkAction.asks : NetworkAction → Bool
  | .hub a => World.asks a
  | _ => false

namespace Frontend

def step (digest : Bytes → String) (lib : HttpLib) (limit : Nat) (f : Frontend) :
    FrontendAction → Option Frontend
  | .call c =>
    match f.net.hub.handle f.callerToken c with
    | .health up => some { f with replies := f.replies ++ [healthResponse up] }
    | .unauthorized => some { f with replies := f.replies ++ [⟨errorResponse 401, []⟩] }
    | .forward =>
      (Network.step digest lib limit f.net (.hub (.forwardAny c.request))).map fun n =>
        { f with net := n, admitted := f.admitted ++ [c] }
  | .net a =>
    if a.asks then none
    else (Network.step digest lib limit f.net a).map fun n => { f with net := n }

/-- a hub that has just started, with the token of its callers -/
def Initial (f : Frontend) : Prop :=
  ∃ n token, Network.Initial n ∧ f = { net := n, callerToken := token }

abbrev Reachable (digest : Bytes → String) (lib : HttpLib) (limit : Nat) (f : Frontend) : Prop :=
  Machine.Reachable (step digest lib limit) Initial f

end Frontend

namespace Network
variable {digest : Bytes → String} {lib : HttpLib} {limit : Nat} {n m : Network}
  {a : NetworkAction}

/-- a step of the network that begins no forward is at most such a step of its hub -/
theorem step_hub_other (ha : a.asks = false) (h : step digest lib limit n a = some m) :
    m.hub = n.hub ∨ ∃ b, World.asks b = false ∧ World.step digest lib n.hub b = some m.hub := by
  cases a with
  | hub b =>
    change (if hubOwn b then _ else none) = some m at h
    split at h
    · obtain ⟨w, hw, rfl⟩ := Option.map_eq_some_iff.mp h
      exact .inr ⟨b, ha, hw⟩
    · cases h
  | hubWrite g =>
    obtain ⟨e, -, h⟩ := Option.bind_eq_some_iff.mp h
    obtain ⟨w, hw, rfl⟩ := Option.map_eq_some_iff.mp h
    exact .inr ⟨_, rfl, hw⟩
  | hubRecv g now =>
    obtain ⟨e, -, h⟩ := Option.bind_eq_some_iff.mp h
    obtain ⟨w, hw, rfl⟩ := Option.map_eq_some_iff.mp h
    exact .inr ⟨_, rfl, hw⟩
  | tether g b =>
    change (if _ then _ else none) = some m at h
    split at h
    · obtain ⟨t, -, rfl⟩ := Option.map_eq_some_iff.mp h
      exact .inl rfl
    · cases h
  | tetherWrite g | tetherRecv g =>
    change (if _ then _ else none) = some m at h
    split at h
    · obtain ⟨e, -, h⟩ := Option.bind_eq_some_iff.mp h
      obtain ⟨t, -, rfl⟩ := Option.map_eq_some_iff.mp h
      exact .inl rfl
    · cases h

end Network

namespace World
variable {digest : Bytes → String} {lib : HttpLib} {w v : World} {calls : List HttpCall}
  {owner : Nat → UInt16 → Nat}

theorem handle_forward {callerToken : Bytes} {c : HttpCall}
    (h : w.handle callerToken c = .forward) : authorized c.headers callerToken = true := by
  unfold handle at h
  split at h
  · cases h
  · split at h
    · next ha => exact ha
    · cases h

/-- a call is given to `forward_any` -/
theorem Owned.forwardAny (h : w.Owned calls owner) (hr : Reachable digest lib w) {c : HttpCall}
    (hs : step digest lib w (.forwardAny c.request) = some v) :
    v.Owned (calls ++ [c]) owner := by
  have hm := move_of_step hs
  cases hm with
  | route hl =>
    have hidle := hr.forwardIdle.idle (by rw [hl]; exact nofun)
    have hless : ∀ g i, w.Registered g i → owner g i < calls.length := by
      intro g i hi
      obtain ⟨d, hd, -⟩ := h.call g i hi
      exact (List.getElem?_eq_some_iff.mp hd).1
    refine ⟨fun g i hi => ?_, h.inj, fun req cs busy t hx => ?_, fun g req hx => ?_,
      fun g req i hx => ?_⟩
    · obtain ⟨d, hd, hreq⟩ := h.call g i hi
      exact ⟨d, by rw [List.getElem?_append_left (hless g i hi), hd], hreq⟩
    · cases hx
      exact ⟨calls, c, rfl, rfl, hless⟩
    · have hno := (hidle g).symm.trans hx
      cases hno
    · have hno := (hidle g).symm.trans hx
      cases hno

end World

namespace Frontend
variable {digest : Bytes → String} {lib : HttpLib} {limit : Nat} {f g : Frontend}
  {a : FrontendAction}

structure Inv (digest : Bytes → String) (lib : HttpLib) (limit : Nat) (f : Frontend) : Prop where
  net : Network.Reachable digest lib limit f.net
  admitted : ∀ c ∈ f.admitted, authorized c.headers f.callerToken = true
  owned : ∃ owner, f.net.hub.Owned f.admitted owner

theorem inv_initial (h : Initial f) : Inv digest lib limit f := by
  obtain ⟨n, token, hn, rfl⟩ := h
  refine ⟨.init hn, fun c hc => (by cases hc), fun _ _ => 0, ?_⟩
  obtain ⟨w, ⟨lease, now, rfl⟩, rfl⟩ := hn
  exact ⟨fun _ _ hi => (by cases hi), fun _ _ _ _ hi => (by cases hi),
    fun _ _ _ _ hx => (by cases hx), fun _ _ hx => (by cases hx), fun _ _ _ hx => (by cases hx)⟩

theorem Inv.step (h : Inv digest lib limit f) (hs : Frontend.step digest lib limit f a = some g) :
    Inv digest lib limit g := by
  obtain ⟨owner, howned⟩ := h.owned
  cases a with
  | call c =>
    change (match f.net.hub.handle f.callerToken c with
      | .health up => _
      | .unauthorized => _
      | .forward => _) = some g at hs
    split at hs
    · obtain rfl := Option.some.inj hs
      exact ⟨h.net, h.admitted, h.owned⟩
    · obtain rfl := Option.some.inj hs
      exact ⟨h.net, h.admitted, h.owned⟩
    · next hforward =>
      obtain ⟨n, hn, rfl⟩ := Option.map_eq_some_iff.mp hs
      refine ⟨h.net.step hn, fun d hd => ?_, owner, ?_⟩
      · rcases List.mem_append.mp hd with hd | hd
        · exact h.admitted d hd
        · obtain rfl := List.mem_singleton.mp hd
          exact World.handle_forward hforward
      · obtain ⟨w, hw, rfl⟩ := Option.map_eq_some_iff.mp hn
        exact howned.forwardAny h.net.hub hw
  | net a =>
    change (if a.asks then none else _) = some g at hs
    split at hs
    · cases hs
    · next ha =>
      obtain ⟨n, hn, rfl⟩ := Option.map_eq_some_iff.mp hs
      refine ⟨h.net.step hn, h.admitted, ?_⟩
      rcases Network.step_hub_other (Bool.eq_false_iff.mpr ha) hn with heq | ⟨b, hb, hw⟩
      · show ∃ owner, n.hub.Owned f.admitted owner
        rw [heq]
        exact h.owned
      · exact howned.move h.net.hub (World.move_of_step hw) hb

theorem Reachable.inv (h : Reachable digest lib limit f) : Inv digest lib limit f :=
  Machine.Reachable.invariant (fun _ hf => inv_initial hf) (fun _ _ _ hi hs => hi.step hs) h

/-- the stream of a pump is registered at the hub, with the head that the pump got -/
theorem pump_registered (hlimit : limit < 2 ^ 32) {n : Network}
    (h : Network.Reachable digest lib limit n) {g k : Nat} (hk : k < (n.tether g).spawned) :
    n.hub.Registered g ((n.tether g).pump k).id ∧
      ((n.tether g).pump k).head =
        ((n.hub.sess g).state ((n.tether g).pump k).id).request.head := by
  have hlink := h.link g
  have hinv := hlink.inv hlimit
  have hk' : k < (n.link g).tether.spawned := hk
  constructor
  · exact hlink.hub.idInv.opened _
      (Link.openedIds_mono hinv.handled_isPrefix (hlink.tether.inv.opened hk'))
  · have hopen := hinv.handled_isPrefix.subset (hlink.tether.opened k hk')
    exact hlink.hub.opening _ _ hopen

end Frontend

/-- **Every exchange has a caller of its own.**  Each engine exchange that any tether of the hub
ever starts, on any connection, belongs to a call that carries exactly the callers' token; it gets
that call's request head, and no two exchanges belong to the same call. -/
theorem served_once {digest : Bytes → String} {lib : HttpLib} {limit : Nat}
    (hlimit : limit < 2 ^ 32) {f : Frontend} (h : Frontend.Reachable digest lib limit f) :
    ∃ owner : Nat → Nat → Nat,
      (∀ g k, k < (f.net.tether g).spawned → ∃ c, f.admitted[owner g k]? = some c ∧
        c.headers.get (ascii "authorization") = some (bearer ++ f.callerToken) ∧
        ((f.net.tether g).pump k).head = openHead c.method c.uri c.headers ∧
        ((f.net.hub.sess g).state ((f.net.tether g).pump k).id).request = c.request) ∧
      ∀ g k g' k', k < (f.net.tether g).spawned → k' < (f.net.tether g').spawned →
        owner g k = owner g' k' → g = g' ∧ k = k' := by
  have hinv := h.inv
  obtain ⟨owner, howned⟩ := hinv.owned
  refine ⟨fun g k => owner g ((f.net.tether g).pump k).id, fun g k hk => ?_,
    fun g k g' k' hk hk' he => ?_⟩
  · obtain ⟨hreg, hhead⟩ := Frontend.pump_registered hlimit hinv.net hk
    obtain ⟨c, hc, hreq⟩ := howned.call g _ hreg
    refine ⟨c, hc, (authorized_iff.mp (hinv.admitted c (List.mem_of_getElem? hc))).1, ?_, hreq⟩
    rw [hhead, hreq]
    rfl
  · obtain ⟨rfl, hid⟩ := howned.inj _ _ _ _ (Frontend.pump_registered hlimit hinv.net hk).1
      (Frontend.pump_registered hlimit hinv.net hk').1 he
    have hlink := hinv.net.link g
    have hnodup := ((hlink.inv hlimit).proper.of_initial (hlink.inv hlimit).handled_isPrefix).nodup
    exact ⟨rfl, hlink.tether.inv.pump_unique hnodup hk hk' hid⟩

/-- a call with the token `secret` -/
def tokenCall : HttpCall where
  method := ascii "POST"
  uri := ⟨none, none, ascii "/v1/chat", none⟩
  headers := ⟨[(ascii "authorization", ascii "Bearer secret")], by decide⟩
  body := []
  bodyOk := true

/-- a tether connects, is asked by a call, and starts its exchange -/
def calledRun : List FrontendAction :=
  connectedRun.map (fun a => .net (.hub a)) ++ [.call tokenCall] ++
    List.replicate 7 (.net (.hub .forward)) ++ [.net (.hubWrite 1), .net (.tetherRecv 1)]

theorem calledRun_isSome : (Machine.run (Frontend.step twoDigests okLib defaultLimit)
    { net := { hub := freshHub }, callerToken := ascii "secret" } calledRun).isSome = true := by
  decide +kernel

theorem served_once_called : ∃ f : Frontend, f.admitted.map HttpCall.request = [tokenCall.request] ∧
    (f.net.tether 1).spawned = 1 ∧ ((f.net.tether 1).pump 0).head = tokenCall.request.head := by
  have h : Frontend.Reachable twoDigests okLib defaultLimit (Option.get _ calledRun_isSome) :=
    (Machine.Reachable.init ⟨_, _, ⟨freshHub, ⟨_, _, rfl⟩, rfl⟩, rfl⟩).run
      (Option.some_get calledRun_isSome).symm
  have hspawned : ((Option.get _ calledRun_isSome).net.tether 1).spawned = 1 := by decide +kernel
  have hadmitted : (Option.get _ calledRun_isSome).admitted.map HttpCall.request =
      [tokenCall.request] := by
    decide +kernel
  obtain ⟨owner, hserved, -⟩ := served_once (by decide) h
  obtain ⟨c, hc, -, hhead, -⟩ := hserved 1 0 (by rw [hspawned]; exact Nat.one_pos)
  have hmem : c.request ∈ [tokenCall.request] :=
    hadmitted ▸ List.mem_map_of_mem (List.mem_of_getElem? hc)
  refine ⟨_, hadmitted, hspawned, ?_⟩
  rw [hhead, ← List.mem_singleton.mp hmem]
  rfl

end AnvilRing
