import AnvilRing.Hub.Opening
import AnvilRing.Tether.Exchange
import AnvilRing.Link.Delivery

/-!
# One exchange across the tunnel

What a caller is answered with, from the engine behind the tether to the caller in front of the hub.

* `Link.Ordered`              the hub takes up the frames of its tether in the order they were sent;
* `Link.given`                what the engine gave a pump along a run;
* `Link.run_answers`          the tether's side, along a run;
* `Link.run_exchange`         the caller's answer and body are those of one engine exchange, which
                              was asked with the caller's request head.
-/

namespace AnvilRing
open Wire

/-! ## the order of the hub -/

/-- the frame that came in and is not taken up yet -/
def LoopPc.held : LoopPc → List Frame
  | .frame f => [f]
  | _ => []

theorem LoopPc.held_of_out {l : LoopPc} (h : l.out = true) : l.held = [] := by
  cases l with
  | frame f => cases h
  | _ => rfl

namespace Session
variable {lib : HttpLib} {s t : Session} {a : SessionAction}

theorem held_takeUp (f : Frame) : (s.takeUp f).held = [] := by
  unfold takeUp
  split
  · split <;> rfl
  · split <;> rfl
  · split <;> rfl
  · rfl

/-- a move with which no frame comes in -/
theorem held_of_move (hm : Move lib s a t)
    (hf : ∀ m now g, a = .recv m now → hubDecode m ≠ .ok (some g)) :
    t.received ++ t.loop.held = s.received ++ s.loop.held ∧
      (s.loop.out = true → t.loop.out = true) := by
  cases hm with
  | frame hl hm hr => exact absurd hm (hf _ _ _ rfl)
  | @takeUp f hl =>
    rw [hl]
    refine ⟨?_, fun hx => by cases hx⟩
    show (s.received ++ [f]) ++ (s.takeUp f).held = _
    rw [held_takeUp, List.append_nil]
    rfl
  | leave hl | control hl | headOk hl | headBad hl | dataOk hl | dataBad hl | reply hl
  | noReply hl =>
    rw [hl]
    exact ⟨rfl, fun hx => by cases hx⟩
  | ownReturned hl | detached hl =>
    rw [hl]
    exact ⟨rfl, fun _ => rfl⟩
  | @terminate id v stage reply hl =>
    rw [hl]
    cases stage with
    | completed => exact ⟨rfl, fun hx => by cases hx⟩
    | upload => exact ⟨rfl, fun hx => by cases hx⟩
    | outcome => exact ⟨rfl, fun hx => by cases hx⟩
  | @remove id reply hl =>
    rw [hl]
    cases reply with
    | none => exact ⟨rfl, fun hx => by cases hx⟩
    | some r => exact ⟨rfl, fun hx => by cases hx⟩
  | _ => exact ⟨rfl, id⟩

theorem held_loopSend (s : Session) (f : Frame) :
    (s.loopSend f).received = s.received ∧ (s.loopSend f).loop.held = [] := by
  unfold loopSend
  split
  · exact ⟨rfl, rfl⟩
  · exact ⟨rfl, rfl⟩

/-- the message of a frame: the loop holds the frame if it is one about a stream, or it is over -/
theorem held_of_recv {limit now : Nat} {f : Frame} (hlimit : limit < 2 ^ 32)
    (h : step lib s (Link.hubReads limit f now) = some t) :
    s.loop = .select ∧ t.received = s.received ∧
      (t.loop.out = true ∨ t.loop.held = [f].filter Frame.isResponse) := by
  unfold Link.hubReads at h
  split at h
  · next hlen =>
    change s.recv (wsMsg f) now = some t at h
    unfold recv at h
    split at h
    · next hl =>
      refine ⟨hl, ?_⟩
      cases hd : hubDecode (wsMsg f) with
      | error e =>
        rw [hd] at h
        obtain rfl := Option.some.inj h
        exact ⟨rfl, .inl rfl⟩
      | ok o =>
        rw [hd] at h
        cases o with
        | none =>
          -- a binary message is never ignored
          change decodeBinary f.encode = .ok none at hd
          unfold decodeBinary at hd
          split at hd <;> cases hd
        | some g =>
          obtain rfl := decodeBinary_encode (hlen.trans_lt hlimit) hd
          cases g with
          | ping =>
            obtain rfl := Option.some.inj h
            obtain ⟨h1, h2⟩ := held_loopSend s .pong
            exact ⟨h1, .inr h2⟩
          | pong =>
            obtain rfl := Option.some.inj h
            refine ⟨rfl, .inr ?_⟩
            show s.loop.held = []
            rw [hl]
            rfl
          | respHead | data | «end» =>
            obtain rfl := Option.some.inj h
            exact ⟨rfl, .inr rfl⟩
          | _ =>
            obtain rfl := Option.some.inj h
            exact ⟨rfl, .inl rfl⟩
    · cases h
  · change s.exit .streamError = some t at h
    unfold exit at h
    split at h
    · next hl =>
      obtain rfl := Option.some.inj h
      exact ⟨hl.1, rfl, .inl rfl⟩
    · cases h

end Session

namespace Link
variable {lib : HttpLib} {limit : Nat} {l m : Link} {a : LinkAction} {i : UInt16} {k : Nat}

structure Ordered (l : Link) : Prop where
  taken : l.hub.received ++ l.hub.loop.held <+: l.up.taken.filter Frame.isResponse
  whole : l.hub.loop.out = false →
    l.hub.received ++ l.hub.loop.held = l.up.taken.filter Frame.isResponse
  /-- no frame for a stream was taken up before the stream was registered -/
  start : ∀ i, (l.hub.state i).start ≤ l.hub.received.length ∧
    ∀ f ∈ l.hub.received.take (l.hub.state i).start, concerns i f = false

theorem isResponse_of_concerns {f : Frame} (h : concerns i f = true) : f.isResponse = true := by
  cases f with
  | respHead j b => rfl
  | data j b => rfl
  | «end» j r => rfl
  | _ => cases h

/-- nothing came for a stream that a forward is about to register -/
theorem Inv.nothing_for (h : l.Inv) (hl : Reachable lib limit l) {req : Request}
    (hf : l.hub.forward = .allocated req i) {f : Frame} (hx : f ∈ l.hub.received) :
    concerns i f = false := by
  rw [Bool.eq_false_iff]
  intro hc
  have hr := isResponse_of_concerns hc
  have hopen := h.opened hl.tether.inv (List.mem_append_left _ (h.received f hx)) hr
  rw [concerns_of_stream hr, beq_iff_eq] at hc
  have hp : l.hub.forward.pending = some i := by
    rw [hf]
    rfl
  exact hl.hub.idInv.unopened i hp (hc ▸ hopen)

/-- a step of the hub keeps the starts of the streams -/
theorem Ordered.starts (h : l.Ordered) (hi : l.Inv) (hl : Reachable lib limit l)
    {b : SessionAction} {s : Session} (hm : Session.Move lib l.hub b s) (i : UInt16) :
    (s.state i).start ≤ s.received.length ∧
      ∀ f ∈ s.received.take (s.state i).start, concerns i f = false := by
  have hgrow : l.hub.received <+: s.received := by
    rcases received_of_move hm with hx | ⟨f, -, hx⟩
    · rw [hx]
    · rw [hx]
      exact List.prefix_append _ _
  obtain ⟨more, hmore⟩ := hgrow
  have hold : (s.state i).start ≤ l.hub.received.length ∧
      ∀ f ∈ l.hub.received.take (s.state i).start, concerns i f = false := by
    rcases Session.origin_of_move hm i with ho | ⟨req, hf, ho⟩
    · rw [show (s.state i).start = (l.hub.state i).start from congrArg Prod.snd ho]
      exact h.start i
    · rw [show (s.state i).start = l.hub.received.length from congrArg Prod.snd ho]
      exact ⟨le_rfl, fun f hx => hi.nothing_for hl hf (List.mem_of_mem_take hx)⟩
  rw [← hmore, List.take_append_of_le_length hold.1]
  refine ⟨?_, hold.2⟩
  rw [List.length_append]
  exact hold.1.trans (Nat.le_add_right _ _)

/-- a step of the hub with which no frame comes in -/
theorem Ordered.hubMove (h : l.Ordered) (hi : l.Inv) (hl : Reachable lib limit l)
    {b : SessionAction} {s : Session} (hm : Session.Move lib l.hub b s)
    (hf : ∀ m now g, b = .recv m now → hubDecode m ≠ .ok (some g)) {down : Chan Frame} :
    Ordered { l with hub := s, down := down } := by
  obtain ⟨heq, hover⟩ := Session.held_of_move hm hf
  constructor
  · show s.received ++ s.loop.held <+: _
    rw [heq]
    exact h.taken
  · intro hx
    show s.received ++ s.loop.held = _
    rw [heq]
    refine h.whole (Bool.eq_false_iff.mpr fun ho => ?_)
    rw [show s.loop.out = true from hover ho] at hx
    cases hx
  · exact h.starts hi hl hm

/-- a frame comes in -/
theorem Ordered.hubRecv (h : l.Ordered) (hi : l.Inv) (hl : Reachable lib limit l)
    (hlimit : limit < 2 ^ 32) {f : Frame} {up : Chan Frame} {s : Session} {now : Nat}
    (hr : l.up.recv = some (f, up))
    (hs : Session.step lib l.hub (hubReads limit f now) = some s) :
    Ordered { l with hub := s, up := up } := by
  obtain ⟨hsel, hrec, hheld⟩ := Session.held_of_recv hlimit hs
  have htaken : up.taken.filter Frame.isResponse =
      l.hub.received ++ [f].filter Frame.isResponse := by
    rw [(Chan.recv_some hr).2]
    show (l.up.taken ++ [f]).filter _ = _
    rw [List.filter_append, ← h.whole (by rw [hsel]; rfl), hsel]
    exact congrArg (· ++ _) (List.append_nil _)
  constructor
  · show s.received ++ s.loop.held <+: up.taken.filter Frame.isResponse
    rw [htaken, hrec]
    rcases hheld with hx | hx
    · rw [LoopPc.held_of_out hx, List.append_nil]
      exact List.prefix_append _ _
    · rw [hx]
  · intro hx
    change s.loop.out = false at hx
    show s.received ++ s.loop.held = up.taken.filter Frame.isResponse
    rw [htaken, hrec]
    rcases hheld with ho | ho
    · rw [ho] at hx
      cases hx
    · rw [ho]
  · exact h.starts hi hl (Session.move_of_step hs)

theorem Ordered.step (h : l.Ordered) (hi : l.Inv) (hl : Reachable lib limit l)
    (hlimit : limit < 2 ^ 32) (hs : step lib limit l a = some m) : m.Ordered := by
  cases a with
  | hub b =>
    change (if hubOwn b then _ else none) = some m at hs
    split at hs
    · next ho =>
      obtain ⟨s, hst, rfl⟩ := Option.map_eq_some_iff.mp hs
      exact h.hubMove hi hl (Session.move_of_step hst) (hubOwn_recv ho).2
    · cases hs
  | hubWrite =>
    obtain ⟨e, -, hs⟩ := Option.bind_eq_some_iff.mp hs
    obtain ⟨s, hst, rfl⟩ := Option.map_eq_some_iff.mp hs
    exact h.hubMove hi hl (Session.move_of_step hst) fun m now g hx => by cases hx
  | hubRecv now =>
    obtain ⟨⟨f, up⟩, hr, hs⟩ := Option.bind_eq_some_iff.mp hs
    obtain ⟨s, hst, rfl⟩ := Option.map_eq_some_iff.mp hs
    exact h.hubRecv hi hl hlimit hr hst
  | tether b =>
    change (if tetherOwn b then _ else none) = some m at hs
    split at hs
    · obtain ⟨t, -, rfl⟩ := Option.map_eq_some_iff.mp hs
      exact ⟨h.taken, h.whole, h.start⟩
    · cases hs
  | tetherWrite =>
    obtain ⟨e, -, hs⟩ := Option.bind_eq_some_iff.mp hs
    obtain ⟨t, -, rfl⟩ := Option.map_eq_some_iff.mp hs
    exact ⟨h.taken, h.whole, h.start⟩
  | tetherRecv =>
    obtain ⟨e, -, hs⟩ := Option.bind_eq_some_iff.mp hs
    obtain ⟨t, -, rfl⟩ := Option.map_eq_some_iff.mp hs
    exact ⟨h.taken, h.whole, h.start⟩

theorem Reachable.ordered (hlimit : limit < 2 ^ 32) (h : Reachable lib limit l) : l.Ordered := by
  refine Machine.Reachable.invariant_of ?_ ?_ h
  · intro l hl
    obtain ⟨id, cred, now, rfl⟩ := hl
    exact ⟨List.nil_prefix, fun _ => rfl, fun i => ⟨le_rfl, fun f hf => absurd hf List.not_mem_nil⟩⟩
  · intro l a m hl ho hs
    exact ho.step (Reachable.inv hlimit hl) hl hlimit hs

/-- what the hub has taken up for a stream is the first part of what its tether sent for it -/
theorem Reachable.since_isPrefix (hlimit : limit < 2 ^ 32) (h : Reachable lib limit l)
    (i : UInt16) : l.hub.since i <+: l.tether.sentFor i := by
  have ho := h.ordered hlimit
  have hi := h.inv hlimit
  have hsince : l.hub.since i = l.hub.received.filter (concerns i) := by
    unfold Session.since
    rw [← List.take_append_drop (l.hub.state i).start l.hub.received, List.filter_append,
      List.filter_eq_nil_iff.mpr fun f hf => Bool.eq_false_iff.mp ((ho.start i).2 f hf),
      List.nil_append, List.take_append_drop]
  have hup : l.up.taken.filter (concerns i) =
      (l.up.taken.filter Frame.isResponse).filter (concerns i) := by
    rw [List.filter_filter]
    refine List.filter_congr fun f _ => ?_
    cases hc : concerns i f with
    | false => rfl
    | true => rw [isResponse_of_concerns hc]; rfl
  have hlog : l.up.taken <+: l.tether.tx.log := by
    refine (List.prefix_append _ l.up.queue).trans ?_
    rw [show l.up.taken ++ l.up.queue = l.tether.tx.taken from hi.up]
    exact List.prefix_append _ _
  rw [hsince]
  refine (((List.prefix_append _ _).trans ho.taken).filter (concerns i)).trans ?_
  rw [← hup]
  exact hlog.filter _

/-! ## along a run -/

/-- what a step of the link gives pump `k` -/
def given (k : Nat) : LinkAction → List EngineEvent
  | .tether a => a.given k
  | _ => []

/-- what the engine gave pump `k` along a run -/
def engineEvents (k : Nat) (as : List LinkAction) : List EngineEvent := as.flatMap (given k)

theorem engineEvents_snoc (k : Nat) (as : List LinkAction) (a : LinkAction) :
    engineEvents k (as ++ [a]) = engineEvents k as ++ given k a := by
  unfold engineEvents
  rw [List.flatMap_append, List.flatMap_cons, List.flatMap_nil, List.append_nil]

/-- a step of the link is at most one step of its tether, with the same event -/
theorem step_tether (h : step lib limit l a = some m) :
    (m.tether = l.tether ∧ ∀ k, given k a = []) ∨
      ∃ b, l.tether.step b = some m.tether ∧ ∀ k, given k a = b.given k := by
  cases a with
  | hub b =>
    change (if hubOwn b then _ else none) = some m at h
    split at h
    · obtain ⟨s, -, rfl⟩ := Option.map_eq_some_iff.mp h
      exact .inl ⟨rfl, fun _ => rfl⟩
    · cases h
  | hubWrite | hubRecv =>
    obtain ⟨e, -, h⟩ := Option.bind_eq_some_iff.mp h
    obtain ⟨s, -, rfl⟩ := Option.map_eq_some_iff.mp h
    exact .inl ⟨rfl, fun _ => rfl⟩
  | tether b =>
    change (if tetherOwn b then _ else none) = some m at h
    split at h
    · obtain ⟨t, ht, rfl⟩ := Option.map_eq_some_iff.mp h
      exact .inr ⟨b, ht, fun _ => rfl⟩
    · cases h
  | tetherWrite =>
    obtain ⟨e, -, h⟩ := Option.bind_eq_some_iff.mp h
    obtain ⟨t, ht, rfl⟩ := Option.map_eq_some_iff.mp h
    exact .inr ⟨.write, ht, fun _ => rfl⟩
  | tetherRecv =>
    obtain ⟨e, -, h⟩ := Option.bind_eq_some_iff.mp h
    obtain ⟨t, ht, rfl⟩ := Option.map_eq_some_iff.mp h
    refine .inr ⟨_, ht, fun _ => ?_⟩
    unfold tetherReads
    split
    · rfl
    · rfl

/-- the tether's side of every exchange, along a run -/
theorem run_answers (hlimit : limit < 2 ^ 32) {as : List LinkAction} (h₀ : Initial l)
    (h : Machine.run (step lib limit) l as = some m) :
    Reachable lib limit m ∧ m.tether.Answers fun k => engineEvents k as := by
  refine Machine.run_trace (P := fun as l => Reachable lib limit l ∧
    l.tether.Answers fun k => engineEvents k as) ?_ ?_ h
  · intro as l a m ⟨hl, ha⟩ hs
    have hm := Machine.Reachable.step hl hs
    refine ⟨hm, ?_⟩
    simp only [engineEvents_snoc]
    rcases step_tether hs with ⟨heq, hnone⟩ | ⟨b, hb, hgiven⟩
    · rw [heq]
      simp only [hnone, List.append_nil]
      exact ha
    · simp only [hgiven]
      have hinv := Reachable.inv hlimit hm
      exact ha.step hl.tether.inv hb (hinv.proper.of_initial hinv.handled_isPrefix)
  · obtain ⟨id, cred, now, rfl⟩ := h₀
    exact ⟨.init ⟨id, cred, now, rfl⟩, Tunnel.answers_new⟩

/-- pump `k` is the one that serves stream `i`, and it was given the head of the request -/
def Serves (l : Link) (i : UInt16) (k : Nat) : Prop :=
  (∀ m, m < l.tether.spawned ∧ (l.tether.pump m).id = i ↔ m = k) ∧
    (l.tether.pump k).head = (l.hub.state i).request.head

/-- a stream that the tether sent a head for has a pump -/
theorem Reachable.serves (hlimit : limit < 2 ^ 32) (h : Reachable lib limit l)
    {es : Nat → List EngineEvent} (ha : l.tether.Answers es) {raw : Bytes}
    (hx : .respHead i raw ∈ l.tether.sentFor i) : ∃ k, k < l.tether.spawned ∧ l.Serves i k := by
  have hinv := h.inv hlimit
  have hnodup := (hinv.proper.of_initial hinv.handled_isPrefix).nodup
  have hsome : ∃ k, k < l.tether.spawned ∧ (l.tether.pump k).id = i := by
    by_contra hno
    obtain ⟨r, -, hr⟩ := ha.others i (fun k hk hki => hno ⟨k, hk, hki⟩) _ hx
    cases hr
  obtain ⟨k, hk, hki⟩ := hsome
  refine ⟨k, hk, fun m => ⟨fun hm => ?_, fun hm => hm ▸ ⟨hk, hki⟩⟩, ?_⟩
  · exact h.tether.inv.pump_unique hnodup hm.1 hk (hm.2.trans hki.symm)
  · have hopen := hinv.handled_isPrefix.subset (h.tether.opened k hk)
    unfold Tunnel.opening at hopen
    rw [hki] at hopen
    exact h.hub.opening i _ hopen

/-- **One exchange across the tunnel.** -/
theorem run_exchange (hlimit : limit < 2 ^ 32) {l₀ : Link} (h₀ : Initial l₀)
    {as : List LinkAction} (h : Machine.run (step lib limit) l₀ as = some l) (i : UInt16) :
    (∀ a, (l.hub.state i).answer = some a → a = StreamState.noHeadResponse ∨
      ∃ res, (l.hub.state i).head = some res ∧ a = StreamState.respond res) ∧
    ((l.hub.state i).polls ≠ [] → (l.hub.state i).head ≠ none) ∧
    ∀ res, (l.hub.state i).head = some res → ∃ k raw, l.Serves i k ∧
      responseHead (engineEvents k as) = some raw ∧ parseHead lib raw = some (res, []) ∧
      (l.hub.state i).yielded <+: responseBody (engineEvents k as) ∧
      ((l.hub.state i).EndedCleanly → ∃ es, engineEvents k as = es ++ [.finish] ∧
        (l.hub.state i).yielded = responseBody es) := by
  obtain ⟨hl, ha⟩ := run_answers hlimit h₀ h
  have hresp := hl.hub.responses i
  refine ⟨?_, ?_, ?_⟩
  · intro a hans
    exact (hresp.caller.answer a hans).symm
  · intro hp hnone
    have hsome := hresp.caller.head (.inl hp)
    rw [hnone] at hsome
    cases hsome
  · intro res hres
    obtain ⟨rest, hsplit⟩ := hresp.split
    have hsplit' := hsplit
    obtain ⟨acc, hacc, ⟨hnone, -, -⟩ | ⟨raw, res', datas, hparse, -, hhead, hlog, rfl⟩⟩ := hsplit
    · rw [hnone] at hres
      cases hres
    obtain rfl : res' = res := Option.some.inj (hhead.symm.trans hres)
    have hsince := hl.since_isPrefix hlimit i
    rw [hacc] at hsince
    obtain ⟨k, hk, hserves⟩ :=
      hl.serves hlimit ha (hsince.subset (List.mem_append_left _ List.mem_cons_self))
    have hki : (l.tether.pump k).id = i := ((hserves.1 k).mpr rfl).2
    have hpump := ha.pumps k hk
    rw [hki] at hpump
    have hnoend : ∀ j r, .end j r ∉ Frame.respHead i raw :: datas.map (.data i) := by
      intro j r hx
      rcases List.mem_cons.mp hx with hx | hx
      · cases hx
      · obtain ⟨b, -, hb⟩ := List.mem_map.mp hx
        cases hb
    have hfront := hpump.front ((List.prefix_append _ _).trans hsince) hnoend
    obtain ⟨h1, h2⟩ := response_of_prefix hfront
    have hyield : (l.hub.state i).yielded <+: datas := by
      have hx : (l.hub.state i).chunks.taken <+: (l.hub.state i).chunks.log :=
        List.prefix_append _ _
      rw [hresp.caller.taken, hlog] at hx
      exact (List.prefix_map_iff_of_injective fun _ _ hb => ChunkOrEnd.chunk.inj hb).mp hx
    refine ⟨k, raw, hserves, h1, hparse, hyield.trans h2, fun hend => ?_⟩
    obtain ⟨⟨later, hwell⟩, hq, -⟩ := hresp.caller.ended hend
    obtain rfl := hsplit'.unique hwell
    have hall : (l.hub.state i).yielded = datas := by
      rw [Chan.log, hq, List.append_nil, hresp.caller.taken] at hlog
      exact (List.map_injective_iff.mpr fun _ _ hb => ChunkOrEnd.chunk.inj hb) hlog
    have hone : [Frame.end i []] <+: .end i [] :: later :=
      List.cons_prefix_cons.mpr ⟨rfl, List.nil_prefix⟩
    obtain ⟨es, hes, hframes⟩ :=
      hpump.whole (((List.prefix_append_right_inj _).mpr hone).trans hsince) hnoend
    refine ⟨es, hes, ?_⟩
    rw [hall, responseBody_eq i, ← hframes, List.filterMap_cons_none rfl, List.filterMap_map]
    exact List.filterMap_some.symm

end Link

end AnvilRing
