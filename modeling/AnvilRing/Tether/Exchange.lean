import AnvilRing.Tether.Streams

/-!
# What a tether sends of a response

The engine gives a pump a head, chunks and an end; the pump makes frames of them, and the loop of
the session may put an END of its own among them.

* `responseFrames i es`      the frames that the events `es` of one exchange come to, in order;
* `Answering`                how far a pump is with them;
* `Answering.whole`          an END without a reason is behind all of them;
* `Tunnel.Answers`           the frames of every stream are those of its pump's events, cut somewhere;
                             whatever else there is comes behind an END with a reason;
* `Tunnel.Answers.step`      every step keeps it.
-/

namespace AnvilRing
open Wire

/-! ## one exchange -/

/-- the frames that a pump makes of an event -/
def EngineEvent.frames (i : UInt16) : EngineEvent → List Frame
  | .head bytes => [.respHead i bytes]
  | .chunk bytes => if bytes = [] then [] else [.data i bytes]
  | .finish => [.end i []]
  | .fail => [.end i engineFailed]

def responseFrames (i : UInt16) (es : List EngineEvent) : List Frame :=
  es.flatMap (EngineEvent.frames i)

/-- the head that the engine answered with -/
def responseHead (es : List EngineEvent) : Option Bytes :=
  es.findSome? fun
    | .head bytes => some bytes
    | _ => none

/-- the chunks of the body that the engine answered with -/
def responseBody (es : List EngineEvent) : List Bytes :=
  es.filterMap fun
    | .chunk bytes => if bytes = [] then none else some bytes
    | _ => none

/-- the engine has not ended the exchange -/
def Ongoing (es : List EngineEvent) : Prop := .finish ∉ es ∧ .fail ∉ es

/-- what a step of the tether gives pump `k` -/
def TunnelAction.given (k : Nat) : TunnelAction → List EngineEvent
  | .engine m e => if m = k then [e] else []
  | _ => []

/-- an END with a reason stands in the frames, and what is in front of it is of the events -/
def CutOff (i : UInt16) (es : List EngineEvent) (sent : List Frame) : Prop :=
  ∃ front reason later, reason ≠ [] ∧ sent = front ++ .end i reason :: later ∧
    front <+: responseFrames i es

/-- the pump is in its exchange with the engine -/
def PumpPc.exchanging : PumpPc → Bool
  | .engine _ => true
  | .sending _ => true
  | _ => false

/-- what a pump has sent and what it is about to send are the frames of its events -/
def InTurn (i : UInt16) (es : List EngineEvent) (sent : List Frame) : PumpPc → Prop
  | .engine _ => sent = responseFrames i es
  | .sending f => sent ++ [f] = responseFrames i es
  | .ending reason =>
    sent <+: responseFrames i es ∧ (reason = [] → sent ++ [.end i []] = responseFrames i es)
  | _ => sent <+: responseFrames i es

structure Answering (i : UInt16) (es : List EngineEvent) (sent : List Frame) (pc : PumpPc) :
    Prop where
  sent : CutOff i es sent ∨ InTurn i es sent pc
  ongoing : pc.exchanging = true → Ongoing es
  -- only the last event ends the exchange
  last : Ongoing es.dropLast

section
variable {i : UInt16} {es fs : List EngineEvent} {sent : List Frame} {pc : PumpPc} {b : Bool}

theorem responseFrames_append (i : UInt16) (es fs : List EngineEvent) :
    responseFrames i (es ++ fs) = responseFrames i es ++ responseFrames i fs :=
  List.flatMap_append

theorem responseFrames_snoc (i : UInt16) (es : List EngineEvent) (e : EngineEvent) :
    responseFrames i (es ++ [e]) = responseFrames i es ++ e.frames i := by
  rw [responseFrames_append]
  exact congrArg _ (List.append_nil _)

theorem Ongoing.snoc {e : EngineEvent} (h : Ongoing es) (h1 : e ≠ .finish) (h2 : e ≠ .fail) :
    Ongoing (es ++ [e]) := by
  constructor
  · intro hx
    rcases List.mem_append.mp hx with hx | hx
    · exact h.1 hx
    · exact h1 (List.mem_singleton.mp hx).symm
  · intro hx
    rcases List.mem_append.mp hx with hx | hx
    · exact h.2 hx
    · exact h2 (List.mem_singleton.mp hx).symm

/-- as long as the exchange goes on, its frames end nothing -/
theorem Ongoing.not_end (h : Ongoing es) (i j : UInt16) (r : Bytes) :
    .end j r ∉ responseFrames i es := by
  intro hx
  obtain ⟨e, he, hx⟩ := List.mem_flatMap.mp hx
  cases e with
  | head bytes => cases List.mem_singleton.mp hx
  | chunk bytes =>
    rw [EngineEvent.frames] at hx
    by_cases hb : bytes = []
    · rw [if_pos hb] at hx
      cases hx
    · rw [if_neg hb] at hx
      cases List.mem_singleton.mp hx
  | finish => exact h.1 he
  | fail => exact h.2 he

theorem CutOff.snoc (h : CutOff i es sent) (e : EngineEvent) : CutOff i (es ++ [e]) sent := by
  obtain ⟨front, reason, later, hr, hsent, hfront⟩ := h
  refine ⟨front, reason, later, hr, hsent, hfront.trans ?_⟩
  rw [responseFrames_snoc]
  exact List.prefix_append _ _

theorem CutOff.append (h : CutOff i es sent) (more : List Frame) : CutOff i es (sent ++ more) := by
  obtain ⟨front, reason, later, hr, rfl, hfront⟩ := h
  exact ⟨front, reason, later ++ more, hr, by rw [List.append_assoc, List.cons_append], hfront⟩

theorem InTurn.isPrefix (h : InTurn i es sent pc) : sent <+: responseFrames i es := by
  cases pc with
  | engine answered =>
    rw [show sent = responseFrames i es from h]
  | sending f =>
    rw [← show sent ++ [f] = responseFrames i es from h]
    exact List.prefix_append _ _
  | ending reason => exact h.1
  | completing => exact h
  | done => exact h
  | cancelled => exact h

namespace Answering

/-- an END with a reason cuts the frames off -/
theorem cut (h : Answering i es sent pc) {reason : Bytes} (hr : reason ≠ []) :
    CutOff i es (sent ++ [.end i reason]) := by
  rcases h.sent with hs | hs
  · exact hs.append _
  · exact ⟨sent, reason, [], hr, rfl, hs.isPrefix⟩

/-- the pump moves on, out of its exchange -/
theorem leave (h : Answering i es sent pc) {pc' : PumpPc} (hpc : pc'.exchanging = false)
    {more : List Frame} (hs : InTurn i es sent pc → InTurn i es (sent ++ more) pc') :
    Answering i es (sent ++ more) pc' where
  sent := h.sent.imp (fun hc => hc.append more) hs
  ongoing hx := absurd hx (by rw [hpc]; exact Bool.false_ne_true)
  last := h.last

/-- the loop ends the stream with a reason -/
theorem replied (h : Answering i es sent pc) {reason : Bytes} (hr : reason ≠ []) :
    Answering i es (sent ++ [.end i reason]) pc :=
  ⟨.inl (h.cut hr), h.ongoing, h.last⟩

/-- the engine gives the pump an event while nothing waits to be sent -/
theorem given (h : Answering i es sent (.engine b)) {e : EngineEvent} {pc' : PumpPc}
    (hs : sent = responseFrames i es → InTurn i (es ++ [e]) sent pc')
    (he : pc'.exchanging = true → e ≠ .finish ∧ e ≠ .fail) :
    Answering i (es ++ [e]) sent pc' where
  sent := h.sent.imp (fun hc => hc.snoc e) hs
  ongoing hx := (h.ongoing rfl).snoc (he hx).1 (he hx).2
  last := by
    rw [List.dropLast_concat]
    exact h.ongoing rfl

end Answering

theorem engineFailed_ne_nil : engineFailed ≠ [] := by decide

/-- what the engine gives a pump is what the pump sends next -/
theorem Answering.forwardEngine {p q : Pump} {e : EngineEvent}
    (h : Answering p.id es sent p.pc) (hq : p.forwardEngine e = some q) :
    Answering p.id (es ++ [e]) sent q.pc := by
  unfold Pump.forwardEngine at hq
  split at hq
  · next head hp =>
    obtain rfl := Option.some.inj hq
    refine (hp ▸ h).given (fun hs => ?_) fun _ => ⟨?_, ?_⟩
    · show sent ++ [.respHead p.id head] = responseFrames p.id (es ++ [.head head])
      rw [responseFrames_snoc, ← hs]
      rfl
    · exact fun hx => by cases hx
    · exact fun hx => by cases hx
  · next bytes hp =>
    obtain rfl := Option.some.inj hq
    refine (hp ▸ h).given (fun hs => ?_) fun _ => ⟨?_, ?_⟩
    · by_cases hb : bytes = []
      · simp only [if_pos hb]
        show sent = responseFrames p.id (es ++ [.chunk bytes])
        rw [responseFrames_snoc, ← hs, EngineEvent.frames, if_pos hb, List.append_nil]
      · simp only [if_neg hb]
        show sent ++ [.data p.id bytes] = responseFrames p.id (es ++ [.chunk bytes])
        rw [responseFrames_snoc, ← hs, EngineEvent.frames, if_neg hb]
    · exact fun hx => by cases hx
    · exact fun hx => by cases hx
  · next hp =>
    obtain rfl := Option.some.inj hq
    refine (hp ▸ h).given (fun hs => ⟨?_, fun _ => ?_⟩) fun hx => by cases hx
    · rw [responseFrames_snoc, ← hs]
      exact List.prefix_append _ _
    · rw [responseFrames_snoc, ← hs]
      rfl
  · next hp =>
    obtain rfl := Option.some.inj hq
    refine (hp ▸ h).given (fun hs => ⟨?_, fun hx => absurd hx engineFailed_ne_nil⟩) fun hx => by
      cases hx
    rw [responseFrames_snoc, ← hs]
    exact List.prefix_append _ _
  · cases hq

end

/-! ## what the frames tell of the events -/

/-- the response head on a frame -/
def Frame.respBytes : Frame → Option Bytes
  | .respHead _ bytes => some bytes
  | _ => none

/-- the data on a frame -/
def Frame.dataBytes : Frame → Option Bytes
  | .data _ bytes => some bytes
  | _ => none

section
variable {i : UInt16} {es : List EngineEvent} {sent fs : List Frame} {pc : PumpPc}

theorem responseHead_eq (i : UInt16) (es : List EngineEvent) :
    responseHead es = (responseFrames i es).findSome? Frame.respBytes := by
  induction es with
  | nil => rfl
  | cons e es ih =>
    show _ = (e.frames i ++ responseFrames i es).findSome? _
    rw [List.findSome?_append, ← ih]
    cases e with
    | chunk bytes =>
      rw [EngineEvent.frames]
      by_cases hb : bytes = []
      · rw [if_pos hb]
        rfl
      · rw [if_neg hb]
        rfl
    | head bytes => rfl
    | finish => rfl
    | fail => rfl

theorem responseBody_eq (i : UInt16) (es : List EngineEvent) :
    responseBody es = (responseFrames i es).filterMap Frame.dataBytes := by
  induction es with
  | nil => rfl
  | cons e es ih =>
    show _ = (e.frames i ++ responseFrames i es).filterMap _
    rw [List.filterMap_append, ← ih]
    cases e with
    | chunk bytes =>
      rw [EngineEvent.frames]
      by_cases hb : bytes = []
      · rw [if_pos hb, responseBody, List.filterMap_cons_none]
        · rfl
        · exact if_pos hb
      · rw [if_neg hb, responseBody, List.filterMap_cons_some (b := bytes)]
        · rfl
        · exact if_neg hb
    | head bytes => rfl
    | finish => rfl
    | fail => rfl

/-- the frames of a head and of data are the frames of events with that head and that data -/
theorem response_of_prefix {raw : Bytes} {datas : List Bytes}
    (h : .respHead i raw :: datas.map (.data i) <+: responseFrames i es) :
    responseHead es = some raw ∧ datas <+: responseBody es := by
  obtain ⟨rest, hrest⟩ := h
  constructor
  · rw [responseHead_eq i, ← hrest]
    rfl
  · rw [responseBody_eq i, ← hrest, List.cons_append, List.filterMap_cons_none rfl,
      List.filterMap_append, List.filterMap_map]
    have hid : datas.filterMap (Frame.dataBytes ∘ Frame.data i) = datas := List.filterMap_some
    rw [hid]
    exact List.prefix_append _ _

/-- what is in front of every END is of the events -/
theorem Answering.front (h : Answering i es sent pc) (hp : fs <+: sent)
    (hf : ∀ j r, .end j r ∉ fs) : fs <+: responseFrames i es := by
  rcases h.sent with ⟨cut, reason, later, hr, rfl, hcut⟩ | hs
  · rcases List.prefix_or_prefix_of_prefix hp (List.prefix_append cut _) with hx | ⟨more, rfl⟩
    · exact hx.trans hcut
    · rw [List.prefix_append_right_inj] at hp
      cases more with
      | nil =>
        rw [List.append_nil]
        exact hcut
      | cons f more =>
        obtain rfl := (List.cons_prefix_cons.mp hp).1
        exact absurd (List.mem_append_right _ List.mem_cons_self) (hf i reason)
  · exact hp.trans hs.isPrefix

/-- an END without a reason is behind all of the events, and the engine ended them well -/
theorem Answering.whole (h : Answering i es sent pc) (hp : fs ++ [.end i []] <+: sent)
    (hf : ∀ j r, .end j r ∉ fs) :
    ∃ before, es = before ++ [.finish] ∧ fs = responseFrames i before := by
  have hpre : fs ++ [.end i []] <+: responseFrames i es := by
    rcases h.sent with ⟨cut, reason, later, hr, rfl, hcut⟩ | hs
    · have hfront := (List.prefix_append fs _).trans hp
      rcases List.prefix_or_prefix_of_prefix hp (List.prefix_append cut _) with hx | hx
      · exact hx.trans hcut
      · -- the END with a reason would stand in front of the other, or be it
        rcases List.prefix_concat_iff.mp hx with rfl | ⟨more, rfl⟩
        · exact hcut
        · rw [List.append_assoc, List.prefix_append_right_inj] at hp
          cases more with
          | nil =>
            cases (List.cons_prefix_cons.mp hp).1
            exact absurd rfl hr
          | cons f more =>
            obtain rfl := (List.cons_prefix_cons.mp hp).1
            exact absurd (List.mem_append_right _ List.mem_cons_self) (hf i reason)
    · exact hp.trans hs.isPrefix
  rcases List.eq_nil_or_concat es with rfl | ⟨before, e, rfl⟩
  · obtain ⟨rest, hrest⟩ := hpre
    have hlen := congrArg List.length hrest
    simp [responseFrames] at hlen
  rw [List.concat_eq_append] at hpre h ⊢
  have hon : Ongoing before := by
    have hl := h.last
    rwa [List.dropLast_concat] at hl
  rw [responseFrames_snoc] at hpre
  have hend : .end i [] ∈ e.frames i := by
    have hx := hpre.subset (List.mem_append_right fs (List.mem_singleton_self _))
    exact (List.mem_append.mp hx).resolve_left (hon.not_end i i [])
  have he : e = .finish := by
    cases e with
    | head bytes => cases List.mem_singleton.mp hend
    | chunk bytes =>
      rw [EngineEvent.frames] at hend
      by_cases hb : bytes = []
      · rw [if_pos hb] at hend
        cases hend
      · rw [if_neg hb] at hend
        cases List.mem_singleton.mp hend
    | finish => rfl
    | fail =>
      have hx := Frame.end.inj (List.mem_singleton.mp hend)
      exact absurd hx.2.symm engineFailed_ne_nil
  subst he
  refine ⟨before, rfl, ?_⟩
  change fs ++ [.end i []] <+: responseFrames i before ++ [.end i []] at hpre
  rcases List.prefix_concat_iff.mp hpre with hx | hx
  · exact (List.append_inj' hx rfl).1
  · have hmem := hx.subset (List.mem_append_right fs (List.mem_singleton_self _))
    exact absurd hmem (hon.not_end i i [])

end

/-! ## every exchange of a session -/

theorem concerns_of_stream {f : Frame} (h : f.isResponse = true) (i : UInt16) :
    concerns i f = (f.stream == i) := by
  cases f with
  | respHead j b => rfl
  | data j b => rfl
  | «end» j r => rfl
  | _ => cases h

namespace Tunnel
variable {t u : Tunnel} {a : TunnelAction} {i j : UInt16} {k : Nat}
  {es fs : Nat → List EngineEvent}

/-- the frames that a tether queued for stream `i` -/
def sentFor (t : Tunnel) (i : UInt16) : List Frame := t.tx.log.filter (concerns i)

structure Answers (es : Nat → List EngineEvent) (t : Tunnel) : Prop where
  unspawned : ∀ k, t.spawned ≤ k → es k = []
  reasons : ∀ i r, t.loop = .reply i r → r ≠ []
  pumps : ∀ k < t.spawned,
    Answering (t.pump k).id (es k) (t.sentFor (t.pump k).id) (t.pump k).pc
  /-- a stream without a pump is answered by the loop only -/
  others : ∀ i, (∀ k < t.spawned, (t.pump k).id ≠ i) → ∀ f ∈ t.sentFor i,
    ∃ r, r ≠ [] ∧ f = .end i r

theorem sentFor_append {more : List Frame} (h : u.tx.log = t.tx.log ++ more) (i : UInt16) :
    u.sentFor i = t.sentFor i ++ more.filter (concerns i) := by
  unfold sentFor
  rw [h, List.filter_append]

/-- a move that is nothing to the exchanges -/
theorem Answers.still (h : t.Answers es) (hn : u.spawned = t.spawned)
    (hid : ∀ k, (u.pump k).id = (t.pump k).id) (hpc : ∀ k, (u.pump k).pc = (t.pump k).pc)
    {more : List Frame} (hlog : u.tx.log = t.tx.log ++ more)
    (hmore : ∀ f ∈ more, f.isResponse = false) (hr : ∀ i r, u.loop = .reply i r → r ≠ []) :
    u.Answers es := by
  have hsent : ∀ i, u.sentFor i = t.sentFor i := by
    intro i
    rw [sentFor_append hlog i]
    have hnil : more.filter (concerns i) = [] := by
      refine List.filter_eq_nil_iff.mpr fun f hf => ?_
      have hf := hmore f hf
      cases f with
      | respHead j b => cases hf
      | data j b => cases hf
      | «end» j r => cases hf
      | _ => exact Bool.false_ne_true
    rw [hnil, List.append_nil]
  constructor
  · rw [hn]
    exact h.unspawned
  · exact hr
  · intro k hk
    rw [hid, hpc, hsent]
    exact h.pumps k (hn ▸ hk)
  · intro i hi f hf
    rw [hsent] at hf
    refine h.others i (fun k hk => ?_) f hf
    rw [← hid]
    exact hi k (hn ▸ hk)

/-- pump `k` moves on, and queues the frames `more` -/
theorem Answers.task (h : t.Answers es) (hi : t.Inv) (hnodup : (openedIds t.received).Nodup)
    (hk : k < t.spawned) {p : Pump} (hu : u.pump = (t.setPump k p).pump)
    (hid : p.id = (t.pump k).id) (hn : u.spawned = t.spawned) (hl : u.loop = t.loop)
    {more : List Frame} (hlog : u.tx.log = t.tx.log ++ more)
    (hmore : ∀ f ∈ more, f.isResponse = true ∧ f.stream = (t.pump k).id)
    (hes : ∀ m, m ≠ k → fs m = es m)
    (hp : Answering (t.pump k).id (fs k) (t.sentFor (t.pump k).id ++ more) p.pc) :
    u.Answers fs := by
  have hids : ∀ m, (u.pump m).id = (t.pump m).id := by
    rw [hu]
    exact forall_setPump (P := fun m q => q.id = (t.pump m).id) (fun _ => rfl) hid
  have hother : ∀ i, i ≠ (t.pump k).id → u.sentFor i = t.sentFor i := by
    intro i hik
    rw [sentFor_append hlog i, List.filter_eq_nil_iff.mpr, List.append_nil]
    intro f hf hc
    rw [concerns_of_stream (hmore f hf).1, (hmore f hf).2, beq_iff_eq] at hc
    exact hik hc.symm
  constructor
  · intro m hm
    rw [hn] at hm
    rw [hes m (by omega)]
    exact h.unspawned m hm
  · rw [hl]
    exact h.reasons
  · intro m hm
    rw [hn] at hm
    rw [hids]
    by_cases hmk : m = k
    · subst hmk
      have hown : u.sentFor (t.pump m).id = t.sentFor (t.pump m).id ++ more := by
        rw [sentFor_append hlog, List.filter_eq_self.mpr]
        intro f hf
        rw [concerns_of_stream (hmore f hf).1, (hmore f hf).2, beq_self_eq_true]
      rw [hown, hu, setPump_self]
      exact hp
    · rw [hes m hmk, hu, setPump_of_ne t p hmk, hother]
      · exact h.pumps m hm
      · exact fun hx => hmk (hi.pump_unique hnodup hm hk hx)
  · intro i hni f hf
    have hni' : ∀ m < t.spawned, (t.pump m).id ≠ i := fun m hm => hids m ▸ hni m (hn ▸ hm)
    rw [hother i (hni' k hk).symm] at hf
    exact h.others i hni' f hf

/-- the loop ends a stream with a reason -/
theorem Answers.reply (h : t.Answers es) {r : Bytes} (hr : r ≠ []) :
    Answers es { t with tx := t.tx.push (.end i r), loop := .select } := by
  have hlog := Chan.log_push t.tx (.end i r)
  have hsent : ∀ j, sentFor { t with tx := t.tx.push (.end i r), loop := .select } j =
      t.sentFor j ++ if i = j then [.end i r] else [] := by
    intro j
    rw [sentFor_append hlog j, List.filter_singleton]
    show _ ++ cond (i == j) _ _ = _
    by_cases hj : i = j
    · rw [if_pos hj, beq_iff_eq.mpr hj]
      rfl
    · rw [if_neg hj, beq_eq_false_iff_ne.mpr hj]
      rfl
  constructor
  · exact h.unspawned
  · exact fun j r' hx => by cases hx
  · intro k hk
    rw [hsent]
    show Answering (t.pump k).id (es k) _ (t.pump k).pc
    split
    · next hj =>
      rw [hj]
      exact (h.pumps k hk).replied hr
    · rw [List.append_nil]
      exact h.pumps k hk
  · intro j hj f hf
    rw [hsent] at hf
    rcases List.mem_append.mp hf with hf | hf
    · exact h.others j hj f hf
    · split at hf
      · next hij =>
        obtain rfl := List.mem_singleton.mp hf
        exact ⟨r, hr, hij ▸ rfl⟩
      · cases hf

/-- an OPEN takes up a stream that nothing was sent for -/
theorem Answers.spawn (h : t.Answers es) (hi : t.Inv) (hl : t.loop = .select)
    (hopen : i ∉ openedIds t.received) (head : Bytes) {received : List Frame} :
    Answers es { t.spawn i head with received := received } := by
  have hnone : t.sentFor i = [] := by
    refine List.filter_eq_nil_iff.mpr fun f hf hc => ?_
    have hfr : f.isResponse = true := by
      cases f with
      | respHead j b => rfl
      | data j b => rfl
      | «end» j r => rfl
      | _ => cases hc
    rw [concerns_of_stream hfr, beq_iff_eq] at hc
    exact hopen (hc ▸ hi.sent f hf hfr)
  have hsent : ∀ j, sentFor { t.spawn i head with received := received } j = t.sentFor j := by
    intro j
    unfold sentFor
    show (t.spawn i head).tx.log.filter _ = _
    rw [spawn_tx]
  have hnew : (t.spawn i head).pump t.spawned = { id := i, head := head } := by
    rw [spawn_eq]
    exact setPump_self _ _ _
  have hold : ∀ m, m ≠ t.spawned → ((t.spawn i head).pump m).id = (t.pump m).id ∧
      ((t.spawn i head).pump m).pc = (t.pump m).pc := by
    intro m hm
    rw [spawn_eq]
    show (((t.remove i).setPump _ _).pump m).id = _ ∧ (((t.remove i).setPump _ _).pump m).pc = _
    rw [setPump_of_ne _ _ hm, remove_id, remove_pc]
    exact ⟨rfl, rfl⟩
  have hcount : (t.spawn i head).spawned = t.spawned + 1 := by rw [spawn_eq]
  constructor
  · intro k hk
    change (t.spawn i head).spawned ≤ k at hk
    exact h.unspawned k (by omega)
  · intro j r hx
    change (t.spawn i head).loop = .reply j r at hx
    rw [spawn_loop, hl] at hx
    cases hx
  · intro k hk
    change k < (t.spawn i head).spawned at hk
    show Answering ((t.spawn i head).pump k).id (es k) _ ((t.spawn i head).pump k).pc
    rw [hsent]
    by_cases hks : k = t.spawned
    · -- nothing was given to the pump yet
      subst hks
      rw [hnew, h.unspawned _ le_rfl]
      show Answering i [] (t.sentFor i) (.engine false)
      rw [hnone]
      have hon : Ongoing [] := ⟨List.not_mem_nil, List.not_mem_nil⟩
      exact ⟨.inr rfl, fun _ => hon, hon⟩
    · rw [(hold k hks).1, (hold k hks).2]
      exact h.pumps k (by omega)
  · intro j hj f hf
    rw [hsent] at hf
    refine h.others j (fun k hk => ?_) f hf
    rw [← (hold k hk.ne).1]
    exact hj k (by show k < (t.spawn i head).spawned; omega)

theorem Answers.removed (h : t.Answers es) (i : UInt16) {more : List Frame}
    (hlog : u.tx.log = t.tx.log ++ more) (hmore : ∀ f ∈ more, f.isResponse = false)
    (hu : u.pump = (t.remove i).pump) (hn : u.spawned = t.spawned)
    (hr : ∀ i r, u.loop = .reply i r → r ≠ []) : u.Answers es := by
  refine h.still hn (fun k => ?_) (fun k => ?_) hlog hmore hr
  · rw [hu]
    exact remove_id t i k
  · rw [hu]
    exact remove_pc t i k

/-- the engine gives pump `k` an event -/
theorem Answers.engine (h : t.Answers es) (hi : t.Inv) (hnodup : (openedIds t.received).Nodup)
    {p : Pump} {e : EngineEvent} (hp : (t.pump k).forwardEngine e = some p) :
    (t.setPump k p).Answers fun m => es m ++ (TunnelAction.engine k e).given m := by
  obtain ⟨h1, h2, _⟩ := forwardEngine_sends hp
  have hk := hi.working k h2
  refine h.task hi hnodup hk rfl h1 rfl rfl (List.append_nil _).symm ?_ ?_ ?_
  · exact fun f hf => absurd hf List.not_mem_nil
  · intro m hm
    show es m ++ (if k = m then [e] else []) = es m
    rw [if_neg hm.symm, List.append_nil]
  · show Answering _ (es k ++ if k = k then [e] else []) _ _
    rw [if_pos rfl, List.append_nil]
    exact (h.pumps k hk).forwardEngine hp

/-- any other move -/
theorem Answers.move (h : t.Answers es) (hi : t.Inv) (hm : Move t a u)
    (ha : ∀ k e, a ≠ .engine k e) (hprop : Proper u.received) : u.Answers es := by
  have hnodup : (openedIds t.received).Nodup := (hprop.of_initial hm.received).nodup
  have hnil : ∀ l : List Frame, l = l ++ [] := fun l => (List.append_nil l).symm
  have hnone : ∀ f ∈ ([] : List Frame), f.isResponse = false :=
    fun f hf => absurd hf List.not_mem_nil
  have hone : ∀ {g : Frame}, g.isResponse = false → ∀ f ∈ [g], f.isResponse = false := by
    intro g hg f hf
    rw [List.mem_singleton.mp hf]
    exact hg
  have hwork : ∀ {k : Nat} {pc : PumpPc}, (t.pump k).pc = pc → pc ≠ .done → k < t.spawned :=
    fun hp hd => hi.working _ (by rw [hp]; exact hd)
  have hnoframe : ∀ k, ∀ f ∈ ([] : List Frame), f.isResponse = true ∧ f.stream = (t.pump k).id :=
    fun k f hf => absurd hf List.not_mem_nil
  cases hm with
  | leave | leaveOn =>
    exact h.still rfl (fun _ => rfl) (fun _ => rfl) (hnil _) hnone fun i r hx => by cases hx
  | quiet => exact h
  | pong =>
    exact h.still rfl (fun _ => rfl) (fun _ => rfl) (Chan.log_push ..) (hone rfl)
      fun i r hx => by cases hx
  | ignore => exact h.still rfl (fun _ => rfl) (fun _ => rfl) (hnil _) hnone h.reasons
  | refuse =>
    refine h.still rfl (fun _ => rfl) (fun _ => rfl) (hnil _) hnone fun i r hx => ?_
    cases hx
    decide
  | spawn hl =>
    exact h.spawn hi hl (hprop.last.2.1 _ rfl) _
  | @queue m f i b k =>
    refine h.still rfl ?_ ?_ (hnil _) hnone h.reasons
    · exact forall_setPump (P := fun m q => q.id = (t.pump m).id) (fun _ => rfl) rfl
    · exact forall_setPump (P := fun m q => q.pc = (t.pump m).pc) (fun _ => rfl) rfl
  | @exceed m f i b k =>
    refine h.removed i (by rw [← hnil]; exact congrArg _ (remove_tx t i)) hnone rfl
      (remove_spawned t i) fun j r hx => ?_
    cases hx
    decide
  | @«end» m i r =>
    refine h.removed i (by rw [← hnil]; exact congrArg _ (remove_tx t i)) hnone rfl
      (remove_spawned t i) fun j r hx => ?_
    change (t.remove i).loop = _ at hx
    rw [remove_loop] at hx
    exact h.reasons j r hx
  | @reply i r hl => exact h.reply (h.reasons i r hl)
  | @complete i k rest hl =>
    refine h.removed i (by rw [← hnil]; exact congrArg _ (remove_tx t i)) hnone rfl
      (remove_spawned t i) fun j r hx => ?_
    change (t.remove i).loop = _ at hx
    rw [remove_loop] at hx
    exact h.reasons j r hx
  | ping =>
    exact h.still rfl (fun _ => rfl) (fun _ => rfl) (Chan.log_push ..) (hone rfl)
      fun i r hx => by cases hx
  | goAway =>
    exact h.still rfl (fun _ => rfl) (fun _ => rfl) (Chan.log_push ..) (hone rfl)
      fun i r hx => by cases hx
  | @engine k e p hp => exact absurd rfl (ha k e)
  | @sent k f hp =>
    have hk := hwork hp fun hx => by cases hx
    refine h.task hi hnodup hk rfl rfl rfl rfl (Chan.log_push ..) ?_ (fun _ _ => rfl) ?_
    · intro g hg
      rw [List.mem_singleton.mp hg]
      exact hi.sending k f hp
    · have ho := hp ▸ h.pumps k hk
      exact ⟨ho.sent.imp (fun hc => hc.append _) id, fun _ => ho.ongoing rfl, ho.last⟩
  | @sendFailed k f hp =>
    have hk := hwork hp fun hx => by cases hx
    refine h.task hi hnodup hk rfl rfl rfl rfl (hnil _) (hnoframe k) (fun _ _ => rfl) ?_
    refine (hp ▸ h.pumps k hk).leave rfl fun hs => ?_
    rw [List.append_nil]
    exact ⟨hs.isPrefix, fun hx => absurd hx engineFailed_ne_nil⟩
  | @endSent k r hp =>
    have hk := hwork hp fun hx => by cases hx
    refine h.task hi hnodup hk rfl rfl rfl rfl (Chan.log_push ..) ?_ (fun _ _ => rfl) ?_
    · intro g hg
      rw [List.mem_singleton.mp hg]
      exact ⟨rfl, rfl⟩
    · have ho := hp ▸ h.pumps k hk
      by_cases hr : r = []
      · subst hr
        refine ho.leave rfl fun hs => ?_
        show _ ++ _ <+: _
        rw [hs.2 rfl]
      · exact ⟨.inl (ho.cut hr), fun hx => (by cases hx), ho.last⟩
  | @endFailed k r hp =>
    have hk := hwork hp fun hx => by cases hx
    refine h.task hi hnodup hk rfl rfl rfl rfl (hnil _) (hnoframe k) (fun _ _ => rfl) ?_
    refine (hp ▸ h.pumps k hk).leave rfl fun hs => ?_
    rw [List.append_nil]
    exact hs.1
  | @completed k hp =>
    have hk := hwork hp fun hx => by cases hx
    refine h.task hi hnodup hk rfl rfl rfl rfl (hnil _) (hnoframe k) (fun _ _ => rfl) ?_
    refine (hp ▸ h.pumps k hk).leave rfl fun hs => ?_
    rw [List.append_nil]
    exact hs
  | @cancel k p hp =>
    obtain ⟨rfl, h2⟩ := cancel_some hp
    have hk := hi.working k h2
    refine h.task hi hnodup hk rfl rfl rfl rfl (hnil _) (hnoframe k) (fun _ _ => rfl) ?_
    refine (h.pumps k hk).leave rfl fun hs => ?_
    rw [List.append_nil]
    exact hs.isPrefix
  | @poll k p hp =>
    refine h.still rfl ?_ ?_ (hnil _) hnone h.reasons
    · exact forall_setPump (P := fun m q => q.id = (t.pump m).id) (fun _ => rfl)
        (by rw [pollInput_eq hp])
    · exact forall_setPump (P := fun m q => q.pc = (t.pump m).pc) (fun _ => rfl)
        (by rw [pollInput_eq hp])
  | @dropInput k =>
    refine h.still rfl ?_ ?_ (hnil _) hnone h.reasons
    · exact forall_setPump (P := fun m q => q.id = (t.pump m).id) (fun _ => rfl) rfl
    · exact forall_setPump (P := fun m q => q.pc = (t.pump m).pc) (fun _ => rfl) rfl
  | @write f tx hr =>
    refine h.still rfl (fun _ => rfl) (fun _ => rfl) ?_ hnone h.reasons
    rw [← hnil]
    exact Chan.log_recv hr
  | writerEnd => exact h.still rfl (fun _ => rfl) (fun _ => rfl) (hnil _) hnone h.reasons

/-- **One step.** What a tether has sent of its responses stays in step with its engine. -/
theorem Answers.step (h : t.Answers es) (hi : t.Inv) (hs : t.step a = some u)
    (hprop : Proper u.received) : u.Answers fun k => es k ++ a.given k := by
  have hm := move_of_step hs
  have hquiet : (∀ k e, a ≠ .engine k e) → (fun k => es k ++ a.given k) = es := by
    intro ha
    funext k
    cases a with
    | engine k e => exact absurd rfl (ha k e)
    | _ => exact List.append_nil _
  cases a with
  | engine k e =>
    obtain ⟨p, hp, rfl⟩ := Option.map_eq_some_iff.mp hs
    exact h.engine hi hprop.nodup hp
  | _ =>
    rw [hquiet fun k e hx => by cases hx]
    exact h.move hi hm (fun k e hx => by cases hx) hprop

theorem answers_new : new.Answers fun _ => [] where
  unspawned _ _ := rfl
  reasons _ _ hx := by cases hx
  pumps _ hk := absurd hk (Nat.not_lt_zero _)
  others _ _ _ hf := absurd hf List.not_mem_nil

/-! ## the request of a pump -/

/-- what the OPEN of a pump fixes -/
def opening (t : Tunnel) (k : Nat) : Frame := .open (t.pump k).id (t.pump k).head

/-- every pump was spawned by the OPEN that it carries -/
def Opened (t : Tunnel) : Prop := ∀ k < t.spawned, t.opening k ∈ t.received

theorem opening_setPump {p : Pump} (hid : p.id = (t.pump k).id) (hhead : p.head = (t.pump k).head)
    (m : Nat) : (t.setPump k p).opening m = t.opening m := by
  unfold opening
  refine forall_setPump
    (P := fun m q => Frame.open q.id q.head = .open (t.pump m).id (t.pump m).head)
    (fun _ => rfl) ?_ m
  rw [hid, hhead]

theorem opening_remove (t : Tunnel) (i : UInt16) (k : Nat) :
    (t.remove i).opening k = t.opening k := by
  unfold opening
  obtain ⟨d, hd⟩ := pump_remove t i k
  rw [hd]

theorem forwardEngine_head {p q : Pump} {e : EngineEvent} (h : p.forwardEngine e = some q) :
    q.head = p.head := by
  unfold Pump.forwardEngine at h
  split at h
  · exact Option.some.inj h ▸ rfl
  · exact Option.some.inj h ▸ rfl
  · exact Option.some.inj h ▸ rfl
  · exact Option.some.inj h ▸ rfl
  · cases h

theorem Opened.frame (h : t.Opened) (hn : u.spawned = t.spawned)
    (ho : ∀ k, u.opening k = t.opening k) (hr : t.received ⊆ u.received) : u.Opened := by
  intro k hk
  rw [ho]
  exact hr (h k (hn ▸ hk))

theorem Opened.move (h : t.Opened) (hm : Move t a u) : u.Opened := by
  have hr : t.received ⊆ u.received := hm.received.subset
  cases hm with
  | @spawn m i head =>
    intro k hk
    change k < (t.spawn i head).spawned at hk
    show (t.spawn i head).opening k ∈ t.received ++ [.open i head]
    rw [spawn_eq] at hk ⊢
    by_cases hks : k = t.spawned
    · subst hks
      have hnew : ((t.remove i).setPump t.spawned { id := i, head := head }).opening t.spawned =
          .open i head := by
        unfold opening
        rw [setPump_self]
      exact List.mem_append_right _ (List.mem_singleton.mpr hnew)
    · have hold : ((t.remove i).setPump t.spawned { id := i, head := head }).opening k =
          t.opening k := by
        rw [← opening_remove t i k]
        unfold opening
        rw [setPump_of_ne _ _ hks]
      refine List.mem_append_left _ ?_
      show ((t.remove i).setPump t.spawned { id := i, head := head }).opening k ∈ t.received
      rw [hold]
      exact h k (by change k < t.spawned + 1 at hk; omega)
  | exceed | «end» | complete =>
    exact h.frame (remove_spawned t _) (fun k => opening_remove t _ k) hr
  | queue | sent | sendFailed | endSent | endFailed | completed | dropInput =>
    exact h.frame rfl (fun k => opening_setPump (by rfl) (by rfl) k) hr
  | engine hp =>
    exact h.frame rfl (opening_setPump (forwardEngine_sends hp).1 (forwardEngine_head hp)) hr
  | cancel hp =>
    obtain ⟨rfl, -⟩ := cancel_some hp
    exact h.frame rfl (opening_setPump (by rfl) (by rfl)) hr
  | @poll k p hp =>
    refine h.frame rfl (opening_setPump ?_ ?_) hr
    · rw [pollInput_eq hp]
    · rw [pollInput_eq hp]
  | _ => exact h.frame rfl (fun _ => rfl) hr

theorem Reachable.opened (h : Reachable t) : t.Opened :=
  h.move (fun _ hk => absurd hk (Nat.not_lt_zero _)) fun _ _ _ _ hi hm => hi.move hm

end Tunnel

end AnvilRing
