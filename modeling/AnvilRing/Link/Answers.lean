import AnvilRing.Link.Exchange
import AnvilRing.Link.Network

/-!
# The answers of a hub with all its tethers

* `Network.given`           what the engine behind a tether gave a pump along a run of the network;
* `Network.link_step`       a step of the network on one of its links;
* `Network.run_link`        along a run, every link has a run of its own, with the same events;
* `answer_fidelity`         every caller of the hub is answered by one engine, with what that engine
                            was asked and what it said.
-/

namespace AnvilRing
open Wire

namespace Network
variable {digest : Bytes → String} {lib : HttpLib} {limit : Nat} {n m : Network}
  {a : NetworkAction} {g : Nat}

/-- what a step of the network gives pump `k` of the tether of generation `g` -/
def given (g k : Nat) : NetworkAction → List EngineEvent
  | .tether g' a => if g' = g then a.given k else []
  | _ => []

/-- what the engine gave pump `k` of the tether of generation `g` along a run -/
def engineEvents (g k : Nat) (as : List NetworkAction) : List EngineEvent := as.flatMap (given g k)

theorem engineEvents_snoc (g k : Nat) (as : List NetworkAction) (a : NetworkAction) :
    engineEvents g k (as ++ [a]) = engineEvents g k as ++ given g k a := by
  unfold engineEvents
  rw [List.flatMap_append, List.flatMap_cons, List.flatMap_nil, List.append_nil]

/-- a step of the network on the link of generation `g` -/
inductive LinkStep (lib : HttpLib) (limit : Nat) (n : Network) (a : NetworkAction) (m : Network)
    (g : Nat) : Prop where
  | none (hlink : m.link g = n.link g) (hgiven : ∀ k, given g k a = [])
  | one (b : LinkAction) (hlink : Link.step lib limit (n.link g) b = some (m.link g))
      (hgiven : ∀ k, given g k a = Link.given k b)
  | attached (id : String) (cred : Bytes) (now : Nat) (hg : g = n.hub.reg.nextGeneration)
      (hlink : m.link g = { n.link g with hub := .new id cred now })
      (hgiven : ∀ k, given g k a = [])

/-- a step on the link of generation `g'`, which leaves the others alone -/
theorem LinkStep.update (g' : Nat) (b : LinkAction)
    (hlink : Link.step lib limit (n.link g') b = some (m.link g'))
    (hother : ∀ k, k ≠ g' → m.link k = n.link k)
    (hgiven : ∀ k, given g' k a = Link.given k b) (hnone : ∀ k, g ≠ g' → given g k a = []) :
    LinkStep lib limit n a m g := by
  by_cases hg : g = g'
  · subst hg
    exact .one b hlink hgiven
  · exact .none (hother g hg) fun k => hnone k hg

theorem link_step (h : step digest lib limit n a = some m) (g : Nat) :
    LinkStep lib limit n a m g := by
  cases a with
  | hub a =>
    change (if hubOwn a then _ else none) = some m at h
    split at h
    · next hown =>
      obtain ⟨w, hw, rfl⟩ := Option.map_eq_some_iff.mp h
      obtain heq | ⟨b, hb, hs⟩ | ⟨id, cred, hg, hnew⟩ := (World.move_of_step hw).link_step g
      · refine .none ?_ fun _ => rfl
        unfold Network.link
        rw [heq]
      · have hb' : Link.hubOwn b = true := by
          obtain hb | rfl := hb
          · exact hb
          · exact hown
        refine .one (.hub b) ?_ fun _ => rfl
        show (if Link.hubOwn b then (Session.step lib (n.hub.sess g) b).map _ else none) = _
        rw [if_pos hb', hs]
        rfl
      · refine .attached id cred n.hub.now hg ?_ fun _ => rfl
        unfold Network.link
        rw [hnew]
    · cases h
  | hubWrite g' =>
    obtain ⟨e, he, h⟩ := Option.bind_eq_some_iff.mp h
    obtain ⟨w, hw, rfl⟩ := Option.map_eq_some_iff.mp h
    obtain ⟨-, -, hs, hother⟩ := World.step_session hw
    refine .update g' .hubWrite ?_ ?_ (fun _ => rfl) fun _ _ => rfl
    · show (n.hub.sess g').tx.recv.bind _ = _
      rw [he, Option.bind_some, show Session.step lib (n.link g').hub .write = _ from hs]
      unfold Network.link
      simp
    · intro k hk
      unfold Network.link
      simp [hk, hother k hk]
  | hubRecv g' now =>
    obtain ⟨e, he, h⟩ := Option.bind_eq_some_iff.mp h
    obtain ⟨w, hw, rfl⟩ := Option.map_eq_some_iff.mp h
    obtain ⟨-, -, hs, hother⟩ := World.step_session hw
    refine .update g' (.hubRecv now) ?_ ?_ (fun _ => rfl) fun _ _ => rfl
    · show (n.up g').recv.bind _ = _
      rw [he, Option.bind_some,
        show Session.step lib (n.link g').hub (Link.hubReads limit e.1 now) = _ from hs]
      unfold Network.link
      simp
    · intro k hk
      unfold Network.link
      simp [hk, hother k hk]
  | tether g' a =>
    change (if _ then _ else none) = some m at h
    split at h
    · next hg =>
      obtain ⟨t, ht, rfl⟩ := Option.map_eq_some_iff.mp h
      refine .update g' (.tether a) ?_ ?_ (fun _ => if_pos rfl)
        fun _ hne => if_neg hne.symm
      · show (if Link.tetherOwn a then ((n.tether g').step a).map _ else none) = _
        rw [if_pos hg.2, ht]
        unfold Network.link
        simp
      · intro k hk
        unfold Network.link
        simp [hk]
    · cases h
  | tetherWrite g' =>
    change (if _ then _ else none) = some m at h
    split at h
    · obtain ⟨e, he, h⟩ := Option.bind_eq_some_iff.mp h
      obtain ⟨t, ht, rfl⟩ := Option.map_eq_some_iff.mp h
      refine .update g' .tetherWrite ?_ ?_ (fun _ => rfl) fun _ _ => rfl
      · show (n.tether g').tx.recv.bind _ = _
        rw [he, Option.bind_some, show (n.link g').tether.step .write = some t from ht]
        unfold Network.link
        simp
      · intro k hk
        unfold Network.link
        simp [hk]
    · cases h
  | tetherRecv g' =>
    change (if _ then _ else none) = some m at h
    split at h
    · obtain ⟨e, he, h⟩ := Option.bind_eq_some_iff.mp h
      obtain ⟨t, ht, rfl⟩ := Option.map_eq_some_iff.mp h
      refine .update g' .tetherRecv ?_ ?_ (fun _ => rfl) fun _ _ => rfl
      · show (n.down g').recv.bind _ = _
        rw [he, Option.bind_some,
          show (n.link g').tether.step (Link.tetherReads limit e.1) = some t from ht]
        unfold Network.link
        simp
      · intro k hk
        unfold Network.link
        simp [hk]
    · cases h

/-- nothing is given to a tether that has not connected -/
theorem given_of_fresh (h : step digest lib limit n a = some m)
    (hg : n.hub.reg.nextGeneration ≤ g) (k : Nat) : given g k a = [] := by
  cases a with
  | tether g' a =>
    change (if _ then _ else none) = some m at h
    split at h
    · next ha =>
      have hlt : g' < n.hub.reg.nextGeneration := ha.1.2
      exact if_neg (by omega)
    · cases h
  | _ => rfl

theorem nextGeneration_le (h : step digest lib limit n a = some m) :
    n.hub.reg.nextGeneration ≤ m.hub.reg.nextGeneration := by
  obtain heq | ⟨b, hb⟩ := step_hub h
  · rw [heq]
  · exact (World.move_of_step hb).nextGeneration

/-- along a run, every link has a run of its own in which its engine says the same -/
theorem run_link {as : List NetworkAction} (h₀ : Initial n)
    (h : Machine.run (step digest lib limit) n as = some m) (g : Nat) :
    ∃ l₀ bs, Link.Initial l₀ ∧ Machine.run (Link.step lib limit) l₀ bs = some (m.link g) ∧
      ∀ k, Link.engineEvents k bs = engineEvents g k as := by
  suffices htrace : Inv lib limit m ∧
      (∀ g, m.hub.reg.nextGeneration ≤ g → ∀ k, engineEvents g k as = []) ∧
      ∀ g, ∃ l₀ bs, Link.Initial l₀ ∧ Machine.run (Link.step lib limit) l₀ bs = some (m.link g) ∧
        ∀ k, Link.engineEvents k bs = engineEvents g k as from htrace.2.2 g
  refine Machine.run_trace (P := fun as n => Inv lib limit n ∧
    (∀ g, n.hub.reg.nextGeneration ≤ g → ∀ k, engineEvents g k as = []) ∧
    ∀ g, ∃ l₀ bs, Link.Initial l₀ ∧ Machine.run (Link.step lib limit) l₀ bs = some (n.link g) ∧
      ∀ k, Link.engineEvents k bs = engineEvents g k as) ?_ ?_ h
  · intro as n a m ⟨hi, hfresh, hlinks⟩ hs
    refine ⟨hi.step hs, fun g hg k => ?_, fun g => ?_⟩
    · have hle := (nextGeneration_le hs).trans hg
      rw [engineEvents_snoc, hfresh g hle k, given_of_fresh hs hle k]
      rfl
    · obtain ⟨l₀, bs, hl₀, hrun, hevents⟩ := hlinks g
      cases link_step hs g with
      | none hlink hgiven =>
        refine ⟨l₀, bs, hl₀, hlink ▸ hrun, fun k => ?_⟩
        rw [engineEvents_snoc, hgiven, List.append_nil, hevents]
      | one b hlink hgiven =>
        refine ⟨l₀, bs ++ [b], hl₀, ?_, fun k => ?_⟩
        · exact Machine.run_append_some.mpr
            ⟨_, hrun, Machine.run_cons_some.mpr ⟨_, hlink, rfl⟩⟩
        · rw [engineEvents_snoc, hgiven, ← hevents, Link.engineEvents_snoc]
      | attached id cred now hg hlink hgiven =>
        -- the generation is new: nothing has happened on its link
        obtain ⟨htether, hdown, hup⟩ := hi.fresh g hg.ge
        refine ⟨m.link g, [], ⟨id, cred, now, ?_⟩, rfl, fun k => ?_⟩
        · rw [hlink]
          show Link.mk _ (n.tether g) (n.down g) (n.up g) = _
          rw [htether, hdown, hup]
        · rw [engineEvents_snoc, hgiven, hfresh g hg.ge k]
          rfl
  · refine ⟨inv_initial h₀, fun _ _ _ => rfl, fun g => ⟨n.link g, [], ?_, rfl, fun _ => rfl⟩⟩
    obtain ⟨w, ⟨lease, now, rfl⟩, rfl⟩ := h₀
    exact ⟨"", [], now, rfl⟩

end Network

/-- **One answer, one engine exchange.**  At the end of every run of a hub with its tethers: a
caller of stream `i` of the session of generation `g` has the hub's own answer for a missing head,
or the head that the engine behind that tether gave the one pump of the stream, without its
hop-by-hop fields; that pump asked the engine with the caller's request head; what the caller's body
yielded is the first part of the chunks that the engine gave the pump; and the body ended cleanly
only if the engine ended the exchange well, with all of its chunks yielded. -/
theorem answer_fidelity {digest : Bytes → String} {lib : HttpLib} {limit : Nat}
    (hlimit : limit < 2 ^ 32) {n₀ n : Network} (h₀ : Network.Initial n₀)
    {as : List NetworkAction}
    (h : Machine.run (Network.step digest lib limit) n₀ as = some n) (g : Nat) (i : UInt16) :
    (∀ a, ((n.hub.sess g).state i).answer = some a → a = StreamState.noHeadResponse ∨
      ∃ res, ((n.hub.sess g).state i).head = some res ∧ a = StreamState.respond res) ∧
    (((n.hub.sess g).state i).polls ≠ [] → ((n.hub.sess g).state i).head ≠ none) ∧
    ∀ res, ((n.hub.sess g).state i).head = some res → ∃ k raw, (n.link g).Serves i k ∧
      responseHead (Network.engineEvents g k as) = some raw ∧ parseHead lib raw = some (res, []) ∧
      ((n.hub.sess g).state i).yielded <+: responseBody (Network.engineEvents g k as) ∧
      (((n.hub.sess g).state i).EndedCleanly → ∃ es,
        Network.engineEvents g k as = es ++ [.finish] ∧
          ((n.hub.sess g).state i).yielded = responseBody es) := by
  obtain ⟨l₀, bs, hl₀, hrun, hevents⟩ := Network.run_link h₀ h g
  simp only [← hevents]
  exact Link.run_exchange hlimit hl₀ hrun i

/-- the engine goes on with a chunk and ends the exchange, and the caller reads it all -/
def fetchedRun : List NetworkAction :=
  answeredRun ++
    [.tether 1 (.engine 0 (.chunk (ascii "hi"))), .tether 1 (.pumpSend 0), .tetherWrite 1,
      .hubRecv 1 0, .hub (.session 1 .loop), .hub (.session 1 .loop),
      .tether 1 (.engine 0 .finish), .tether 1 (.pumpSend 0), .tetherWrite 1, .hubRecv 1 0] ++
    List.replicate 5 (.hub (.session 1 .loop)) ++
    List.replicate 7 (.hub (.session 1 (.caller 1 true)))

theorem fetchedRun_isSome : (Machine.run (Network.step twoDigests okLib defaultLimit)
    { hub := freshHub } fetchedRun).isSome = true := by
  decide

theorem answer_fidelity_fetched : ∃ n : Network, ((n.hub.sess 1).state 1).EndedCleanly ∧
    ((n.hub.sess 1).state 1).yielded = [ascii "hi"] ∧ ∃ k es, (n.link 1).Serves 1 k ∧
      Network.engineEvents 1 k fetchedRun = es ++ [.finish] ∧ responseBody es = [ascii "hi"] := by
  obtain ⟨-, -, hfrom⟩ := answer_fidelity (by decide) ⟨freshHub, ⟨_, _, rfl⟩, rfl⟩
    (Option.some_get fetchedRun_isSome).symm 1 1
  have hend : (((Option.get _ fetchedRun_isSome).hub.sess 1).state 1).EndedCleanly :=
    ⟨[.chunk (ascii "hi")], [], by decide, by decide⟩
  have hyield : (((Option.get _ fetchedRun_isSome).hub.sess 1).state 1).yielded = [ascii "hi"] := by
    decide
  obtain ⟨k, raw, hserves, -, -, -, hclean⟩ := hfrom ⟨200, []⟩ (by decide)
  obtain ⟨es, hes, hall⟩ := hclean hend
  exact ⟨_, hend, hyield, k, es, hserves, hes, hall.symm.trans hyield⟩

end AnvilRing
