import AnvilRing.Link.Wire

/-!
# A caller's body across the tunnel

The upload task sends a script: the chunks of the caller's body and, if it ended cleanly, HALF_END.
Every queue between it and the engine holds a part of that script, cut somewhere, and the request
body ends cleanly only behind its last entry.

* `upload_fidelity`      the engine reads a prefix of the caller's bytes, and a clean end only
                         behind all of them;
* `upload_fidelity_ok`   a run in which it reads them all.
-/

namespace AnvilRing
open Wire

/-- what is left of a script without HALF_END -/
theorem filter_script (body : List CallerFrame) (ok : Bool) :
    ((script body ok).filter fun b => b ≠ []) = bodyChunks body := by
  have hchunks : (bodyChunks body).filter (fun b => b ≠ []) = bodyChunks body :=
    List.filter_eq_self.mpr fun b hb => by simpa using bodyChunks_ne hb
  unfold script
  rw [List.filter_append, hchunks]
  cases ok with
  | true => simp
  | false => simp

/-- the script says HALF_END last -/
theorem script_end {body : List CallerFrame} {ok : Bool} {taken : List Bytes}
    (ht : taken <+: script body ok) (hn : [] ∈ taken) : ok = true ∧ taken = script body ok := by
  have hchunks : [] ∉ bodyChunks body := fun hx => bodyChunks_ne hx rfl
  cases ok with
  | false =>
    have hx := ht.subset hn
    simp only [script, Bool.false_eq_true, ↓reduceIte, List.append_nil] at hx
    exact absurd hx hchunks
  | true =>
    refine ⟨rfl, ?_⟩
    change taken <+: bodyChunks body ++ [[]] at ht
    rcases List.prefix_concat_iff.mp ht with hx | hx
    · exact hx
    · exact absurd (hx.subset hn) hchunks

/-- **A caller's body across the tunnel.**  In every state that a hub session and its tether can
reach, whatever a pump's request body has yielded is a prefix of the bytes of the caller whose
stream the pump serves; and it has ended cleanly only if the caller's body did, with all of its
bytes yielded. -/
theorem upload_fidelity {lib : HttpLib} {limit : Nat} (hlimit : limit < 2 ^ 32) {l : Link}
    (h : Link.Reachable lib limit l) (k : Nat) :
    (yields (l.tether.pump k).polls).flatten <+:
      bodyBytes (l.hub.state (l.tether.pump k).id).request.body ∧
    (EndsCleanly (l.tether.pump k).polls →
      (l.hub.state (l.tether.pump k).id).request.bodyOk = true ∧
      (yields (l.tether.pump k).polls).flatten =
        bodyBytes (l.hub.state (l.tether.pump k).id).request.body) := by
  have hinv := h.inv hlimit
  have hpump := (h.tether.input (hinv.proper.of_initial hinv.handled_isPrefix)).pump k
  generalize (l.tether.pump k).id = i at hpump ⊢
  have htaken : (l.tether.pump k).input.taken <+:
      script (l.hub.state i).request.body (l.hub.state i).request.bodyOk := by
    have h1 : (l.tether.pump k).input.taken <+: (l.tether.pump k).input.log :=
      List.prefix_append _ _
    have h2 : uploads i l.tether.received <+: uploads i l.hub.tx.log :=
      hinv.handled_isPrefix.filterMap _
    exact ((h1.trans hpump.log).trans h2).trans (h.hub.uploads i).isPrefix
  refine ⟨?_, fun hend => ?_⟩
  · rw [hpump.yielded, ← flatten_bodyChunks, ← filter_script _ (l.hub.state i).request.bodyOk]
    obtain ⟨rest, hrest⟩ := htaken.filter fun b => decide (b ≠ [])
    rw [← hrest, List.flatten_append]
    exact List.prefix_append _ _
  · obtain ⟨hok, hall⟩ := script_end htaken (hpump.ended hend)
    refine ⟨hok, ?_⟩
    rw [hpump.yielded, hall, filter_script, flatten_bodyChunks]

/-- the longest message that a WebSocket reader accepts unless told otherwise -/
def defaultLimit : Nat := 64 * 2 ^ 20

/-- a caller sends two chunks, with an empty one between them, and the engine reads them -/
def uploadRun : List LinkAction :=
  [.hub (.reserve ⟨[], [.data (ascii "hi"), .data [], .data (ascii "yo")], true⟩),
    .hub .forward, .hub .forward, .hub .forward, .hub .forward, .hub .forward, .hubWrite,
    .tetherRecv, .hub (.upload 1), .hub (.upload 1), .hub (.upload 1), .hub (.upload 1),
    .hub (.upload 1), .hub (.upload 1), .hub (.upload 1), .hubWrite, .hubWrite, .hubWrite,
    .tetherRecv, .tetherRecv, .tetherRecv, .tether (.poll 0), .tether (.poll 0), .tether (.poll 0)]

def freshLink : Link := { hub := .new "a" [] 0, tether := .new }

theorem uploadRun_isSome :
    (Machine.run (Link.step okLib defaultLimit) freshLink uploadRun).isSome = true := by
  decide +kernel

theorem reachable_uploadRun :
    Link.Reachable okLib defaultLimit (Option.get _ uploadRun_isSome) :=
  (Machine.Reachable.init ⟨_, _, _, rfl⟩).run (Option.some_get uploadRun_isSome).symm

theorem upload_fidelity_ok : ∃ l, Link.Reachable okLib defaultLimit l ∧
    EndsCleanly (l.tether.pump 0).polls ∧ (yields (l.tether.pump 0).polls).flatten = ascii "hiyo" ∧
    (l.hub.state (l.tether.pump 0).id).request.bodyOk = true := by
  have hends : EndsCleanly ((Option.get _ uploadRun_isSome).tether.pump 0).polls :=
    ⟨[.chunk (ascii "hi"), .chunk (ascii "yo")], [], by decide +kernel, by decide⟩
  exact ⟨_, reachable_uploadRun, hends, by decide +kernel,
    ((upload_fidelity (by decide) reachable_uploadRun 0).2 hends).1⟩

end AnvilRing
