import AnvilRing.Link.Load
import AnvilRing.Link.Upload
import AnvilRing.Tether.Ends

/-!
# No orphaned engine work

A stream that the tether still works on is one that the hub still has, or one whose END is on its
way to the tether, or its hub session is going down, which ends the tether's session.

* `no_orphans`               it holds in every reachable state;
* `no_orphans_ending`        a caller that went away: END is on its way;
* `orphan_behind_writer`     a session whose writer has ended drops the END of such a caller before
                             it is closed or cancelled.
-/

namespace AnvilRing
open Wire

/-- **No orphaned engine work.**  A stream with a handle at the tether, whose pump has not sent its
END, is registered and not terminal at the hub, or its END is queued, in flight or about to be
queued, or the hub session is going down. -/
theorem no_orphans {lib : HttpLib} {limit : Nat} (hlimit : limit < 2 ^ 32) {l : Link}
    (h : Link.Reachable lib limit l) {i : UInt16} {k : Nat}
    (hk : l.tether.streams.get i = some k) (hend : ¬ l.tether.EndSent k) :
    (i ∈ l.hub.streams ∧ ¬ (l.hub.state i).Terminal) ∨ (∃ r, .end i r ∈ l.path) ∨
      l.hub.Releasing i ∨ l.hub.Down := by
  have hinv := h.inv hlimit
  have htether := h.tether.inv
  have hended := h.tether.ended (hinv.proper.of_initial hinv.handled_isPrefix)
  have hnone : ∀ r, .end i r ∉ l.tether.tx.log := fun r hr =>
    hend (hended.endSent htether hk hr)
  have hserved : i ∈ l.tether.serving := by
    refine Tunnel.mem_serving.mpr ⟨⟨k, hk⟩, fun hx => ?_⟩
    obtain ⟨r, hr⟩ := mem_endedIds.mp hx
    exact hnone r hr
  have hopen : i ∈ openedIds l.hub.tx.log := by
    obtain ⟨h1, h2⟩ := htether.handle i k hk
    exact Link.openedIds_mono hinv.handled_isPrefix (h2 ▸ htether.opened h1)
  have hreg : (l.hub.state i).registered = true := h.hub.idInv.opened i hopen
  rcases h.hub.released hreg with hx | ⟨r, hx⟩ | hx | ⟨r, hx⟩ | hx
  · exact .inl hx
  · right; left
    exact mem_endedIds.mp (h.end_on_path hlimit hserved (mem_endedIds.mpr ⟨r, hx⟩))
  · exact .inr (.inr (.inl hx))
  · -- an END of the tether for this stream does not exist
    have hrec : Frame.end i r ∈ l.hub.received :=
      List.mem_of_mem_drop (List.mem_of_mem_filter hx)
    exact absurd (hinv.mem_tether (hinv.received _ hrec)) (hnone r)
  · exact .inr (.inr (.inr hx))

/-- a caller is answered with stream 1, and the tether spawns its pump -/
def servedRun : List LinkAction :=
  [.hub (.reserve ⟨[], [], true⟩), .hub .forward, .hub .forward, .hub .forward, .hub .forward,
    .hub .forward, .hubWrite, .tetherRecv]

/-- the caller goes away, and the guard of stream 1 runs -/
def goneRun : List LinkAction :=
  [.hub (.callerDrop 1), .hub (.guard 1), .hub (.guard 1), .hub (.guard 1), .hub (.guard 1)]

theorem goneRun_isSome : (Machine.run (Link.step okLib defaultLimit) freshLink
    (servedRun ++ goneRun)).isSome = true := by
  decide

theorem no_orphans_ending : ∃ l, Link.Reachable okLib defaultLimit l ∧
    l.tether.streams.get 1 = some 0 ∧ ¬ l.tether.EndSent 0 ∧ l.path = [.end 1 []] ∧
    ((1 ∈ l.hub.streams ∧ ¬ (l.hub.state 1).Terminal) ∨ (∃ r, .end 1 r ∈ l.path) ∨
      l.hub.Releasing 1 ∨ l.hub.Down) := by
  have hreach := (Machine.Reachable.init ⟨_, _, _, rfl⟩ :
    Link.Reachable okLib defaultLimit freshLink).run (Option.some_get goneRun_isSome).symm
  have hget : (Option.get _ goneRun_isSome).tether.streams.get 1 = some 0 := by decide +kernel
  have hpc : ((Option.get _ goneRun_isSome).tether.pump 0).pc = .engine false := by decide +kernel
  have hend : ¬ (Option.get _ goneRun_isSome).tether.EndSent 0 :=
    fun hx => Tunnel.not_past hpc nofun nofun hx.1
  exact ⟨_, hreach, hget, hend, by decide +kernel, no_orphans (by decide) hreach hget hend⟩

theorem orphanRun_isSome : (Machine.run (Link.step okLib defaultLimit) freshLink
    (servedRun ++ .hub .writerEnd :: goneRun)).isSome = true := by
  decide

/-- A session whose WebSocket writer has ended drops the END of a caller that goes away, before its
loop notices and closes it: nothing at the hub speaks of the stream any more. -/
theorem orphan_behind_writer : ∃ l, Link.Reachable okLib defaultLimit l ∧
    l.tether.streams.get 1 = some 0 ∧ ¬ l.tether.EndSent 0 ∧
    ¬ ((1 ∈ l.hub.streams ∧ ¬ (l.hub.state 1).Terminal) ∨ (∃ r, .end 1 r ∈ l.path) ∨
      l.hub.Releasing 1 ∨ l.hub.closed = true ∨ l.hub.abort = true) := by
  have hreach := (Machine.Reachable.init ⟨_, _, _, rfl⟩ :
    Link.Reachable okLib defaultLimit freshLink).run (Option.some_get orphanRun_isSome).symm
  have hpc : ((Option.get _ orphanRun_isSome).tether.pump 0).pc = .engine false := by
    decide +kernel
  have hpath : (Option.get _ orphanRun_isSome).path = [] := by decide +kernel
  have hloop : (Option.get _ orphanRun_isSome).hub.loop = .select := by decide +kernel
  have hupload : ((Option.get _ orphanRun_isSome).hub.state 1).uploadPc = .reading := by
    decide +kernel
  have hguard : ((Option.get _ orphanRun_isSome).hub.state 1).guardPc = .dropped := by
    decide +kernel
  refine ⟨_, hreach, by decide +kernel, fun hx => Tunnel.not_past hpc nofun nofun hx.1, ?_⟩
  rintro (⟨hx, _⟩ | ⟨r, hx⟩ | (hx | ⟨⟨stage, hx⟩ | hx⟩ | ⟨hx, _⟩ | hx) | hx | hx)
  · exact absurd hx (by decide +kernel)
  · rw [hpath] at hx
    cases hx
  · rw [hloop] at hx
    cases hx
  · rw [hupload] at hx
    cases hx
  · rw [hupload] at hx
    cases hx
  · rw [hguard] at hx
    cases hx
  · rw [hguard] at hx
    cases hx
  · exact absurd hx (by decide +kernel)
  · exact absurd hx (by decide +kernel)

end AnvilRing
