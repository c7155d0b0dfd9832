import AnvilRing.Message
import Mathlib.Tactic.IntervalCases

/-!
# The tether's client loop

`run_client` dials, serves one session and waits, forever.  A round is one `Attempt`; the loop is a
fold over the attempts made so far.

* `runClient`                the loop, with the waits it made;
* `leaseTick`                the delay that `serve_over` arms after WELCOME;
* `Client.backoff_eq`        the backoff counts rounds, not failures;
* `redial_delay_iff`         when a wait is the one that the failures since the last session call
                             for.
-/

namespace AnvilRing

/-- `BACKOFF_MIN`, in milliseconds -/
def backoffMin : Nat := 500

/-- `BACKOFF_MAX` -/
def backoffMax : Nat := 30000

/-- how `run_session` ended -/
inductive SessionEnd where
  /-- the lease tick fired: GOAWAY "lease refresh" -/
  | leaseRefresh
  /-- GOAWAY from the hub -/
  | goAway
  | error
  deriving DecidableEq, Repr

/-- one round of `run_client` -/
inductive Attempt where
  | dialFailed
  /-- `serve_over` failed before WELCOME -/
  | refused
  /-- a session that reached WELCOME -/
  | session (lease : UInt64) (how : SessionEnd)
  deriving DecidableEq, Repr

/-- the session was authorized -/
def Attempt.authorized : Attempt → Bool
  | .session _ _ => true
  | _ => false

structure TunnelState where
  up : Bool := false
  generations : Nat := 0
  /-- lease seconds from the last WELCOME; 0 means never authorized -/
  leaseSecs : UInt64 := 0
  deriving DecidableEq, Repr

structure Client where
  state : TunnelState := {}
  backoff : Nat := backoffMin
  /-- history: the waits, oldest first -/
  waits : List Nat := []
  deriving DecidableEq, Repr

namespace Client

/-- `dial` and `serve_over`: what a round leaves in the shared state -/
def serve (st : TunnelState) : Attempt → TunnelState
  | .session lease _ => { up := true, generations := st.generations + 1, leaseSecs := lease }
  | _ => st

/-- one round: serve, mark the tunnel down, wait, double the backoff -/
def round (c : Client) (a : Attempt) : Client :=
  { state := { serve c.state a with up := false }
    waits := c.waits ++ [c.backoff]
    backoff := min (c.backoff * 2) backoffMax }

end Client

/-- the client after the attempts `h` -/
def runClient (h : List Attempt) : Client := h.foldl Client.round {}

/-- the wait before the next dial, after the attempts `h` -/
def redialWait (h : List Attempt) : Nat := (runClient h).waits.getLastD 0

/-- the delay before reauthorization, in seconds; `none` where `lease_secs * 3` overflows -/
def leaseTick (lease : UInt64) : Option Nat :=
  let leaseSecs := if lease = 0 then 60 else lease.toNat
  if leaseSecs * 3 < 2 ^ 64 then some (max (leaseSecs * 3 / 4) 5) else none

/-! ## the waits -/

/-- `BACKOFF_MIN` doubled `n` times, at most `BACKOFF_MAX` -/
def delay (n : Nat) : Nat := min (backoffMin * 2 ^ n) backoffMax

theorem delay_succ (n : Nat) : min (delay n * 2) backoffMax = delay (n + 1) := by
  unfold delay backoffMax
  rw [pow_succ, ← Nat.mul_assoc]
  omega

theorem delay_of_ge {n : Nat} (h : 6 ≤ n) : delay n = backoffMax := by
  have hp : 2 ^ 6 ≤ 2 ^ n := Nat.pow_le_pow_right (by norm_num) h
  unfold delay backoffMin backoffMax
  omega

/-- a delay below the cap tells how often it was doubled -/
theorem delay_inj {m n : Nat} : delay m = delay n ↔ m = n ∨ 6 ≤ m ∧ 6 ≤ n := by
  constructor
  · intro h
    by_cases hm : 6 ≤ m
    · by_cases hn : 6 ≤ n
      · exact .inr ⟨hm, hn⟩
      · rw [delay_of_ge hm] at h
        interval_cases n <;> simp [delay, backoffMin, backoffMax] at h
    · by_cases hn : 6 ≤ n
      · rw [delay_of_ge hn] at h
        interval_cases m <;> simp [delay, backoffMin, backoffMax] at h
      · left
        interval_cases m <;> interval_cases n <;>
          first | rfl | simp [delay, backoffMin, backoffMax] at h
  · intro h
    rcases h with rfl | ⟨hm, hn⟩
    · rfl
    · rw [delay_of_ge hm, delay_of_ge hn]

theorem runClient_snoc (h : List Attempt) (a : Attempt) :
    runClient (h ++ [a]) = (runClient h).round a := by
  rw [runClient, List.foldl_append]
  rfl

/-- the backoff counts rounds, whatever came of them -/
theorem Client.backoff_eq (h : List Attempt) : (runClient h).backoff = delay h.length := by
  induction h using List.reverseRecOn with
  | nil => rfl
  | append_singleton h a ih =>
    rw [runClient_snoc, List.length_append, List.length_singleton, ← delay_succ, ← ih]
    rfl

theorem redialWait_snoc (h : List Attempt) (a : Attempt) :
    redialWait (h ++ [a]) = delay h.length := by
  rw [redialWait, runClient_snoc, ← Client.backoff_eq]
  exact List.getLastD_concat ..

/-! ## the redial contract -/

/-- the failed attempts since the last authorized session -/
def failures (h : List Attempt) : Nat := (h.reverse.takeWhile fun a => !a.authorized).length

theorem failures_snoc (h : List Attempt) (a : Attempt) :
    failures (h ++ [a]) = if a.authorized then 0 else failures h + 1 := by
  rw [failures, List.reverse_append, List.reverse_singleton, List.singleton_append,
    List.takeWhile_cons]
  cases a.authorized <;> rfl

theorem failures_le (h : List Attempt) : failures h ≤ h.length :=
  (List.takeWhile_sublist _).length_le.trans h.length_reverse.le

/-- every attempt so far failed -/
theorem failures_eq_length {h : List Attempt} :
    failures h = h.length ↔ ∀ a ∈ h, a.authorized = false := by
  induction h using List.reverseRecOn with
  | nil => simp [failures]
  | append_singleton h a ih =>
    have hle := failures_le h
    rw [failures_snoc, List.length_append, List.length_singleton, List.forall_mem_append,
      List.forall_mem_singleton]
    cases ha : a.authorized with
    | true => simp
    | false =>
      rw [← ih]
      simp

/-- What the wait after the attempts `h` has to be.  `free` is the number of failed attempts since
the last authorized session that are not answered with a doubling: one where the first failure
waits `BACKOFF_MIN`, as the operator guide has it, none where it doubles already. -/
structure RedialContract (free : Nat) (h : List Attempt) : Prop where
  least : backoffMin ≤ redialWait h
  most : redialWait h ≤ backoffMax
  doubled : redialWait h = delay (failures h - free)
  reset : ∀ init a, h = init ++ [a] → a.authorized = true → redialWait h = backoffMin

theorem redialContract_iff (free : Nat) {h : List Attempt} (hne : h ≠ []) :
    RedialContract free h ↔ h.length - 1 = failures h - free ∨
      6 ≤ h.length - 1 ∧ 6 ≤ failures h - free := by
  obtain ⟨init, a, rfl⟩ := (List.eq_nil_or_concat' h).resolve_left hne
  have hw := redialWait_snoc init a
  have hlen : (init ++ [a]).length - 1 = init.length := by simp
  rw [hlen, ← delay_inj, ← hw]
  refine ⟨fun h => h.doubled, fun h => ⟨?_, ?_, h, ?_⟩⟩
  · have hp : 1 ≤ 2 ^ init.length := Nat.one_le_two_pow
    rw [hw]
    unfold delay backoffMin backoffMax
    omega
  · rw [hw]
    exact min_le_right _ _
  · intro init' a' he ha
    obtain rfl : a = a' := List.singleton_inj.mp (List.append_inj' he rfl).2
    rw [h, failures_snoc, if_pos ha, Nat.zero_sub]
    rfl

/-- **The redial contract is kept only by a client that has no session behind it.**  Where the first
failure waits `BACKOFF_MIN`: after one attempt, while all attempts failed, or once the cap is due.
Where it doubles already: while all attempts but the first failed, or once the cap is due. -/
theorem redial_delay_iff (h : List Attempt) (hne : h ≠ []) :
    (RedialContract 1 h ↔
      h.length = 1 ∨ (∀ a ∈ h, a.authorized = false) ∨ 7 ≤ failures h) ∧
    (RedialContract 0 h ↔ h.length = failures h + 1 ∨ 7 ≤ h.length ∧ 6 ≤ failures h) := by
  have hpos := List.length_pos_iff.mpr hne
  have hle := failures_le h
  rw [redialContract_iff 1 hne, redialContract_iff 0 hne, ← failures_eq_length]
  constructor
  · omega
  · omega

theorem redial_delay_iff_failing : RedialContract 1 (List.replicate 3 .dialFailed) :=
  (redial_delay_iff _ (by decide)).1.mpr (.inr (.inl (by decide)))

/-- eight sessions, each ended by its own lease refresh, and no failure: the next dial waits 30 s -/
theorem refreshes_back_off :
    redialWait (List.replicate 8 (.session 900 .leaseRefresh)) = backoffMax ∧
    ∀ free, ¬ RedialContract free (List.replicate 8 (.session 900 .leaseRefresh)) := by
  have hw : redialWait (List.replicate 8 (.session 900 .leaseRefresh)) = backoffMax := by decide
  refine ⟨hw, fun free h => ?_⟩
  have hreset := h.reset (List.replicate 7 (.session 900 .leaseRefresh))
    (.session 900 .leaseRefresh) rfl rfl
  rw [hw] at hreset
  exact absurd hreset (by decide)

end AnvilRing
