import AnvilRing.Hub.Registry
import AnvilRing.Tether.Client

/-!
# A lease at the hub and at the tether

The hub enforces the lease that `authorize` returned from the moment before it asked; the tether
reads the whole seconds of it from WELCOME and reauthorizes after three quarters of them.

* `Registry.authorize_some`                  what a granted lease says about the record;
* `Handshake`, `handshake`                   the deadline and the WELCOME of `handle_tether`;
* `reauthorization_precedes_expiry_iff`      when the tether's tick comes before the deadline.
-/

namespace AnvilRing
open Wire

/-- a lease is granted for at least a second, for no longer than the record stands -/
theorem Registry.authorize_some {digest : Bytes → String} {now : Nat} {reg : Registry}
    {credential : Bytes} {lease : Lease} (h : reg.authorize digest now credential = some lease) :
    ∃ t remaining, reg.byId.get lease.tetherId = some t ∧ t.remaining now = some remaining ∧
      nanosPerSec ≤ remaining ∧ lease.ttl = min reg.lease remaining := by
  obtain ⟨id, _, h⟩ := Option.bind_eq_some_iff.mp h
  obtain ⟨t, ht, h⟩ := Option.bind_eq_some_iff.mp h
  obtain ⟨remaining, hrem, h⟩ := Option.bind_eq_some_iff.mp h
  split at h
  · cases h
  · next hsec =>
    obtain rfl := Option.some.inj h
    exact ⟨t, remaining, ht, hrem, Nat.not_lt.mp hsec, rfl⟩

/-- what is left of a registration ends when the registration does, and is a `Duration` -/
theorem Tether.remaining_some {t : Tether} {now remaining : Nat}
    (h : t.remaining now = some remaining) :
    remaining ≤ durationMax ∧ ∀ e ∈ t.expiresAt, now + remaining = e * nanosPerSec := by
  unfold Tether.remaining at h
  split at h
  · split at h
    · next he =>
      obtain rfl := Option.some.inj h
      refine ⟨le_rfl, ?_⟩
      rw [he]
      exact nofun
    · next e he =>
      split at h
      · next hlt =>
        obtain rfl := Option.some.inj h
        refine ⟨?_, ?_⟩
        · have hmul := Nat.mul_le_mul_right nanosPerSec hlt.1
          have hmax : systemTimeMax * nanosPerSec ≤ durationMax := by decide
          omega
        · rw [he]
          rintro _ ⟨⟩
          exact Nat.add_sub_cancel' hlt.2.le
      · cases h
  · cases h

/-! ## the handshake -/

/-- what `handle_tether` holds once HELLO is authorized -/
structure Handshake where
  lease : Lease
  deadline : Nat
  welcome : Frame
  deriving DecidableEq

/-- HELLO is authorized at time `now`; the clock of the deadline was read at `started` -/
def handshake (digest : Bytes → String) (started now : Nat) (reg : Registry) (credential : Bytes) :
    Option Handshake :=
  -- the sum leaves the range of `Instant` only for leases whose tick overflows as well
  (reg.authorize digest now credential).map fun lease =>
    { lease := lease
      deadline := started + lease.ttl
      welcome := .welcome (UInt64.ofNat (lease.ttl / nanosPerSec)) }

/-- the tick that the tether arms after this WELCOME comes before the hub's deadline, and that is
no later than the expiry of the credential and the configured lease -/
structure Reauthorizes (configured started : Nat) (t : Tether) (hs : Handshake) : Prop where
  tick : ∃ w d, tetherDecode (wsMsg hs.welcome) = .ok (some (.welcome w)) ∧
    leaseTick w = some d ∧ started + d * nanosPerSec < hs.deadline
  expiry : ∀ e ∈ t.expiresAt, hs.deadline ≤ e * nanosPerSec
  lease : hs.deadline ≤ started + configured

/-- the least number of seconds whose triple is no `u64` -/
def tickLimit : Nat := 6148914691236517206

theorem leaseTick_isSome (w : UInt64) : (leaseTick w).isSome = true ↔ w.toNat < tickLimit := by
  unfold leaseTick tickLimit
  by_cases h0 : w = 0
  · rw [if_pos h0, h0]
    decide
  · rw [if_neg h0]
    simp only
    split
    · simp only [Option.isSome_some, true_iff]
      omega
    · simp only [Option.isSome_none, Bool.false_eq_true, false_iff]
      omega

theorem leaseTick_some {w : UInt64} {d : Nat} (h0 : w ≠ 0) (h : leaseTick w = some d) :
    d = max (w.toNat * 3 / 4) 5 := by
  unfold leaseTick at h
  rw [if_neg h0] at h
  simp only at h
  split at h
  · exact (Option.some.inj h).symm
  · cases h

/-- three quarters of the whole seconds, five at least, are less than what was granted if that is
more than five seconds -/
theorem tick_lt_iff {second ttl : Nat} (hs : 0 < second) :
    max (ttl / second * 3 / 4) 5 * second < ttl ↔ 5 * second < ttl := by
  have hfive : 5 * second ≤ max (ttl / second * 3 / 4) 5 * second :=
    Nat.mul_le_mul_right second (le_max_right _ _)
  constructor
  · intro h
    exact hfive.trans_lt h
  · intro h
    rcases le_total (ttl / second * 3 / 4) 5 with hle | hle
    · rwa [max_eq_right hle]
    · have hlt : ttl / second * 3 / 4 < ttl / second := by omega
      rw [max_eq_left hle]
      calc ttl / second * 3 / 4 * second
        _ < ttl / second * second := Nat.mul_lt_mul_of_pos_right hlt hs
        _ ≤ ttl := Nat.div_mul_le_self ttl second

/-- the tether arms a tick before the deadline exactly in this window -/
theorem tick_window {ttl : Nat} {w : UInt64} (hsec : nanosPerSec ≤ ttl)
    (hw : w.toNat = ttl / nanosPerSec) :
    (∃ d, leaseTick w = some d ∧ d * nanosPerSec < ttl) ↔
      5 * nanosPerSec < ttl ∧ ttl < tickLimit * nanosPerSec := by
  have hpos : 0 < nanosPerSec := Nat.succ_pos _
  have h0 : w ≠ 0 := by
    rintro rfl
    exact absurd hw.symm (Nat.div_pos hsec hpos).ne'
  have hsome : (leaseTick w).isSome = true ↔ ttl < tickLimit * nanosPerSec := by
    rw [leaseTick_isSome, hw, Nat.div_lt_iff_lt_mul hpos]
  constructor
  · intro h
    obtain ⟨d, hd, hlt⟩ := h
    refine ⟨?_, hsome.mp (Option.isSome_iff_exists.mpr ⟨d, hd⟩)⟩
    rw [leaseTick_some h0 hd, hw] at hlt
    exact (tick_lt_iff hpos).mp hlt
  · intro h
    obtain ⟨d, hd⟩ := Option.isSome_iff_exists.mp (hsome.mpr h.2)
    refine ⟨d, hd, ?_⟩
    rw [leaseTick_some h0 hd, hw]
    exact (tick_lt_iff hpos).mpr h.1

/-- the window in terms of the configured lease and of the record -/
theorem window_iff {second limit configured remaining : Nat} :
    (5 * second < min (max configured (5 * second)) remaining ∧
        min (max configured (5 * second)) remaining < limit) ↔
      5 * second < configured ∧ 5 * second < remaining ∧
        (configured < limit ∨ remaining < limit) := by
  omega

/-- **Reauthorization precedes expiry, unless five seconds or less are granted or the seconds do not
fit the tether's arithmetic.** -/
theorem reauthorization_precedes_expiry_iff {digest : Bytes → String}
    {configured started now remaining : Nat} {reg : Registry} {credential : Bytes} {t : Tether}
    {hs : Handshake} (hreg : reg.lease = (Registry.new configured).lease) (hnow : started ≤ now)
    (h : handshake digest started now reg credential = some hs)
    (ht : reg.byId.get hs.lease.tetherId = some t) (hrem : t.remaining now = some remaining) :
    (∀ w : UInt64, (leaseTick w).isSome = true ↔ w.toNat < tickLimit) ∧
    (Reauthorizes configured started t hs ↔
      5 * nanosPerSec < configured ∧ 5 * nanosPerSec < remaining ∧
        (configured < tickLimit * nanosPerSec ∨ remaining < tickLimit * nanosPerSec)) := by
  refine ⟨leaseTick_isSome, ?_⟩
  obtain ⟨lease, hlease, rfl⟩ := Option.map_eq_some_iff.mp h
  obtain ⟨t', remaining', ht', hrem', hsec, httl⟩ := Registry.authorize_some hlease
  obtain rfl : t' = t := Option.some.inj (ht'.symm.trans ht)
  obtain rfl : remaining' = remaining := Option.some.inj (hrem'.symm.trans hrem)
  obtain ⟨hmax, hexpiry⟩ := Tether.remaining_some hrem
  have hfloor : (Registry.new configured).lease = max configured (5 * nanosPerSec) := rfl
  rw [hreg, hfloor] at httl
  have hsecs : nanosPerSec ≤ lease.ttl := by
    rw [httl]
    exact le_min (le_max_of_le_right (Nat.le_mul_of_pos_left _ (by norm_num))) hsec
  -- the codec carries the whole seconds
  have hw : (UInt64.ofNat (lease.ttl / nanosPerSec)).toNat = lease.ttl / nanosPerSec := by
    apply UInt64.toNat_ofNat_of_lt'
    rw [Nat.div_lt_iff_lt_mul (show 0 < nanosPerSec from Nat.succ_pos _)]
    have hle : lease.ttl ≤ durationMax := by
      rw [httl]
      exact (min_le_right _ _).trans hmax
    exact hle.trans_lt (by decide)
  have hread := tetherDecode_wsMsg (f := .welcome (UInt64.ofNat (lease.ttl / nanosPerSec)))
    (Frame.leaseText_le _)
  rw [← window_iff, ← httl, ← tick_window hsecs hw]
  constructor
  · intro hr
    obtain ⟨w, d, hdec, hd, hlt⟩ := hr.tick
    rw [hread] at hdec
    cases hdec
    exact ⟨d, hd, Nat.lt_of_add_lt_add_left hlt⟩
  · intro hr
    obtain ⟨d, hd, hlt⟩ := hr
    have hwindow := (tick_window hsecs hw).mp ⟨d, hd, hlt⟩
    rw [httl, window_iff] at hwindow
    refine ⟨⟨_, d, hread, hd, Nat.add_lt_add_left hlt started⟩, ?_, ?_⟩
    · intro e he
      show started + lease.ttl ≤ _
      rw [← hexpiry e he, httl]
      exact Nat.add_le_add hnow (min_le_right _ _)
    · show started + lease.ttl ≤ _
      rw [httl, max_eq_left hwindow.1.le]
      exact Nat.add_le_add_left (min_le_left _ _) started

/-! ## two hubs with one record -/

/-- a hub with this lease, and a record under the empty credential hash -/
def oneRecord (configured : Nat) (expiresAt : Option Nat) : Registry where
  byCredential := KeyMap.empty.insert "" "t"
  byId := KeyMap.empty.insert "t" ⟨"t", "", "", true, expiresAt⟩
  lease := (Registry.new configured).lease

/-- fifteen minutes, at half past midnight, on a credential for the day -/
theorem reauthorization_precedes_expiry_iff_day :
    ∃ hs, handshake (fun _ => "") (1800 * nanosPerSec) (1800 * nanosPerSec)
        (oneRecord (900 * nanosPerSec) (some 86400)) [] = some hs ∧
      Reauthorizes (900 * nanosPerSec) (1800 * nanosPerSec) ⟨"t", "", "", true, some 86400⟩ hs := by
  refine ⟨⟨⟨"t", 900 * nanosPerSec⟩, 2700 * nanosPerSec, .welcome 900⟩, by decide, ?_⟩
  have hrem : Tether.remaining (1800 * nanosPerSec) ⟨"t", "", "", true, some 86400⟩
      = some (84600 * nanosPerSec) := by decide
  exact (@reauthorization_precedes_expiry_iff (fun _ => "") (900 * nanosPerSec)
    (1800 * nanosPerSec) (1800 * nanosPerSec) (84600 * nanosPerSec)
    (oneRecord (900 * nanosPerSec) (some 86400)) [] ⟨"t", "", "", true, some 86400⟩ _ rfl le_rfl
    (by decide) (by decide) hrem).2.mpr (by decide)

/-- Three seconds before a credential expires its holder is authorized for three seconds and told to
come back after five; and a lease of `tickLimit` seconds is one that the tether cannot compute
with. -/
theorem reauthorization_too_late :
    (∃ hs, handshake (fun _ => "") 0 0 (oneRecord (900 * nanosPerSec) (some 3)) [] = some hs ∧
      hs.deadline = 3 * nanosPerSec ∧ hs.welcome = .welcome 3 ∧ leaseTick 3 = some 5 ∧
      ¬ Reauthorizes (900 * nanosPerSec) 0 ⟨"t", "", "", true, some 3⟩ hs) ∧
    (∃ hs, handshake (fun _ => "") 0 0 (oneRecord (tickLimit * nanosPerSec) none) [] = some hs ∧
      hs.welcome = .welcome 6148914691236517206 ∧ leaseTick 6148914691236517206 = none ∧
      ¬ Reauthorizes (tickLimit * nanosPerSec) 0 ⟨"t", "", "", true, none⟩ hs) := by
  have hfive : leaseTick 3 = some 5 := by decide
  have hnone : leaseTick 6148914691236517206 = none := by decide +kernel
  have hread := fun w => tetherDecode_wsMsg (f := .welcome w) (Frame.leaseText_le w)
  refine ⟨⟨⟨⟨"t", 3 * nanosPerSec⟩, 3 * nanosPerSec, .welcome 3⟩, by decide, rfl, rfl, hfive, ?_⟩,
    ⟨⟨⟨"t", tickLimit * nanosPerSec⟩, tickLimit * nanosPerSec, .welcome 6148914691236517206⟩,
      by decide +kernel, rfl, hnone, ?_⟩⟩
  · intro h
    obtain ⟨w, d, hw, hd, hlt⟩ := h.tick
    rw [hread 3] at hw
    cases hw
    rw [hfive] at hd
    cases hd
    exact absurd hlt (by decide)
  · intro h
    obtain ⟨w, d, hw, hd, _⟩ := h.tick
    rw [hread 6148914691236517206] at hw
    have he : 6148914691236517206 = w := Frame.welcome.inj (Option.some.inj (Except.ok.inj hw))
    rw [← he, hnone] at hd
    cases hd

end AnvilRing
