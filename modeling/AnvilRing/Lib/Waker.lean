import Mathlib.Logic.Basic

/-!
# Wakers: register then check, store then wake

A task that polls leaves its waker in the cells that others wake.  It loses no wake-up if it
registers before it checks a condition and the others store the condition before they wake.

* `Poller.register`, `AtomicWaker.wake`   the cell; a wake-up empties it;
* `Poller.notify`    a wake-up counts if it comes to the waker of the last poll;
* `Armed`            the next wake-up of the cell reaches the poller, or one came already;
* `Watched`          and if the condition holds, that wake-up came or is due.
-/

namespace Wake

variable {τ : Type*}

/-- a cell for one waker -/
structure AtomicWaker (τ : Type*) where
  cell : Option τ := none
  deriving DecidableEq, Repr

/-- a task that polls: the waker of its last poll, and whether it was woken since that began -/
structure Poller (τ : Type*) where
  waker : Option τ := none
  notified : Bool := false
  deriving DecidableEq, Repr

/-- a poll begins with this waker -/
def Poller.start (w : τ) : Poller τ := { waker := some w }

/-- the waker that was taken out of a cell is woken -/
def Poller.notify [DecidableEq τ] (p : Poller τ) (woken : Option τ) : Poller τ :=
  { p with notified := p.notified || (woken.isSome && woken == p.waker) }

/-- `register` with the waker of the current poll -/
def Poller.register (p : Poller τ) : AtomicWaker τ := { cell := p.waker }

/-- the poller wakes itself -/
def Poller.yield (p : Poller τ) : Poller τ := { p with notified := true }

/-- `wake` takes the waker -/
def AtomicWaker.wake : AtomicWaker τ := {}

/-- the poller was woken, or its waker is in the cell -/
def Armed (c : AtomicWaker τ) (p : Poller τ) : Prop :=
  p.notified = true ∨ (p.waker.isSome = true ∧ c.cell = p.waker)

/-- the poller was woken, or its waker is in the cell and a wake-up of the cell is due -/
def Due (c : AtomicWaker τ) (p : Poller τ) (due : Prop) : Prop :=
  p.notified = true ∨ (p.waker.isSome = true ∧ c.cell = p.waker ∧ due)

/-- no wake-up for the condition is lost -/
structure Watched (c : AtomicWaker τ) (p : Poller τ) (due cond : Prop) : Prop where
  armed : Armed c p
  told : cond → Due c p due

section
variable {c : AtomicWaker τ} {p : Poller τ} {due due' cond cond' : Prop}

theorem armed_start (w : τ) : Armed (Poller.start w).register (.start w) := .inr ⟨rfl, rfl⟩

/-- one waker goes into a second cell -/
theorem Armed.register (h : Armed c p) : Armed p.register p := h.imp_right fun hc => ⟨hc.1, rfl⟩

/-- a condition that does not hold when it is checked needs no wake-up -/
theorem Armed.check (h : Armed c p) (hn : ¬ cond) : Watched c p due cond :=
  ⟨h, fun hx => absurd hx hn⟩

/-- the store may make the condition true, for a wake-up is due from then on -/
theorem Armed.store (h : Armed c p) (hd : due) : Watched c p due cond :=
  ⟨h, fun _ => h.imp_right fun hc => ⟨hc.1, hc.2, hd⟩⟩

/-- a poller that was woken needs nothing more -/
theorem watched_of_notified (h : p.notified = true) : Watched c p due cond :=
  ⟨.inl h, fun _ => .inl h⟩

theorem Watched.mono (h : Watched c p due cond) (hd : due → due') (hc : cond' → cond) :
    Watched c p due' cond' where
  armed := h.armed
  told hx := (h.told (hc hx)).imp_right fun hw => ⟨hw.1, hw.2.1, hd hw.2.2⟩

/-- the check of a second condition -/
theorem Watched.check (h : Watched c p due cond) (hn : ¬ cond') :
    Watched c p due (cond ∨ cond') :=
  ⟨h.armed, fun hx => h.told (hx.resolve_right hn)⟩

variable [DecidableEq τ]

theorem notify_of_notified (h : p.notified = true) (woken : Option τ) :
    (p.notify woken).notified = true := by
  show (p.notified || _) = true
  rw [h]
  rfl

/-- a wake-up of the cell reaches a poller that is armed -/
theorem Armed.notify (h : Armed c p) : (p.notify c.cell).notified = true := by
  rcases h with h | ⟨hs, h⟩
  · exact notify_of_notified h _
  · show (p.notified || (c.cell.isSome && c.cell == p.waker)) = true
    rw [h, hs, beq_self_eq_true, Bool.and_self, Bool.or_true]

/-- the wake-up of the cell -/
theorem Armed.wake (h : Armed c p) : Watched .wake (p.notify c.cell) due cond :=
  watched_of_notified h.notify

/-- the wake-up of another cell -/
theorem Watched.other (h : Watched c p due cond) (woken : Option τ) :
    Watched c (p.notify woken) due cond where
  armed := h.armed.imp_left fun hn => notify_of_notified hn woken
  told hx := (h.told hx).imp_left fun hn => notify_of_notified hn woken

end

end Wake
