import Mathlib.Data.List.Basic

/-!
# Bounded channels

A bounded multi-producer, single-consumer queue: senders see the queue, the slots reserved by
permits that have not been used yet, and whether the receiver is gone.  The channel remembers the
values already received, so that `log` is everything that ever entered it.

* `trySend`       never waits: the queue with the value, `full`, or `closed`;
* `canSend`       the condition under which a waiting `send` gets its slot;
* `tryReserve`, `sendPermit`, `dropPermit`   a slot taken before its value;
* `recv`          the oldest value first;
* `log`           what entered, oldest first: a send appends to it, a receive leaves it
                  (`log_push`, `log_recv`);
* `Within`        the values queued and the slots reserved fit into the capacity;
* `behind`        the channel as if its first value had never entered it.
-/

inductive TrySendError where
  | full
  | closed
  deriving DecidableEq, Repr

structure Chan (α : Type*) where
  /-- history: the values received, oldest first -/
  taken : List α := []
  queue : List α := []
  /-- slots held by permits -/
  reserved : Nat := 0
  /-- the receiver was closed or dropped -/
  rxClosed : Bool := false
  deriving DecidableEq, Repr

namespace Chan

variable {α : Type*}

def canSend (cap : Nat) (c : Chan α) : Bool := c.queue.length + c.reserved < cap

def push (c : Chan α) (x : α) : Chan α := { c with queue := c.queue ++ [x] }

def trySend (cap : Nat) (c : Chan α) (x : α) : Except TrySendError (Chan α) :=
  if c.rxClosed then .error .closed
  else if c.canSend cap then .ok (c.push x)
  else .error .full

def tryReserve (cap : Nat) (c : Chan α) : Except TrySendError (Chan α) :=
  if c.rxClosed then .error .closed
  else if c.canSend cap then .ok { c with reserved := c.reserved + 1 }
  else .error .full

/-- a permit turned into its value; the slot was counted already -/
def sendPermit (c : Chan α) (x : α) : Chan α :=
  { c with queue := c.queue ++ [x], reserved := c.reserved - 1 }

def dropPermit (c : Chan α) : Chan α := { c with reserved := c.reserved - 1 }

def recv (c : Chan α) : Option (α × Chan α) :=
  match c.queue with
  | [] => none
  | x :: xs => some (x, { c with taken := c.taken ++ [x], queue := xs })

/-- everything that entered the channel -/
def log (c : Chan α) : List α := c.taken ++ c.queue

def close (c : Chan α) : Chan α := { c with rxClosed := true }

@[simp] theorem push_rxClosed (c : Chan α) (x : α) : (c.push x).rxClosed = c.rxClosed := rfl

@[simp] theorem log_push (c : Chan α) (x : α) : (c.push x).log = c.log ++ [x] :=
  (List.append_assoc ..).symm

@[simp] theorem log_sendPermit (c : Chan α) (x : α) : (c.sendPermit x).log = c.log ++ [x] :=
  (List.append_assoc ..).symm

@[simp] theorem log_close (c : Chan α) : c.close.log = c.log := rfl

theorem trySend_ok {cap : Nat} {c d : Chan α} {x : α} (h : c.trySend cap x = .ok d) :
    c.rxClosed = false ∧ c.canSend cap = true ∧ d = c.push x := by
  unfold trySend at h
  cases hc : c.rxClosed with
  | true => simp [hc] at h
  | false =>
    cases hs : c.canSend cap with
    | false => simp [hc, hs] at h
    | true =>
      simp only [hc, hs, Bool.false_eq_true, ↓reduceIte, Except.ok.injEq] at h
      exact ⟨rfl, rfl, h.symm⟩

theorem trySend_closed {cap : Nat} {c : Chan α} {x : α} (h : c.trySend cap x = .error .closed) :
    c.rxClosed = true := by
  unfold trySend at h
  cases hc : c.rxClosed with
  | true => rfl
  | false =>
    rw [hc] at h
    split at h
    · next hf => exact absurd hf (by simp)
    · split at h
      · cases h
      · cases h

theorem tryReserve_ok {cap : Nat} {c d : Chan α} (h : c.tryReserve cap = .ok d) :
    c.rxClosed = false ∧ c.canSend cap = true ∧ d = { c with reserved := c.reserved + 1 } := by
  unfold tryReserve at h
  cases hc : c.rxClosed with
  | true => simp [hc] at h
  | false =>
    cases hs : c.canSend cap with
    | false => simp [hc, hs] at h
    | true =>
      simp only [hc, hs, Bool.false_eq_true, ↓reduceIte, Except.ok.injEq] at h
      exact ⟨rfl, rfl, h.symm⟩

theorem recv_some {c d : Chan α} {x : α} (h : c.recv = some (x, d)) :
    c.queue = x :: d.queue ∧ d = { c with taken := c.taken ++ [x], queue := d.queue } := by
  unfold recv at h
  split at h
  · cases h
  · next x' xs hq =>
    cases h
    exact ⟨hq, rfl⟩

theorem log_recv {c d : Chan α} {x : α} (h : c.recv = some (x, d)) : d.log = c.log := by
  obtain ⟨hq, hd⟩ := recv_some h
  rw [hd, log, log, hq]
  simp

/-! ## capacity -/

def Within (cap : Nat) (c : Chan α) : Prop := c.queue.length + c.reserved ≤ cap

theorem Within.length_le {cap : Nat} {c : Chan α} (h : c.Within cap) : c.queue.length ≤ cap :=
  Nat.le_of_add_right_le h

theorem within_push {cap : Nat} {c : Chan α} (h : c.canSend cap = true) (x : α) :
    (c.push x).Within cap := by
  have hlt : c.queue.length + c.reserved < cap := of_decide_eq_true h
  show (c.queue ++ [x]).length + c.reserved ≤ cap
  rw [List.length_append, List.length_singleton]
  omega

theorem within_reserve {cap : Nat} {c : Chan α} (h : c.canSend cap = true) :
    Within cap { c with reserved := c.reserved + 1 } := by
  have hlt : c.queue.length + c.reserved < cap := of_decide_eq_true h
  exact hlt

/-- a permit was counted already -/
theorem Within.sendPermit {cap : Nat} {c : Chan α} (h : c.Within cap) (hr : 0 < c.reserved)
    (x : α) : (c.sendPermit x).Within cap := by
  have hle : c.queue.length + c.reserved ≤ cap := h
  show (c.queue ++ [x]).length + (c.reserved - 1) ≤ cap
  rw [List.length_append, List.length_singleton]
  omega

theorem Within.dropPermit {cap : Nat} {c : Chan α} (h : c.Within cap) : c.dropPermit.Within cap :=
  Nat.le_trans (Nat.add_le_add_left (Nat.sub_le _ _) _) h

theorem Within.recv {cap : Nat} {c d : Chan α} {x : α} (h : c.Within cap)
    (hr : c.recv = some (x, d)) : d.Within cap := by
  obtain ⟨hq, hd⟩ := recv_some hr
  have hle : c.queue.length + c.reserved ≤ cap := h
  rw [hq, List.length_cons] at hle
  rw [hd]
  show d.queue.length + c.reserved ≤ cap
  omega

theorem canSend_of_lt {cap : Nat} {c : Chan α} (h : c.queue = []) (hr : c.reserved < cap) :
    c.canSend cap = true := by
  unfold canSend
  rw [h, List.length_nil, Nat.zero_add]
  exact decide_eq_true hr

/-! ## without the first value -/

def behind (c : Chan α) : Chan α :=
  match c.taken with
  | [] => { c with queue := c.queue.tail }
  | _ :: taken => { c with taken := taken }

theorem behind_push {c : Chan α} (h : c.log ≠ []) (x : α) :
    (c.push x).behind = c.behind.push x := by
  obtain ⟨taken, queue, reserved, rxClosed⟩ := c
  cases taken with
  | nil =>
    have hq : queue ≠ [] := h
    show Chan.mk [] (queue ++ [x]).tail reserved rxClosed =
      Chan.mk [] (queue.tail ++ [x]) reserved rxClosed
    rw [List.tail_append_of_ne_nil hq]
  | cons y ys => rfl

theorem behind_recv {c d : Chan α} {x : α} (ht : c.taken ≠ []) (h : c.recv = some (x, d)) :
    c.behind.recv = some (x, d.behind) ∧ d.taken ≠ [] := by
  obtain ⟨taken, queue, reserved, rxClosed⟩ := c
  cases queue with
  | nil => cases h
  | cons z zs =>
    cases h
    cases taken with
    | nil => exact absurd rfl ht
    | cons y ys => exact ⟨rfl, List.cons_ne_nil _ _⟩

/-- the first value is taken -/
theorem behind_first {c d : Chan α} {x : α} (ht : c.taken = []) (h : c.recv = some (x, d)) :
    d.behind = c.behind ∧ d.taken = [x] := by
  obtain ⟨taken, queue, reserved, rxClosed⟩ := c
  obtain rfl : taken = [] := ht
  cases queue with
  | nil => cases h
  | cons z zs =>
    cases h
    exact ⟨rfl, rfl⟩

end Chan
