import AnvilRing.Http.Headers

/-!
# The bearer token

The one check of a caller's credential, shared by the hub's frontend and the local proxy.

* `constantEq`, `constantEq_iff`   the comparison without an early return decides equality;
* `authorized`                     `authorized`;
* `authorized_iff`                 it accepts the token and nothing else.
-/

namespace AnvilRing
open Wire

/-- `constant_eq`: the differences of all bytes are gathered before one is looked at -/
def constantEq (a b : Bytes) : Bool :=
  if a.length ≠ b.length then false
  else (a.zip b).foldl (fun diff e => diff ||| (e.1 ^^^ e.2)) 0 == 0

/-- `HeaderMap::get`: the first value of the name -/
def HeaderMap.get (h : HeaderMap) (name : Bytes) : Option Bytes := (h.getAll name).head?

def bearer : Bytes := ascii "Bearer "

def authorized (headers : HeaderMap) (expected : Bytes) : Bool :=
  match headers.get (ascii "authorization") with
  | none => false
  | some value =>
    if toStrOk value then
      if bearer.isPrefixOf value then constantEq (value.drop bearer.length) expected else false
    else false

/-! ## the comparison -/

theorem foldl_diff_eq_zero (es : List (UInt8 × UInt8)) (diff : UInt8) :
    es.foldl (fun diff e => diff ||| (e.1 ^^^ e.2)) diff = 0 ↔ diff = 0 ∧ ∀ e ∈ es, e.1 = e.2 := by
  induction es generalizing diff with
  | nil => simp
  | cons e es ih =>
    rw [List.foldl_cons, ih, UInt8.or_eq_zero_iff, UInt8.xor_eq_zero_iff, List.forall_mem_cons,
      and_assoc]

theorem constantEq_iff {a b : Bytes} : constantEq a b = true ↔ a = b := by
  unfold constantEq
  split
  · next hne =>
    constructor
    · exact fun h => (by cases h)
    · exact fun h => absurd (congrArg List.length h) hne
  · next heq =>
    rw [beq_iff_eq, foldl_diff_eq_zero]
    have hlen : a.length = b.length := not_not.mp heq
    constructor
    · rintro ⟨-, hall⟩
      refine List.ext_getElem hlen fun n ha hb => ?_
      have hn : n < (a.zip b).length := by
        rw [List.length_zip]
        exact lt_min ha hb
      have hmem := hall _ (List.getElem_mem hn)
      rwa [List.getElem_zip] at hmem
    · rintro rfl
      refine ⟨rfl, fun e he => ?_⟩
      obtain ⟨n, hn, rfl⟩ := List.mem_iff_getElem.mp he
      rw [List.getElem_zip]

/-! ## the check -/

/-- a token that is not visible ASCII is never accepted: no header value that carries it is text -/
theorem authorized_iff {headers : HeaderMap} {expected : Bytes} :
    authorized headers expected = true ↔
      headers.get (ascii "authorization") = some (bearer ++ expected) ∧
        toStrOk expected = true := by
  have hbearer : toStrOk bearer = true := by decide
  have happend : ∀ token, toStrOk (bearer ++ token) = (toStrOk bearer && toStrOk token) :=
    fun token => List.all_append
  unfold authorized
  split
  · next hnone =>
    rw [hnone]
    simp
  · next value hsome =>
    rw [hsome, Option.some.injEq]
    constructor
    · intro h
      split at h
      · next hok =>
        split at h
        · next hlead =>
          obtain ⟨token, rfl⟩ := List.isPrefixOf_iff_prefix.mp hlead
          rw [List.drop_left, constantEq_iff] at h
          rw [happend, hbearer, Bool.true_and] at hok
          exact ⟨by rw [h], h ▸ hok⟩
        · cases h
      · cases h
    · rintro ⟨rfl, hok⟩
      have hlead : bearer.isPrefixOf (bearer ++ expected) = true :=
        List.isPrefixOf_iff_prefix.mpr (List.prefix_append _ _)
      have htext : toStrOk (bearer ++ expected) = true := by
        rw [happend, hbearer, hok]
        rfl
      rw [if_pos htext, if_pos hlead, List.drop_left]
      exact constantEq_iff.mpr rfl

end AnvilRing
