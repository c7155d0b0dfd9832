import AnvilRing.Message

/-!
# Which bytes stand for a frame

`Frame.decode` reads more byte strings than `Frame.encode` writes, and both `decode` wrappers take
the first frame of a message and forget how much of the message it was.

* `Frame.fields`             the header fields and the payload of the first frame of a buffer;
* `Frame.Reads`              which frame `decode` makes of them, one case for each type;
* `Frame.Spelled`            the payload is written as `encode` writes it;
* `decode_canonical_iff`     when what is decoded is what was encoded;
* `data_message_iff`         when a data message is one frame or an error, on both sides.
-/

namespace AnvilRing
open Wire

namespace Frame
variable {buf payload : Bytes} {kind : UInt8} {s : UInt16} {f : Frame} {n : Nat}

/-! ## the first frame of a buffer -/

/-- type, stream id and payload of the first frame, once all of it is there and its length field
is within the cap -/
def fields (buf : Bytes) : Option (UInt8 × UInt16 × Bytes) :=
  match buf with
  | kind :: s0 :: s1 :: l0 :: l1 :: l2 :: l3 :: body =>
    let len := ofBe [l0, l1, l2, l3]
    if len ≤ maxPayload ∧ len ≤ body.length then
      some (kind, UInt16.ofNat (ofBe [s0, s1]), body.take len)
    else none
  | _ => none

/-- what `decode` makes of a type, a stream id and a payload -/
inductive Reads (s : UInt16) (payload : Bytes) : UInt8 → Frame → Prop where
  | hello : Reads s payload tHello (hello payload)
  | welcome {lease : UInt64} (hp : parseU64 payload = some lease) :
      Reads s payload tWelcome (welcome lease)
  | open : Reads s payload tOpen («open» s payload)
  | data : Reads s payload tData (data s payload)
  | respHead : Reads s payload tRespHead (respHead s payload)
  | halfEnd (hp : payload = []) : Reads s payload tHalfEnd (halfEnd s)
  | end : Reads s payload tEnd («end» s payload)
  | ping : Reads s payload tPing ping
  | pong : Reads s payload tPong pong
  | goAway : Reads s payload tGoAway (goAway payload)

/-- a number is ASCII, so that the test for UTF-8 in front of it never decides -/
theorem utf8Valid_of_parseU64 {lease : UInt64} (h : parseU64 payload = some lease) :
    utf8Valid payload = true := by
  have hdigits : ∀ {ds : Bytes} {m : Nat}, digitsBelow (2 ^ 64) ds = some m →
      ∀ b ∈ ds, b.toNat < 0x80 := by
    intro ds m hm b hb
    obtain ⟨es, rfl, hlt, _⟩ := exists_digits hm
    obtain ⟨d, hd, rfl⟩ := List.mem_map.mp hb
    have := hlt d (List.mem_reverse.mp hd)
    rw [asciiDigit_toNat this]
    omega
  apply utf8Valid_of_ascii
  unfold parseU64 at h
  split at h
  · cases h
  · cases h
  · obtain ⟨m, hm, _⟩ := Option.map_eq_some_iff.mp h
    exact List.forall_mem_cons.mpr ⟨by decide, hdigits hm⟩
  · obtain ⟨m, hm, _⟩ := Option.map_eq_some_iff.mp h
    exact hdigits hm

theorem decodeWelcome_ok : decodeWelcome payload = .ok f ↔
    ∃ lease, parseU64 payload = some lease ∧ f = welcome lease := by
  unfold decodeWelcome
  cases hp : parseU64 payload with
  | some lease =>
    rw [utf8Valid_of_parseU64 hp, if_pos rfl]
    simp [eq_comm]
  | none =>
    split
    · simp
    · simp

/-- an arm of the decoder is taken, or passed over -/
theorem ite_ok {c : Prop} [Decidable c] {x y : Except FrameError Frame}
    (h : (if c then x else y) = .ok f) : c ∧ x = .ok f ∨ y = .ok f := by
  split at h
  · next hc => exact .inl ⟨hc, h⟩
  · exact .inr h

theorem reads_of_decodeKind (h : decodeKind kind s payload = .ok f) : Reads s payload kind f := by
  unfold decodeKind at h
  obtain ⟨rfl, hf⟩ | h := ite_ok h
  · exact Except.ok.inj hf ▸ .hello
  obtain ⟨rfl, hf⟩ | h := ite_ok h
  · obtain ⟨lease, hp, rfl⟩ := decodeWelcome_ok.mp hf
    exact .welcome hp
  obtain ⟨rfl, hf⟩ | h := ite_ok h
  · exact Except.ok.inj hf ▸ .open
  obtain ⟨rfl, hf⟩ | h := ite_ok h
  · exact Except.ok.inj hf ▸ .data
  obtain ⟨rfl, hf⟩ | h := ite_ok h
  · exact Except.ok.inj hf ▸ .respHead
  obtain ⟨rfl, hf⟩ | h := ite_ok h
  · obtain ⟨hp, hf⟩ | he := ite_ok hf
    · exact Except.ok.inj hf ▸ .halfEnd hp
    · cases he
  obtain ⟨rfl, hf⟩ | h := ite_ok h
  · exact Except.ok.inj hf ▸ .end
  obtain ⟨rfl, hf⟩ | h := ite_ok h
  · exact Except.ok.inj hf ▸ .ping
  obtain ⟨rfl, hf⟩ | h := ite_ok h
  · exact Except.ok.inj hf ▸ .pong
  obtain ⟨rfl, hf⟩ | h := ite_ok h
  · exact Except.ok.inj hf ▸ .goAway
  · cases h

/-- **Inversion.** `decodeKind` reads exactly these frames. -/
theorem decodeKind_ok : decodeKind kind s payload = .ok f ↔ Reads s payload kind f := by
  refine ⟨reads_of_decodeKind, fun h => ?_⟩
  cases h with
  | welcome hp => exact decodeWelcome_ok.mpr ⟨_, hp, rfl⟩
  | halfEnd hp =>
    rw [hp]
    rfl
  | _ => rfl

theorem Reads.typeTag (h : Reads s payload kind f) : f.typeTag = kind := by
  cases h <;> rfl

/-- the id of a stream frame is the header's -/
theorem Reads.stream (h : Reads s payload kind f) (hc : f.isControl ≠ true) : f.parts.2 = s := by
  cases h <;> first | rfl | exact absurd rfl hc

theorem decode_some : decode buf = .ok (some (f, n)) ↔ ∃ kind s payload,
    fields buf = some (kind, s, payload) ∧ Reads s payload kind f ∧
      (f.isControl = true → s = 0) ∧ n = headerLen + payload.length := by
  unfold decode fields
  split
  · next kind s0 s1 l0 l1 l2 l3 body =>
    simp only
    by_cases hcap : maxPayload < ofBe [l0, l1, l2, l3]
    · rw [if_pos hcap, if_neg fun h => Nat.not_le.mpr hcap h.1]
      simp
    · rw [if_neg hcap]
      by_cases hbody : body.length < ofBe [l0, l1, l2, l3]
      · rw [if_pos hbody, if_neg fun h => Nat.not_le.mpr hbody h.2]
        simp
      · have hlen : (body.take (ofBe [l0, l1, l2, l3])).length = ofBe [l0, l1, l2, l3] :=
          List.length_take_of_le (Nat.not_lt.mp hbody)
        rw [if_neg hbody, if_pos ⟨Nat.not_lt.mp hcap, Nat.not_lt.mp hbody⟩]
        simp only [Option.some.injEq, Prod.mk.injEq]
        constructor
        · intro h
          split at h
          · cases h
          · next g hg =>
            split at h
            · cases h
            · next hc =>
              cases h
              refine ⟨_, _, _, ⟨rfl, rfl, rfl⟩, decodeKind_ok.mp hg, ?_, by rw [hlen]⟩
              intro hctl
              by_contra hs
              exact hc ⟨hctl, hs⟩
        · intro h
          obtain ⟨_, _, _, ⟨rfl, rfl, rfl⟩, hread, hctl, rfl⟩ := h
          rw [decodeKind_ok.mpr hread]
          show (if _ then _ else _) = _
          rw [if_neg fun hc => hc.2 (hctl hc.1), hlen]
  · simp

/-- the bytes of the first frame are its fields behind one another -/
theorem take_of_fields (h : fields buf = some (kind, s, payload)) :
    headerLen + payload.length ≤ buf.length ∧
      buf.take (headerLen + payload.length) = withHeader kind s payload := by
  unfold fields at h
  split at h
  · next k s0 s1 l0 l1 l2 l3 body =>
    simp only at h
    split at h
    · next hlen =>
      obtain ⟨rfl, rfl, rfl⟩ : k = kind ∧ UInt16.ofNat (ofBe [s0, s1]) = s ∧
          body.take (ofBe [l0, l1, l2, l3]) = payload := by
        simpa using h
      have hlt : ofBe [s0, s1] < 2 ^ 16 := (ofBe_lt [s0, s1]).trans_eq (by norm_num)
      have hcap : ofBe [l0, l1, l2, l3] < 2 ^ 32 :=
        (ofBe_lt [l0, l1, l2, l3]).trans_eq (by norm_num)
      have hs : toBe 2 (ofBe [s0, s1]) = [s0, s1] := toBe_ofBe [s0, s1]
      have hl : toBe 4 (ofBe [l0, l1, l2, l3]) = [l0, l1, l2, l3] := toBe_ofBe [l0, l1, l2, l3]
      have htake := List.length_take_of_le hlen.2
      have hid : (UInt16.ofNat (ofBe [s0, s1])).toNat = ofBe [s0, s1] :=
        UInt16.toNat_ofNat_of_lt' hlt
      rw [withHeader, htake, hid, Nat.mod_eq_of_lt hcap, hs, hl]
      refine ⟨?_, ?_⟩
      · simp only [List.length_cons, headerLen]
        omega
      · rw [headerLen, Nat.add_comm]
        rfl
    · cases h
  · cases h

theorem length_of_fields (h : fields buf = some (kind, s, payload)) :
    payload.length ≤ maxPayload := by
  unfold fields at h
  split at h
  · simp only at h
    split at h
    · next hlen =>
      cases h
      exact (List.length_take_le _ _).trans hlen.1
    · cases h
  · cases h

theorem withHeader_inj {p q : Bytes} (h : withHeader kind s p = withHeader kind s q) : p = q := by
  have hlen := congrArg List.length h
  simp only [withHeader, List.length_cons, List.length_append, length_toBe] at hlen
  have htail := List.tail_eq_of_cons_eq h
  exact (List.append_inj' htail (by omega)).2

/-! ## spelling -/

/-- a type, a stream id and a payload that `decode` takes for a frame -/
def Accepted (kind : UInt8) (s : UInt16) (payload : Bytes) : Prop :=
  if kind = tWelcome then s = 0 ∧ (parseU64 payload).isSome = true
  else if kind = tHalfEnd then payload = []
  else kind ∈ [tOpen, tData, tRespHead, tEnd] ∨ kind ∈ [tHello, tPing, tPong, tGoAway] ∧ s = 0

/-- nothing behind a PING or a PONG, and a lease without a sign and without leading zeros -/
def Spelled (kind : UInt8) (payload : Bytes) : Prop :=
  (kind = tPing ∨ kind = tPong → payload = []) ∧
    (kind = tWelcome → payload.head? ≠ some 43 ∧ (payload.head? = some 48 → payload = [48]))

/-- the types of the frames that belong to a stream -/
def ofStream (kind : UInt8) : Prop := kind ∈ [tOpen, tData, tRespHead, tEnd, tHalfEnd]

instance : Decidable (Accepted kind s payload) := by
  unfold Accepted
  infer_instance

instance : Decidable (Spelled kind payload) := inferInstanceAs (Decidable (_ ∧ _))

instance : Decidable (ofStream kind) := inferInstanceAs (Decidable (_ ∈ _))

theorem accepted_iff :
    Accepted kind s payload ↔ ∃ f, Reads s payload kind f ∧ (f.isControl = true → s = 0) := by
  constructor
  · intro h
    unfold Accepted at h
    split at h
    · next hk =>
      obtain ⟨lease, hp⟩ := Option.isSome_iff_exists.mp h.2
      rw [hk]
      exact ⟨_, .welcome hp, fun _ => h.1⟩
    split at h
    · next hk =>
      rw [hk]
      exact ⟨_, .halfEnd h, fun hc => nomatch hc⟩
    · rcases h with h | ⟨h, hs⟩
      · simp only [List.mem_cons, List.not_mem_nil, or_false] at h
        rcases h with rfl | rfl | rfl | rfl
        · exact ⟨_, .open, fun hc => nomatch hc⟩
        · exact ⟨_, .data, fun hc => nomatch hc⟩
        · exact ⟨_, .respHead, fun hc => nomatch hc⟩
        · exact ⟨_, .end, fun hc => nomatch hc⟩
      · simp only [List.mem_cons, List.not_mem_nil, or_false] at h
        rcases h with rfl | rfl | rfl | rfl
        · exact ⟨_, .hello, fun _ => hs⟩
        · exact ⟨_, .ping, fun _ => hs⟩
        · exact ⟨_, .pong, fun _ => hs⟩
        · exact ⟨_, .goAway, fun _ => hs⟩
  · intro h
    obtain ⟨f, hread, hctl⟩ := h
    cases hread with
    | welcome hp => exact ⟨hctl rfl, Option.isSome_iff_exists.mpr ⟨_, hp⟩⟩
    | halfEnd hp => exact hp
    | «open» | data | respHead | «end» => exact .inl (by decide)
    | hello | ping | pong | goAway => exact .inr ⟨by decide, hctl rfl⟩

/-- a lease is read from its decimal text, and otherwise from a text with a sign or with leading
zeros -/
theorem leaseText_iff {lease : UInt64} (h : parseU64 payload = some lease) :
    leaseText lease = payload ↔
      payload.head? ≠ some 43 ∧ (payload.head? = some 48 → payload = [48]) := by
  constructor
  · rintro rfl
    refine ⟨?_, decimal_head⟩
    intro hplus
    have hdigit : isAsciiDigit 43 = true := mem_decimal (List.mem_of_head? hplus)
    exact absurd hdigit (by decide)
  · intro hspelled
    obtain ⟨hplus, hzero⟩ := hspelled
    unfold parseU64 at h
    split at h
    · cases h
    · cases h
    · exact absurd rfl hplus
    · next hnil _ _ =>
      obtain ⟨m, hm, rfl⟩ := Option.map_eq_some_iff.mp h
      have hbound : m < 2 ^ 64 := digitsBelow_lt hm hnil
      rw [leaseText, UInt64.toNat_ofNat_of_lt' hbound]
      exact (eq_decimal hm hnil hzero).symm

/-- the frame carries the payload that it was read from, if that is spelled as `encode` does -/
theorem Reads.payload_iff (h : Reads s payload kind f) :
    f.parts.1 = payload ↔ Spelled kind payload := by
  have hspelled : kind ≠ tPing → kind ≠ tPong → kind ≠ tWelcome → Spelled kind payload :=
    fun h1 h2 h3 => ⟨fun hk => (hk.elim h1 h2).elim, fun hk => (h3 hk).elim⟩
  cases h with
  | welcome hp =>
    refine (leaseText_iff hp).trans ⟨fun hx => ⟨fun hk => ?_, fun _ => hx⟩, fun hx => hx.2 rfl⟩
    exact absurd hk (by decide)
  | ping | pong =>
    refine ⟨fun hx => ⟨fun _ => hx.symm, fun hk => ?_⟩, fun hx => (hx.1 (by decide)).symm⟩
    exact absurd hk (by decide)
  | halfEnd hp => exact ⟨fun _ => hspelled (by decide) (by decide) (by decide), fun _ => hp.symm⟩
  | _ => exact ⟨fun _ => hspelled (by decide) (by decide) (by decide), fun _ => rfl⟩

theorem Reads.control_iff (h : Reads s payload kind f) : f.isControl = true ↔ ¬ ofStream kind := by
  cases h with
  | hello | welcome | ping | pong | goAway => exact ⟨fun _ => by decide, fun _ => rfl⟩
  | _ => exact ⟨fun hc => (nomatch hc), fun hk => absurd (by decide) hk⟩

/-- a frame that was read is no longer than the cap -/
theorem Reads.length_le (h : Reads s payload kind f) (hp : payload.length ≤ maxPayload) :
    f.parts.1.length ≤ maxPayload := by
  cases h with
  | @welcome lease => exact leaseText_le lease
  | halfEnd | ping | pong => exact Nat.zero_le _
  | _ => exact hp

/-- the frame is encoded as the bytes that it was read from -/
theorem Reads.encode_iff (h : Reads s payload kind f) (hctl : f.isControl = true → s = 0) :
    f.encode = withHeader kind s payload ↔ Spelled kind payload := by
  have hs : f.parts.2 = s := by
    by_cases hc : f.isControl = true
    · rw [parts_stream_of_isControl hc, hctl hc]
    · exact h.stream hc
  rw [← h.payload_iff, encode, h.typeTag, hs]
  exact ⟨withHeader_inj, fun hp => by rw [hp]⟩

/-! ## canonical frames -/

/-- what is decoded from the front of `b` was encoded there, and a stream frame names a stream -/
def DecodesCanonically (b : Bytes) : Prop :=
  ∀ f n, decode b = .ok (some (f, n)) →
    n ≤ b.length ∧ f.encode = b.take n ∧ (f.parts.2 = 0 → f.isControl = true)

/-- the first frame of `b`, if it is accepted, is spelled as `encode` does, and a frame of a stream
has an id -/
def WellSpelled (b : Bytes) : Prop :=
  ∀ x ∈ fields b, Accepted x.1 x.2.1 x.2.2 → Spelled x.1 x.2.2 ∧ (ofStream x.1 → x.2.1 ≠ 0)

/-- the first frame of `b`, if it is accepted, is spelled as `encode` does and is all of `b` -/
def OneFrame (b : Bytes) : Prop :=
  ∀ x ∈ fields b, Accepted x.1 x.2.1 x.2.2 →
    Spelled x.1 x.2.2 ∧ b.length = headerLen + x.2.2.length

instance (b : Bytes) : Decidable (OneFrame b) :=
  Option.decidableForallMem (p := fun x : UInt8 × UInt16 × Bytes =>
    Accepted x.1 x.2.1 x.2.2 → Spelled x.1 x.2.2 ∧ b.length = headerLen + x.2.2.length) (fields b)

end Frame

/-- **`decode` accepts only canonical frames, except where the first frame is misspelled or belongs
to stream 0.** -/
theorem decode_canonical_iff (b : Bytes) : Frame.DecodesCanonically b ↔ Frame.WellSpelled b := by
  constructor
  · intro h x hx hacc
    obtain ⟨kind, s, payload⟩ := x
    obtain ⟨f, hread, hctl⟩ := Frame.accepted_iff.mp hacc
    obtain ⟨_, htake⟩ := Frame.take_of_fields hx
    obtain ⟨_, henc, hzero⟩ := h f _ (Frame.decode_some.mpr ⟨_, _, _, hx, hread, hctl, rfl⟩)
    refine ⟨(hread.encode_iff hctl).mp (henc.trans htake), fun hk hs => ?_⟩
    have hstream : f.isControl ≠ true := fun hc => hread.control_iff.mp hc hk
    exact hstream (hzero ((hread.stream hstream).trans hs))
  · intro h f n hd
    obtain ⟨kind, s, payload, hx, hread, hctl, rfl⟩ := Frame.decode_some.mp hd
    obtain ⟨hlen, htake⟩ := Frame.take_of_fields hx
    obtain ⟨hspelled, hid⟩ := h _ hx (Frame.accepted_iff.mpr ⟨f, hread, hctl⟩)
    refine ⟨hlen, ?_, fun hzero => ?_⟩
    · rw [htake]
      exact (hread.encode_iff hctl).mpr hspelled
    · by_contra hc
      have hk : Frame.ofStream kind := Classical.not_not.mp fun hk => hc (hread.control_iff.mpr hk)
      exact hid hk ((hread.stream hc).symm.trans hzero)

/-- a PING with a payload, a lease with a sign, and DATA for stream 0 -/
theorem misspelled_accepted :
    ¬ Frame.DecodesCanonically [6, 0, 0, 0, 0, 0, 1, 0xAA] ∧
    ¬ Frame.DecodesCanonically ([2, 0, 0, 0, 0, 0, 4] ++ ascii "+900") ∧
    ¬ Frame.DecodesCanonically [4, 0, 0, 0, 0, 0, 1, 0x61] := by
  refine ⟨fun h => ?_, fun h => ?_, fun h => ?_⟩
  · have hf : Frame.fields [6, 0, 0, 0, 0, 0, 1, 0xAA] = some (6, 0, [0xAA]) := by decide
    have hd := Frame.decode_some.mpr ⟨_, _, _, hf, .ping, fun _ => rfl, rfl⟩
    exact absurd (h _ _ hd).2.1 (by decide)
  · have hf : Frame.fields ([2, 0, 0, 0, 0, 0, 4] ++ ascii "+900") = some (2, 0, ascii "+900") := by
      decide
    have hlease : Frame.parseU64 (ascii "+900") = some 900 := by decide
    have hd := Frame.decode_some.mpr ⟨_, _, _, hf, .welcome hlease, fun _ => rfl, rfl⟩
    exact absurd (h _ _ hd).2.1 (by decide)
  · have hf : Frame.fields [4, 0, 0, 0, 0, 0, 1, 0x61] = some (4, 0, [0x61]) := by decide
    have hd := Frame.decode_some.mpr ⟨_, _, _, hf, .data, fun hc => (nomatch hc), rfl⟩
    exact absurd ((h _ _ hd).2.2 rfl) (by decide)

/-! ## data messages -/

def Message.isData : Message → Bool
  | .binary _ => true
  | .text _ => true
  | _ => false

/-- the message ends the session -/
def Fatal (decode : Message → Except SessionError (Option Frame)) (m : Message) : Prop :=
  ∃ e, decode m = .error e

/-- the message is the encoding of the frame that it is taken for, or it ends the session -/
def Lossless (decode : Message → Except SessionError (Option Frame)) (m : Message) : Prop :=
  (∃ f, decode m = .ok (some f) ∧ m = wsMsg f) ∨ Fatal decode m

theorem decodeBinary_of_some {b : Bytes} {f : Frame} {n : Nat}
    (h : Frame.decode b = .ok (some (f, n))) : decodeBinary b = .ok (some f) := by
  rw [decodeBinary, h]

/-- a binary message is a frame or an error -/
theorem decodeBinary_cases (b : Bytes) :
    (∃ f n, Frame.decode b = .ok (some (f, n)) ∧ decodeBinary b = .ok (some f)) ∨
      ∃ e, decodeBinary b = .error e := by
  unfold decodeBinary
  split
  · exact .inr ⟨_, rfl⟩
  · exact .inr ⟨_, rfl⟩
  · next f n h => exact .inl ⟨f, n, h, rfl⟩

theorem lossless_binary_iff (b : Bytes) : Lossless hubDecode (.binary b) ↔ Frame.OneFrame b := by
  constructor
  · intro h x hx hacc
    obtain ⟨kind, s, payload⟩ := x
    obtain ⟨f, hread, hctl⟩ := Frame.accepted_iff.mp hacc
    obtain ⟨_, htake⟩ := Frame.take_of_fields hx
    have hd := Frame.decode_some.mpr ⟨_, _, _, hx, hread, hctl, rfl⟩
    have hdec : hubDecode (.binary b) = .ok (some f) := decodeBinary_of_some hd
    rcases h with ⟨g, hg, hm⟩ | ⟨e, he⟩
    · obtain rfl : f = g := by
        rw [hdec] at hg
        exact Option.some.inj (Except.ok.inj hg)
      obtain rfl : b = f.encode := Message.binary.inj hm
      -- the encoding is read back whole, so nothing is behind the frame
      have hwhole := Frame.decode_encode (hread.length_le (Frame.length_of_fields hx)) []
      rw [List.append_nil, hd] at hwhole
      have hlen : headerLen + payload.length = f.encode.length :=
        congrArg Prod.snd (Option.some.inj (Except.ok.inj hwhole))
      refine ⟨(hread.encode_iff hctl).mp ?_, hlen.symm⟩
      rw [← htake, hlen, List.take_length]
    · rw [hdec] at he
      cases he
  · intro h
    rcases decodeBinary_cases b with ⟨f, n, hd, hf⟩ | he
    · left
      obtain ⟨kind, s, payload, hx, hread, hctl, rfl⟩ := Frame.decode_some.mp hd
      obtain ⟨_, htake⟩ := Frame.take_of_fields hx
      obtain ⟨hspelled, hlen⟩ := h _ hx (Frame.accepted_iff.mpr ⟨f, hread, hctl⟩)
      refine ⟨f, hf, congrArg Message.binary ?_⟩
      rw [(hread.encode_iff hctl).mpr hspelled, ← htake, ← hlen, List.take_length]
    · exact .inr he

/-- **A data message loses no bytes, and is fatal on both sides or on neither, exactly if it is
binary and its first frame, when accepted, is all of it and is spelled as `encode` does.** -/
theorem data_message_iff (m : Message) (hm : m.isData = true) :
    (Lossless hubDecode m ∧ Lossless tetherDecode m ∧ (Fatal hubDecode m ↔ Fatal tetherDecode m)) ↔
      ∃ b, m = .binary b ∧ Frame.OneFrame b := by
  cases m with
  | binary b =>
    -- both wrappers are `decodeBinary` here
    constructor
    · intro h
      exact ⟨b, rfl, (lossless_binary_iff b).mp h.1⟩
    · intro h
      obtain ⟨_, hm, hb⟩ := h
      obtain rfl := Message.binary.inj hm
      have hl := (lossless_binary_iff b).mpr hb
      exact ⟨hl, hl, Iff.rfl⟩
  | text bytes =>
    -- the tether ignores what is fatal at the hub
    constructor
    · intro h
      obtain ⟨e, he⟩ := h.2.2.mp ⟨_, rfl⟩
      cases he
    · intro h
      obtain ⟨_, hb, _⟩ := h
      cases hb
  | _ => cases hm

theorem data_message_iff_end :
    (Lossless hubDecode (wsMsg (.end 1 [])) ∧ Lossless tetherDecode (wsMsg (.end 1 [])) ∧
      (Fatal hubDecode (wsMsg (.end 1 [])) ↔ Fatal tetherDecode (wsMsg (.end 1 [])))) :=
  (data_message_iff (wsMsg (.end 1 [])) rfl).mpr ⟨_, rfl, by decide⟩

/-- a clean END behind a DATA in one message is lost without an error, and a text message ends the
session at the hub only -/
theorem coalesced_frame_lost :
    (hubDecode (.binary ((Frame.data 1 [97]).encode ++ (Frame.end 1 []).encode))
        = .ok (some (.data 1 [97])) ∧
      ¬ Lossless hubDecode (.binary ((Frame.data 1 [97]).encode ++ (Frame.end 1 []).encode)) ∧
      ¬ Lossless tetherDecode (.binary ((Frame.data 1 [97]).encode ++ (Frame.end 1 []).encode))) ∧
    (Fatal hubDecode (.text (ascii "hi")) ∧ ¬ Fatal tetherDecode (.text (ascii "hi"))) := by
  have hone : ¬ Frame.OneFrame ((Frame.data 1 [97]).encode ++ (Frame.end 1 []).encode) := by decide
  refine ⟨⟨by decide, fun h => ?_, fun h => ?_⟩, ⟨_, rfl⟩, fun h => ?_⟩
  · exact hone ((lossless_binary_iff _).mp h)
  · exact hone ((lossless_binary_iff _).mp h)
  · obtain ⟨e, he⟩ := h
    cases he

end AnvilRing
