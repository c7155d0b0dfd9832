import AnvilRing.Lib.Bytes

/-!
# Wire frames for the outbound tunnel

The codec of `frames.rs`: a fixed 7-byte header (type, stream id, payload length, network byte
order) and at most `maxPayload` bytes of payload.

* `Frame.encode`, `Frame.decode`   as the code computes them;
* `Frame.decode_encode`            an encoding is read back from the front of any buffer, and
                                   exactly its own bytes are consumed;
* `Frame.decode_prefix`            a cut encoding is "need more bytes", never an error or a frame;
* `drain`                          the loop that `decode`'s contract asks of its caller: decode,
                                   advance by `consumed`, repeat;
* `codec_self_delimiting`          a sequence of frames is recovered from its concatenation;
* `Frame.accessors_match_iff`      `type_tag` and `stream` against the bytes that are written.
-/

namespace AnvilRing
open Wire

/-- bytes 0 to 6: type, stream id (u16), payload length (u32) -/
def headerLen : Nat := 7

def maxPayload : Nat := 2 ^ 20

def tHello : UInt8 := 0x01
def tWelcome : UInt8 := 0x02
def tOpen : UInt8 := 0x03
def tData : UInt8 := 0x04
def tEnd : UInt8 := 0x05
def tPing : UInt8 := 0x06
def tPong : UInt8 := 0x07
def tGoAway : UInt8 := 0x08
def tHalfEnd : UInt8 := 0x09
def tRespHead : UInt8 := 0x0A

inductive Frame where
  | hello (credential : Bytes)
  | welcome (leaseSecs : UInt64)
  | «open» (stream : UInt16) (head : Bytes)
  | data (stream : UInt16) (bytes : Bytes)
  | respHead (stream : UInt16) (head : Bytes)
  | «end» (stream : UInt16) (reason : Bytes)
  | halfEnd (stream : UInt16)
  | ping
  | pong
  | goAway (reason : Bytes)
  deriving DecidableEq, Repr

inductive FrameError where
  | tooLong (len : Nat)
  | unknownType (kind : UInt8)
  | malformed (what : String)
  deriving DecidableEq, Repr

namespace Frame

def typeTag : Frame → UInt8
  | hello _ => tHello
  | welcome _ => tWelcome
  | «open» _ _ => tOpen
  | respHead _ _ => tRespHead
  | data _ _ => tData
  | «end» _ _ => tEnd
  | ping => tPing
  | pong => tPong
  | goAway _ => tGoAway
  | halfEnd _ => tHalfEnd

/-- `Frame::stream`; the source's match has no arm for HALF_END, which falls to `0` -/
def stream : Frame → UInt16
  | «open» s _ => s
  | data s _ => s
  | respHead s _ => s
  | «end» s _ => s
  | _ => 0

/-- `u64::to_string` -/
def leaseText (lease : UInt64) : Bytes := decimal lease.toNat

/-- the payload and the stream id that `encode` puts behind the type tag -/
def parts : Frame → Bytes × UInt16
  | hello credential => (credential, 0)
  | welcome lease => (leaseText lease, 0)
  | «open» s head => (head, s)
  | data s bytes => (bytes, s)
  | respHead s head => (head, s)
  | halfEnd s => ([], s)
  | «end» s reason => (reason, s)
  | ping => ([], 0)
  | pong => ([], 0)
  | goAway reason => (reason, 0)

/-- the length field is `payload.len() as u32`, so it is cut to 32 bits -/
def withHeader (kind : UInt8) (stream : UInt16) (payload : Bytes) : Bytes :=
  kind :: (toBe 2 stream.toNat ++ toBe 4 (payload.length % 2 ^ 32) ++ payload)

def encode (f : Frame) : Bytes := withHeader f.typeTag f.parts.2 f.parts.1

/-- `str::parse::<u64>`: an optional `+`, then at least one digit, refused on overflow -/
def parseU64 (s : Bytes) : Option UInt64 :=
  match s with
  | [] => none
  | [43] => none
  | 43 :: ds => (digitsBelow (2 ^ 64) ds).map UInt64.ofNat
  | ds => (digitsBelow (2 ^ 64) ds).map UInt64.ofNat

def decodeWelcome (payload : Bytes) : Except FrameError Frame :=
  if utf8Valid payload then
    match parseU64 payload with
    | some lease => .ok (welcome lease)
    | none => .error (.malformed "bad lease")
  else .error (.malformed "welcome not utf8")

/-- the `match kind` of `decode` -/
def decodeKind (kind : UInt8) (stream : UInt16) (payload : Bytes) : Except FrameError Frame :=
  if kind = tHello then .ok (hello payload)
  else if kind = tWelcome then decodeWelcome payload
  else if kind = tOpen then .ok («open» stream payload)
  else if kind = tData then .ok (data stream payload)
  else if kind = tRespHead then .ok (respHead stream payload)
  else if kind = tHalfEnd then
    if payload = [] then .ok (halfEnd stream) else .error (.malformed "HALF_END must be empty")
  else if kind = tEnd then .ok («end» stream payload)
  else if kind = tPing then .ok ping
  else if kind = tPong then .ok pong
  else if kind = tGoAway then .ok (goAway payload)
  else .error (.unknownType kind)

def isControl : Frame → Bool
  | hello _ | welcome _ | ping | pong | goAway _ => true
  | _ => false

/-- Parse one frame from the front of `buf`: the frame and the bytes consumed, `none` when more
bytes are needed.  The stream id of a control frame is checked last, on the built frame. -/
def decode (buf : Bytes) : Except FrameError (Option (Frame × Nat)) :=
  match buf with
  | kind :: s0 :: s1 :: l0 :: l1 :: l2 :: l3 :: body =>
    let stream := UInt16.ofNat (ofBe [s0, s1])
    let len := ofBe [l0, l1, l2, l3]
    if maxPayload < len then .error (.tooLong len)
    else if body.length < len then .ok none
    else
      match decodeKind kind stream (body.take len) with
      | .error e => .error e
      | .ok frame =>
        if frame.isControl ∧ stream ≠ 0 then
          .error (.malformed "control frame with nonzero stream id")
        else .ok (some (frame, headerLen + len))
  | _ => .ok none

/-! ## what the header says -/

theorem parseU64_decimal {n : Nat} (h : n < 2 ^ 64) :
    parseU64 (decimal n) = some (UInt64.ofNat n) := by
  have hne := decimal_ne_nil n
  have hdig : ∀ b ∈ decimal n, isAsciiDigit b = true := fun b => mem_decimal
  have hval := digitsBelow_decimal h
  -- no digit is a `+`, so the text falls to the last arm
  cases hd : decimal n with
  | nil => exact absurd hd hne
  | cons b bs =>
    have hb : b ≠ 43 := by
      rintro rfl
      have h43 := hdig 43 (by rw [hd]; exact List.mem_cons_self)
      exact absurd h43 (by decide)
    rw [parseU64, ← hd, hval]
    · rfl
    · simp
    · intro he; exact hb (by simpa using congrArg List.head? he)
    · intro ds he; exact hb (by simpa using congrArg List.head? he)

theorem decodeWelcome_leaseText (lease : UInt64) :
    decodeWelcome (leaseText lease) = .ok (welcome lease) := by
  have hp : parseU64 (leaseText lease) = some lease := by
    rw [leaseText, parseU64_decimal lease.toNat_lt, UInt64.ofNat_toNat]
  rw [decodeWelcome, leaseText, utf8Valid_decimal, if_pos rfl]
  rw [leaseText] at hp
  rw [hp]

theorem leaseText_le (lease : UInt64) : (leaseText lease).length ≤ maxPayload := by
  have hlt : lease.toNat < 10 ^ 20 := lt_trans lease.toNat_lt (by norm_num)
  exact (length_decimal_le (by norm_num) hlt).trans (by norm_num [maxPayload])

/-- the type tag and the payload determine the frame -/
theorem decodeKind_parts (f : Frame) : decodeKind f.typeTag f.parts.2 f.parts.1 = .ok f := by
  cases f with
  | welcome lease => exact decodeWelcome_leaseText lease
  | _ => rfl

/-- a control frame is written with stream id 0 -/
theorem parts_stream_of_isControl {f : Frame} (h : f.isControl = true) : f.parts.2 = 0 := by
  cases f <;> first | rfl | exact absurd h Bool.false_ne_true

theorem toBe_two (n : Nat) : toBe 2 n = [UInt8.ofNat (n / 256), UInt8.ofNat n] := rfl

theorem toBe_four (n : Nat) : toBe 4 n = [UInt8.ofNat (n / 256 / 256 / 256),
    UInt8.ofNat (n / 256 / 256), UInt8.ofNat (n / 256), UInt8.ofNat n] := rfl

/-- what `decode` does with a header followed by `body` -/
theorem decode_header (kind : UInt8) (s : UInt16) (len : Nat) (body : Bytes)
    (hlen : len ≤ maxPayload) :
    decode (kind :: (toBe 2 s.toNat ++ toBe 4 len ++ body)) =
      if body.length < len then .ok none
      else
        match decodeKind kind s (body.take len) with
        | .error e => .error e
        | .ok frame =>
          if frame.isControl ∧ s ≠ 0 then
            .error (.malformed "control frame with nonzero stream id")
          else .ok (some (frame, headerLen + len)) := by
  have h32 : len < 256 ^ 4 := lt_of_le_of_lt hlen (by norm_num [maxPayload])
  have h2 := ofBe_toBe_of_lt (w := 2) (n := s.toNat) (lt_of_lt_of_le s.toNat_lt (by norm_num))
  have h4 := ofBe_toBe_of_lt (w := 4) h32
  have hs : UInt16.ofNat s.toNat = s := UInt16.ofNat_toNat
  rw [toBe_two] at h2 ⊢
  rw [toBe_four] at h4 ⊢
  simp only [List.cons_append, List.nil_append, decode, h2, h4, hs]
  rw [if_neg (Nat.not_lt.mpr hlen)]

theorem encode_eq {f : Frame} (h : f.parts.1.length ≤ maxPayload) :
    f.encode = f.typeTag :: (toBe 2 f.parts.2.toNat ++ toBe 4 f.parts.1.length ++ f.parts.1) := by
  have h32 : f.parts.1.length < 2 ^ 32 := lt_of_le_of_lt h (by norm_num [maxPayload])
  rw [encode, withHeader, Nat.mod_eq_of_lt h32]

theorem length_encode (f : Frame) : f.encode.length = headerLen + f.parts.1.length := by
  rw [encode, withHeader]
  simp [headerLen]
  omega

/-! ## round trip and cuts -/

theorem decode_encode {f : Frame} (h : f.parts.1.length ≤ maxPayload) (rest : Bytes) :
    decode (f.encode ++ rest) = .ok (some (f, f.encode.length)) := by
  have hbody : ¬ (f.parts.1 ++ rest).length < f.parts.1.length := by simp
  have htake : (f.parts.1 ++ rest).take f.parts.1.length = f.parts.1 := by simp
  rw [length_encode, encode_eq h, List.cons_append, List.append_assoc, decode_header _ _ _ _ h,
    if_neg hbody, htake, decodeKind_parts]
  show (if f.isControl = true ∧ f.parts.2 ≠ 0 then _ else _) = _
  rw [if_neg (fun hc => hc.2 (parts_stream_of_isControl hc.1))]

/-- a payload above the cap is refused, as long as its length still fits the header -/
theorem decode_encode_tooLong {f : Frame} (h : maxPayload < f.parts.1.length)
    (h32 : f.parts.1.length < 2 ^ 32) :
    decode f.encode = .error (.tooLong f.parts.1.length) := by
  have h4 := ofBe_toBe_of_lt (w := 4) (n := f.parts.1.length) (lt_of_lt_of_le h32 (by norm_num))
  rw [encode, withHeader, Nat.mod_eq_of_lt h32, toBe_two]
  rw [toBe_four] at h4 ⊢
  simp only [List.cons_append, List.nil_append, decode, h4]
  rw [if_pos h]

theorem decode_of_short {buf : Bytes} (h : buf.length < headerLen) : decode buf = .ok none := by
  match buf, h with
  | [], _ | [_], _ | [_, _], _ | [_, _, _], _ | [_, _, _, _], _ | [_, _, _, _, _], _
  | [_, _, _, _, _, _], _ => rfl
  | _ :: _ :: _ :: _ :: _ :: _ :: _ :: _, h =>
    simp only [List.length_cons, headerLen] at h
    omega

/-- A cut encoding asks for more bytes, whichever byte the cut falls on. -/
theorem decode_prefix {f : Frame} (h : f.parts.1.length ≤ maxPayload) {p : Bytes}
    (hp : p <+: f.encode) (hne : p ≠ f.encode) : decode p = .ok none := by
  obtain ⟨q, hq⟩ := hp
  have hlt : p.length < f.encode.length := by
    have hl := congrArg List.length hq
    have hq0 : q ≠ [] := by
      rintro rfl
      exact hne (by simpa using hq)
    have := List.length_pos_iff.mpr hq0
    rw [List.length_append] at hl
    omega
  by_cases hshort : p.length < headerLen
  · exact decode_of_short hshort
  · -- the header is whole: the cut is in the payload
    have hhdr : (f.typeTag :: (toBe 2 f.parts.2.toNat ++ toBe 4 f.parts.1.length)).length
        = headerLen := by simp [headerLen]
    rw [encode_eq h, ← List.cons_append] at hq
    obtain ⟨body, rfl⟩ : ∃ body, p =
        (f.typeTag :: (toBe 2 f.parts.2.toNat ++ toBe 4 f.parts.1.length)) ++ body := by
      have hpre := List.prefix_of_prefix_length_le (⟨_, rfl⟩ :
        (f.typeTag :: (toBe 2 f.parts.2.toNat ++ toBe 4 f.parts.1.length)) <+: _)
        (⟨q, hq⟩ : p <+: _) (by omega)
      obtain ⟨body, hb⟩ := hpre
      exact ⟨body, hb.symm⟩
    rw [List.length_append, hhdr, length_encode] at hlt
    rw [List.cons_append, decode_header _ _ _ _ h, if_pos (by omega)]

/-- a decoded frame consumed at least its header, and no more than the buffer -/
theorem decode_consumed {buf : Bytes} {f : Frame} {n : Nat} (h : decode buf = .ok (some (f, n))) :
    headerLen ≤ n ∧ n ≤ buf.length := by
  unfold decode at h
  split at h
  · next kind s0 s1 l0 l1 l2 l3 body =>
    simp only at h
    split at h
    · exact absurd h (by simp)
    · split at h
      · exact absurd h (by simp)
      · split at h
        · exact absurd h (by simp)
        · split at h
          · exact absurd h (by simp)
          · have hn : headerLen + ofBe [l0, l1, l2, l3] = n := by
              have := Option.some.inj (Except.ok.inj h)
              exact congrArg Prod.snd this
            simp only [List.length_cons, headerLen] at hn ⊢
            omega
  · exact absurd h (by simp)

end Frame

/-! ## draining a buffer -/

/-- decode, advance by the consumed count, repeat: the frames read and the bytes left over -/
def drain (buf : Bytes) : Except FrameError (List Frame × Bytes) :=
  match _h : Frame.decode buf with
  | .error e => .error e
  | .ok none => .ok ([], buf)
  | .ok (some (f, n)) =>
    match drain (buf.drop n) with
    | .error e => .error e
    | .ok (fs, rest) => .ok (f :: fs, rest)
termination_by buf.length
decreasing_by
  have hn := Frame.decode_consumed _h
  simp only [headerLen] at hn
  rw [List.length_drop]
  omega

theorem drain_of_none {buf : Bytes} (h : Frame.decode buf = .ok none) :
    drain buf = .ok ([], buf) := by
  rw [drain]
  split <;> simp_all

theorem drain_of_some {buf : Bytes} {f : Frame} {n : Nat}
    (h : Frame.decode buf = .ok (some (f, n))) :
    drain buf = match drain (buf.drop n) with
      | .error e => .error e
      | .ok (fs, rest) => .ok (f :: fs, rest) := by
  rw [drain]
  split <;> simp_all

theorem drain_encode_append {f : Frame} (h : f.parts.1.length ≤ maxPayload) (rest : Bytes) :
    drain (f.encode ++ rest) = match drain rest with
      | .error e => .error e
      | .ok (fs, left) => .ok (f :: fs, left) := by
  rw [drain_of_some (Frame.decode_encode h rest), List.drop_left]

theorem drain_flatMap_encode (fs : List Frame) (h : ∀ f ∈ fs, f.parts.1.length ≤ maxPayload) :
    drain (fs.flatMap Frame.encode) = .ok (fs, []) := by
  induction fs with
  | nil => exact drain_of_none rfl
  | cons f fs ih =>
    rw [List.flatMap_cons, drain_encode_append (h f List.mem_cons_self),
      ih (fun g hg => h g (List.mem_cons_of_mem _ hg))]

/-- **The frame codec is self-delimiting**: concatenated encodings are drained to exactly the
frames, an encoding is read off any suffix, and a proper prefix of an encoding is incomplete. -/
theorem codec_self_delimiting :
    (∀ fs : List Frame, (∀ f ∈ fs, f.parts.1.length ≤ maxPayload) →
      drain (fs.flatMap Frame.encode) = .ok (fs, [])) ∧
    (∀ (f : Frame) (rest : Bytes), f.parts.1.length ≤ maxPayload →
      Frame.decode (f.encode ++ rest) = .ok (some (f, f.encode.length))) ∧
    (∀ (f : Frame) (p : Bytes), f.parts.1.length ≤ maxPayload → p <+: f.encode → p ≠ f.encode →
      Frame.decode p = .ok none) :=
  ⟨drain_flatMap_encode, fun _ rest h => Frame.decode_encode h rest,
    fun _ _ h hp hne => Frame.decode_prefix h hp hne⟩

/-- three frames, coalesced -/
theorem codec_self_delimiting_coalesced :
    drain ([Frame.data 1 [97, 97], Frame.welcome 900, Frame.halfEnd 65535].flatMap Frame.encode) =
      .ok ([Frame.data 1 [97, 97], Frame.welcome 900, Frame.halfEnd 65535], []) ∧
    Frame.decode ((Frame.halfEnd 65535).encode ++ [1, 2]) = .ok (some (Frame.halfEnd 65535, 7)) ∧
    Frame.decode ((Frame.data 1 [97, 97]).encode.take 8) = .ok none :=
  ⟨codec_self_delimiting.1 _ (by decide),
    codec_self_delimiting.2.1 (Frame.halfEnd 65535) [1, 2] (by decide),
    codec_self_delimiting.2.2 (Frame.data 1 [97, 97]) _ (by decide) (by decide) (by decide)⟩

/-! ## accessors -/

namespace Frame

/-- bytes 1 and 2 of a buffer, most significant first -/
def wireStream (buf : Bytes) : Nat := ofBe ((buf.drop 1).take 2)

/-- what the accessors say of a frame is what its encoding says, and what `stream` says of the frame
that the peer decodes is what was written -/
structure AccessorsMatch (f : Frame) : Prop where
  typeTag : f.encode.head? = some f.typeTag
  stream : f.stream.toNat = wireStream f.encode
  routed : ∀ rest g n, decode (f.encode ++ rest) = .ok (some (g, n)) →
    g.stream.toNat = wireStream f.encode

theorem wireStream_encode (f : Frame) : wireStream f.encode = f.parts.2.toNat := by
  have hlt : f.parts.2.toNat < 256 ^ 2 := lt_of_lt_of_le f.parts.2.toNat_lt (by norm_num)
  have htake : (f.encode.drop 1).take 2 = toBe 2 f.parts.2.toNat := by
    rw [encode, withHeader, List.drop_succ_cons, List.drop_zero, List.append_assoc]
    exact List.take_left' (length_toBe 2 _)
  rw [wireStream, htake, ofBe_toBe_of_lt hlt]

/-- only HALF_END is written with an id that the accessor does not know -/
theorem stream_eq_parts_iff (f : Frame) : f.stream = f.parts.2 ↔ ∀ s, f = halfEnd s → s = 0 := by
  cases f with
  | halfEnd s =>
    refine ⟨fun h t ht => ?_, fun h => (h s rfl).symm⟩
    obtain rfl := halfEnd.inj ht
    exact h.symm
  | hello _ => exact ⟨fun _ _ h => (by cases h), fun _ => rfl⟩
  | welcome _ => exact ⟨fun _ _ h => (by cases h), fun _ => rfl⟩
  | «open» _ _ => exact ⟨fun _ _ h => (by cases h), fun _ => rfl⟩
  | data _ _ => exact ⟨fun _ _ h => (by cases h), fun _ => rfl⟩
  | respHead _ _ => exact ⟨fun _ _ h => (by cases h), fun _ => rfl⟩
  | «end» _ _ => exact ⟨fun _ _ h => (by cases h), fun _ => rfl⟩
  | ping => exact ⟨fun _ _ h => (by cases h), fun _ => rfl⟩
  | pong => exact ⟨fun _ _ h => (by cases h), fun _ => rfl⟩
  | goAway _ => exact ⟨fun _ _ h => (by cases h), fun _ => rfl⟩

/-- **The accessors match the wire, unless the frame is a HALF_END of a stream other than 0.** -/
theorem accessors_match_iff {f : Frame} (h : f.parts.1.length ≤ maxPayload) :
    f.AccessorsMatch ↔ ∀ s, f = halfEnd s → s = 0 := by
  rw [← stream_eq_parts_iff]
  constructor
  · intro hm
    have hs := hm.stream
    rw [wireStream_encode] at hs
    exact UInt16.toNat_inj.mp hs
  · intro hs
    have hstream : f.stream.toNat = wireStream f.encode := by rw [wireStream_encode, hs]
    refine ⟨rfl, hstream, fun rest g n hdec => ?_⟩
    -- the peer decodes the very frame
    rw [decode_encode h] at hdec
    obtain ⟨rfl, _⟩ := Prod.mk.inj (Option.some.inj (Except.ok.inj hdec))
    exact hstream

theorem accessors_match_iff_data :
    (data 258 [0xAA]).AccessorsMatch ↔ ∀ s, data 258 [0xAA] = halfEnd s → s = 0 :=
  accessors_match_iff (by decide)

/-- HALF_END of stream 7 carries the 7, and the accessor says 0 -/
theorem half_end_without_stream :
    ¬ ∀ f : Frame, f.parts.1.length ≤ maxPayload → f.AccessorsMatch := by
  intro h
  have hstream := (h (halfEnd 7) (by decide)).stream
  exact absurd hstream (by decide)

end Frame

end AnvilRing
