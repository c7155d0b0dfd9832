import AnvilRing.Frames

/-!
# WebSocket messages and HTTP heads

What crosses the process boundary: WebSocket messages (`decode` of `hub.rs` and of `tunnel.rs`)
and HTTP response heads (`parse_head`, `caller_status_for`).  The HTTP libraries are a parameter
(`HttpLib`): `httparse` reads a head, the `http` builder accepts or refuses a field.
-/

namespace AnvilRing
open Wire

/-- `tungstenite::Message` -/
inductive Message where
  | binary (bytes : Bytes)
  | text (bytes : Bytes)
  | ping
  | pong
  | close
  | frame
  deriving DecidableEq, Repr

/-- `ws_msg`, `msg`: every tunnel frame is one binary message -/
def wsMsg (f : Frame) : Message := .binary f.encode

/-- the error texts of a session that ends; `codec` carries the frame error -/
inductive SessionError where
  | codec (e : FrameError)
  | text (what : String)
  deriving DecidableEq, Repr

def decodeBinary (b : Bytes) : Except SessionError (Option Frame) :=
  match Frame.decode b with
  | .error e => .error (.codec e)
  | .ok none => .error (.text "short tunnel frame")
  | .ok (some (f, _)) => .ok (some f)

/-- `hub::decode` -/
def hubDecode : Message → Except SessionError (Option Frame)
  | .binary b => decodeBinary b
  | .ping => .ok none
  | .pong => .ok none
  | .text _ => .error (.text "peer sent Text; tunnel frames are binary")
  | .close => .error (.text "peer sent Close")
  | .frame => .error (.text "peer sent a raw frame we cannot classify")

/-- `tunnel::decode`; unlike the hub's it ignores Text and raw frames -/
def tetherDecode : Message → Except SessionError (Option Frame)
  | .binary b => decodeBinary b
  | .ping => .ok none
  | .pong => .ok none
  | .text _ => .ok none
  | .close => .error (.text "peer sent Close")
  | .frame => .ok none

/-- a message shorter than 4 GiB is the frame that was sent, or an error -/
theorem decodeBinary_encode {f g : Frame} (h : f.encode.length < 2 ^ 32)
    (hg : decodeBinary f.encode = .ok (some g)) : g = f := by
  rw [Frame.length_encode] at h
  by_cases hp : f.parts.1.length ≤ maxPayload
  · have hd := Frame.decode_encode hp []
    rw [List.append_nil] at hd
    rw [decodeBinary, hd] at hg
    exact (Option.some.inj (Except.ok.inj hg)).symm
  · have hd := Frame.decode_encode_tooLong (Nat.lt_of_not_le hp) (by omega)
    rw [decodeBinary, hd] at hg
    cases hg

theorem hubDecode_wsMsg {f : Frame} (h : f.parts.1.length ≤ maxPayload) :
    hubDecode (wsMsg f) = .ok (some f) := by
  have hd := Frame.decode_encode h []
  rw [List.append_nil] at hd
  show decodeBinary f.encode = _
  rw [decodeBinary, hd]

theorem tetherDecode_wsMsg {f : Frame} (h : f.parts.1.length ≤ maxPayload) :
    tetherDecode (wsMsg f) = .ok (some f) := hubDecode_wsMsg h

/-! ## response heads -/

/-- `MAX_PENDING_HEAD` -/
def maxPendingHead : Nat := 64 * 1024

/-- an `http::Response<()>`: the status and the fields in the order of the head -/
structure HttpResponse where
  status : Nat
  headers : List (Bytes × Bytes)
  deriving DecidableEq, Repr

/-- what `httparse::Response::parse` leaves after `Status::Complete(end)` -/
structure RawResponse where
  «end» : Nat
  code : Option Nat
  headers : List (Bytes × Bytes)
  deriving DecidableEq, Repr

structure HttpLib where
  /-- `httparse::Response::parse` with 128 header slots; `none` for an error or a partial head -/
  parseResponse : Bytes → Option RawResponse
  /-- `http::response::Builder::header` accepts the name and the value -/
  fieldOk : Bytes × Bytes → Bool

/-- `StatusCode::from_u16` accepts 100 to 999 -/
def statusOk (code : Nat) : Bool := 100 ≤ code && code ≤ 999

/-- `parse_head`: the head and the bytes after it -/
def parseHead (lib : HttpLib) (bytes : Bytes) : Option (HttpResponse × Bytes) :=
  match lib.parseResponse bytes with
  | none => none
  | some parsed =>
    if parsed.end ≤ maxPendingHead then
      match parsed.code with
      | none => none
      | some code =>
        if statusOk code && parsed.headers.all lib.fieldOk then
          some (⟨code, parsed.headers⟩, bytes.drop parsed.end)
        else none
    else none

/-- `ALWAYS_STRIP` -/
def alwaysStrip : List Bytes :=
  [ascii "connection", ascii "keep-alive", ascii "proxy-authenticate", ascii "proxy-authorization",
    ascii "te", ascii "trailer", ascii "transfer-encoding", ascii "upgrade", ascii "host"]

def isHopByHop (name : Bytes) : Bool := alwaysStrip.any fun h => eqIgnoreAsciiCase h name

/-- 502 -/
def badGateway : Nat := 502

/-- `caller_status_for`: no head is a bad gateway, never a success -/
def callerStatusFor : Option Nat → Nat
  | some code => if statusOk code then code else badGateway
  | none => badGateway

theorem callerStatusFor_none : ¬ (200 ≤ callerStatusFor none ∧ callerStatusFor none < 300) := by
  decide

/-- a success status comes from a head that carried it -/
theorem callerStatusFor_success {h : Option Nat}
    (h2 : 200 ≤ callerStatusFor h ∧ callerStatusFor h < 300) : h = some (callerStatusFor h) := by
  cases h with
  | none => exact absurd h2 callerStatusFor_none
  | some code =>
    simp only [callerStatusFor] at h2 ⊢
    by_cases hc : statusOk code = true
    · rw [if_pos hc]
    · rw [if_neg hc] at h2
      exact absurd h2 (by decide)

end AnvilRing
