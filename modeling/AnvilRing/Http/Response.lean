import AnvilRing.Http.Headers
import AnvilRing.Hub.Session

/-!
# Response heads across the tunnel

The engine's response head on its way to the caller: `forward_engine` checks the transfer codings,
strips the map and writes a head; the hub reads that head (`parse_head`), and the frontend answers
with its fields (`StreamState.respond`).

* `engineHead`               the RESP_HEAD that `forward_engine` sends;
* `HttpLib.Conforms`         `httparse` and the `http` builder do what the head grammar says;
* `response_head_intact`     the caller gets the engine's status and its stripped fields.
-/

namespace AnvilRing
open Wire

/-- `StatusCode::canonical_reason`, a table of printable phrases -/
structure Reasons where
  phrase : Nat → Option Bytes
  printable : ∀ code reason, phrase code = some reason → reason.all isFieldByte = true

/-- the text of `ToStrError` -/
def toStrError : String := "failed to convert header to a str"

def unsupportedCoding : String := "unsupported upstream transfer coding"

/-- the loop over the Transfer-Encoding values -/
def checkCodings : List Bytes → Except String Unit
  | [] => .ok ()
  | value :: values =>
    if toStrOk value then
      if (value.splitOn 44).any fun coding => !eqIgnoreAsciiCase (trimOws coding) (ascii "chunked")
      then .error unsupportedCoding
      else checkCodings values
    else .error toStrError

/-- `forward_engine`, from the engine's response to the head it sends -/
def engineHead (reasons : Reasons) (status : Nat) (headers : HeaderMap) : Except String Bytes :=
  match checkCodings (headers.getAll (ascii "transfer-encoding")) with
  | .error e => .error e
  | .ok () =>
    let line := ascii "HTTP/1.1 " ++ decimal status ++ ascii " " ++ (reasons.phrase status).getD []
    .ok (writeFields (line ++ ascii "\r\n") (stripHopByHop headers).2)

/-! ## transfer codings -/

/-- a Transfer-Encoding value that names only `chunked` -/
def ChunkedOnly (value : Bytes) : Prop :=
  ∀ coding ∈ value.splitOn 44, eqIgnoreAsciiCase (trimOws coding) (ascii "chunked") = true

instance (value : Bytes) : Decidable (ChunkedOnly value) :=
  inferInstanceAs (Decidable (∀ coding ∈ value.splitOn 44, _ = true))

section
variable {value coding : Bytes} {b : UInt8}

/-- every byte of a coding that is `chunked` but for case and whitespace is readable -/
theorem toStrOk_chunked (hc : eqIgnoreAsciiCase (trimOws coding) (ascii "chunked") = true)
    (hb : b ∈ coding) : b == 9 || (32 ≤ b.toNat && b.toNat ≤ 126) := by
  rcases mem_trimOws_or hb with h | h
  · rw [isOws, Bool.or_eq_true, beq_iff_eq, beq_iff_eq] at h
    rcases h with rfl | rfl <;> rfl
  · rw [eqIgnoreAsciiCase, beq_iff_eq] at hc
    have hm : asciiLower b ∈ (ascii "chunked").map asciiLower := by
      rw [← hc]
      exact List.mem_map_of_mem h
    unfold asciiLower at hm
    split at hm
    · next hu =>
      rw [Bool.or_eq_true, Bool.and_eq_true, decide_eq_true_eq, decide_eq_true_eq]
      exact .inr ⟨by omega, by omega⟩
    · have hall : toStrOk ((ascii "chunked").map asciiLower) = true := rfl
      exact List.all_eq_true.mp hall b hm

/-- so the check of `to_str` cannot fail on such a value -/
theorem ChunkedOnly.toStrOk (h : ChunkedOnly value) : toStrOk value = true := by
  rw [AnvilRing.toStrOk, List.all_eq_true]
  intro b hb
  rcases mem_splitOn_or 44 hb with rfl | ⟨coding, hcoding, hb⟩
  · rfl
  · exact toStrOk_chunked (h coding hcoding) hb

/-- the test of one value -/
theorem any_coding_iff :
    ((value.splitOn 44).any fun coding =>
      !eqIgnoreAsciiCase (trimOws coding) (ascii "chunked")) = true ↔ ¬ ChunkedOnly value := by
  simp [ChunkedOnly]

/-- the check passes exactly where every value names only `chunked` -/
theorem checkCodings_ok {values : List Bytes} :
    checkCodings values = .ok () ↔ ∀ value ∈ values, ChunkedOnly value := by
  induction values with
  | nil => simp [checkCodings]
  | cons value values ih =>
    rw [List.forall_mem_cons, ← ih, checkCodings]
    constructor
    · intro h
      split at h
      · split at h
        · cases h
        · next hc => exact ⟨Classical.not_not.mp fun hn => hc (any_coding_iff.mpr hn), h⟩
      · cases h
    · rintro ⟨hv, hrest⟩
      rw [if_pos hv.toStrOk, if_neg fun hc => any_coding_iff.mp hc hv]
      exact hrest

end

/-! ## the libraries at the hub -/

/-- the header slots of `parse_head` and of `forward_engine` -/
def headerSlots : Nat := 128

/-- `httparse` reads every head of the grammar that fits its slots, and the builder takes every
legal field. -/
structure HttpLib.Conforms (lib : HttpLib) : Prop where
  parse : ∀ bytes code fields rest, readResponse headerSlots bytes = some (code, fields, rest) →
    lib.parseResponse bytes = some ⟨bytes.length - rest.length, some code, fields⟩
  field : ∀ f : Field, isHeaderName f.1 = true → isHeaderValue f.2 = true → lib.fieldOk f = true

/-- libraries that do no more than that -/
def grammarLib : HttpLib where
  parseResponse bytes := (readResponse headerSlots bytes).map fun (code, fields, rest) =>
    ⟨bytes.length - rest.length, some code, fields⟩
  fieldOk f := isHeaderName f.1 && isHeaderValue f.2

theorem grammarLib_conforms : grammarLib.Conforms where
  parse bytes code fields rest h := by
    show Option.map _ _ = _
    rw [h]
    rfl
  field f hn hv := by
    show (_ && _) = true
    rw [hn, hv]
    rfl

/-! ## the round trip -/

section
variable {lib : HttpLib} {reasons : Reasons} {status : Nat} {h : HeaderMap}

theorem reason_printable (reasons : Reasons) (status : Nat) :
    ((reasons.phrase status).getD []).all isFieldByte = true := by
  cases hp : reasons.phrase status with
  | none => rfl
  | some reason => exact reasons.printable status reason hp

/-- what is sent is a head of the grammar: one status line and one line for each field -/
theorem engineHead_eq (reasons : Reasons) (status : Nat)
    (hte : ∀ v ∈ h.getAll (ascii "transfer-encoding"), ChunkedOnly v) :
    engineHead reasons status h = .ok (writeHead
      (statusLine status ((reasons.phrase status).getD [])) (stripHopByHop h).2.fields) := by
  rw [engineHead, checkCodings_ok.mpr hte]
  exact congrArg Except.ok (writeFields_eq _ _)

/-- fields without whitespace around their values are read as they are -/
theorem map_trim {fs : List Field} (hv : ∀ f ∈ fs, trimOws f.2 = f.2) : fs.map Field.trim = fs := by
  conv => rhs; rw [← List.map_id fs]
  exact List.map_congr_left fun f hf => Prod.ext rfl (hv f hf)

theorem statusOk_final (hs : 200 ≤ status ∧ status ≤ 999) : statusOk status = true := by
  rw [statusOk, Bool.and_eq_true, decide_eq_true_eq, decide_eq_true_eq]
  omega

/-- `parse_head` takes what is a head of the grammar as a whole, within its limit -/
theorem parseHead_of_read (hlib : lib.Conforms) (hs : 200 ≤ status ∧ status ≤ 999) {bytes : Bytes}
    (hread : readResponse headerSlots bytes = some (status, h.fields, []))
    (hlen : bytes.length ≤ maxPendingHead) :
    parseHead lib bytes = some (⟨status, h.fields⟩, []) := by
  have hall : h.fields.all lib.fieldOk = true :=
    List.all_eq_true.mpr fun f hf => hlib.field f (h.valid f hf).1 (h.valid f hf).2
  unfold parseHead
  rw [hlib.parse _ _ _ _ hread]
  simp only [List.length_nil, Nat.sub_zero]
  rw [if_pos hlen, hall, statusOk_final hs, List.drop_length]
  rfl

/-- `parse_head` reads a head that was written from legal fields -/
theorem parseHead_writeHead (hlib : lib.Conforms) (hs : 200 ≤ status ∧ status ≤ 999)
    {reason : Bytes} (hr : reason.all isFieldByte = true) (hv : ∀ f ∈ h.fields, trimOws f.2 = f.2)
    (hn : h.fields.length ≤ headerSlots)
    (hlen : (writeHead (statusLine status reason) h.fields).length ≤ maxPendingHead) :
    parseHead lib (writeHead (statusLine status reason) h.fields)
      = some (⟨status, h.fields⟩, []) := by
  refine parseHead_of_read hlib hs ?_ hlen
  have hcode : 100 ≤ status ∧ status ≤ 999 := ⟨by omega, hs.2⟩
  have he := readResponse_append hcode hr (fun f hf => h.fieldOk hf) hn []
  rw [List.append_nil, map_trim hv] at he
  exact he

/-- the frontend's filter has nothing to remove from stripped fields -/
theorem respond_strip (hs : 200 ≤ status ∧ status ≤ 999) (h : HeaderMap) :
    StreamState.respond ⟨status, (stripHopByHop h).2.fields⟩
      = ⟨status, (stripHopByHop h).2.fields⟩ := by
  have hkeep : ∀ f ∈ (stripHopByHop h).2.fields, (!isHopByHop f.1) = true := by
    intro f hf
    rw [Bool.not_eq_true', Bool.eq_false_iff, ne_eq,
      isHopByHop_iff ((stripHopByHop h).2.valid f hf).1]
    exact strip_disjoint hf
  rw [StreamState.respond, List.filter_eq_self.mpr hkeep, callerStatusFor,
    if_pos (statusOk_final hs)]

/-- **A response head crosses the tunnel intact.**  The engine's final status and header map, with
no coding but `chunked`, make a head that the hub accepts for a stream without a head, and the
caller is answered with that status and exactly the fields that stripping leaves, in order. -/
theorem response_head_intact (hlib : lib.Conforms) (reasons : Reasons)
    (hs : 200 ≤ status ∧ status ≤ 999)
    (hte : ∀ v ∈ h.getAll (ascii "transfer-encoding"), ChunkedOnly v)
    (hv : ∀ f ∈ h.fields, trimOws f.2 = f.2)
    (hn : (stripHopByHop h).2.fields.length ≤ headerSlots)
    (hlen : ∀ head, engineHead reasons status h = .ok head → head.length ≤ maxPendingHead) :
    ∃ head, engineHead reasons status h = .ok head ∧ ∀ st : StreamState, st.head = none →
      ∃ res, Session.acceptHead lib st head = some res ∧
        (StreamState.respond res).status = status ∧
        (StreamState.respond res).headers = (stripHopByHop h).2.fields ∧
        ∀ name, valuesOf name (StreamState.respond res).headers
          = (stripHopByHop h).2.getAll name := by
  have he := engineHead_eq reasons status hte
  refine ⟨_, he, fun st hst => ?_⟩
  have hv' : ∀ f ∈ (stripHopByHop h).2.fields, trimOws f.2 = f.2 :=
    fun f hf => hv f (mem_strip.mp hf).1
  have hp := parseHead_writeHead hlib hs (reason_printable reasons status) hv' hn (hlen _ he)
  refine ⟨⟨status, (stripHopByHop h).2.fields⟩, ?_, ?_⟩
  · rw [Session.acceptHead, hp]
    exact if_pos ⟨hs.1, rfl, hst⟩
  · rw [respond_strip hs h]
    exact ⟨rfl, rfl, fun _ => rfl⟩

end

/-- a reason for one status only -/
def fewReasons : Reasons where
  phrase code := if code = 429 then some (ascii "Too Many Requests") else none
  printable code reason h := by
    split at h
    · obtain rfl := Option.some.inj h
      decide
    · cases h

/-- a byte above ASCII, a repeated field, and a private field that Connection names -/
def notedHeaders : HeaderMap where
  fields := [(ascii "x-note", [0xE9]), (ascii "set-cookie", ascii "a=1"),
    (ascii "connection", ascii "close, X-Private"), (ascii "x-private", ascii "p"),
    (ascii "transfer-encoding", ascii "Chunked"), (ascii "set-cookie", ascii "b=2")]
  valid := by decide

example : (stripHopByHop notedHeaders).2.fields
    = [(ascii "x-note", [0xE9]), (ascii "set-cookie", ascii "a=1"),
      (ascii "set-cookie", ascii "b=2")] := by decide

theorem response_head_intact_noted :
    ∃ head, engineHead fewReasons 429 notedHeaders = .ok head ∧
      ∀ st : StreamState, st.head = none →
        ∃ res, Session.acceptHead grammarLib st head = some res ∧
          (StreamState.respond res).status = 429 ∧
          (StreamState.respond res).headers = (stripHopByHop notedHeaders).2.fields ∧
          ∀ name, valuesOf name (StreamState.respond res).headers
            = (stripHopByHop notedHeaders).2.getAll name :=
  response_head_intact grammarLib_conforms fewReasons (by decide) (by decide) (by decide)
    (by decide) (by
      intro head h
      rw [engineHead_eq fewReasons 429 (by decide)] at h
      obtain rfl := Except.ok.inj h
      decide)

end AnvilRing
