import AnvilRing.Http.Response
import Mathlib.Algebra.Order.BigOperators.Group.List

/-!
# The two limits on a response head

The tether takes a head of at most `MAX_PENDING_HEAD` bytes from the engine, and the hub takes a
RESP_HEAD of at most as many from the tether.  Between the two the head is written anew: with the
canonical reason, with a blank behind each colon, and without the stripped fields.

* `EngineHead`                a raw head that the tether takes, with what it reads there;
* `rewrittenSize`             the length of the RESP_HEAD;
* `head_accepted_iff`         when the hub takes it;
* `rewrittenSize_le`          how much longer than the raw head it can be.
-/

namespace AnvilRing
open Wire

/-- the fields that `hyper` takes from an engine -/
def engineSlots : Nat := 100

/-- a name as `HeaderName` has it -/
def Field.lower (f : Field) : Field := (f.1.map asciiLower, f.2)

/-- `hyper` takes the raw head within `max_buf_size`; its status is final, and no coding but
`chunked` is named -/
structure EngineHead (raw : Bytes) (status : Nat) (h : HeaderMap) : Prop where
  read : ∃ fields, readResponse engineSlots raw = some (status, fields, []) ∧
    h.fields.Perm (fields.map Field.lower)
  size : raw.length ≤ maxPendingHead
  final : 200 ≤ status ∧ status ≤ 999
  codings : ∀ v ∈ h.getAll (ascii "transfer-encoding"), ChunkedOnly v

/-- a status line with the canonical reason, a line with `: ` for each field that stripping leaves,
and an empty line -/
def rewrittenSize (reasons : Reasons) (status : Nat) (h : HeaderMap) : Nat :=
  17 + ((reasons.phrase status).getD []).length +
    ((stripHopByHop h).2.fields.map fun f => f.1.length + f.2.length + 4).sum

section
variable {lib : HttpLib} {reasons : Reasons} {raw : Bytes} {status : Nat} {h : HeaderMap}
  {st : StreamState}

namespace EngineHead

theorem trimmed (he : EngineHead raw status h) : ∀ f ∈ h.fields, trimOws f.2 = f.2 := by
  obtain ⟨fields, hread, hperm⟩ := he.read
  obtain ⟨tail, hfields⟩ := readFields_of_readResponse hread
  intro f hf
  obtain ⟨g, hg, rfl⟩ := List.mem_map.mp (hperm.mem_iff.mp hf)
  exact readFields_trimmed hfields g hg

theorem slots (he : EngineHead raw status h) : h.fields.length ≤ engineSlots := by
  obtain ⟨fields, hread, hperm⟩ := he.read
  obtain ⟨tail, hfields⟩ := readFields_of_readResponse hread
  rw [hperm.length_eq, List.length_map]
  exact readFields_length hfields

theorem trimmed_strip (he : EngineHead raw status h) :
    ∀ f ∈ (stripHopByHop h).2.fields, trimOws f.2 = f.2 :=
  fun f hf => he.trimmed f (mem_strip.mp hf).1

theorem slots_strip (he : EngineHead raw status h) :
    (stripHopByHop h).2.fields.length ≤ headerSlots := by
  have hslots := he.slots
  rw [strip_fields]
  exact (List.length_filter_le _ _).trans (hslots.trans (by decide))

/-- what the tether sends, and its length -/
theorem engineHead_size (he : EngineHead raw status h) (reasons : Reasons) :
    ∃ head, engineHead reasons status h = .ok head ∧
      head = writeHead (statusLine status ((reasons.phrase status).getD []))
        (stripHopByHop h).2.fields ∧
      head.length = rewrittenSize reasons status h :=
  ⟨_, engineHead_eq reasons status he.codings, rfl,
    length_writeHead ⟨(by decide : 100 ≤ 200).trans he.final.1, he.final.2⟩ _ _⟩

/-- the hub's parser reads it as a whole -/
theorem readResponse_rewritten (he : EngineHead raw status h) (reasons : Reasons) :
    readResponse headerSlots (writeHead (statusLine status ((reasons.phrase status).getD []))
      (stripHopByHop h).2.fields) = some (status, (stripHopByHop h).2.fields, []) := by
  have hcode : 100 ≤ status ∧ status ≤ 999 := ⟨(by decide : 100 ≤ 200).trans he.final.1, he.final.2⟩
  have hread := readResponse_append hcode (reason_printable reasons status)
    (fun f hf => (stripHopByHop h).2.fieldOk hf) he.slots_strip []
  rw [List.append_nil, map_trim he.trimmed_strip] at hread
  exact hread

end EngineHead

/-- `parse_head` refuses a head of the grammar that is longer than its limit -/
theorem parseHead_long (hlib : lib.Conforms) {bytes : Bytes} {fields : List Field}
    (hread : readResponse headerSlots bytes = some (status, fields, []))
    (hlong : maxPendingHead < bytes.length) : parseHead lib bytes = none := by
  unfold parseHead
  rw [hlib.parse _ _ _ _ hread]
  exact if_neg (Nat.not_le.mpr hlong)

/-- **The hub takes what the tether makes of an engine's head exactly if that is within the
limit.** -/
theorem head_accepted_iff (hlib : lib.Conforms) (reasons : Reasons) (he : EngineHead raw status h)
    (hst : st.head = none) :
    (∃ head res, engineHead reasons status h = .ok head ∧
      Session.acceptHead lib st head = some res) ↔
      rewrittenSize reasons status h ≤ maxPendingHead := by
  obtain ⟨head, hhead, rfl, hsize⟩ := he.engineHead_size reasons
  rw [← hsize]
  constructor
  · rintro ⟨head', res, hhead', hacc⟩
    obtain rfl := Except.ok.inj (hhead'.symm.trans hhead)
    by_contra hlong
    have hread := he.readResponse_rewritten reasons
    rw [Session.acceptHead, parseHead_long hlib hread (Nat.not_le.mp hlong)] at hacc
    cases hacc
  · intro hfits
    have hp := parseHead_of_read hlib he.final (he.readResponse_rewritten reasons) hfits
    refine ⟨_, ⟨status, (stripHopByHop h).2.fields⟩, hhead, ?_⟩
    rw [Session.acceptHead, hp]
    exact if_pos ⟨he.final.1, rfl, hst⟩

/-- writing the head anew adds the canonical reason, and a byte to each field at most -/
theorem rewrittenSize_le (reasons : Reasons) (he : EngineHead raw status h) :
    rewrittenSize reasons status h ≤
      raw.length + ((reasons.phrase status).getD []).length + h.fields.length := by
  obtain ⟨fields, hread, hperm⟩ := he.read
  have hraw := readResponse_size hread
  -- stripping leaves a part of the fields, and a name keeps its length
  have hkept : ((stripHopByHop h).2.fields.map fun f => f.1.length + f.2.length + 4).sum ≤
      (h.fields.map fun f => f.1.length + f.2.length + 4).sum := by
    rw [strip_fields]
    exact (List.filter_sublist.map _).sum_le_sum fun _ _ => Nat.zero_le _
  have hmap : (h.fields.map fun f => f.1.length + f.2.length + 4).sum =
      (fields.map fun f => f.1.length + f.2.length + 4).sum := by
    rw [(hperm.map _).sum_eq, List.map_map]
    congr 2
    funext f
    simp [Field.lower]
  have hcolon : ∀ fs : List Field, (fs.map fun f => f.1.length + f.2.length + 4).sum =
      (fs.map fun f => f.1.length + f.2.length + 3).sum + fs.length := by
    intro fs
    induction fs with
    | nil => rfl
    | cons f fs ih =>
      simp only [List.map_cons, List.sum_cons, List.length_cons, ih]
      omega
  have hlen : h.fields.length = fields.length := by
    rw [hperm.length_eq, List.length_map]
  rw [hcolon fields] at hmap
  unfold rewrittenSize
  simp only [List.length_nil] at hraw
  omega

end

/-- the canonical reason of 200 -/
def okReason : Reasons where
  phrase code := if code = 200 then some (ascii "OK") else none
  printable code reason h := by
    split at h
    · obtain rfl := Option.some.inj h
      decide
    · cases h

/-- one field `x` of `n` bytes -/
def longField (n : Nat) : HeaderMap where
  fields := [(ascii "x", List.replicate n 120)]
  valid := by
    intro f hf
    obtain rfl := List.mem_singleton.mp hf
    constructor
    · show isHeaderName (ascii "x") = true
      decide
    · simp [isHeaderValue, isFieldByte]

/-- with no blank behind the colon -/
def tightHead (n : Nat) : Bytes :=
  ascii "HTTP/1.1 200 OK" ++ crlf ++ (ascii "x" ++ 58 :: List.replicate n 120 ++ crlf ++ crlf)

theorem trimOws_replicate (n : Nat) : trimOws (List.replicate n 120) = List.replicate n 120 := by
  have hfront : (List.replicate n (120 : UInt8)).dropWhile isOws = List.replicate n 120 := by
    cases n with
    | zero => rfl
    | succ n => rfl
  unfold trimOws
  rw [hfront, List.rdropWhile_eq_self_iff]
  intro hne
  rw [List.getLast_replicate]
  decide

theorem readResponse_tightHead (n : Nat) : readResponse engineSlots (tightHead n) =
    some (200, [(ascii "x", List.replicate n 120)], []) := by
  have hvalue : (List.replicate n (120 : UInt8)).all isFieldByte = true := by
    simp [isFieldByte]
  have hline : ∀ b ∈ ascii "x" ++ 58 :: List.replicate n 120, b ≠ 13 := by
    intro b hb
    obtain hb | hb := List.mem_append.mp hb
    · exact ne_of_all (p := isFieldByte) rfl rfl b hb
    · obtain rfl | hb := List.mem_cons.mp hb
      · decide
      · exact ne_of_all hvalue rfl b hb
  have hread : readFields engineSlots
      (ascii "x" ++ 58 :: List.replicate n 120 ++ crlf ++ crlf) =
      some ([(ascii "x", trimOws (List.replicate n 120))], []) :=
    readFields_line (takeLine_append hline crlf) (readField_tight rfl hvalue)
      (readFields_end 99 [])
  rw [trimOws_replicate] at hread
  have hstatus : readStatusLine (ascii "HTTP/1.1 200 OK") = some 200 := by decide
  have hfirst : takeLine (tightHead n) = some (ascii "HTTP/1.1 200 OK", _) :=
    takeLine_append (ne_of_all (p := isFieldByte) rfl rfl) _
  exact readResponse_lines hfirst hstatus hread

theorem length_tightHead (n : Nat) : (tightHead n).length = n + 23 := by
  have hline : (ascii "HTTP/1.1 200 OK").length = 15 := rfl
  have hname : (ascii "x").length = 1 := rfl
  have hend : crlf.length = 2 := rfl
  simp only [tightHead, List.length_append, List.length_cons, List.length_replicate, hline, hname,
    hend]
  omega

theorem engineHead_longField {n : Nat} (hn : n + 23 ≤ maxPendingHead) :
    EngineHead (tightHead n) 200 (longField n) where
  read := ⟨_, readResponse_tightHead n, List.Perm.refl _⟩
  size := by
    rw [length_tightHead]
    exact hn
  final := by decide
  codings := by
    intro v hv
    cases hv

theorem rewrittenSize_longField (n : Nat) : rewrittenSize okReason 200 (longField n) = n + 24 := by
  have hstrip : (stripHopByHop (longField n)).2 = longField n := by
    refine strip_of_disjoint fun f hf => ?_
    obtain rfl := List.mem_singleton.mp hf
    show ascii "x" ∉ alwaysStrip
    decide
  have hname : (ascii "x").length = 1 := rfl
  have hreason : ((okReason.phrase 200).getD []).length = 2 := rfl
  unfold rewrittenSize
  rw [hstrip, hreason]
  simp only [longField, List.map_cons, List.map_nil, List.sum_cons, List.sum_nil,
    List.length_replicate, hname]
  omega

theorem head_accepted_iff_short : ∃ head res, engineHead okReason 200 (longField 3) = .ok head ∧
    Session.acceptHead grammarLib (.fresh ⟨[], [], true⟩ 0) head = some res := by
  have hhead : EngineHead (tightHead 3) 200 (longField 3) := engineHead_longField (by decide)
  refine (head_accepted_iff grammarLib_conforms okReason hhead rfl).mpr ?_
  rw [rewrittenSize_longField]
  decide

/-- a head of exactly 64 KiB comes to one byte more -/
theorem head_refused_at_limit : (tightHead 65513).length = maxPendingHead ∧
    EngineHead (tightHead 65513) 200 (longField 65513) ∧
    ∃ head, engineHead okReason 200 (longField 65513) = .ok head ∧
      head.length = maxPendingHead + 1 ∧ ∀ st, Session.acceptHead grammarLib st head = none := by
  have hhead : EngineHead (tightHead 65513) 200 (longField 65513) :=
    engineHead_longField (by decide)
  obtain ⟨head, hok, heq, hsize⟩ := hhead.engineHead_size okReason
  rw [rewrittenSize_longField] at hsize
  refine ⟨length_tightHead _, hhead, head, hok, hsize, fun st => ?_⟩
  have hread := hhead.readResponse_rewritten okReason
  rw [← heq] at hread
  have hlong : maxPendingHead < head.length := hsize.symm ▸ Nat.lt_succ_self _
  rw [Session.acceptHead, parseHead_long grammarLib_conforms hread hlong]

end AnvilRing
