import AnvilRing.Http.Chunked

/-!
# Chunked bodies

What an engine writes: chunks, each behind its size line, a last chunk of size zero, trailers; and
what the decoder makes of them, however the bytes are cut into reads.

* `Chunk`, `LastChunk`       a chunk carries its spelling of the size and its extension;
* `encodeBody`               the bytes of a body;
* `payloadWithin`            the payload bytes among the first bytes of a body;
* `Scan.pushAll_good`        reads that meet no fault return what the scan writes;
* `chunked_round_trip`       the decoder hands out the payload, read by read.
-/

namespace AnvilRing
open Wire

/-- what may stand behind a size: blanks, and a text that begins with a semicolon -/
def ExtOk (ext : Bytes) : Prop :=
  ∃ blanks text, ext = blanks ++ text ∧ (∀ b ∈ blanks, b = 32 ∨ b = 9) ∧
    (text = [] ∨ text.head? = some 59) ∧ ∀ b ∈ text, b ≠ 13 ∧ b ≠ 10

structure Chunk where
  /-- the size as it is spelled -/
  size : Bytes
  ext : Bytes
  payload : Bytes
  spelled : Spells size payload.length
  ext_ok : ExtOk ext
  nonempty : payload ≠ []
  /-- the length of a slice is a `usize` -/
  fits : payload.length < usizeBound

structure LastChunk where
  size : Bytes
  ext : Bytes
  spelled : Spells size 0
  ext_ok : ExtOk ext

def Chunk.encode (c : Chunk) : Bytes := c.size ++ c.ext ++ crlf ++ c.payload ++ crlf

def LastChunk.encode (c : LastChunk) : Bytes := c.size ++ c.ext ++ crlf

/-- the bytes of a body up to the end of the last chunk's size line -/
def encodeChunks (cs : List Chunk) (last : LastChunk) : Bytes :=
  cs.flatMap Chunk.encode ++ last.encode

def encodeBody (cs : List Chunk) (last : LastChunk) (trailer : Bytes) : Bytes :=
  encodeChunks cs last ++ trailer

/-- what a byte of a body is: framing, payload, or the byte that ends the last size line and all
that is behind it -/
inductive Mark where
  | framing
  | payload
  | ending
  deriving DecidableEq, Repr

def mark (m : Mark) (bytes : Bytes) : List (UInt8 × Mark) := bytes.map fun b => (b, m)

def Chunk.marked (c : Chunk) : List (UInt8 × Mark) :=
  mark .framing (c.size ++ c.ext ++ [13]) ++ mark .framing [10] ++ mark .payload c.payload ++
    mark .framing crlf

/-- the body without the byte that ends it -/
def markedFront (cs : List Chunk) (last : LastChunk) : List (UInt8 × Mark) :=
  cs.flatMap Chunk.marked ++ mark .framing (last.size ++ last.ext ++ [13])

def markedBody (cs : List Chunk) (last : LastChunk) (trailer : Bytes) : List (UInt8 × Mark) :=
  markedFront cs last ++ mark .ending (10 :: trailer)

/-- the payload bytes of a marked text -/
def payloadOf (m : List (UInt8 × Mark)) : Bytes :=
  m.flatMap fun x => if x.2 = .payload then [x.1] else []

/-- the payload bytes among the first `k` bytes of a body -/
def payloadWithin (cs : List Chunk) (last : LastChunk) (trailer : Bytes) (k : Nat) : Bytes :=
  payloadOf ((markedBody cs last trailer).take k)

section
variable {cs : List Chunk} {last : LastChunk} {trailer : Bytes} {c : Chunk} {m : Mark}
  {bytes more : Bytes}

@[simp] theorem map_fst_mark : (mark m bytes).map Prod.fst = bytes := by
  rw [mark, List.map_map]
  exact List.map_id bytes

theorem Chunk.map_fst_marked (c : Chunk) : c.marked.map Prod.fst = c.encode := by
  simp [Chunk.marked, Chunk.encode, crlf]

theorem map_fst_markedFront (cs : List Chunk) (last : LastChunk) :
    (markedFront cs last).map Prod.fst ++ [10] = encodeChunks cs last := by
  have hcs : (cs.flatMap Chunk.marked).map Prod.fst = cs.flatMap Chunk.encode := by
    rw [List.map_flatMap]
    exact List.flatMap_congr fun c _ => c.map_fst_marked
  rw [markedFront, List.map_append, hcs]
  simp [encodeChunks, LastChunk.encode, crlf]

/-- the marks are laid on the bytes of the body -/
theorem map_fst_markedBody (cs : List Chunk) (last : LastChunk) (trailer : Bytes) :
    (markedBody cs last trailer).map Prod.fst = encodeBody cs last trailer := by
  rw [encodeBody, ← map_fst_markedFront, markedBody, List.map_append, map_fst_mark]
  simp

theorem payloadOf_append (m₁ m₂ : List (UInt8 × Mark)) :
    payloadOf (m₁ ++ m₂) = payloadOf m₁ ++ payloadOf m₂ := List.flatMap_append

theorem payloadOf_mark (bytes : Bytes) :
    payloadOf (mark m bytes) = if m = .payload then bytes else [] := by
  induction bytes with
  | nil => exact (ite_self _).symm
  | cons b bytes ih =>
    show (if m = .payload then [b] else []) ++ payloadOf (mark m bytes) = _
    rw [ih]
    split
    · rfl
    · rfl

theorem payloadOf_markedBody (cs : List Chunk) (last : LastChunk) (trailer : Bytes) :
    payloadOf (markedBody cs last trailer) = cs.flatMap Chunk.payload := by
  have hc : ∀ c : Chunk, payloadOf c.marked = c.payload := by
    intro c
    simp [Chunk.marked, payloadOf_append, payloadOf_mark]
  have hcs : payloadOf (cs.flatMap Chunk.marked) = cs.flatMap Chunk.payload := by
    rw [payloadOf, List.flatMap_assoc]
    exact List.flatMap_congr fun c _ => hc c
  rw [markedBody, markedFront, payloadOf_append, payloadOf_append, hcs, payloadOf_mark,
    payloadOf_mark]
  simp

end

/-! ## reading a size line -/

section
variable {size ext : Bytes} {n : Nat}

theorem chunkSize_spelled (hs : Spells size n) (he : ExtOk ext) (hn : n < usizeBound) :
    chunkSize (size ++ ext) = .ok n := by
  obtain ⟨blanks, text, rfl, hblanks, htext, _⟩ := he
  have hfront : ∀ b ∈ size ++ blanks, 9 ≤ b.toNat ∧ b.toNat ≤ 102 ∧ b ≠ 59 := by
    intro b hb
    rcases List.mem_append.mp hb with hb | hb
    · have hd := hs.digits b hb
      have hbounds := hexVal_bounds hd
      refine ⟨by omega, hbounds.2, ?_⟩
      rintro rfl
      exact hd rfl
    · rcases hblanks b hb with rfl | rfl
      · decide
      · decide
  have hhex : (size ++ (blanks ++ text)).takeWhile (· != 59) = size ++ blanks := by
    rw [← List.append_assoc, List.takeWhile_append_of_pos]
    · rcases htext with rfl | ht
      · simp
      · obtain ⟨rest, rfl⟩ := List.head?_eq_some_iff.mp ht
        simp
    · intro b hb
      exact bne_iff_ne.mpr (hfront b hb).2.2
  have hutf : utf8Valid (size ++ blanks) = true :=
    utf8Valid_of_ascii _ fun b hb => by have := hfront b hb; omega
  unfold chunkSize
  simp only [hhex, hutf, if_true, trim_spelled hs hblanks, hexBelow_spelled hs hn]

/-- a size line has no line break in it -/
theorem line_no_break (hs : Spells size n) (he : ExtOk ext) :
    ∀ b ∈ size ++ ext, b ≠ 13 ∧ b ≠ 10 := by
  obtain ⟨blanks, text, rfl, hblanks, _, htext⟩ := he
  intro b hb
  rcases List.mem_append.mp hb with hb | hb
  · have hd := hs.digits b hb
    refine ⟨?_, ?_⟩ <;> rintro rfl <;> exact hd rfl
  · rcases List.mem_append.mp hb with hb | hb
    · rcases hblanks b hb with rfl | rfl
      · decide
      · decide
    · exact htext b hb

end

/-! ## the scan follows the marks -/

/-- what a byte with a mark does: a payload byte is handed out, an ending byte ends the body -/
def Meets (m : Mark) (b : UInt8) (next : Scan × Bytes) : Prop :=
  next.2 = (if m = .payload then [b] else []) ∧ (next.1 = .done ↔ m = .ending) ∧
    next.1.isBad = false

abbrev Follows (s : Scan) (text : List (UInt8 × Mark)) : Prop :=
  Transducer.Follows Scan.step Meets s text

section
variable {size ext payload : Bytes} {n : Nat} {s : Scan} {text : List (UInt8 × Mark)}

theorem Follows.append {more : List (UInt8 × Mark)} (h : Follows s text)
    (hm : Follows (s.run (text.map Prod.fst)).1 more) : Follows s (text ++ more) :=
  Transducer.follows_append.mpr ⟨h, hm⟩

theorem Follows.left {more : List (UInt8 × Mark)} (h : Follows s (text ++ more)) : Follows s text :=
  (Transducer.follows_append.mp h).1

theorem Follows.handed (h : Follows s text) :
    (s.run (text.map Prod.fst)).2 = payloadOf text :=
  Transducer.Follows.written (fun _ _ _ h => h.1) h

theorem meets_framing {b : UInt8} (hd : s ≠ .done) (hb : s.isBad = false) :
    Meets .framing b (s, []) :=
  ⟨rfl, ⟨fun h => absurd h hd, fun h => (by cases h)⟩, hb⟩

theorem meets_ending {b : UInt8} : Meets .ending b (.done, []) :=
  ⟨rfl, ⟨fun _ => rfl, fun _ => rfl⟩, rfl⟩

/-- a size line without its last byte -/
theorem follows_line (hs : Spells size n) (he : ExtOk ext) :
    Follows (.size []) (mark .framing (size ++ ext ++ [13])) ∧
      ((Scan.size []).run (size ++ ext ++ [13])).1 = .size (size ++ ext ++ [13]) := by
  have hlf : ∀ b ∈ size ++ ext ++ [13], b ≠ 10 := by
    intro b hb
    rcases List.mem_append.mp hb with hb | hb
    · exact (line_no_break hs he b hb).2
    · rw [List.mem_singleton.mp hb]
      decide
  refine ⟨?_, ?_⟩
  · have hstep : ∀ s : Scan, ∀ b ∈ size ++ ext ++ [13], (∃ line, s = .size line) →
        Meets .framing b (s.step b) ∧ ∃ line, (s.step b).1 = .size line := by
      rintro _ b hb ⟨line, rfl⟩
      rw [Scan.step, if_neg fun hx => hlf b hb hx.1]
      exact ⟨meets_framing (fun h => (by cases h)) rfl, _, rfl⟩
    exact Transducer.follows_of_forall hstep ⟨[], rfl⟩
  · have hopen : takeLine ([] ++ (size ++ ext ++ [13])) = none := takeLine_eq_none hlf
    rw [Scan.run_line_open hopen]
    rfl

/-- its last byte -/
theorem step_line (hs : Spells size n) (he : ExtOk ext) (hn : n < usizeBound) :
    (Scan.size (size ++ ext ++ [13])).step 10 = (if n = 0 then .done else .body n, []) := by
  have hlast : (size ++ ext ++ [13]).getLast? = some 13 := List.getLast?_concat
  rw [Scan.step, if_pos ⟨rfl, hlast⟩, List.dropLast_concat, Scan.endLine,
    chunkSize_spelled hs he hn]

theorem follows_payload :
    Follows (Scan.afterBody payload.length) (mark .payload payload) := by
  induction payload with
  | nil => exact trivial
  | cons b payload ih =>
    have hstep := Scan.step_afterBody (n := payload.length) b
    show Meets .payload b (Scan.step (Scan.afterBody (payload.length + 1)) b) ∧
      Transducer.Follows _ _ (Scan.step (Scan.afterBody (payload.length + 1)) b).1 _
    rw [hstep]
    obtain ⟨hopen, hgood⟩ := Scan.afterBody_open payload.length
    exact ⟨⟨rfl, ⟨fun h => absurd h hopen, fun h => (by cases h)⟩, hgood⟩, ih⟩

/-- a chunk, from one size line to the next -/
theorem follows_chunk (c : Chunk) :
    Follows (.size []) c.marked ∧ ((Scan.size []).run (c.marked.map Prod.fst)).1 = .size [] := by
  have hpos : c.payload.length ≠ 0 := fun h => c.nonempty (List.length_eq_zero_iff.mp h)
  obtain ⟨hline, hsize⟩ := follows_line c.spelled c.ext_ok
  have hlf := step_line c.spelled c.ext_ok c.fits
  rw [if_neg hpos, ← Scan.afterBody_pos hpos] at hlf
  -- the states between the parts of the chunk
  have hbody : ((Scan.size []).run
      ((mark .framing (c.size ++ c.ext ++ [13]) ++ mark .framing [10]).map Prod.fst)).1 =
        Scan.afterBody c.payload.length := by
    rw [List.map_append, map_fst_mark, map_fst_mark, Scan.run_append, hsize, Scan.run_cons, hlf]
    rfl
  have hcrlf : ((Scan.afterBody c.payload.length).run c.payload).1 = .crLf none := by
    rw [Scan.run_afterBody le_rfl, Nat.sub_self]
    rfl
  have hfirst : Follows (.size [])
      (mark .framing (c.size ++ c.ext ++ [13]) ++ mark .framing [10]) := by
    apply hline.append
    rw [map_fst_mark, hsize]
    refine ⟨?_, trivial⟩
    rw [hlf]
    obtain ⟨hopen, hgood⟩ := Scan.afterBody_open c.payload.length
    exact meets_framing hopen hgood
  refine ⟨?_, ?_⟩
  · apply Follows.append
    · apply hfirst.append
      rw [hbody]
      exact follows_payload
    · rw [List.map_append, Scan.run_append, hbody, map_fst_mark, hcrlf]
      refine ⟨?_, ?_, trivial⟩
      · exact meets_framing (fun h => (by cases h)) rfl
      · exact meets_framing (fun h => (by cases h)) rfl
  · rw [Chunk.marked, List.map_append, List.map_append, Scan.run_append, Scan.run_append, hbody,
      map_fst_mark, hcrlf, map_fst_mark]
    rfl

theorem follows_chunks (cs : List Chunk) :
    Follows (.size []) (cs.flatMap Chunk.marked) ∧
      ((Scan.size []).run ((cs.flatMap Chunk.marked).map Prod.fst)).1 = .size [] := by
  induction cs with
  | nil => exact ⟨trivial, rfl⟩
  | cons c cs ih =>
    obtain ⟨hc, hend⟩ := follows_chunk c
    refine ⟨?_, ?_⟩
    · rw [List.flatMap_cons]
      apply hc.append
      rw [hend]
      exact ih.1
    · rw [List.flatMap_cons, List.map_append, Scan.run_append, hend]
      exact ih.2

/-- a whole body, with its trailers -/
theorem follows_body (cs : List Chunk) (last : LastChunk) (trailer : Bytes) :
    Follows (.size []) (markedBody cs last trailer) := by
  obtain ⟨hcs, hend⟩ := follows_chunks cs
  obtain ⟨hline, hsize⟩ := follows_line last.spelled last.ext_ok
  have hlf := step_line last.spelled last.ext_ok (by decide)
  apply Follows.append
  · apply hcs.append
    rw [hend]
    exact hline
  · rw [markedFront, List.map_append, Scan.run_append, hend, map_fst_mark, hsize]
    have hdone : ∀ s : Scan, ∀ b ∈ trailer, s = .done →
        Meets .ending b (s.step b) ∧ (s.step b).1 = .done := by
      rintro _ b _ rfl
      exact ⟨meets_ending, rfl⟩
    refine ⟨?_, ?_⟩
    · rw [hlf]
      exact meets_ending
    · rw [hlf]
      exact Transducer.follows_of_forall hdone rfl

/-- the last byte of a size line is marked only where the last size line ends -/
theorem framing_of_mem_front {cs : List Chunk} {last : LastChunk} {x : UInt8 × Mark}
    (h : x ∈ markedFront cs last) : x.2 ≠ .ending := by
  have hmark : ∀ (m : Mark) (bytes : Bytes), x ∈ mark m bytes → x.2 = m := by
    intro m bytes hx
    obtain ⟨b, _, rfl⟩ := List.mem_map.mp hx
    rfl
  rcases List.mem_append.mp h with h | h
  · obtain ⟨c, _, h⟩ := List.mem_flatMap.mp h
    simp only [Chunk.marked, List.mem_append] at h
    rcases h with ((h | h) | h) | h
    all_goals
      rw [hmark _ _ h]
      intro he
      cases he
  · rw [hmark _ _ h]
    intro he
    cases he

/-- which of the first `k` bytes is the last: the body is over or it is not -/
theorem ending_iff {cs : List Chunk} {last : LastChunk} {trailer : Bytes} {k : Nat}
    {init : List (UInt8 × Mark)} {x : UInt8 × Mark}
    (h : (markedBody cs last trailer).take k = init ++ [x]) :
    x.2 = .ending ↔ (encodeChunks cs last).length ≤ k := by
  have hlen : (encodeChunks cs last).length = (markedFront cs last).length + 1 := by
    rw [← map_fst_markedFront, List.length_append, List.length_map, List.length_singleton]
  rw [hlen]
  by_cases hk : k ≤ (markedFront cs last).length
  · rw [markedBody, List.take_append_of_le_length hk] at h
    have hx : x ∈ markedFront cs last := by
      apply List.mem_of_mem_take (i := k)
      rw [h]
      exact List.mem_append_right _ (List.mem_singleton_self x)
    exact ⟨fun he => absurd he (framing_of_mem_front hx), fun hle => absurd hk (by omega)⟩
  · have hpos : k - (markedFront cs last).length = k - (markedFront cs last).length - 1 + 1 := by
      omega
    rw [markedBody, List.take_append, List.take_of_length_le (by omega), hpos] at h
    -- the last of them is one of the bytes from the end of the last size line on
    have hne :
        (mark .ending (10 :: trailer)).take (k - (markedFront cs last).length - 1 + 1) ≠ [] := by
      rw [mark, List.map_cons, List.take_succ_cons]
      exact List.cons_ne_nil _ _
    have hlast := congrArg List.getLast? h
    rw [List.getLast?_concat, List.getLast?_append_of_ne_nil _ hne] at hlast
    obtain ⟨b, _, rfl⟩ := List.mem_map.mp (List.mem_of_mem_take (List.mem_of_getLast? hlast))
    exact ⟨fun _ => by omega, fun _ => rfl⟩

/-- the scan of the first bytes of a body -/
theorem scan_initial (cs : List Chunk) (last : LastChunk) (trailer : Bytes) {bytes rest : Bytes}
    (h : encodeBody cs last trailer = bytes ++ rest) :
    ((Scan.size []).run bytes).1.isBad = false ∧
      ((Scan.size []).run bytes).2 = payloadWithin cs last trailer bytes.length ∧
      (((Scan.size []).run bytes).1 = .done ↔ (encodeChunks cs last).length ≤ bytes.length) := by
  have hbytes : ((markedBody cs last trailer).take bytes.length).map Prod.fst = bytes := by
    rw [List.map_take, map_fst_markedBody, h, List.take_left]
  have hfollows : Follows (.size []) ((markedBody cs last trailer).take bytes.length) := by
    have hwhole := follows_body cs last trailer
    rw [← List.take_append_drop bytes.length (markedBody cs last trailer)] at hwhole
    exact hwhole.left
  have hpayload := hfollows.handed
  rw [hbytes] at hpayload
  rcases List.eq_nil_or_concat' ((markedBody cs last trailer).take bytes.length) with he | he
  · rw [he] at hbytes
    obtain rfl : bytes = [] := hbytes.symm
    refine ⟨rfl, hpayload, ?_⟩
    rw [← map_fst_markedFront, List.length_append]
    exact ⟨fun hd => (by cases hd), fun hle => absurd hle (Nat.not_succ_le_zero _)⟩
  · obtain ⟨init, x, he⟩ := he
    have hend := ending_iff he
    rw [he] at hfollows
    obtain ⟨out, hmeets⟩ := Transducer.Follows.last hfollows
    rw [← he, hbytes] at hmeets
    exact ⟨hmeets.2.2, hpayload, hmeets.2.1.trans hend⟩

end

/-- **chunked decoding undoes chunked encoding, however the bytes are cut into reads**: no read
fails; after each read the payload bytes read so far have been handed out; and the body is reported
to be over from the read on that completes the last size line, with nothing handed out behind it -/
theorem chunked_round_trip (cs : List Chunk) (last : LastChunk) (trailer : Bytes)
    (reads : List Bytes) (h : reads.flatten = encodeBody cs last trailer) :
    ∃ results : List Decoded,
      (ChunkedDecoder.pushAll {} reads).1 = results.map .ok ∧
      results.flatMap Decoded.out = cs.flatMap Chunk.payload ∧
      ∀ i (hi : i < results.length),
        (results.take (i + 1)).flatMap Decoded.out =
          payloadWithin cs last trailer (reads.take (i + 1)).flatten.length ∧
        (results[i].done = true ↔
          (encodeChunks cs last).length ≤ (reads.take (i + 1)).flatten.length) ∧
        ((encodeChunks cs last).length ≤ (reads.take i).flatten.length → results[i].out = []) := by
  have hpart : ∀ i, encodeBody cs last trailer =
      (reads.take i).flatten ++ (reads.drop i).flatten := by
    intro i
    rw [← List.flatten_append, List.take_append_drop, h]
  have hwhole := scan_initial cs last trailer (List.append_nil _).symm
  rw [← h] at hwhole
  obtain ⟨hgood, hpayload, _⟩ := hwhole
  refine ⟨(Scan.size []).results reads, ?_, ?_, ?_⟩
  · rw [(pushAll_scan rests_new reads).1, Scan.pushAll_good hgood]
  · rw [Scan.out_results, hpayload, h, payloadWithin, ← map_fst_markedBody, List.length_map,
      List.take_length, payloadOf_markedBody]
  · intro i hi
    obtain ⟨_, hout, hdone⟩ := scan_initial cs last trailer (hpart (i + 1))
    refine ⟨?_, ?_, ?_⟩
    · rw [Scan.take_results, Scan.out_results, hout]
    · rw [Scan.done_results, decide_eq_true_iff, hdone]
    · intro hover
      exact Scan.out_results_done hi ((scan_initial cs last trailer (hpart i)).2.2.mpr hover)

theorem spells_five : Spells (ascii "05") (ascii "hello").length :=
  ⟨by decide, [0, 5], by decide, by decide⟩

theorem spells_zero : Spells (ascii "0") 0 := ⟨by decide, [0], by decide, by decide⟩

theorem extOk_name : ExtOk (ascii " ;x") :=
  ⟨[32], [59, 120], rfl, List.forall_mem_singleton.mpr (.inl rfl), .inr rfl, by simp⟩

theorem extOk_nil : ExtOk [] :=
  ⟨[], [], rfl, List.forall_mem_nil _, .inl rfl, List.forall_mem_nil _⟩

/-- a size line, a payload and the last size line, each cut in two -/
theorem chunked_round_trip_cut :
    ∃ results : List Decoded,
      (ChunkedDecoder.pushAll {} [ascii "0", ascii "5 ;x\r\nhel", [], ascii "lo\r\n0\r",
        ascii "\n\r\n"]).1 = results.map .ok ∧
      results.flatMap Decoded.out = ascii "hello" ∧ results.length = 5 := by
  have hne : ascii "hello" ≠ [] := by decide
  have hfits : (ascii "hello").length < usizeBound := by decide
  obtain ⟨results, hok, hout, _⟩ := chunked_round_trip
    [⟨ascii "05", ascii " ;x", ascii "hello", spells_five, extOk_name, hne, hfits⟩]
    ⟨ascii "0", [], spells_zero, extOk_nil⟩ crlf
    [ascii "0", ascii "5 ;x\r\nhel", [], ascii "lo\r\n0\r", ascii "\n\r\n"] rfl
  have hlen := congrArg List.length hok
  rw [List.length_map] at hlen
  exact ⟨results, hok, hout, hlen.symm⟩

end AnvilRing
