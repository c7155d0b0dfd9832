import AnvilRing.Lib.HttpHead
import AnvilRing.Lib.Text
import AnvilRing.Lib.Transducer

/-!
# The chunked decoder

`ChunkedDecoder` of the tether's engine reads: `push` appends a read to the buffer and goes through
its loop until more bytes are needed; `feed_eof` is the engine's close.

* `pass`, `decodeLoop`, `push`, `feedEof`    the code, pass by pass;
* `Scan`                     the framing read one byte at a time, with no buffer but the open line;
* `Rests d s`                the decoder between two reads, and the state of the scan that it is;
* `push_scan`                one `push` is the scan of its bytes;
* `pushAll_scan`             a sequence of reads is the scan of each in turn.
-/

namespace AnvilRing
open Wire

inductive ChunkError where
  | malformed (what : String)
  deriving DecidableEq, Repr

/-- where the decoder is in the framing -/
inductive Mode where
  | size
  | body (remaining : Nat)
  | crLf
  | done
  deriving DecidableEq, Repr

structure ChunkedDecoder where
  buf : Bytes := []
  mode : Mode := .size
  deriving DecidableEq, Repr

structure Decoded where
  out : Bytes
  done : Bool
  deriving DecidableEq, Repr

def notUtf8 : ChunkError := .malformed "size line not utf8"

def notHex : ChunkError := .malformed "chunk size not hex"

def missingCrlf : ChunkError := .malformed "missing CRLF after chunk"

def eofMidLine : ChunkError := .malformed "eof mid chunk-size line"

def eofMidBody : ChunkError := .malformed "eof mid chunk body"

/-- one more than `usize::MAX` -/
def usizeBound : Nat := 18446744073709551616

/-- the size that a size line states; an extension after `;` is not looked at -/
def chunkSize (line : Bytes) : Except ChunkError Nat :=
  let hex := line.takeWhile (· != 59)
  if utf8Valid hex then
    match hexBelow usizeBound (trim hex) with
    | some n => .ok n
    | none => .error notHex
  else .error notUtf8

/-- one pass through the loop of `push`: round again with the bytes handed out, leave it, or fail.
The mode was taken out of the decoder, so that a failure leaves `done` behind -/
inductive Pass where
  | again (d : ChunkedDecoder) (out : Bytes)
  | leave (d : ChunkedDecoder) (done : Bool)
  | fail (d : ChunkedDecoder) (e : ChunkError)

namespace ChunkedDecoder

def pass (d : ChunkedDecoder) : Pass :=
  match d.mode with
  | .size =>
    match takeLine d.buf with
    | none => .leave d false
    | some (line, rest) =>
      match chunkSize line with
      | .error e => .fail { d with mode := .done } e
      | .ok n =>
        if n = 0 then .leave { buf := [], mode := .done } true
        else .again { buf := rest, mode := .body n } []
  | .body remaining =>
    if remaining = 0 then .again { d with mode := .crLf } []
    else
      let take := min remaining d.buf.length
      if take = 0 then .leave d false
      else
        let left := remaining - take
        .again { buf := d.buf.drop take, mode := if left = 0 then .crLf else .body left }
          (d.buf.take take)
  | .crLf =>
    if d.buf.length < 2 then .leave d false
    else if d.buf.take 2 = crlf then .again { buf := d.buf.drop 2, mode := .size } []
    else .fail { d with mode := .done } missingCrlf
  | .done => .leave d true

/-- the loop, with what earlier passes handed out -/
def decodeLoop : Nat → ChunkedDecoder → Bytes → Except ChunkError Decoded × ChunkedDecoder
  | 0, d, out => (.ok { out := out, done := false }, d)
  | fuel + 1, d, out =>
    match d.pass with
    | .again d' more => decodeLoop fuel d' (out ++ more)
    | .leave d' done => (.ok { out := out, done := done }, d')
    | .fail d' e => (.error e, d')

/-- more passes than a buffer of this length can take (`decodeLoop_scan`) -/
def passes (buf : Bytes) : Nat := 2 * buf.length + 3

def push (d : ChunkedDecoder) (bytes : Bytes) : Except ChunkError Decoded × ChunkedDecoder :=
  let buf := d.buf ++ bytes
  decodeLoop (passes buf) { d with buf := buf } []

def feedEof (d : ChunkedDecoder) : Except ChunkError Bytes × ChunkedDecoder :=
  match d.mode with
  | .crLf => (.ok [], { buf := [], mode := .done })
  | .size => if d.buf = [] then (.ok [], d) else (.error eofMidLine, { d with buf := [] })
  | .body _ => (.error eofMidBody, { d with buf := [] })
  | .done => (.ok [], d)

/-- what a sequence of reads returns, one result a read -/
def pushAll : ChunkedDecoder → List Bytes → List (Except ChunkError Decoded) × ChunkedDecoder
  | d, [] => ([], d)
  | d, bytes :: reads =>
    let first := d.push bytes
    let rest := pushAll first.2 reads
    (first.1 :: rest.1, rest.2)

end ChunkedDecoder

/-! ## the framing, a byte at a time -/

/-- how far the framing has been read; `crLf` knows the byte that it has seen, if one -/
inductive Scan where
  | size (line : Bytes)
  | body (remaining : Nat)
  | crLf (first : Option UInt8)
  | done
  | bad (e : ChunkError)
  deriving DecidableEq, Repr

namespace Scan

def endLine (line : Bytes) : Scan :=
  match chunkSize line with
  | .error e => .bad e
  | .ok n => if n = 0 then .done else .body n

def step : Scan → UInt8 → Scan × Bytes
  | .size line, b =>
    if b = 10 ∧ line.getLast? = some 13 then (endLine line.dropLast, [])
    else (.size (line ++ [b]), [])
  | .body n, b => (if n ≤ 1 then .crLf none else .body (n - 1), [b])
  | .crLf none, b => (.crLf (some b), [])
  | .crLf (some a), b => (if a = 13 ∧ b = 10 then .size [] else .bad missingCrlf, [])
  | .done, _ => (.done, [])
  | .bad e, _ => (.bad e, [])

/-- the scan of a text, and the payload bytes in it -/
abbrev run (s : Scan) (bytes : Bytes) : Scan × Bytes := Transducer.run step s bytes

def isBad : Scan → Bool
  | .bad _ => true
  | _ => false

/-- what the decoder says of a read that took the scan here -/
def reply : Scan × Bytes → Except ChunkError Decoded
  | (.bad e, _) => .error e
  | (.done, out) => .ok { out := out, done := true }
  | (_, out) => .ok { out := out, done := false }

/-- where the decoder goes on: a failure is not remembered -/
def settle : Scan → Scan
  | .bad _ => .done
  | s => s

def pushAll : Scan → List Bytes → List (Except ChunkError Decoded) × Scan
  | s, [] => ([], s)
  | s, bytes :: reads =>
    let next := run s bytes
    let rest := pushAll (settle next.1) reads
    (reply next :: rest.1, rest.2)

theorem run_cons (s : Scan) (b : UInt8) (bytes : Bytes) :
    s.run (b :: bytes) = (((s.step b).1.run bytes).1, (s.step b).2 ++ ((s.step b).1.run bytes).2) :=
  rfl

theorem run_append (s : Scan) (bytes more : Bytes) :
    s.run (bytes ++ more) = (((s.run bytes).1.run more).1,
      (s.run bytes).2 ++ ((s.run bytes).1.run more).2) :=
  Transducer.run_append s bytes more

theorem run_done (bytes : Bytes) : run .done bytes = (.done, []) :=
  Transducer.run_absorbing (fun _ => rfl) bytes

theorem run_bad (e : ChunkError) (bytes : Bytes) : run (.bad e) bytes = (.bad e, []) :=
  Transducer.run_absorbing (fun _ => rfl) bytes

/-- a body of which `n` bytes are to come -/
def afterBody (n : Nat) : Scan := if n = 0 then .crLf none else .body n

/-- the scan of a buffer that has not been looked at -/
def start : Mode → Scan
  | .size => .size []
  | .body n => afterBody n
  | .crLf => .crLf none
  | .done => .done

section
variable {line rest bytes l : Bytes} {n : Nat}

theorem run_line_open (h : takeLine (line ++ bytes) = none) :
    run (.size line) bytes = (.size (line ++ bytes), []) := by
  induction bytes generalizing line with
  | nil => rw [List.append_nil, run, Transducer.run_nil]
  | cons b bytes ih =>
    rw [List.append_cons] at h
    have hb := takeLine_left h
    have hl := takeLine_left hb
    rw [takeLine_snoc hl] at hb
    split at hb
    · cases hb
    · next hx =>
      have hrun := ih h
      rw [← List.append_cons] at hrun
      rw [run_cons, step, if_neg hx, hrun]
      rfl

theorem run_line_closed (hl : takeLine line = none)
    (h : takeLine (line ++ bytes) = some (l, rest)) :
    run (.size line) bytes = run (endLine l) rest := by
  induction bytes generalizing line with
  | nil =>
    rw [List.append_nil, hl] at h
    cases h
  | cons b bytes ih =>
    rw [List.append_cons] at h
    have hb := takeLine_snoc hl b
    by_cases hx : b = 10 ∧ line.getLast? = some 13
    · rw [if_pos hx] at hb
      rw [takeLine_append_some hb] at h
      obtain ⟨rfl, rfl⟩ := Prod.mk.inj (Option.some.inj h)
      rw [run_cons, step, if_pos hx]
      rfl
    · rw [if_neg hx] at hb
      rw [run_cons, step, if_neg hx]
      exact ih hb h

theorem endLine_error {e : ChunkError} (h : chunkSize line = .error e) : endLine line = .bad e := by
  rw [endLine, h]

theorem endLine_zero (h : chunkSize line = .ok 0) : endLine line = .done := by
  rw [endLine, h]
  rfl

theorem endLine_body (h : chunkSize line = .ok n) (hn : n ≠ 0) : endLine line = .body n := by
  rw [endLine, h]
  exact if_neg hn

theorem afterBody_pos (hn : n ≠ 0) : afterBody n = .body n := if_neg hn

theorem afterBody_open (n : Nat) : afterBody n ≠ .done ∧ (afterBody n).isBad = false := by
  unfold afterBody
  split
  · exact ⟨fun h => (by cases h), rfl⟩
  · exact ⟨fun h => (by cases h), rfl⟩

theorem step_afterBody (b : UInt8) : step (afterBody (n + 1)) b = (afterBody n, [b]) := by
  rw [afterBody, if_neg (Nat.succ_ne_zero n), step]
  cases n with
  | zero => rfl
  | succ n => rw [if_neg (by omega), afterBody, if_neg (Nat.succ_ne_zero n), Nat.add_sub_cancel]

theorem run_afterBody (h : bytes.length ≤ n) :
    run (afterBody n) bytes = (afterBody (n - bytes.length), bytes) := by
  induction bytes generalizing n with
  | nil => rfl
  | cons b bytes ih =>
    cases n with
    | zero => cases h
    | succ n =>
      rw [run_cons, step_afterBody, ih (Nat.le_of_succ_le_succ h),
        List.length_cons, Nat.add_sub_add_right]
      rfl

end

end Scan

/-! ## the decoder is the scan -/

/-- the decoder between two reads -/
def Rests (d : ChunkedDecoder) : Scan → Prop
  | .size line => d = { buf := line, mode := .size } ∧ takeLine line = none
  | .body n => d = { buf := [], mode := .body n } ∧ 0 < n
  | .crLf none => d = { buf := [], mode := .crLf }
  | .crLf (some b) => d = { buf := [b], mode := .crLf }
  | .done => d.mode = .done
  | .bad _ => False

/-- the scan of the mode and the buffer of a decoder -/
def ChunkedDecoder.scan (d : ChunkedDecoder) : Scan × Bytes := (Scan.start d.mode).run d.buf

/-- what is left to do: a pass takes bytes from the buffer, or ends a body that is over -/
def ChunkedDecoder.cost (d : ChunkedDecoder) : Nat :=
  2 * d.buf.length + match d.mode with
    | .body _ => 1
    | _ => 0

/-- a pass is sound when it says of the scan what the scan says -/
def Pass.Sound (d : ChunkedDecoder) : Pass → Prop
  | .again d' more => d'.cost < d.cost ∧ d.scan = (d'.scan.1, more ++ d'.scan.2)
  | .leave d' done => ∃ s, d.scan = (s, []) ∧ Rests d' s ∧
      ∀ out, Scan.reply (s, out) = .ok { out := out, done := done }
  | .fail d' e => d.scan = (.bad e, []) ∧ d'.mode = .done

section
variable {d : ChunkedDecoder} {s : Scan} {buf : Bytes}

theorem pass_size : Pass.Sound { buf := buf, mode := .size }
    (ChunkedDecoder.pass { buf := buf, mode := .size }) := by
  unfold ChunkedDecoder.pass
  cases hline : takeLine buf with
  | none =>
    exact ⟨.size buf, @Scan.run_line_open [] _ hline, ⟨rfl, hline⟩, fun _ => rfl⟩
  | some p =>
    obtain ⟨line, rest⟩ := p
    have hscan : ChunkedDecoder.scan { buf := buf, mode := .size } = (Scan.endLine line).run rest :=
      Scan.run_line_closed rfl hline
    cases hsize : chunkSize line with
    | error e =>
      rw [Scan.endLine_error hsize, Scan.run_bad] at hscan
      simp only [hsize]
      exact ⟨hscan, rfl⟩
    | ok n =>
      simp only [hsize]
      split
      · next hn =>
        subst hn
        rw [Scan.endLine_zero hsize, Scan.run_done] at hscan
        exact ⟨.done, hscan, rfl, fun _ => rfl⟩
      · next hn =>
        rw [Scan.endLine_body hsize hn, ← Scan.afterBody_pos hn] at hscan
        refine ⟨?_, hscan⟩
        have hbuf := congrArg List.length (eq_of_takeLine hline)
        rw [List.length_append, List.length_append, show crlf.length = 2 from rfl] at hbuf
        show 2 * rest.length + 1 < 2 * buf.length + 0
        omega

theorem pass_body (n : Nat) :
    Pass.Sound { buf := buf, mode := .body n }
      (ChunkedDecoder.pass { buf := buf, mode := .body n }) := by
  unfold ChunkedDecoder.pass
  by_cases hn : n = 0
  · subst hn
    exact ⟨Nat.lt_succ_self _, rfl⟩
  · simp only [if_neg hn]
    split
    · next htake =>
      have hbuf : buf = [] := List.length_eq_zero_iff.mp (by omega)
      subst hbuf
      refine ⟨.body n, ?_, ⟨rfl, Nat.pos_of_ne_zero hn⟩, fun _ => rfl⟩
      rw [ChunkedDecoder.scan, Scan.start, Scan.afterBody_pos hn]
      rfl
    · next htake =>
      generalize hk : min n buf.length = take at htake ⊢
      have hlen : (buf.take take).length = take := List.length_take_of_le (by omega)
      have hscan : ChunkedDecoder.scan { buf := buf, mode := .body n } =
          (((Scan.afterBody (n - take)).run (buf.drop take)).1,
            buf.take take ++ ((Scan.afterBody (n - take)).run (buf.drop take)).2) := by
        have h := Scan.run_append (Scan.afterBody n) (buf.take take) (buf.drop take)
        rw [List.take_append_drop, @Scan.run_afterBody (buf.take take) n (by omega),
          hlen] at h
        exact h
      refine ⟨?_, ?_⟩
      · show 2 * (buf.drop take).length + _ < 2 * buf.length + 1
        rw [List.length_drop]
        split <;> omega
      · rw [hscan]
        show _ = (((Scan.start (if n - take = 0 then .crLf else .body (n - take))).run _).1, _)
        split
        · next hleft =>
          rw [hleft]
          rfl
        · rfl

theorem pass_crLf : Pass.Sound { buf := buf, mode := .crLf }
    (ChunkedDecoder.pass { buf := buf, mode := .crLf }) := by
  unfold ChunkedDecoder.pass
  -- the decoder wants two bytes before it looks at either
  rcases buf with _ | ⟨a, _ | ⟨b, buf⟩⟩
  · exact ⟨.crLf none, rfl, rfl, fun _ => rfl⟩
  · exact ⟨.crLf (some a), rfl, rfl, fun _ => rfl⟩
  · have hscan : ChunkedDecoder.scan { buf := a :: b :: buf, mode := .crLf } =
        (if a = 13 ∧ b = 10 then Scan.size [] else .bad missingCrlf).run buf := rfl
    simp only [List.length_cons]
    rw [if_neg (by omega)]
    split
    · next h =>
      have hab : a = 13 ∧ b = 10 := by simpa [crlf] using h
      rw [if_pos hab] at hscan
      refine ⟨?_, hscan⟩
      show 2 * buf.length + 0 < 2 * (buf.length + 1 + 1) + 0
      omega
    · next h =>
      have hab : ¬ (a = 13 ∧ b = 10) := by simpa [crlf] using h
      rw [if_neg hab, Scan.run_bad] at hscan
      exact ⟨hscan, rfl⟩

/-- every pass says of the scan what the scan says -/
theorem pass_sound (d : ChunkedDecoder) : Pass.Sound d d.pass := by
  obtain ⟨buf, mode⟩ := d
  cases mode with
  | size => exact pass_size
  | body n => exact pass_body n
  | crLf => exact pass_crLf
  | done => exact ⟨.done, Scan.run_done buf, rfl, fun _ => rfl⟩

theorem Rests.settle {s : Scan} (h : Rests d s) : s.settle = s := by
  cases s with
  | bad e => exact h.elim
  | size _ => rfl
  | body _ => rfl
  | crLf _ => rfl
  | done => rfl

/-- the loop ends, for it was given passes enough, and as the scan of the buffer ends -/
theorem decodeLoop_scan {fuel : Nat} (h : d.cost < fuel) (out : Bytes) :
    (d.decodeLoop fuel out).1 = Scan.reply (d.scan.1, out ++ d.scan.2) ∧
      Rests (d.decodeLoop fuel out).2 d.scan.1.settle := by
  induction fuel generalizing d out with
  | zero => cases h
  | succ fuel ih =>
    have hp := pass_sound d
    unfold ChunkedDecoder.decodeLoop
    cases hpass : d.pass with
    | again d' more =>
      rw [hpass] at hp
      obtain ⟨hcost, hscan⟩ := hp
      have hd' := ih (show d'.cost < fuel by omega) (out ++ more)
      rw [hscan]
      rw [List.append_assoc] at hd'
      exact hd'
    | leave d' done =>
      rw [hpass] at hp
      obtain ⟨s, hscan, hrests, hreply⟩ := hp
      rw [hscan, hrests.settle]
      refine ⟨?_, hrests⟩
      rw [List.append_nil]
      exact (hreply out).symm
    | fail d' e =>
      rw [hpass] at hp
      obtain ⟨hscan, hmode⟩ := hp
      rw [hscan]
      exact ⟨rfl, hmode⟩

theorem Rests.scan {s : Scan} (h : Rests d s) (bytes : Bytes) :
    ChunkedDecoder.scan { d with buf := d.buf ++ bytes } = s.run bytes := by
  have hs : (Scan.start d.mode).run d.buf = (s, []) := by
    cases s with
    | size line =>
      obtain ⟨rfl, hline⟩ := h
      exact @Scan.run_line_open [] _ hline
    | body n =>
      obtain ⟨rfl, hn⟩ := h
      show (Scan.afterBody n, _) = _
      rw [Scan.afterBody_pos (Nat.pos_iff_ne_zero.mp hn)]
    | crLf first =>
      cases first with
      | none =>
        obtain rfl := h
        rfl
      | some b =>
        obtain rfl := h
        rfl
    | done =>
      rw [show d.mode = .done from h]
      exact Scan.run_done _
    | bad e => exact h.elim
  show (Scan.start d.mode).run (d.buf ++ bytes) = _
  rw [Scan.run_append, hs]
  rfl

/-- **one read is the scan of its bytes**: what is handed out, whether the body is over, the error;
and the decoder is left where the scan is left, but for the error that it forgets -/
theorem push_scan {s : Scan} (h : Rests d s) (bytes : Bytes) :
    (d.push bytes).1 = Scan.reply (s.run bytes) ∧
      Rests (d.push bytes).2 (s.run bytes).1.settle := by
  have hcost : ChunkedDecoder.cost { d with buf := d.buf ++ bytes } <
      ChunkedDecoder.passes (d.buf ++ bytes) := by
    show 2 * (d.buf ++ bytes).length + _ < 2 * (d.buf ++ bytes).length + 3
    split <;> omega
  have hloop := decodeLoop_scan hcost []
  rw [h.scan bytes] at hloop
  exact hloop

theorem pushAll_scan {s : Scan} (h : Rests d s) (reads : List Bytes) :
    (d.pushAll reads).1 = (s.pushAll reads).1 ∧
      Rests (d.pushAll reads).2 (s.pushAll reads).2 := by
  induction reads generalizing d s with
  | nil => exact ⟨rfl, h⟩
  | cons bytes reads ih =>
    obtain ⟨hreply, hrests⟩ := push_scan h bytes
    obtain ⟨hreplies, hlast⟩ := ih hrests
    refine ⟨?_, hlast⟩
    rw [ChunkedDecoder.pushAll, Scan.pushAll, hreply, hreplies]

/-- a fresh decoder is at the start of a size line -/
theorem rests_new : Rests {} (.size []) := ⟨rfl, rfl⟩

end

/-! ## a sequence of reads -/

namespace Scan

/-- the results of reads that meet no fault -/
def results : Scan → List Bytes → List Decoded
  | _, [] => []
  | s, bytes :: reads =>
    let next := s.run bytes
    { out := next.2, done := next.1 = .done } :: results next.1 reads

section
variable {s : Scan} {bytes : Bytes} {reads : List Bytes}

theorem run_isBad (h : s.isBad = true) (bytes : Bytes) : (s.run bytes).1.isBad = true := by
  cases s with
  | bad e => rw [run_bad, isBad]
  | size _ => cases h
  | body _ => cases h
  | crLf _ => cases h
  | done => cases h

theorem reply_good (h : (s.run bytes).1.isBad = false) :
    reply (s.run bytes) =
      .ok { out := (s.run bytes).2, done := decide ((s.run bytes).1 = .done) } := by
  generalize s.run bytes = r at h
  obtain ⟨t, out⟩ := r
  cases t with
  | bad e => cases h
  | size _ => rfl
  | body _ => rfl
  | crLf _ => rfl
  | done => rfl

theorem settle_good (h : s.isBad = false) : s.settle = s := by
  cases s with
  | bad e => cases h
  | size _ => rfl
  | body _ => rfl
  | crLf _ => rfl
  | done => rfl

theorem run_flatten_cons :
    s.run (bytes :: reads).flatten = (((s.run bytes).1.run reads.flatten).1,
      (s.run bytes).2 ++ ((s.run bytes).1.run reads.flatten).2) := by
  rw [List.flatten_cons, run_append]

theorem good_of_flatten (h : (s.run (bytes :: reads).flatten).1.isBad = false) :
    (s.run bytes).1.isBad = false := by
  rw [run_flatten_cons] at h
  cases hb : (s.run bytes).1.isBad with
  | false => rfl
  | true => rw [← h, run_isBad hb]

/-- reads that meet no fault return what the scan writes -/
theorem pushAll_good (h : (s.run reads.flatten).1.isBad = false) :
    s.pushAll reads = ((s.results reads).map .ok, (s.run reads.flatten).1) := by
  induction reads generalizing s with
  | nil => rfl
  | cons bytes reads ih =>
    have hb := good_of_flatten h
    rw [run_flatten_cons] at h ⊢
    rw [pushAll, settle_good hb, ih h, reply_good hb]
    rfl

theorem results_append (reads more : List Bytes) :
    s.results (reads ++ more) = s.results reads ++ (s.run reads.flatten).1.results more := by
  induction reads generalizing s with
  | nil => rfl
  | cons bytes reads ih =>
    rw [List.cons_append, results, ih, run_flatten_cons]
    rfl

theorem out_results : (s.results reads).flatMap Decoded.out = (s.run reads.flatten).2 := by
  induction reads generalizing s with
  | nil => rfl
  | cons bytes reads ih =>
    rw [run_flatten_cons, ← ih]
    rfl

theorem take_results (i : Nat) : (s.results reads).take i = s.results (reads.take i) := by
  induction reads generalizing s i with
  | nil => rw [List.take_nil, results, List.take_nil]
  | cons bytes reads ih =>
    cases i with
    | zero => rfl
    | succ i => rw [results, List.take_succ_cons, List.take_succ_cons, results, ih]

theorem done_results {i : Nat} (hi : i < (s.results reads).length) :
    (s.results reads)[i].done = decide ((s.run (reads.take (i + 1)).flatten).1 = .done) := by
  induction reads generalizing s i with
  | nil => cases hi
  | cons bytes reads ih =>
    rw [List.take_succ_cons, run_flatten_cons]
    cases i with
    | zero => rfl
    | succ i => exact ih (Nat.lt_of_succ_lt_succ hi)

/-- nothing is handed out when the body was over before -/
theorem out_results_done {i : Nat} (hi : i < (s.results reads).length)
    (h : (s.run (reads.take i).flatten).1 = .done) : (s.results reads)[i].out = [] := by
  induction reads generalizing s i with
  | nil => cases hi
  | cons bytes reads ih =>
    cases i with
    | zero =>
      obtain rfl : s = .done := h
      show (Scan.run .done bytes).2 = []
      rw [run_done]
    | succ i =>
      rw [List.take_succ_cons, run_flatten_cons] at h
      exact ih (Nat.lt_of_succ_lt_succ hi) h

end

end Scan

end AnvilRing
