import AnvilRing.Http.Response

/-!
# Request heads across the tunnel

A caller's request head on its way to the engine: `start_forward` takes the path and the query out
of the URI, `encode_request_head` writes the OPEN head, and `forward_engine` reads it and builds the
engine's request.

* `Uri`, `Uri.Served`        `http::Uri`, and the targets that an HTTP/1 server has to serve;
* `openHead`                 the head that the hub sends;
* `forwardRequest`           what the tether makes of it;
* `request_head_intact`      the engine gets the caller's request, except where the target is an
                             absolute form with a query and no path.
-/

namespace AnvilRing
open Wire

/-! ## targets -/

/-- `http::Uri`, as RFC 3986 splits its text; `path` is empty where the text has none -/
structure Uri where
  scheme : Option Bytes
  authority : Option Bytes
  path : Bytes
  query : Option Bytes
  deriving DecidableEq, Repr

/-- the query with the `?` before it -/
def queryText : Option Bytes → Bytes
  | none => []
  | some query => 63 :: query

/-- an empty path counts as `/` -/
def pathOrRoot (path : Bytes) : Bytes := if path = [] then ascii "/" else path

namespace Uri

/-- `path_and_query()` and its `as_str()`: a slice of the text, `/` where the slice is empty; an
authority alone has none -/
def pathAndQuery (u : Uri) : Option Bytes :=
  if u.scheme.isSome = true ∨ u.authority = none then
    some (pathOrRoot (u.path ++ queryText u.query))
  else none

/-- the path that `start_forward` takes -/
def pathText (u : Uri) : Bytes := u.pathAndQuery.getD (ascii "/")

/-- `*` -/
def asterisk : Uri := ⟨none, none, ascii "*", none⟩

end Uri

/-! ## the hub -/

/-- `encode_request_head` -/
def encodeRequestHead (method path : Bytes) (headers : HeaderMap) : Bytes :=
  let stripped := (stripHopByHop headers).2
  writeFields (method ++ ascii " " ++ path ++ ascii " HTTP/1.1" ++ ascii "\r\n") stripped

/-- the head of the OPEN frame that `start_forward` sends -/
def openHead (method : Bytes) (uri : Uri) (headers : HeaderMap) : Bytes :=
  encodeRequestHead method uri.pathText headers

/-! ## the tether -/

/-- what `httparse::Request::parse` leaves of a complete head -/
structure RawRequest where
  method : Option Bytes
  path : Option Bytes
  headers : List Field
  deriving DecidableEq, Repr

/-- the libraries under `forward_engine` -/
structure RequestLib where
  /-- `httparse::Request::parse` with 128 header slots; `none` for a partial head -/
  parseRequest : Bytes → Except String (Option RawRequest)
  /-- `Uri::try_from` a text -/
  parseUri : Bytes → Option Uri
  /-- the bytes that `Uri` takes in a path -/
  pathByte : UInt8 → Bool
  /-- the bytes that `Uri` takes in a query -/
  queryByte : UInt8 → Bool

/-- `SocketAddr::to_string`, which is a header value -/
structure AddrText where
  text : Bytes
  valid : isHeaderValue text = true

/-- the request that is sent to the engine, less its body -/
structure EngineRequest where
  method : Bytes
  uri : Uri
  headers : HeaderMap

/-- the loop over `parsed.headers`: names are put in lower case, and one illegal field fails all -/
def HeaderMap.ofFields (fs : List Field) : Option HeaderMap :=
  let lowered := fs.map fun f => (f.1.map asciiLower, f.2)
  if h : ∀ f ∈ lowered, isHeaderName f.1 = true ∧ isHeaderValue f.2 = true then
    some ⟨lowered, h⟩
  else none

/-- `http::Request::builder` up to `headers_mut` -/
def buildRequest (lib : RequestLib) (method path : Bytes) (fs : List Field) :
    Option EngineRequest := do
  let uri ← lib.parseUri path
  let headers ← HeaderMap.ofFields fs
  if isToken method = true then some ⟨method, uri, headers⟩ else none

/-- what `forward_engine` does to the fields of a request -/
def engineHeaders (addr : AddrText) (headers : HeaderMap) : HeaderMap :=
  let headers := (stripHopByHop headers).2
  let headers := headers.insert (ascii "host") addr.text (by decide) addr.valid
  let headers := (headers.remove (ascii "expect")).2
  if headers.containsKey (ascii "content-length") then headers
  else headers.insert (ascii "transfer-encoding") (ascii "chunked") (by decide) (by decide)

/-- `forward_engine`, from the head of an OPEN to the request for the engine at `addr` -/
def forwardRequest (lib : RequestLib) (addr : AddrText) (head : Bytes) :
    Except String EngineRequest := do
  let parsed ← match ← lib.parseRequest head with
    | some parsed => .ok parsed
    | none => .error "incomplete request head"
  let method ← parsed.method.elim (.error "missing method") .ok
  let path ← parsed.path.elim (.error "missing path") .ok
  match buildRequest lib method path parsed.headers with
  | some request => .ok { request with headers := engineHeaders addr request.headers }
  | none => .error "invalid request headers"

/-! ## what the libraries promise -/

namespace RequestLib
variable (lib : RequestLib)

/-- an absolute path -/
def PathOk (path : Bytes) : Prop :=
  (∃ rest, path = 47 :: rest) ∧ path.all lib.pathByte = true

def QueryOk (query : Option Bytes) : Prop := ∀ q ∈ query, q.all lib.queryByte = true

instance (query : Option Bytes) : Decidable (lib.QueryOk query) :=
  match query with
  | none => .isTrue nofun
  | some q => decidable_of_iff (q.all lib.queryByte = true) (by simp [QueryOk])

/-- `httparse` reads every head of the grammar that fits its slots; a `Uri` is made of visible
ASCII, and its text is read as a request target: in origin form, as `*`, and never from a `?`. -/
structure Conforms : Prop where
  parse : ∀ bytes method target fields rest,
    readRequest headerSlots bytes = some (method, target, fields, rest) →
      lib.parseRequest bytes = .ok (some ⟨some method, some target, fields⟩)
  pathByte : ∀ b, lib.pathByte b = true → isTargetByte b = true
  queryByte : ∀ b, lib.queryByte b = true → isTargetByte b = true
  slash : lib.pathByte 47 = true
  origin : ∀ path query, lib.PathOk path → lib.QueryOk query →
    lib.parseUri (path ++ queryText query) = some ⟨none, none, path, query⟩
  asterisk : lib.parseUri (ascii "*") = some Uri.asterisk
  relative : ∀ text, lib.parseUri (63 :: text) = none

end RequestLib

/-- the targets of requests to a server: origin form, absolute form with or without a path, `*` -/
inductive Uri.Served (lib : RequestLib) : Uri → Prop where
  | origin {path : Bytes} {query : Option Bytes} (hp : lib.PathOk path) (hq : lib.QueryOk query) :
      Served lib ⟨none, none, path, query⟩
  | absolute {scheme authority path : Bytes} {query : Option Bytes}
      (hp : path = [] ∨ lib.PathOk path) (hq : lib.QueryOk query) :
      Served lib ⟨some scheme, some authority, path, query⟩
  | asterisk : Served lib asterisk

/-- an absolute form with a query right behind the authority -/
def Uri.OnlyQuery (u : Uri) : Prop :=
  u.scheme.isSome = true ∧ u.path = [] ∧ u.query.isSome = true

instance (u : Uri) : Decidable u.OnlyQuery := inferInstanceAs (Decidable (_ ∧ _ ∧ _))

/-! ## targets on the way -/

section
variable {lib : RequestLib} {u : Uri}

theorem all_queryText (hlib : lib.Conforms) {query : Option Bytes} (hq : lib.QueryOk query) :
    (queryText query).all isTargetByte = true := by
  cases query with
  | none => rfl
  | some q =>
    rw [queryText, List.all_cons, Bool.and_eq_true, List.all_eq_true]
    exact ⟨rfl, fun b hb => hlib.queryByte b (List.all_eq_true.mp (hq q rfl) b hb)⟩

theorem all_path (hlib : lib.Conforms) {path : Bytes} (hp : path = [] ∨ lib.PathOk path) :
    path.all isTargetByte = true := by
  rcases hp with rfl | ⟨_, hp⟩
  · rfl
  · exact List.all_eq_true.mpr fun b hb => hlib.pathByte b (List.all_eq_true.mp hp b hb)

theorem pathOrRoot_ne_nil (path : Bytes) : pathOrRoot path ≠ [] := by
  unfold pathOrRoot
  split
  · decide
  · assumption

theorem all_pathOrRoot {text : Bytes} (ht : text.all isTargetByte = true) :
    (pathOrRoot text).all isTargetByte = true := by
  unfold pathOrRoot
  split
  · decide
  · exact ht

/-- a served target has a path and a query -/
theorem Uri.Served.pathText_eq (h : u.Served lib) :
    u.pathText = pathOrRoot (u.path ++ queryText u.query) := by
  cases h with
  | origin => rfl
  | absolute => rfl
  | asterisk => rfl

/-- what the hub writes for a served target is one word of the request line -/
theorem Uri.Served.pathText_target (hlib : lib.Conforms) (h : u.Served lib) :
    u.pathText ≠ [] ∧ u.pathText.all isTargetByte = true := by
  rw [h.pathText_eq]
  refine ⟨pathOrRoot_ne_nil _, all_pathOrRoot ?_⟩
  rw [List.all_append, Bool.and_eq_true]
  cases h with
  | origin hp hq => exact ⟨all_path hlib (.inr hp), all_queryText hlib hq⟩
  | absolute hp hq => exact ⟨all_path hlib hp, all_queryText hlib hq⟩
  | asterisk => exact ⟨rfl, rfl⟩

/-- the tether reads back the path and the query, an empty path as `/` -/
theorem Uri.Served.parseUri_pathText (hlib : lib.Conforms) (h : u.Served lib)
    (hq : ¬ u.OnlyQuery) :
    lib.parseUri u.pathText = some ⟨none, none, pathOrRoot u.path, u.query⟩ := by
  rw [h.pathText_eq]
  -- a path that begins with `/` is the target's own
  have hpath : ∀ {path : Bytes} {query : Option Bytes}, lib.PathOk path → lib.QueryOk query →
      lib.parseUri (pathOrRoot (path ++ queryText query))
        = some ⟨none, none, pathOrRoot path, query⟩ := by
    intro path query hp hq
    obtain ⟨rest, rfl⟩ := hp.1
    exact hlib.origin _ _ hp hq
  cases h with
  | origin hp hqok => exact hpath hp hqok
  | @absolute scheme authority path query hp hqok =>
    rcases hp with rfl | hp
    · cases query with
      | none =>
        have hroot : lib.PathOk (ascii "/") := by
          refine ⟨⟨[], rfl⟩, ?_⟩
          show (lib.pathByte 47 && true) = true
          rw [hlib.slash]
          rfl
        exact hlib.origin _ none hroot hqok
      | some query => exact absurd ⟨rfl, rfl, rfl⟩ hq
    · exact hpath hp hqok
  | asterisk => exact hlib.asterisk

/-- a query alone is no target -/
theorem Uri.Served.parseUri_onlyQuery (hlib : lib.Conforms) (h : u.Served lib)
    (hq : u.OnlyQuery) : lib.parseUri u.pathText = none := by
  obtain ⟨_, hp, hs⟩ := hq
  obtain ⟨query, hquery⟩ := Option.isSome_iff_exists.mp hs
  rw [h.pathText_eq, hp, hquery]
  exact hlib.relative query

end

/-! ## fields on the way -/

/-- the values that the engine gets under a name: those that stripping left, but for Expect, Host
and the framing -/
def engineValues (addr : AddrText) (stripped : HeaderMap) (name : Bytes) : List Bytes :=
  if name = ascii "transfer-encoding" then
    if stripped.getAll (ascii "content-length") = [] then [ascii "chunked"] else []
  else if name = ascii "expect" then []
  else if name = ascii "host" then [addr.text]
  else stripped.getAll name

section
variable {h : HeaderMap} {name : Bytes}

theorem HeaderMap.ofFields_fields (h : HeaderMap) : HeaderMap.ofFields h.fields = some h := by
  have he : (h.fields.map fun f => (f.1.map asciiLower, f.2)) = h.fields := by
    conv => rhs; rw [← List.map_id h.fields]
    exact List.map_congr_left fun f hf => Prod.ext (map_asciiLower (h.valid f hf).1) rfl
  unfold HeaderMap.ofFields
  simp only [he]
  exact dif_pos h.valid

/-- no field is left under a name that is always stripped -/
theorem getAll_strip_always (hn : name ∈ alwaysStrip) : (stripHopByHop h).2.getAll name = [] := by
  refine valuesOf_eq_nil_iff.mpr fun f hf he => strip_disjoint hf ?_
  rw [he]
  exact hn

/-- Host replaced, Expect gone -/
theorem getAll_hostHeaders (addr : AddrText) (h : HeaderMap) :
    ((h.insert (ascii "host") addr.text (by decide) addr.valid).remove
        (ascii "expect")).2.getAll name
      = if name = ascii "expect" then []
        else if name = ascii "host" then [addr.text] else h.getAll name := by
  rw [HeaderMap.getAll_remove, HeaderMap.getAll_insert]

/-- the engine's fields, name by name -/
theorem getAll_engineHeaders (addr : AddrText) (h : HeaderMap) :
    (engineHeaders addr h).getAll name = engineValues addr (stripHopByHop h).2 name := by
  have hlength := @getAll_hostHeaders (ascii "content-length") addr (stripHopByHop h).2
  rw [if_neg (by decide), if_neg (by decide)] at hlength
  unfold engineHeaders engineValues
  simp only [HeaderMap.containsKey_iff, hlength]
  by_cases hc : (stripHopByHop h).2.getAll (ascii "content-length") = []
  · rw [if_neg (Classical.not_not.mpr hc), if_pos hc, HeaderMap.getAll_insert, getAll_hostHeaders]
  · rw [if_pos hc, if_neg hc, getAll_hostHeaders]
    -- the hub's framing was stripped, so nothing is left under its name
    by_cases hn : name = ascii "transfer-encoding"
    · rw [if_pos hn, hn, if_neg (by decide), if_neg (by decide), getAll_strip_always (by decide)]
    · rw [if_neg hn]

end

/-! ## the round trip -/

/-- What crossing intact means for a request: the tether builds a request with the same method, the
same path and query, and the fields that stripping left but for Expect, Host and the framing. -/
def RequestIntact (lib : RequestLib) (addr : AddrText) (method : Bytes) (uri : Uri)
    (h : HeaderMap) : Prop :=
  ∃ e, forwardRequest lib addr (openHead method uri h) = .ok e ∧ e.method = method ∧
    pathOrRoot e.uri.path = pathOrRoot uri.path ∧ e.uri.query = uri.query ∧
    ∀ name, e.headers.getAll name = engineValues addr (stripHopByHop h).2 name

section
variable {lib : RequestLib} {addr : AddrText} {method : Bytes} {u : Uri} {h : HeaderMap}

theorem openHead_eq (method : Bytes) (u : Uri) (h : HeaderMap) :
    openHead method u h
      = writeHead (requestLine method u.pathText) (stripHopByHop h).2.fields :=
  writeFields_eq _ _

/-- the tether's parser finds one request line and the hub's fields, nothing else -/
theorem parseRequest_openHead (hlib : lib.Conforms) (hm : isToken method = true)
    (hu : u.Served lib) (hv : ∀ f ∈ h.fields, trimOws f.2 = f.2)
    (hn : (stripHopByHop h).2.fields.length ≤ headerSlots) :
    lib.parseRequest (openHead method u h)
      = .ok (some ⟨some method, some u.pathText, (stripHopByHop h).2.fields⟩) := by
  obtain ⟨hne, ht⟩ := hu.pathText_target hlib
  have hread := readRequest_append hm hne ht
    (fun f hf => (stripHopByHop h).2.fieldOk hf) hn []
  rw [List.append_nil, map_trim fun f hf => hv f (mem_strip.mp hf).1, ← openHead_eq] at hread
  exact hlib.parse _ _ _ _ _ hread

/-- the tether's answer to the hub's head rests on the target alone -/
theorem forwardRequest_openHead (hlib : lib.Conforms) (hm : isToken method = true)
    (hu : u.Served lib) (hv : ∀ f ∈ h.fields, trimOws f.2 = f.2)
    (hn : (stripHopByHop h).2.fields.length ≤ headerSlots) :
    forwardRequest lib addr (openHead method u h) =
      match lib.parseUri u.pathText with
      | some uri => .ok ⟨method, uri, engineHeaders addr (stripHopByHop h).2⟩
      | none => .error "invalid request headers" := by
  rw [forwardRequest, parseRequest_openHead hlib hm hu hv hn]
  cases hp : lib.parseUri u.pathText with
  | none =>
    have hb : buildRequest lib method u.pathText (stripHopByHop h).2.fields = none := by
      rw [buildRequest, hp]
      rfl
    simp [bind, Except.bind, hb]
  | some uri =>
    have hb : buildRequest lib method u.pathText (stripHopByHop h).2.fields
        = some ⟨method, uri, (stripHopByHop h).2⟩ := by
      rw [buildRequest, hp, HeaderMap.ofFields_fields]
      exact if_pos hm
    simp [bind, Except.bind, hb]

/-- **A request head crosses the tunnel intact, except where the target is an absolute form with a
query and no path.**  Whatever the method, the target and the fields, the tether's parser finds one
request line and exactly the stripped fields. -/
theorem request_head_intact (hlib : lib.Conforms) (addr : AddrText) (hm : isToken method = true)
    (hu : u.Served lib) (hv : ∀ f ∈ h.fields, trimOws f.2 = f.2)
    (hn : (stripHopByHop h).2.fields.length ≤ headerSlots) :
    lib.parseRequest (openHead method u h)
        = .ok (some ⟨some method, some u.pathText, (stripHopByHop h).2.fields⟩) ∧
      (RequestIntact lib addr method u h ↔ ¬ u.OnlyQuery) := by
  refine ⟨parseRequest_openHead hlib hm hu hv hn, ?_⟩
  have he := @forwardRequest_openHead lib addr method u h hlib hm hu hv hn
  constructor
  · intro hi hq
    obtain ⟨e, hok, _⟩ := hi
    rw [he, hu.parseUri_onlyQuery hlib hq] at hok
    cases hok
  · intro hq
    rw [hu.parseUri_pathText hlib hq] at he
    refine ⟨_, he, rfl, ?_, rfl, ?_⟩
    · show pathOrRoot (pathOrRoot u.path) = _
      exact if_neg (pathOrRoot_ne_nil _)
    · intro name
      rw [getAll_engineHeaders, strip_strip]

end

/-! ## a caller behind a proxy -/

/-- libraries that read the grammar and the two forms of a target that are not absolute -/
def targetLib : RequestLib where
  parseRequest bytes :=
    match readRequest headerSlots bytes with
    | some (method, target, fields, _) => .ok (some ⟨some method, some target, fields⟩)
    | none => .ok none
  parseUri text :=
    match text with
    | 47 :: rest =>
      match cut 63 rest with
      | some (path, query) => some ⟨none, none, 47 :: path, some query⟩
      | none => some ⟨none, none, 47 :: rest, none⟩
    | text => if text = ascii "*" then some Uri.asterisk else none
  pathByte b := isTargetByte b && b != 63 && b != 35
  queryByte b := isTargetByte b && b != 35

theorem targetLib_conforms : targetLib.Conforms where
  parse bytes method target fields rest h := by
    show (match readRequest headerSlots bytes with
      | some (method, target, fields, _) => _
      | none => _) = _
    rw [h]
  pathByte b hb := by
    have h : (isTargetByte b && b != 63 && b != 35) = true := hb
    rw [Bool.and_eq_true, Bool.and_eq_true] at h
    exact h.1.1
  queryByte b hb := by
    have h : (isTargetByte b && b != 35) = true := hb
    rw [Bool.and_eq_true] at h
    exact h.1
  slash := rfl
  origin path query hp _ := by
    obtain ⟨⟨rest, rfl⟩, hall⟩ := hp
    have hne : ∀ b ∈ rest, b ≠ 63 := fun b hb =>
      ne_of_all hall rfl b (List.mem_cons_of_mem _ hb)
    cases query with
    | none =>
      rw [queryText, List.append_nil]
      show (match cut 63 rest with
        | some (path, query) => _
        | none => _) = _
      rw [cut_eq_none hne]
    | some query =>
      show (match cut 63 (rest ++ 63 :: query) with
        | some (path, query) => _
        | none => _) = _
      rw [cut_append hne]
  asterisk := rfl
  relative _ := rfl

/-- the tether's engine -/
def engineAddr : AddrText := ⟨ascii "127.0.0.1:8000", by decide⟩

/-- a host, a private field, an expectation, and two values of one name -/
def callerHeaders : HeaderMap where
  fields := [(ascii "host", ascii "hub.example"), (ascii "accept", ascii "text/html"),
    (ascii "connection", ascii "X-Private"), (ascii "x-private", ascii "p"),
    (ascii "expect", ascii "100-continue"), (ascii "accept", ascii "*/*")]
  valid := by decide

theorem request_head_intact_query :
    RequestIntact targetLib engineAddr (ascii "POST")
      ⟨none, none, ascii "/v1/models", some (ascii "extra=1")⟩ callerHeaders :=
  (request_head_intact targetLib_conforms engineAddr (by decide)
    (.origin ⟨⟨ascii "v1/models", rfl⟩, by decide⟩ (by decide)) (by decide) (by decide)).2.mpr
    (by decide)

/-- The target `http://h?x=1`, as a client behind a proxy sends it: the hub writes `GET ?x=1`, which
is no request target, and the tether refuses the head. -/
theorem onlyQuery_refused :
    Uri.Served targetLib ⟨some (ascii "http"), some (ascii "h"), [], some (ascii "x=1")⟩ ∧
      ¬ RequestIntact targetLib engineAddr (ascii "GET")
        ⟨some (ascii "http"), some (ascii "h"), [], some (ascii "x=1")⟩ callerHeaders := by
  have hs : Uri.Served targetLib ⟨some (ascii "http"), some (ascii "h"), [], some (ascii "x=1")⟩ :=
    .absolute (.inl rfl) (by decide)
  refine ⟨hs, ?_⟩
  rintro ⟨e, he, _⟩
  rw [forwardRequest_openHead targetLib_conforms (by decide) hs (by decide) (by decide),
    hs.parseUri_onlyQuery targetLib_conforms ⟨rfl, rfl, rfl⟩] at he
  cases he

end AnvilRing
