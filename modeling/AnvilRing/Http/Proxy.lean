import AnvilRing.Http.Request
import AnvilRing.Http.Strip

/-!
# The local proxy beside the tunnel

`proxy.rs` forwards a caller's request to the engine without the tunnel.  Both ways to the engine
are compared here: what becomes of the target of a request, and of the fields of a response.

* `forwardUri`, `proxyRequest`, `streamThrough`   the proxy;
* `HttpLib.Bounded`                  `httparse` refuses a head with more fields than slots;
* `same_response_headers_iff`        when a caller gets the same fields both ways;
* `RequestLib.Rfc3986`               a `Uri` in absolute form is the split of its text;
* `same_target_iff`                  when the engine gets the same target both ways.
-/

namespace AnvilRing
open Wire

/-! ## the proxy -/

/-- `Uri::path`: `/` for an empty path behind a scheme -/
def Uri.pathStr (u : Uri) : Bytes :=
  if u.scheme.isSome = true ∧ u.path = [] then ascii "/" else u.path

/-- `forward_uri` -/
def forwardUri (lib : RequestLib) (upstream reqUri : Uri) : Option Uri := do
  let scheme := upstream.scheme.getD (ascii "http")
  let authority ← upstream.authority
  let path := if reqUri.pathStr = [] then ascii "/" else reqUri.pathStr
  let qs := queryText reqUri.query
  lib.parseUri (scheme ++ ascii "://" ++ authority ++ path ++ qs)

/-- the text of `InvalidHeaderValue` -/
def invalidHeaderValue : String := "failed to parse header value"

theorem isHeaderName_host : isHeaderName (ascii "host") = true := by
  decide

/-- `rebuild_request` -/
def rebuildRequest (method : Bytes) (uri : Uri) (headers : HeaderMap) :
    Except String EngineRequest :=
  match uri.authority with
  | some auth =>
    if h : isHeaderValue auth = true then
      .ok ⟨method, uri, headers.insert (ascii "host") auth isHeaderName_host h⟩
    else .error invalidHeaderValue
  | none => .ok ⟨method, uri, headers⟩

/-- `Proxy::forward`, up to the request that it sends -/
def proxyRequest (lib : RequestLib) (upstream : Uri) (method : Bytes) (uri : Uri)
    (headers : HeaderMap) : Except String EngineRequest := do
  let uri ← (forwardUri lib upstream uri).elim (.error "unparseable request URI") .ok
  let headers := (stripHopByHop headers).2
  let _host ← upstream.authority.elim (.error "upstream has no authority") .ok
  rebuildRequest method uri headers

/-- what the proxy sends: the URI of `forward_uri`, and no field of the caller's connection -/
theorem proxyRequest_stripped {lib : RequestLib} {upstream u : Uri} {method : Bytes}
    {h : HeaderMap} {r : EngineRequest} (hr : proxyRequest lib upstream method u h = .ok r) :
    forwardUri lib upstream u = some r.uri ∧
      ∀ f ∈ r.headers.fields, f.1 = ascii "host" ∨ f ∈ (stripHopByHop h).2.fields := by
  unfold proxyRequest at hr
  cases hf : forwardUri lib upstream u with
  | none =>
    rw [hf] at hr
    cases hr
  | some v =>
    cases ha : upstream.authority with
    | none =>
      rw [hf, ha] at hr
      cases hr
    | some host =>
      rw [hf, ha] at hr
      change rebuildRequest method v (stripHopByHop h).2 = .ok r at hr
      unfold rebuildRequest at hr
      split at hr
      · split at hr
        · cases hr
          refine ⟨rfl, fun f hf => ?_⟩
          rcases List.mem_append.mp hf with hf | hf
          · exact .inr (List.mem_filter.mp hf).1
          · exact .inl (by rw [List.mem_singleton.mp hf])
        · cases hr
      · cases hr
        exact ⟨rfl, fun f hf => .inr hf⟩

/-- a response, less its body -/
structure EngineResponse where
  status : Nat
  headers : HeaderMap

/-- `stream_through` -/
def streamThrough (res : EngineResponse) : EngineResponse :=
  { status := res.status, headers := res.headers }

/-! ## responses -/

/-- a head of the grammar with more fields than slots is refused -/
structure HttpLib.Bounded (lib : HttpLib) : Prop where
  tooMany : ∀ n bytes code fields rest, readResponse n bytes = some (code, fields, rest) →
    headerSlots < fields.length → lib.parseResponse bytes = none

theorem grammarLib_bounded : grammarLib.Bounded where
  tooMany n bytes code fields rest h hn := by
    show Option.map _ _ = _
    rw [readResponse_tooMany h hn]
    rfl

/-- the hub takes a head of this status, with these fields and of this length -/
structure HeadFits (status : Nat) (fields : List Field) (head : Bytes) : Prop where
  final : 200 ≤ status
  slots : fields.length ≤ headerSlots
  size : head.length ≤ maxPendingHead

section
variable {lib : HttpLib} {reasons : Reasons} {status : Nat} {h : HeaderMap}

/-- what the hub makes of the tether's head: its fields, or nothing -/
theorem acceptHead_engineHead (hlib : lib.Conforms) (hbound : lib.Bounded)
    (hs : 100 ≤ status ∧ status ≤ 999) (hv : ∀ f ∈ h.fields, trimOws f.2 = f.2)
    {st : StreamState} {res : HttpResponse}
    (hacc : Session.acceptHead lib st (writeHead
      (statusLine status ((reasons.phrase status).getD [])) (stripHopByHop h).2.fields)
        = some res) :
    res = ⟨status, (stripHopByHop h).2.fields⟩ ∧ 200 ≤ status := by
  have hok : ∀ f ∈ (stripHopByHop h).2.fields, FieldOk f :=
    fun f hf => (stripHopByHop h).2.fieldOk hf
  have htrim := map_trim fun f hf => hv f (mem_strip.mp hf).1
  have hreason := reason_printable reasons status
  have hread := readResponse_append hs hreason hok (le_max_right headerSlots _) []
  rw [List.append_nil, htrim] at hread
  unfold Session.acceptHead parseHead at hacc
  by_cases hslots : (stripHopByHop h).2.fields.length ≤ headerSlots
  · rw [max_eq_left hslots] at hread
    rw [hlib.parse _ _ _ _ hread] at hacc
    simp only at hacc
    split at hacc
    · next parsed rest hp =>
      split at hp
      · split at hp
        · obtain ⟨rfl, rfl⟩ : (⟨status, (stripHopByHop h).2.fields⟩ : HttpResponse) = parsed ∧
              _ = rest := Prod.mk.inj (Option.some.inj hp)
          split at hacc
          · next hfinal => exact ⟨(Option.some.inj hacc).symm, hfinal.1⟩
          · cases hacc
        · cases hp
      · cases hp
    · cases hacc
  · rw [hbound.tooMany _ _ _ _ _ hread (Nat.lt_of_not_le hslots)] at hacc
    cases hacc

end

/-- What a caller is answered with in both modes: the stripped map of the engine through the proxy,
with nothing that belongs to the engine's connection; and the same map through the tunnel, for every
head that fits the hub's limits, and no other map for any head. -/
structure SameHeaders (lib : HttpLib) (reasons : Reasons) (status : Nat) (h : HeaderMap) :
    Prop where
  proxy : (streamThrough ⟨status, h⟩).headers = (stripHopByHop h).2
  clean : ∀ f ∈ (streamThrough ⟨status, h⟩).headers.fields, f.1 ∉ alwaysStrip ∧ ¬ NamedBy h f.1
  tunnelClean : ∀ f ∈ (stripHopByHop h).2.fields, f.1 ∉ alwaysStrip ∧ ¬ NamedBy h f.1
  tunnel : ∃ head, engineHead reasons status h = .ok head ∧
    (HeadFits status (stripHopByHop h).2.fields head → ∀ st : StreamState, st.head = none →
      ∃ res, Session.acceptHead lib st head = some res) ∧
    ∀ st res, Session.acceptHead lib st head = some res →
      (StreamState.respond res).headers = (stripHopByHop h).2.fields

/-- **Both modes answer with the same fields exactly if the engine sent none of the fixed
names.** -/
theorem same_response_headers_iff {lib : HttpLib} (hlib : lib.Conforms) (hbound : lib.Bounded)
    (reasons : Reasons) {status : Nat} (hs : 100 ≤ status ∧ status ≤ 999) {h : HeaderMap}
    (hte : ∀ v ∈ h.getAll (ascii "transfer-encoding"), ChunkedOnly v)
    (hv : ∀ f ∈ h.fields, trimOws f.2 = f.2) :
    SameHeaders lib reasons status h ↔ ∀ f ∈ h.fields, f.1 ∉ alwaysStrip := by
  constructor
  · intro hsame f hf
    exact (hsame.clean f hf).1
  · intro hfixed
    have hstrip : (stripHopByHop h).2 = h := strip_of_disjoint hfixed
    have hnamed : ∀ name, ¬ NamedBy h name := by
      rintro name ⟨value, hvalue, _⟩
      obtain ⟨f, hf, _⟩ := List.mem_map.mp hvalue
      obtain ⟨hmem, he⟩ := List.mem_filter.mp hf
      refine hfixed f hmem ?_
      rw [beq_iff_eq.mp he]
      exact List.mem_cons_self
    refine ⟨hstrip.symm, fun f hf => ⟨hfixed f hf, hnamed f.1⟩,
      fun f hf => ⟨strip_disjoint hf, hnamed f.1⟩, _, engineHead_eq reasons status hte,
      fun hfits st hst => ?_, fun st res hacc => ?_⟩
    · have hv' : ∀ f ∈ (stripHopByHop h).2.fields, trimOws f.2 = f.2 :=
        fun f hf => hv f (mem_strip.mp hf).1
      have hp := parseHead_writeHead hlib ⟨hfits.final, hs.2⟩ (reason_printable reasons status) hv'
        hfits.slots hfits.size
      refine ⟨⟨status, (stripHopByHop h).2.fields⟩, ?_⟩
      rw [Session.acceptHead, hp]
      exact if_pos ⟨hfits.final, rfl, hst⟩
    · obtain ⟨rfl, hfinal⟩ := acceptHead_engineHead hlib hbound hs hv hacc
      rw [respond_strip ⟨hfinal, hs.2⟩ h]

/-- an ordinary response head -/
def plainHeaders : HeaderMap where
  fields := [(ascii "content-type", ascii "text/event-stream"), (ascii "x-note", [0xE9])]
  valid := by decide

theorem same_response_headers_iff_plain : SameHeaders grammarLib fewReasons 200 plainHeaders :=
  (same_response_headers_iff grammarLib_conforms grammarLib_bounded fewReasons (by decide)
    (by decide) (by decide)).mpr (by decide)

/-- a field that Connection names, and Connection itself, reach the caller of the proxy -/
theorem proxy_leaks_private :
    (ascii "x-private", ascii "p") ∈ (streamThrough ⟨429, notedHeaders⟩).headers.fields ∧
      NamedBy notedHeaders (ascii "x-private") ∧
      ¬ SameHeaders grammarLib fewReasons 429 notedHeaders := by
  have hmem : (ascii "x-private", ascii "p") ∈
      (streamThrough ⟨429, notedHeaders⟩).headers.fields := by decide
  have hnamed : NamedBy notedHeaders (ascii "x-private") := by decide
  exact ⟨hmem, hnamed, fun hsame => (hsame.clean _ hmem).2 hnamed⟩

/-! ## targets -/

/-- the bytes that end an authority -/
def endsAuthority (b : UInt8) : Bool := b == 47 || b == 63 || b == 35

/-- authority, path and query of what stands behind `scheme://`, up to a fragment -/
def splitHierarchy (text : Bytes) : Bytes × Bytes × Option Bytes :=
  let rest := text.dropWhile fun b => !endsAuthority b
  let tail := rest.dropWhile fun b => b != 63 && b != 35
  (text.takeWhile fun b => !endsAuthority b, rest.takeWhile fun b => b != 63 && b != 35,
    match tail with
    | 63 :: query => some (query.takeWhile fun b => b != 35)
    | _ => none)

/-- an authority holds none of the bytes that end it -/
theorem authority_bytes {text : Bytes} {b : UInt8} (hb : b ∈ (splitHierarchy text).1) :
    (!endsAuthority b) = true :=
  List.mem_takeWhile_imp (p := fun b => !endsAuthority b) hb

/-- the split of a text that is put together of an authority, a path and a query -/
theorem splitHierarchy_append {authority path : Bytes} {query : Option Bytes}
    (ha : ∀ b ∈ authority, (!endsAuthority b) = true)
    (hroot : path = [] ∨ ∃ rest, path = 47 :: rest)
    (hpath : ∀ b ∈ path, (b != 63 && b != 35) = true)
    (hquery : ∀ q ∈ query, ∀ b ∈ q, (b != 35) = true) :
    splitHierarchy (authority ++ (path ++ queryText query)) = (authority, path, query) := by
  -- an authority ends where the path begins, or the query, or the text
  have hend : List.takeWhile (fun b => !endsAuthority b) (path ++ queryText query) = [] ∧
      List.dropWhile (fun b => !endsAuthority b) (path ++ queryText query)
        = path ++ queryText query := by
    rcases hroot with rfl | ⟨rest, rfl⟩
    · cases query with
      | none => exact ⟨rfl, rfl⟩
      | some query => exact ⟨rfl, rfl⟩
    · exact ⟨rfl, rfl⟩
  unfold splitHierarchy
  rw [List.takeWhile_append_of_pos ha, List.dropWhile_append_of_pos ha, hend.1, hend.2,
    List.append_nil]
  simp only
  rw [List.takeWhile_append_of_pos hpath, List.dropWhile_append_of_pos hpath]
  cases query with
  | none =>
    show (_, path ++ [], _) = _
    rw [List.append_nil]
    rfl
  | some query =>
    have hq : query.takeWhile (fun b => b != 35) = query :=
      List.takeWhile_eq_self_iff.mpr (hquery query rfl)
    show (_, path ++ [], some (query.takeWhile fun b => b != 35)) = _
    rw [List.append_nil, hq]

namespace RequestLib
variable (lib : RequestLib)

/-- the authority of a `Uri` -/
def AuthorityOk (authority : Bytes) : Prop :=
  ∃ text u, lib.parseUri text = some u ∧ u.authority = some authority

/-- `Uri` follows RFC 3986 on absolute forms: what is read is the split of the text, and a text made
of an authority, an absolute or empty path and a query is read. -/
structure Rfc3986 : Prop where
  split : ∀ text u, lib.parseUri (ascii "http://" ++ text) = some u →
    u.authority = some (splitHierarchy text).1 ∧ u.path = (splitHierarchy text).2.1 ∧
      u.query = (splitHierarchy text).2.2
  whole : ∀ authority path query, lib.AuthorityOk authority → (path = [] ∨ lib.PathOk path) →
    lib.QueryOk query →
    lib.parseUri (ascii "http://" ++ (authority ++ (path ++ queryText query)))
      = some ⟨some (ascii "http"), some authority, path, query⟩

end RequestLib

/-- the engine's URI, as `is_loopback` lets it pass: `http` or no scheme, and an authority -/
structure Upstream (lib : RequestLib) where
  uri : Uri
  authority : Bytes
  scheme : uri.scheme = none ∨ uri.scheme = some (ascii "http")
  has : uri.authority = some authority
  ok : lib.AuthorityOk authority

section
variable {lib : RequestLib} {u : Uri}

/-- the text that the proxy parses: the upstream's origin, the request's path, its query -/
theorem forwardUri_eq (up : Upstream lib) (u : Uri) :
    forwardUri lib up.uri u = lib.parseUri
      (ascii "http://" ++ (up.authority ++ (pathOrRoot u.pathStr ++ queryText u.query))) := by
  have hscheme : up.uri.scheme.getD (ascii "http") = ascii "http" := by
    rcases up.scheme with h | h
    · rw [h]
      rfl
    · rw [h]
      rfl
  unfold forwardUri pathOrRoot
  rw [hscheme, up.has]
  simp only [Option.bind_eq_bind, Option.bind_some, List.append_assoc]
  rfl

/-- the proxy's target for a request with a path of its own -/
theorem forwardUri_path (hrfc : lib.Rfc3986) (up : Upstream lib)
    (hp : lib.PathOk (pathOrRoot u.pathStr)) (hq : lib.QueryOk u.query) :
    forwardUri lib up.uri u
      = some ⟨some (ascii "http"), some up.authority, pathOrRoot u.pathStr, u.query⟩ := by
  rw [forwardUri_eq]
  exact hrfc.whole _ _ _ up.ok (.inr hp) hq

theorem pathOk_root (hlib : lib.Conforms) : lib.PathOk (ascii "/") := by
  refine ⟨⟨[], rfl⟩, ?_⟩
  show (lib.pathByte 47 && true) = true
  rw [hlib.slash]
  rfl

/-- `*` becomes part of the authority -/
theorem forwardUri_asterisk (hrfc : lib.Rfc3986) (up : Upstream lib) {v : Uri}
    (h : forwardUri lib up.uri .asterisk = some v) : v.path = [] := by
  rw [forwardUri_eq] at h
  -- an authority ends at none of its own bytes
  have hauth : ∀ b ∈ up.authority, (!endsAuthority b) = true := by
    have hnone : lib.QueryOk none := by
      rintro _ ⟨⟩
    have hwhole := hrfc.whole up.authority [] none up.ok (.inl rfl) hnone
    have hsplit := (hrfc.split _ _ hwhole).1
    have he : up.authority = (splitHierarchy (up.authority ++ ([] ++ queryText none))).1 :=
      Option.some.inj hsplit
    intro b hb
    rw [he] at hb
    exact authority_bytes hb
  have hall : ∀ b ∈ up.authority ++ (ascii "*" ++ []), (!endsAuthority b) = true := by
    intro b hb
    rcases List.mem_append.mp hb with hb | hb
    · exact hauth b hb
    · have hall : (ascii "*" ++ []).all (fun b => !endsAuthority b) = true := rfl
      exact List.all_eq_true.mp hall b hb
  have hpath := (hrfc.split _ _ h).2.1
  have hrest : (up.authority ++ (ascii "*" ++ [])).dropWhile (fun b => !endsAuthority b) = [] :=
    List.dropWhile_eq_nil_iff.mpr hall
  rw [hpath, splitHierarchy]
  show List.takeWhile _ (List.dropWhile _ (up.authority ++ (ascii "*" ++ []))) = []
  rw [hrest]
  rfl

end

/-- The engine gets the path and the query of the request both ways, an empty path as `/`. -/
structure SameTarget (lib : RequestLib) (upstream : Uri) (addr : AddrText) (method : Bytes)
    (u : Uri) (h : HeaderMap) : Prop where
  proxy : ∃ v, forwardUri lib upstream u = some v ∧ pathOrRoot v.path = pathOrRoot u.path ∧
    v.query = u.query
  tunnel : ∃ e, forwardRequest lib addr (openHead method u h) = .ok e ∧
    pathOrRoot e.uri.path = pathOrRoot u.path ∧ e.uri.query = u.query

/-- **Both modes forward the same target, except `*` and an absolute form with a query and no
path.** The proxy makes the asterisk a part of its authority; the hub writes a query alone, which
the tether refuses. -/
theorem same_target_iff {lib : RequestLib} (hlib : lib.Conforms) (hrfc : lib.Rfc3986)
    (up : Upstream lib) (addr : AddrText) {method : Bytes} {u : Uri} {h : HeaderMap}
    (hm : isToken method = true) (hu : u.Served lib) (hv : ∀ f ∈ h.fields, trimOws f.2 = f.2)
    (hn : (stripHopByHop h).2.fields.length ≤ headerSlots) :
    SameTarget lib up.uri addr method u h ↔ u ≠ .asterisk ∧ ¬ u.OnlyQuery := by
  have hforward := @forwardRequest_openHead lib addr method u h hlib hm hu hv hn
  constructor
  · intro hsame
    constructor
    · rintro rfl
      obtain ⟨v, hv, hpath, _⟩ := hsame.proxy
      rw [forwardUri_asterisk hrfc up hv] at hpath
      exact absurd hpath (by decide)
    · intro hq
      obtain ⟨e, he, _⟩ := hsame.tunnel
      rw [hforward, hu.parseUri_onlyQuery hlib hq] at he
      cases he
  · rintro ⟨hstar, hq⟩
    rw [hu.parseUri_pathText hlib hq] at hforward
    refine ⟨?_, _, hforward, if_neg (pathOrRoot_ne_nil _), rfl⟩
    cases hu with
    | @origin path query hp hqok =>
      obtain ⟨⟨rest, rfl⟩, _⟩ := id hp
      exact ⟨_, forwardUri_path hrfc up hp hqok, rfl, rfl⟩
    | @absolute scheme authority path query hp hqok =>
      rcases hp with rfl | hp
      · exact ⟨_, forwardUri_path hrfc up (pathOk_root hlib) hqok, rfl, rfl⟩
      · obtain ⟨⟨rest, rfl⟩, _⟩ := id hp
        exact ⟨_, forwardUri_path hrfc up hp hqok, rfl, rfl⟩
    | asterisk => exact absurd rfl hstar

/-- what stands behind `http://`, which begins with a host -/
def parseHttp (text : Bytes) : Option Uri :=
  let (authority, path, query) := splitHierarchy text
  if authority = [] then none else some ⟨some (ascii "http"), some authority, path, query⟩

/-- `targetLib`, and absolute forms -/
def uriLib : RequestLib :=
  { targetLib with
    parseUri := fun text =>
      if text.take 7 = ascii "http://" then parseHttp (text.drop 7) else targetLib.parseUri text }

theorem uriLib_relative {text : Bytes} (h : text.take 7 ≠ ascii "http://") :
    uriLib.parseUri text = targetLib.parseUri text :=
  if_neg h

theorem uriLib_http (text : Bytes) : uriLib.parseUri (ascii "http://" ++ text) = parseHttp text :=
  rfl

theorem parseHttp_some {text : Bytes} {u : Uri} (h : parseHttp text = some u) :
    (splitHierarchy text).1 ≠ [] ∧ u.authority = some (splitHierarchy text).1 ∧
      u.path = (splitHierarchy text).2.1 ∧ u.query = (splitHierarchy text).2.2 := by
  unfold parseHttp at h
  simp only at h
  split at h
  · cases h
  · next hne =>
    cases h
    exact ⟨hne, rfl, rfl, rfl⟩

/-- no target but an absolute form has an authority -/
theorem targetLib_authority {text : Bytes} {u : Uri} :
    targetLib.parseUri text = some u → u.authority = none := by
  intro h
  unfold targetLib at h
  simp only at h
  split at h
  · split at h
    · cases h
      rfl
    · cases h
      rfl
  · split at h
    · cases h
      rfl
    · cases h

theorem uriLib_authority {authority : Bytes} (h : uriLib.AuthorityOk authority) :
    authority ≠ [] ∧ ∀ b ∈ authority, (!endsAuthority b) = true := by
  obtain ⟨text, u, hu, he⟩ := h
  by_cases htext : text.take 7 = ascii "http://"
  · have hparse : parseHttp (text.drop 7) = some u := (if_pos htext).symm.trans hu
    obtain ⟨hne, hauth, _⟩ := parseHttp_some hparse
    rw [hauth] at he
    cases he
    exact ⟨hne, fun b => authority_bytes⟩
  · rw [uriLib_relative htext] at hu
    rw [targetLib_authority hu] at he
    cases he

theorem uriLib_conforms : uriLib.Conforms where
  parse := targetLib_conforms.parse
  pathByte := targetLib_conforms.pathByte
  queryByte := targetLib_conforms.queryByte
  slash := rfl
  origin path query hp hq := by
    obtain ⟨rest, rfl⟩ := hp.1
    have hne : List.take 7 (47 :: rest ++ queryText query) ≠ ascii "http://" := by
      intro h
      cases h
    rw [uriLib_relative hne]
    exact targetLib_conforms.origin _ _ hp hq
  asterisk := rfl
  relative text := by
    have hne : List.take 7 (63 :: text) ≠ ascii "http://" := by
      intro h
      cases h
    rw [uriLib_relative hne]
    rfl

theorem uriLib_rfc3986 : uriLib.Rfc3986 where
  split text u h := (parseHttp_some h).2
  whole authority path query ha hp hq := by
    obtain ⟨hne, hauth⟩ := uriLib_authority ha
    have hroot : path = [] ∨ ∃ rest, path = 47 :: rest := hp.imp_right fun h => h.1
    have hpath : ∀ b ∈ path, (b != 63 && b != 35) = true := by
      rcases hp with rfl | hp
      · exact nofun
      · intro b hb
        have h : (isTargetByte b && b != 63 && b != 35) = true := List.all_eq_true.mp hp.2 b hb
        rw [Bool.and_eq_true, Bool.and_eq_true] at h
        rw [h.1.2, h.2]
        rfl
    have hquery : ∀ q ∈ query, ∀ b ∈ q, (b != 35) = true := by
      intro q hq' b hb
      have h : (isTargetByte b && b != 35) = true := List.all_eq_true.mp (hq q hq') b hb
      rw [Bool.and_eq_true] at h
      exact h.2
    rw [uriLib_http, parseHttp, splitHierarchy_append hauth hroot hpath hquery]
    exact if_neg hne

/-- the engine's origin, as the proxy is told it -/
def engineOrigin : Upstream uriLib where
  uri := ⟨some (ascii "http"), some (ascii "127.0.0.1:8000"), [], none⟩
  authority := ascii "127.0.0.1:8000"
  scheme := .inr rfl
  has := rfl
  ok := ⟨ascii "http://127.0.0.1:8000",
    ⟨some (ascii "http"), some (ascii "127.0.0.1:8000"), [], none⟩, by decide, rfl⟩

theorem same_target_iff_empty :
    SameTarget uriLib engineOrigin.uri engineAddr (ascii "GET")
      ⟨some (ascii "http"), some (ascii "h"), [], none⟩ callerHeaders :=
  (same_target_iff uriLib_conforms uriLib_rfc3986 engineOrigin engineAddr (by decide)
    (.absolute (.inl rfl) (by decide)) (by decide) (by decide)).mpr (by decide)

/-- `OPTIONS *` through the proxy, which asks for the authority `127.0.0.1:8000*`, and
`http://h?x=1` through the tunnel, which sends a line that is no request line -/
theorem unusual_targets_differ :
    (∃ v, forwardUri uriLib engineOrigin.uri .asterisk = some v ∧
      v.authority = some (ascii "127.0.0.1:8000*") ∧ v.path = []) ∧
    ¬ SameTarget uriLib engineOrigin.uri engineAddr (ascii "OPTIONS") .asterisk callerHeaders ∧
    ¬ SameTarget uriLib engineOrigin.uri engineAddr (ascii "GET")
      ⟨some (ascii "http"), some (ascii "h"), [], some (ascii "x=1")⟩ callerHeaders := by
  have hproxy : forwardUri uriLib engineOrigin.uri .asterisk
      = some ⟨some (ascii "http"), some (ascii "127.0.0.1:8000*"), [], none⟩ := by decide
  have hs : Uri.Served uriLib ⟨some (ascii "http"), some (ascii "h"), [], some (ascii "x=1")⟩ :=
    .absolute (.inl rfl) (by decide)
  refine ⟨⟨_, hproxy, rfl, rfl⟩, ?_, ?_⟩
  · intro hsame
    obtain ⟨v, hv, hpath, _⟩ := hsame.proxy
    rw [hproxy] at hv
    cases hv
    exact absurd hpath (by decide)
  · intro hsame
    obtain ⟨e, he, _⟩ := hsame.tunnel
    rw [forwardRequest_openHead uriLib_conforms (by decide) hs (by decide) (by decide),
      hs.parseUri_onlyQuery uriLib_conforms ⟨rfl, rfl, rfl⟩] at he
    cases he

end AnvilRing
