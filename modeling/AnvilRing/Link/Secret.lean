import AnvilRing.Hub.Authority
import Mathlib.Data.List.DropRight

/-!
# One secret on both sides

The hub digests a credential as it is given; an issuance writes it with a newline behind it; the
tether trims what it is given and puts the rest into HELLO.

* `trimCred`, `credentialFromEnv`    the bytes of HELLO;
* `Issue.run_credential`             an issued credential is a hexadecimal text;
* `Demo.step`                        the hub without a state directory;
* `Registered`                       the ways in which the hub comes by a secret;
* `secret_authorizes_iff`            when the tether that holds it too is authorized.
-/

namespace AnvilRing
open Wire

/-! ## the tether -/

/-- what `trim_cred` pops: a newline, a carriage return, a blank or a tab -/
def isTrimmed (b : UInt8) : Bool := b == 10 || b == 13 || b == 32 || b == 9

def trimCred (v : Bytes) : Bytes := v.rdropWhile isTrimmed

/-- the environment of a tether, its texts given by their bytes -/
structure TetherEnv where
  /-- `ANVIL_RING_CRED_FILE`, by what reading that file gives -/
  credFile : Option (Except String Bytes)
  /-- `ANVIL_RING_CREDENTIAL` -/
  credential : Option Bytes

def credentialFromEnv (env : TetherEnv) : Except String Bytes :=
  match env.credFile with
  | some (.ok content) => .ok (trimCred content)
  | some (.error e) => .error e
  | none =>
    match env.credential with
    | some v => .ok (trimCred v)
    | none =>
      .error ("no credential: set ANVIL_RING_CRED_FILE (preferred) or ANVIL_RING_CREDENTIAL. " ++
        "Refusing to start unauthenticated or read a secret from process arguments.")

/-- the tether was given `c`: in its file, with or without a newline behind it, or else in its
variable -/
inductive TetherEnv.Holds (c : Bytes) : TetherEnv → Prop where
  | file {o : Option Bytes} : Holds c ⟨some (.ok c), o⟩
  | line {o : Option Bytes} : Holds c ⟨some (.ok (Issue.line c)), o⟩
  | text : Holds c ⟨none, some c⟩

/-- the last byte is one that `trim_cred` pops -/
def endsTrimmed (c : Bytes) : Bool := c.getLast?.any isTrimmed

section
variable {c : Bytes}

theorem trimCred_line (c : Bytes) : trimCred (Issue.line c) = trimCred c :=
  List.rdropWhile_concat_pos isTrimmed c 10 rfl

/-- wherever the tether has its secret from, HELLO carries it trimmed -/
theorem TetherEnv.Holds.credential {env : TetherEnv} (h : env.Holds c) :
    credentialFromEnv env = .ok (trimCred c) := by
  cases h with
  | file | text => rfl
  | line => exact congrArg Except.ok (trimCred_line c)

theorem trimCred_eq_self_iff : trimCred c = c ↔ endsTrimmed c = false := by
  unfold trimCred endsTrimmed
  rw [List.rdropWhile_eq_self_iff]
  cases c using List.reverseRecOn with
  | nil => simp
  | append_singleton l b => simp

end

/-! ## the issued credentials -/

theorem hexDigit_kept {n : Nat} (h : n < 16) : isTrimmed (hexDigit n) = false := by
  revert n
  decide

/-- no byte of a hexadecimal text is popped -/
theorem endsTrimmed_hexBytes (random : Bytes) : endsTrimmed (hexBytes random) = false := by
  unfold endsTrimmed
  rw [Option.any_eq_false]
  intro b hb
  obtain ⟨x, -, hx⟩ := List.mem_flatMap.mp (List.mem_of_getLast? hb)
  have hlt := x.toNat_lt
  obtain rfl | rfl : b = hexDigit (x.toNat / 16) ∨ b = hexDigit (x.toNat % 16) := by simpa using hx
  · rw [hexDigit_kept (Nat.div_lt_of_lt_mul hlt)]
  · rw [hexDigit_kept (Nat.mod_lt _ (by decide))]

namespace Issue
variable {digest : Bytes → String} {call : IssueCall} {db : Database} {files : Files}
  {s t : Issue} {i : Input}

/-- a step keeps the credential, or draws it -/
theorem step_credential (h : step digest s i = some t) :
    t.credential = s.credential ∨ ∃ random, t.credential = hexBytes random := by
  cases move_of_step h with
  | left _ _ hcredential => exact .inl hcredential
  | draw => exact .inr ⟨_, rfl⟩
  | validated | goOn | begin | counted | insert | rotate | append | commit => exact .inl rfl

/-- the credential of a call is a hexadecimal text -/
theorem run_credential {inputs : List Input}
    (h : Machine.run (step digest) (start call db files) inputs = some s) :
    ∃ random, s.credential = hexBytes random := by
  refine Machine.run_invariant (P := fun s => ∃ random, s.credential = hexBytes random)
    ?_ ⟨[], rfl⟩ h
  intro s i t hs h
  obtain heq | hdrawn := step_credential h
  · rw [heq]
    exact hs
  · exact hdrawn

end Issue

/-- what a call commits carries a hexadecimal credential -/
theorem Durable.hex_of_commits {digest : Bytes → String} {d : Durable} {a : AdminCall × List Input}
    {id : String} {c : Bytes} {e : Nat} (h : Commit.issued id c e ∈ d.commits digest a) :
    ∃ random, c = hexBytes random := by
  have hissue : ∀ call inputs, Commit.issued id c e ∈ d.issueCommits digest call inputs →
      ∃ random, c = hexBytes random := by
    intro call inputs h
    unfold issueCommits at h
    split at h
    · cases h
    · split at h
      · cases h
      · next s hs =>
        split at h
        · obtain ⟨-, rfl, -⟩ := Commit.issued.inj (List.mem_singleton.mp h)
          exact Issue.run_credential hs
        · cases h
  unfold commits at h
  split at h
  · exact hissue _ _ h
  · exact hissue _ _ h
  · unfold revokeCommits at h
    split at h
    · cases h
    · split at h
      · cases h
      · split at h
        · cases List.mem_singleton.mp h
        · cases h
  · cases h
  · cases h

namespace Authority
variable {digest : Bytes → String} {lib : HttpLib} {s t : Authority}

/-- the credentials of the history, and of the one that was applied, are hexadecimal -/
structure HexIssued (s : Authority) : Prop where
  history : ∀ id c e, Commit.issued id c e ∈ s.history → ∃ random, c = hexBytes random
  read : ∀ result history, s.refresh = .reading (some (result, history)) →
    ∀ id c e, Commit.issued id c e ∈ history → ∃ random, c = hexBytes random
  applied : ∀ history, s.applied = some history →
    ∀ id c e, Commit.issued id c e ∈ history → ∃ random, c = hexBytes random

theorem hexIssued_initial (h : Initial s) : HexIssued s := by
  obtain ⟨files, w, -, rfl⟩ := h
  refine ⟨?_, ?_, ?_⟩
  · intro _ _ _ h
    cases h
  · intro _ _ h
    cases h
  · intro _ h
    cases h

/-- what a step applies it has read, and what it reads is in the history -/
theorem HexIssued.step {a : AuthorityAction} (hi : HexIssued s)
    (h : Authority.step digest lib s a = some t) : HexIssued t := by
  obtain ⟨hhistory, hread, happlied⟩ := hi
  cases move_of_step h with
  | admin =>
    refine ⟨?_, hread, happlied⟩
    intro id c e hmem
    obtain hold | hnew := List.mem_append.mp hmem
    · exact hhistory id c e hold
    · exact Durable.hex_of_commits hnew
  | wait hr => exact ⟨hhistory, fun _ _ h => absurd h (hr _), happlied⟩
  | read =>
    refine ⟨hhistory, ?_, happlied⟩
    intro result history hresult
    obtain ⟨-, rfl⟩ := Prod.mk.inj (Option.some.inj (RefreshPc.reading.inj hresult))
    exact hhistory
  | apply hreading =>
    refine ⟨hhistory, fun _ _ h => (by cases h), ?_⟩
    intro _ h
    obtain rfl := Option.some.inj h
    exact hread _ _ hreading
  | clear hr => exact ⟨hhistory, fun _ _ h => absurd h (hr _), fun _ h => (by cases h)⟩
  | hub => exact ⟨hhistory, hread, happlied⟩

theorem Reachable.hexIssued (h : Reachable digest lib s) : HexIssued s :=
  Machine.Reachable.invariant (fun _ h => hexIssued_initial h) (fun _ _ _ hi h => hi.step h) h

end Authority

theorem issued_of_stands {history : List Commit} {id : String} {c : Bytes} {e : Nat}
    (hs : Stands history id c e) : .issued id c e ∈ history := by
  obtain ⟨before, after, rfl, -⟩ := hs
  exact List.mem_append_right _ List.mem_cons_self

/-- `trim_cred` leaves the credential of an applied issuance alone -/
theorem endsTrimmed_issued {digest : Bytes → String} {lib : HttpLib} {s : Authority}
    {history : List Commit} {id : String} {c : Bytes} {e : Nat}
    (h : Authority.Reachable digest lib s) (happlied : s.applied = some history)
    (hs : Stands history id c e) : endsTrimmed c = false := by
  obtain ⟨random, rfl⟩ := h.hexIssued.applied history happlied id c e (issued_of_stands hs)
  exact endsTrimmed_hexBytes random

/-! ## the hub of one registration -/

namespace Demo

/-- `run_hub` on a fresh registry without a state directory -/
def Initial (digest : Bytes → String) (lib : HttpLib) (credential : Bytes) (w : World) : Prop :=
  credential ≠ [] ∧ ∃ start, World.Initial start ∧
    World.step digest lib start (.register "demo-1" "demo rental" credential) = some w

/-- nothing registers, revokes or refreshes behind the start -/
def step (digest : Bytes → String) (lib : HttpLib) (w : World) (a : WorldAction) : Option World :=
  if Authority.hubOwn a then World.step digest lib w a else none

abbrev Reachable (digest : Bytes → String) (lib : HttpLib) (credential : Bytes) (w : World) :
    Prop :=
  Machine.Reachable (step digest lib) (Initial digest lib credential) w

variable {digest : Bytes → String} {lib : HttpLib} {c : Bytes} {w v : World}

/-- the one registration, which never expires -/
structure Inv (digest : Bytes → String) (c : Bytes) (reg : Registry) : Prop where
  byId : reg.byId.get "demo-1" = some ⟨"demo-1", "demo rental", digest c, true, none⟩
  byCredential : ∀ hash,
    reg.byCredential.get hash = if hash = digest c then some "demo-1" else none

theorem inv_initial (h : Initial digest lib c w) : Inv digest c w.reg := by
  obtain ⟨-, start, ⟨lease, now, rfl⟩, hw⟩ := h
  cases World.move_of_step hw with
  | register =>
    refine ⟨rfl, fun hash => ?_⟩
    show KeyMap.get (KeyMap.insert _ _ _) hash = _
    rw [KeyMap.get_insert]
    rfl

theorem inv_step {a : WorldAction} (hi : Inv digest c w.reg) (h : step digest lib w a = some v) :
    Inv digest c v.reg := by
  unfold step at h
  split at h
  · next hown =>
    obtain ⟨hid, hcredential⟩ := (World.move_of_step h).maps hown
    exact ⟨hid ▸ hi.byId, hcredential ▸ hi.byCredential⟩
  · cases h

theorem Reachable.inv (h : Reachable digest lib c w) : Inv digest c w.reg :=
  Machine.Reachable.invariant (P := fun w => Inv digest c w.reg)
    (fun _ h => inv_initial h) (fun _ _ _ hi h => inv_step hi h) h

/-- what has the digest of the registered credential is authorized, and nothing else -/
theorem Inv.authorize {reg : Registry} (hi : Inv digest c reg) (u : Nat) (sent : Bytes) :
    (reg.authorize digest u sent).isSome = true ↔ digest sent = digest c := by
  unfold Registry.authorize
  rw [hi.byCredential]
  by_cases heq : digest sent = digest c
  · rw [if_pos heq, Option.bind_some, hi.byId]
    exact ⟨fun _ => heq, fun _ => rfl⟩
  · rw [if_neg heq]
    exact ⟨fun h => (by cases h), fun h => absurd h heq⟩

end Demo

/-! ## both sides -/

/-- the hub was given the secret `c`; at time `u` its registration in the registry is active, and
has the last argument left.  The set holds the secrets of the registry's digests. -/
inductive Registered (digest : Bytes → String) (lib : HttpLib) (c : Bytes) (u : Nat) :
    Registry → Set Bytes → Nat → Prop where
  /-- in `ANVIL_RING_DEMO_CREDENTIAL` -/
  | demo {w : World} (h : Demo.Reachable digest lib c w) :
      Registered digest lib c u w.reg {c} durationMax
  /-- by an issuance, which stands in the snapshot in place; no credential was drawn twice -/
  | issued {s : Authority} {history : List Commit} {id : String} {e : Nat}
      (h : Authority.Reachable digest lib s) (happlied : s.applied = some history)
      (hd : (issuedCredentials history).Nodup) (hs : Stands history id c e)
      (hu : u < e * nanosPerSec) :
      Registered digest lib c u s.world.reg {x | x ∈ issuedCredentials history}
        (e * nanosPerSec - u)

section
variable {digest : Bytes → String} {lib : HttpLib} {c : Bytes} {u left : Nat} {reg : Registry}
  {secrets : Set Bytes}

/-- the secret itself is authorized as long as a second is left -/
theorem Registered.authorize (h : Registered digest lib c u reg secrets left)
    (hinj : Set.InjOn digest secrets) :
    (reg.authorize digest u c).isSome = true ↔ nanosPerSec ≤ left := by
  cases h with
  | demo h =>
    rw [h.inv.authorize]
    exact ⟨fun _ => by decide, fun _ => rfl⟩
  | @issued s history id e h happlied hd hs hu =>
    have hmem : c ∈ {x | x ∈ issuedCredentials history} :=
      List.mem_filterMap.mpr ⟨_, issued_of_stands hs, rfl⟩
    rw [← Set.insert_eq_of_mem hmem] at hinj
    have hrefines := (authority_refines h).1 history happlied hd c hinj u
    constructor
    · intro hsome
      obtain ⟨lease, hlease⟩ := Option.isSome_iff_exists.mp hsome
      obtain ⟨id', e', hs', hleft, -⟩ := (hrefines lease).mp hlease
      obtain ⟨-, rfl⟩ := id_of_credential hd (issued_of_stands hs) (issued_of_stands hs')
      omega
    · intro hleft
      exact Option.isSome_iff_exists.mpr ⟨_, (hrefines _).mpr ⟨id, e, hs, by omega, rfl⟩⟩

/-- a demo secret that ends in what `trim_cred` pops is refused; an issued one never does -/
theorem Registered.refused (h : Registered digest lib c u reg secrets left)
    (hinj : Set.InjOn digest (insert (trimCred c) secrets)) (hends : endsTrimmed c = true) :
    ¬ (reg.authorize digest u (trimCred c)).isSome = true := by
  intro hsome
  cases h with
  | demo h =>
    have heq : trimCred c = c :=
      hinj (Set.mem_insert _ _) (Set.mem_insert_of_mem _ rfl) ((h.inv.authorize u _).mp hsome)
    rw [trimCred_eq_self_iff.mp heq] at hends
    cases hends
  | issued h happlied hd hs =>
    rw [endsTrimmed_issued h happlied hs] at hends
    cases hends

end

/-- a tether that holds the hub's secret is authorized exactly if the secret ends in nothing that
only the tether trims, and a second is left -/
theorem secret_authorizes_iff {digest : Bytes → String} {lib : HttpLib} {c : Bytes} {u left : Nat}
    {reg : Registry} {secrets : Set Bytes} {env : TetherEnv}
    (h : Registered digest lib c u reg secrets left) (henv : env.Holds c)
    (hinj : Set.InjOn digest (insert (trimCred c) secrets)) :
    (∃ sent, credentialFromEnv env = .ok sent ∧ (reg.authorize digest u sent).isSome = true) ↔
      endsTrimmed c = false ∧ nanosPerSec ≤ left := by
  rw [henv.credential]
  have hsent : (∃ sent, Except.ok (ε := String) (trimCred c) = .ok sent ∧
      (reg.authorize digest u sent).isSome = true) ↔
      (reg.authorize digest u (trimCred c)).isSome = true := by
    simp
  rw [hsent]
  cases hends : endsTrimmed c with
  | false =>
    rw [trimCred_eq_self_iff.mpr hends, h.authorize (hinj.mono (Set.subset_insert _ _))]
    exact ⟨fun hleft => ⟨rfl, hleft⟩, And.right⟩
  | true =>
    exact ⟨fun hsome => absurd hsome (h.refused hinj hends), fun h => (nomatch h.1)⟩

/-- SHA-256 of two texts -/
def secretDigest (credential : Bytes) : String :=
  if credential = ascii "secret" then
    "2bb80d537b1da3e38bd30361aa855686bde0eacd7162fef6a25fe97bf527a25b"
  else if credential = ascii "secret " then
    "c34f63ae5db1f9d5eff9f174617fd21cfdd8450d22432eac0db334c80c355370"
  else ""

/-- a hub that has just registered the demo credential -/
def demoHub (credential : Bytes) : World :=
  let r := freshHub.reg.register secretDigest "demo-1" "demo rental" credential
  freshHub.controlled r.1 r.2

theorem reachable_demoHub {c : Bytes} (hc : c ≠ []) :
    Demo.Reachable secretDigest okLib c (demoHub c) :=
  .init ⟨hc, freshHub, ⟨_, _, rfl⟩, rfl⟩

theorem secret_authorizes_iff_plain : ∃ sent,
    credentialFromEnv ⟨some (.ok (ascii "secret\n")), none⟩ = .ok sent ∧
      ((demoHub (ascii "secret")).reg.authorize secretDigest 0 sent).isSome = true := by
  have hdemo := reachable_demoHub (c := ascii "secret") (by decide)
  have hinj : Set.InjOn secretDigest (insert (trimCred (ascii "secret")) {ascii "secret"}) := by
    rw [trimCred_eq_self_iff.mpr rfl, Set.pair_eq_singleton]
    exact Set.injOn_singleton _ _
  exact (secret_authorizes_iff (.demo (u := 0) hdemo) (.line (c := ascii "secret")) hinj).mpr
    ⟨rfl, by decide⟩

/-- a trailing blank on both sides -/
theorem blank_unauthorized : ∃ env : TetherEnv, env.Holds (ascii "secret ") ∧
    Registered secretDigest okLib (ascii "secret ") 0 (demoHub (ascii "secret ")).reg
      {ascii "secret "} durationMax ∧
    Set.InjOn secretDigest {trimCred (ascii "secret "), ascii "secret "} ∧
    credentialFromEnv env = .ok (ascii "secret") ∧
    (demoHub (ascii "secret ")).reg.authorize secretDigest 0 (ascii "secret") = none := by
  refine ⟨_, .text, .demo (reachable_demoHub (by decide)), ?_, by decide, by decide⟩
  exact Set.injOn_pair.mpr (by decide)
end AnvilRing
