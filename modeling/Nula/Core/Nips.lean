import Nula.Core.Verify

/-!
# `Core.Nips` — proof of work, client authentication, protected events

What a relay checks of an event before it stores it: the work of its id (`nips/nip13.rs`), the answer to an
authentication challenge (`nips/nip42.rs`) and the protected marker (`nips/nip70.rs`). Relay urls
(`types/relay_url.rs`) rest on a URL crate outside the repository, whose functions are a parameter.
-/

namespace Nula

open Std

/-! ## Columns of a tag -/

/-- A column that may be missing or empty. -/
def optionalColumn {ε α : Type} (parse : String → Except ε α) : Option String → Except ε (Option α)
  | some s => if s ≠ "" then (parse s).map some else .ok none
  | none => .ok none

section Columns

variable {ε α : Type} {parse : String → Except ε α} {value : Option α}

/-- What is written to a column, empty where there is nothing, is read back. -/
theorem optionalColumn_getD {write : α → String} (h : ∀ a ∈ value, write a ≠ "" ∧ parse (write a) = .ok a) :
    optionalColumn parse (some ((value.map write).getD "")) = .ok value := by
  cases value with
  | none => rfl
  | some a =>
      obtain ⟨hne, hparse⟩ := h a rfl
      show optionalColumn parse (some (write a)) = _
      rw [optionalColumn, if_pos hne, hparse]
      rfl

/-- An empty column may be left out. -/
theorem optionalColumn_none {s : String} (h : optionalColumn parse (some s) = .ok value) (hs : s = "") :
    optionalColumn parse none = .ok value := by
  rw [hs] at h
  exact h

end Columns

/-! ## Relay urls (`types/relay_url.rs`) -/

/-- A parsed url; two are equal when their serializations are. -/
structure Url where
  serialization : String
  deriving DecidableEq, Repr

/-- What the repository uses of the URL crate. -/
structure UrlCrate where
  /-- The error is its text. -/
  parse : String → Except String Url
  scheme : Url → String
  hostStr : Url → Option String
  port : Url → Option UInt16
  /-- `set_fragment(None)`. -/
  clearFragment : Url → Url
  /-- `set_port(None)`; `none` where the crate refuses. -/
  clearPort : Url → Option Url

inductive RelayUrlError where
  | parse (text : String)
  | invalidScheme (scheme : String)
  | missingHost (input : String)
  | portNotModifiable
  deriving DecidableEq, Repr

/-- `Display` of `RelayUrlError`. -/
def RelayUrlError.text : RelayUrlError → String
  | .parse text => "invalid relay URL: " ++ text
  | .invalidScheme scheme => "invalid relay scheme `" ++ scheme ++ "`: expected `ws` or `wss`"
  | .missingHost input => "relay URL has no host: " ++ input
  | .portNotModifiable => "relay URL cannot have its port modified"

/-- `RelayUrl`: a websocket url with a host. -/
structure RelayUrl where
  inner : Url
  deriving DecidableEq, Repr

namespace RelayUrl

/-- `RelayUrl::parse`. -/
def parse (urls : UrlCrate) (input : String) : Except RelayUrlError RelayUrl :=
  match urls.parse input with
  | .error text => .error (.parse text)
  | .ok inner => do
      let defaultPort ← match urls.scheme inner with
        | "ws" => .ok 80
        | "wss" => .ok 443
        | other => .error (.invalidScheme other)
      -- only the two schemes come this far
      if urls.hostStr inner = none then .error (.missingHost input)
      else
        -- a fragment and a default port say nothing about a relay
        let inner := urls.clearFragment inner
        if urls.port inner = some defaultPort then
          match urls.clearPort inner with
          | none => .error .portNotModifiable
          | some inner => .ok ⟨inner⟩
        else .ok ⟨inner⟩

def asStr (url : RelayUrl) : String := url.inner.serialization

def host (urls : UrlCrate) (url : RelayUrl) : String := (urls.hostStr url.inner).getD ""

def isSecure (urls : UrlCrate) (url : RelayUrl) : Bool := urls.scheme url.inner = "wss"

def isOnion (urls : UrlCrate) (url : RelayUrl) : Bool := ".onion".toList.isSuffixOf (url.host urls).toList

theorem asStr_injective : Function.Injective asStr := by
  rintro ⟨⟨s⟩⟩ ⟨⟨t⟩⟩ h
  cases h
  rfl

/-! What the crate makes has its own serialization for text (`Url::check_invariants`), and a setter changes its
part of a url and no other. -/

/-- What the crate makes: by parsing, and by taking the fragment or the port off what it made. -/
inductive Made (urls : UrlCrate) : Url → Prop where
  | parse {s : String} {url : Url} : urls.parse s = .ok url → Made urls url
  | clearFragment {url : Url} : Made urls url → Made urls (urls.clearFragment url)
  | clearPort {url cleared : Url} : Made urls url → urls.clearPort url = some cleared → Made urls cleared

/-- What the repository relies on: a url comes back from its serialization, and taking the fragment or the port off
    changes neither scheme nor host. -/
structure Lawful (urls : UrlCrate) : Prop where
  reparse : ∀ url, Made urls url → urls.parse url.serialization = .ok url
  scheme_clearFragment : ∀ url, Made urls url → urls.scheme (urls.clearFragment url) = urls.scheme url
  hostStr_clearFragment : ∀ url, Made urls url → urls.hostStr (urls.clearFragment url) = urls.hostStr url
  clearFragment_again : ∀ url, Made urls url →
    urls.clearFragment (urls.clearFragment url) = urls.clearFragment url
  scheme_clearPort : ∀ url cleared, Made urls url → urls.clearPort url = some cleared →
    urls.scheme cleared = urls.scheme url
  hostStr_clearPort : ∀ url cleared, Made urls url → urls.clearPort url = some cleared →
    urls.hostStr cleared = urls.hostStr url
  port_clearPort : ∀ url cleared, Made urls url → urls.clearPort url = some cleared → urls.port cleared = none
  fragment_clearPort : ∀ url cleared, Made urls url → urls.clearPort url = some cleared →
    urls.clearFragment url = url → urls.clearFragment cleared = cleared

/-- The schemes of relays and their ports. -/
def DefaultPort (scheme : String) (port : UInt16) : Prop :=
  (scheme = "ws" ∧ port = 80) ∨ (scheme = "wss" ∧ port = 443)

/-- What `parse` accepts, and what it makes of it. The two schemes differ in their default port only, so the rest is
    shown once for any port. -/
theorem parse_eq_ok_iff {urls : UrlCrate} {s : String} {url : RelayUrl} : parse urls s = .ok url ↔
    ∃ inner port, urls.parse s = .ok inner ∧ DefaultPort (urls.scheme inner) port ∧ urls.hostStr inner ≠ none ∧
      ((urls.port (urls.clearFragment inner) = some port ∧ urls.clearPort (urls.clearFragment inner) = some url.inner) ∨
        (urls.port (urls.clearFragment inner) ≠ some port ∧ urls.clearFragment inner = url.inner)) := by
  obtain ⟨url⟩ := url
  rw [parse]
  cases hinner : urls.parse s with
  | error text => simp
  | ok inner =>
      have htail : ∀ port : UInt16,
          (if urls.hostStr inner = none then (.error (.missingHost s) : Except RelayUrlError RelayUrl)
          else if urls.port (urls.clearFragment inner) = some port then
            match urls.clearPort (urls.clearFragment inner) with
            | none => .error .portNotModifiable
            | some inner => .ok ⟨inner⟩
          else .ok ⟨urls.clearFragment inner⟩) = .ok ⟨url⟩ ↔
          urls.hostStr inner ≠ none ∧
            ((urls.port (urls.clearFragment inner) = some port ∧ urls.clearPort (urls.clearFragment inner) = some url) ∨
              (urls.port (urls.clearFragment inner) ≠ some port ∧ urls.clearFragment inner = url)) := by
        intro port
        by_cases hhost : urls.hostStr inner = none
        · simp [hhost]
        by_cases hport : urls.port (urls.clearFragment inner) = some port
        · cases hclear : urls.clearPort (urls.clearFragment inner) <;> simp [hhost, hport]
        · simp [hhost, hport]
      by_cases hws : urls.scheme inner = "ws"
      · simp only [hws, DefaultPort]
        exact (htail 80).trans (by simp [hws])
      by_cases hwss : urls.scheme inner = "wss"
      · simp only [hwss, DefaultPort]
        exact (htail 443).trans (by simp [hwss])
      · have hnone : ∀ port, ¬DefaultPort (urls.scheme inner) port := by
          rintro port (⟨h, -⟩ | ⟨h, -⟩)
          · exact hws h
          · exact hwss h
        refine iff_of_false (fun h => ?_) (by simp [hnone])
        simp only at h
        cases h

/-- A relay url is read back from its text. -/
theorem parse_asStr {urls : UrlCrate} (laws : Lawful urls) {s : String} {url : RelayUrl}
    (h : parse urls s = .ok url) : parse urls url.asStr = .ok url := by
  obtain ⟨inner, port, hinner, hscheme, hhost, hurl⟩ := parse_eq_ok_iff.mp h
  have hparsed := Made.parse hinner
  have hmade := Made.clearFragment hparsed
  have hagain := laws.clearFragment_again inner hparsed
  rw [← laws.scheme_clearFragment inner hparsed] at hscheme
  rw [← laws.hostStr_clearFragment inner hparsed] at hhost
  rcases hurl with ⟨-, hcleared⟩ | ⟨hport, hsame⟩
  · rw [← laws.scheme_clearPort _ _ hmade hcleared] at hscheme
    rw [← laws.hostStr_clearPort _ _ hmade hcleared] at hhost
    have hfragment := laws.fragment_clearPort _ _ hmade hcleared hagain
    have hnone := laws.port_clearPort _ _ hmade hcleared
    refine parse_eq_ok_iff.mpr ⟨url.inner, port, laws.reparse _ (hmade.clearPort hcleared), hscheme, hhost, Or.inr ?_⟩
    rw [hfragment, hnone]
    exact ⟨(Option.some_ne_none port).symm, rfl⟩
  · rw [hsame] at hmade hscheme hhost hagain hport
    refine parse_eq_ok_iff.mpr ⟨url.inner, port, laws.reparse _ hmade, hscheme, hhost, Or.inr ?_⟩
    rw [hagain]
    exact ⟨hport, rfl⟩

/-- A relay url as there are any: one that was parsed. -/
def Parsed (urls : UrlCrate) (url : RelayUrl) : Prop := ∃ s, parse urls s = .ok url

/-- A relay hint. -/
def hint (urls : UrlCrate) : Option String → Except RelayUrlError (Option RelayUrl) := optionalColumn (parse urls)

section Hints

variable {urls : UrlCrate} (laws : Lawful urls) (hempty : ∀ url, urls.parse "" ≠ .ok url)
include laws hempty

/-- No relay url is the empty text, which stands for an absent hint. -/
theorem asStr_ne_empty {url : RelayUrl} (h : Parsed urls url) : url.asStr ≠ "" := by
  obtain ⟨s, hs⟩ := h
  intro htext
  have hparse := parse_asStr laws hs
  rw [htext] at hparse
  obtain ⟨inner, -, hinner, -⟩ := parse_eq_ok_iff.mp hparse
  exact hempty inner hinner

/-- A hint is read back from the column that it is written to, empty where there is none. -/
theorem hint_getD {url : Option RelayUrl} (h : ∀ u ∈ url, Parsed urls u) :
    hint urls (some ((url.map asStr).getD "")) = .ok url := by
  refine optionalColumn_getD (fun u hu => ⟨asStr_ne_empty laws hempty (h u hu), ?_⟩)
  obtain ⟨s, hs⟩ := h u hu
  exact parse_asStr laws hs

/-- A url in the place of a hint is read as that hint. -/
theorem hint_some {url : RelayUrl} (h : Parsed urls url) : hint urls (some url.asStr) = .ok (some url) :=
  hint_getD laws hempty (fun _ hu => Option.mem_some.mp hu ▸ h)

end Hints

instance : Ord RelayUrl := ⟨compareOn asStr⟩
instance : TransOrd RelayUrl := inferInstanceAs (TransCmp (compareOn asStr))
instance : LawfulEqOrd RelayUrl := lawfulEqCmp_compareOn asStr_injective

end RelayUrl

/-! ## Proof of work (`nips/nip13.rs`) -/

namespace Nip13

inductive PowError where
  | insufficientWork (actual expected : UInt8)
  | insufficientCommitment (actual expected : UInt8)
  | invalidCommitment
  | missingCommitment
  deriving DecidableEq, Repr

/-- `Display` of `PowError`. -/
def PowError.text : PowError → String
  | .insufficientWork actual expected =>
      "event id has " ++ toString actual ++ " leading zero bits, need " ++ toString expected
  | .insufficientCommitment actual expected =>
      "committed difficulty " ++ toString actual ++ " < " ++ toString expected
  | .invalidCommitment => "nonce tag commitment is not a valid u8 integer"
  | .missingCommitment => "strict PoW verification requires a committed difficulty"

/-- `u8::leading_zeros`. -/
def leadingZeros (b : UInt8) : Nat := if b = 0 then 8 else 7 - b.toNat.log2

/-- `count_leading_zero_bits`; the sum saturates at 255. -/
def countLeadingZeroBits (total : Nat) : Bytes → Nat
  | [] => total
  | b :: bytes =>
      if b = 0 then countLeadingZeroBits (min (total + 8) 255) bytes
      else min (total + leadingZeros b) 255

/-- `event_id_difficulty`. -/
def eventIdDifficulty (id : EventId) : UInt8 := UInt8.ofNat (countLeadingZeroBits 0 id.bytes)

/-- `str::parse::<u8>`. -/
def parseU8 (s : String) : Option UInt8 := (parseUnsigned (2 ^ 8 - 1) s).map UInt8.ofNat

/-- `committed_difficulty`: the third element of the first `nonce` tag. -/
def committedDifficulty (event : Event) : Except PowError (Option UInt8) :=
  match event.tags.findFirst (TagKind.fromWire "nonce") with
  | none => .ok none
  | some tag =>
      match tag.values[2]? with
      | none => .ok none
      | some commitment =>
          match parseU8 commitment with
          | none => .error .invalidCommitment
          | some difficulty => .ok (some difficulty)

/-- `verify_pow`. -/
def verifyPow (event : Event) (minDifficulty : UInt8) : Except PowError Unit :=
  let actual := eventIdDifficulty event.id
  if actual < minDifficulty then .error (.insufficientWork actual minDifficulty)
  else
    match committedDifficulty event with
    | .error e => .error e
    | .ok none => .ok ()
    | .ok (some commitment) =>
        if commitment < minDifficulty then .error (.insufficientCommitment commitment minDifficulty)
        else .ok ()

end Nip13

/-! ## Authentication (`nips/nip42.rs`) -/

/-- `Kind::AUTHENTICATION`. -/
def Kind.authentication : Kind := ⟨22242⟩

namespace Nip42

/-- `DEFAULT_MAX_AGE_SECS`. -/
def defaultMaxAgeSecs : Nat := 10 * 60

inductive AuthError where
  | unexpectedKind (kind : UInt16)
  | missingRelayTag
  | missingChallengeTag
  | invalidRelay (e : RelayUrlError)
  | relayMismatch (expected got : String)
  | challengeMismatch
  | tooOld (createdAt now : UInt64) (maxAge : Nat)
  | tooFuture (createdAt now : UInt64) (maxAge : Nat)
  deriving DecidableEq, Repr

/-- `Display` of `AuthError`. -/
def AuthError.text : AuthError → String
  | .unexpectedKind kind => "expected kind 22242, got " ++ toString kind
  | .missingRelayTag => "`relay` tag is missing or empty"
  | .missingChallengeTag => "`challenge` tag is missing or empty"
  | .invalidRelay e => e.text
  | .relayMismatch expected got => "relay mismatch: expected `" ++ expected ++ "`, got `" ++ got ++ "`"
  | .challengeMismatch => "challenge mismatch"
  | .tooOld createdAt now maxAge =>
      "auth event is too old: created_at " ++ toString createdAt ++ " vs now " ++ toString now ++
        " (max age " ++ toString maxAge ++ "s)"
  | .tooFuture createdAt now maxAge =>
      "auth event is too far in the future: created_at " ++ toString createdAt ++ " vs now " ++ toString now ++
        " (max skew " ++ toString maxAge ++ "s)"

/-- `verify_auth_event_against`. -/
def verifyAuthEventAgainst (urls : UrlCrate) (event : Event) (relay : RelayUrl) (accepted : List String)
    (now : Timestamp) (maxAge : Nat) : Except AuthError Unit :=
  if event.kind ≠ Kind.authentication then .error (.unexpectedKind event.kind.val)
  else
    match (event.tags.findFirst (TagKind.fromWire "relay")).bind (fun tag => tag.values[1]?) with
    | none => .error .missingRelayTag
    | some claimedRelay =>
        match RelayUrl.parse urls claimedRelay with
        | .error e => .error (.invalidRelay e)
        | .ok claimedRelay =>
            -- urls are compared as they were parsed
            if claimedRelay ≠ relay then .error (.relayMismatch relay.asStr claimedRelay.asStr)
            else
              match ((event.tags.findFirst (TagKind.fromWire "challenge")).bind
                  (fun tag => tag.values[1]?)).filter (fun s => s ≠ "") with
              | none => .error .missingChallengeTag
              | some claimedChallenge =>
                  if claimedChallenge ∉ accepted then .error .challengeMismatch
                  -- at most one of the two differences is not zero
                  else if maxAge < now.toNat - event.createdAt.toNat then
                    .error (.tooOld event.createdAt now maxAge)
                  else if maxAge < event.createdAt.toNat - now.toNat then
                    .error (.tooFuture event.createdAt now maxAge)
                  else .ok ()

/-- `verify_auth_event`. -/
def verifyAuthEvent (urls : UrlCrate) (event : Event) (relay : RelayUrl) (challenge : String) (now : Timestamp)
    (maxAge : Nat) : Except AuthError Unit :=
  verifyAuthEventAgainst urls event relay [challenge] now maxAge

/-- What an accepted authentication event says: its kind, the relay it names, the challenge it answers, and that
    it is fresh. -/
theorem verifyAuthEvent_ok {urls : UrlCrate} {event : Event} {relay : RelayUrl} {challenge : String}
    {now : Timestamp} {maxAge : Nat} (h : verifyAuthEvent urls event relay challenge now maxAge = .ok ()) :
    event.kind = Kind.authentication ∧
    (∃ text, (event.tags.findFirst (TagKind.fromWire "relay")).bind (fun tag => tag.values[1]?) = some text ∧
      RelayUrl.parse urls text = .ok relay) ∧
    (challenge ≠ "" ∧
      (event.tags.findFirst (TagKind.fromWire "challenge")).bind (fun tag => tag.values[1]?) = some challenge) ∧
    now.toNat - event.createdAt.toNat ≤ maxAge ∧ event.createdAt.toNat - now.toNat ≤ maxAge := by
  unfold verifyAuthEvent verifyAuthEventAgainst at h
  split at h
  · cases h
  rename_i hkind
  split at h
  · cases h
  rename_i text htext
  split at h
  · cases h
  rename_i claimed hparse
  split at h
  · cases h
  rename_i hrelay
  split at h
  · cases h
  rename_i answered hchallenge
  split at h
  · cases h
  rename_i haccepted
  split at h
  · cases h
  rename_i hold
  split at h
  · cases h
  rename_i hfuture
  obtain ⟨htag, hnonempty⟩ := Option.filter_eq_some_iff.mp hchallenge
  obtain rfl : answered = challenge := List.mem_singleton.mp (not_not.mp haccepted)
  obtain rfl : claimed = relay := not_not.mp hrelay
  refine ⟨not_not.mp hkind, ⟨text, htext, hparse⟩, ⟨by simpa using hnonempty, htag⟩, ?_, ?_⟩
  · omega
  · omega

end Nip42

/-! ## Protected events (`nips/nip70.rs`) -/

/-- `nip70::is_protected`. -/
def Event.isProtected (event : Event) : Bool := (event.tags.findFirst (TagKind.fromWire "-")).isSome

end Nula
