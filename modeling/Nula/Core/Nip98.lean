import Nula.Core.Nips
import Nula.Core.Signing
import Nula.Lib.Base64

/-!
# `Core.Nip98` — HTTP authentication (`nips/nip98.rs`)

A signed event of kind 27235 stands in an HTTP header and names the request it is for: its url, its method and,
when the signer says so, the hash of its body. What the header carries is parsed here and compared with the
request; that the event is genuine is for the caller to check.
-/

namespace Nula

open Std

/-- `KIND_HTTP_AUTH`. -/
def Kind.httpAuth : Kind := ⟨27235⟩

namespace Nip98

/-- `DEFAULT_TIMESTAMP_SKEW_SECS`. -/
def defaultTimestampSkewSecs : Nat := 60

/-! ## Methods -/

inductive HttpMethod where
  | get
  | post
  | put
  | patch
  | delete
  | head
  | options
  | connect
  | trace
  /-- An uppercase verb that is none of these. -/
  | other (verb : String)
  deriving DecidableEq, Repr

namespace HttpMethod

/-- `HttpMethod::as_str`. -/
def asStr : HttpMethod → String
  | get => "GET"
  | post => "POST"
  | put => "PUT"
  | patch => "PATCH"
  | delete => "DELETE"
  | head => "HEAD"
  | options => "OPTIONS"
  | connect => "CONNECT"
  | trace => "TRACE"
  | other verb => verb

/-- `str::to_ascii_uppercase`. -/
def toAsciiUppercase (s : String) : String := String.ofList (s.toList.map Char.toUpper)

/-- `HttpMethod::parse`. -/
def parse (s : String) : HttpMethod :=
  match toAsciiUppercase (trim s) with
  | "GET" => get
  | "POST" => post
  | "PUT" => put
  | "PATCH" => patch
  | "DELETE" => delete
  | "HEAD" => head
  | "OPTIONS" => options
  | "CONNECT" => connect
  | "TRACE" => trace
  | upper => other upper

end HttpMethod

/-! ## The claim a header makes -/

/-- `HttpAuthRequest`. -/
structure HttpAuthRequest where
  url : Url
  method : HttpMethod
  payloadHash : Option Bytes
  deriving DecidableEq

/-- `HttpAuthError`; errors of other crates without their text. -/
inductive HttpAuthError where
  | wrongKind (kind : Kind)
  | missingUrl
  | missingMethod
  | invalidUrl
  | invalidPayloadHashLength (len : Nat)
  | invalidPayloadHash (e : HexError)
  | headerWrongScheme
  | headerInvalidBase64
  | headerInvalidUtf8
  | headerInvalidJson
  | validationTimestampSkew (deltaSecs allowedSecs : Nat)
  | validationUrlMismatch (expected got : String)
  | validationMethodMismatch (expected got : String)
  | validationPayloadMismatch
  deriving DecidableEq, Repr

/-- `custom_value`: the value of the first tag of this name, should it have one. -/
def customValue (tags : Tags) (name : String) : Option String :=
  (tags.items.find? (fun tag => tag.name = name)).bind Tag.content

/-- `parse_sha256_hex`. -/
def parseSha256Hex (input : String) : Except HttpAuthError Bytes :=
  if (strBytes input).length ≠ 64 then .error (.invalidPayloadHashLength (strBytes input).length)
  else (Hex.decodeToSlice 32 (strBytes input)).mapError .invalidPayloadHash

def orElse {α : Type} (e : HttpAuthError) : Option α → Except HttpAuthError α
  | some a => .ok a
  | none => .error e

namespace HttpAuthRequest

variable (parseUrl : String → Option Url)

/-- `HttpAuthRequest::from_tags`. -/
def fromTags (tags : Tags) : Except HttpAuthError HttpAuthRequest := do
  let urlStr ← orElse .missingUrl (customValue tags "u")
  let url ← orElse .invalidUrl (parseUrl urlStr)
  let methodStr ← orElse .missingMethod (customValue tags "method")
  let payloadHash ← match customValue tags "payload" with
    | some hex => (parseSha256Hex hex).map some
    | none => .ok none
  return ⟨url, .parse methodStr, payloadHash⟩

/-- `HttpAuthRequest::from_event`. -/
def fromEvent (event : Event) : Except HttpAuthError HttpAuthRequest :=
  if event.kind ≠ .httpAuth then .error (.wrongKind event.kind) else fromTags parseUrl event.tags

/-- `u64::abs_diff`. -/
def absDiff (a b : Timestamp) : Nat := max a.toNat b.toNat - min a.toNat b.toNat

/-- `HttpAuthRequest::validate`; without a payload hash any body will do. -/
def validate (crypto : Crypto) (bundle : HttpAuthRequest) (signedAt now : Timestamp) (skewSecs : Nat)
    (requestUrl : Url) (requestMethod : HttpMethod) (body : Option Bytes) : Except HttpAuthError Unit :=
  let delta := absDiff signedAt now
  if skewSecs < delta then .error (.validationTimestampSkew delta skewSecs)
  else if bundle.url ≠ requestUrl then
    .error (.validationUrlMismatch requestUrl.serialization bundle.url.serialization)
  else if bundle.method ≠ requestMethod then
    .error (.validationMethodMismatch requestMethod.asStr bundle.method.asStr)
  else
    -- an event without a payload tag is for any body
    match body, bundle.payloadHash with
    | some bytes, some expected =>
        if crypto.sha256 bytes ≠ expected then .error .validationPayloadMismatch else .ok ()
    | _, _ => .ok ()

end HttpAuthRequest

/-! ## The header -/

/-- `AUTH_SCHEME_PREFIX`. -/
def authSchemePrefix : String := "Nostr "

/-- `authorization_header`. -/
def authorizationHeader (engine : Base64Engine) (json : JsonCodec) (event : Event) : String :=
  authSchemePrefix ++ engine.encode (strBytes (event.asJson json))

/-- `parse_authorization_header`. -/
def parseAuthorizationHeader (engine : Base64Engine) (json : JsonCodec) (header : String) :
    Except HttpAuthError Event := do
  let body ← orElse .headerWrongScheme
    (if authSchemePrefix.toList.isPrefixOf header.toList
      then some (String.ofList (header.toList.drop authSchemePrefix.toList.length)) else none)
  let bytes ← (engine.decode (trim body)).mapError (fun _ => .headerInvalidBase64)
  let text ← orElse .headerInvalidUtf8 (fromUtf8 bytes)
  orElse .headerInvalidJson (Event.fromJson json text)

/-- The characters of base64 are visible. -/
theorem visible_base64 {engine : Base64Engine} {b : Bytes} {c : Char} (h : c ∈ (engine.encode b).toList) :
    Json.Visible c := by
  rcases engine.alphabet_encode b c h with hc | rfl | rfl | rfl
  · simp only [Char.isAlphanum, Char.isAlpha, Char.isUpper, Char.isLower, Char.isDigit, Bool.or_eq_true,
      Bool.and_eq_true, decide_eq_true_eq, UInt32.le_iff_toNat_le, ge_iff_le] at hc
    unfold Json.Visible
    simp at hc ⊢
    omega
  · exact ⟨by decide, by decide⟩
  · exact ⟨by decide, by decide⟩
  · exact ⟨by decide, by decide⟩

/-- **The header carries its event.** -/
theorem parse_authorizationHeader (engine : Base64Engine) (json : JsonCodec) (event : Event) :
    parseAuthorizationHeader engine json (authorizationHeader engine json event) = .ok event := by
  have hprefix : authSchemePrefix.toList.isPrefixOf (authorizationHeader engine json event).toList = true := by
    rw [authorizationHeader, String.toList_append, List.isPrefixOf_iff_prefix]
    exact List.prefix_append _ _
  have hbody : String.ofList ((authorizationHeader engine json event).toList.drop authSchemePrefix.toList.length) =
      engine.encode (strBytes (event.asJson json)) := by
    rw [authorizationHeader, String.toList_append, List.drop_left, String.ofList_toList]
  have htrim : trim (engine.encode (strBytes (event.asJson json))) = engine.encode (strBytes (event.asJson json)) :=
    trim_of_visible (fun c hc => visible_base64 (hc.elim List.mem_of_mem_head? List.mem_of_getLast?))
  simp only [parseAuthorizationHeader, hprefix, if_true, hbody, orElse, htrim, engine.decode_encode, Except.mapError,
    fromUtf8_strBytes, Event.fromJson_asJson, bind, Except.bind]

/-! ## What passes -/

/-- The tags name this request. -/
structure Names (parseUrl : String → Option Url) (crypto : Crypto) (tags : Tags) (url : Url) (method : HttpMethod)
    (body : Bytes) : Prop where
  url : (customValue tags "u").bind parseUrl = some url
  method : (customValue tags "method").map HttpMethod.parse = some method
  payload : ∀ hex, customValue tags "payload" = some hex → parseSha256Hex hex = .ok (crypto.sha256 body)

section Accepted

variable {parseUrl : String → Option Url} {crypto : Crypto}

/-- **What the tags are read as**: the url and the method, each of which must be there, and the payload if it is. -/
theorem fromTags_ok_iff {tags : Tags} {bundle : HttpAuthRequest} :
    HttpAuthRequest.fromTags parseUrl tags = .ok bundle ↔
    (customValue tags "u").bind parseUrl = some bundle.url ∧
      (customValue tags "method").map HttpMethod.parse = some bundle.method ∧
      match customValue tags "payload" with
      | none => bundle.payloadHash = none
      | some hex => ∃ hash, parseSha256Hex hex = .ok hash ∧ bundle.payloadHash = some hash := by
  obtain ⟨url, method, payloadHash⟩ := bundle
  rw [HttpAuthRequest.fromTags]
  cases hurl : customValue tags "u" with
  | none => simp [orElse, bind, Except.bind]
  | some urlStr =>
      cases hparse : parseUrl urlStr with
      | none => simp [orElse, hparse, bind, Except.bind]
      | some found =>
          cases hmethod : customValue tags "method" with
          | none => simp [orElse, hparse, bind, Except.bind]
          | some methodStr =>
              cases hpayload : customValue tags "payload" with
              | none => simp [orElse, hparse, bind, Except.bind, pure, Except.pure, eq_comm]
              | some hex =>
                  cases hhash : parseSha256Hex hex with
                  | error e => simp [orElse, hparse, hhash, bind, Except.bind, Except.map]
                  | ok hash =>
                      simp [orElse, hparse, hhash, bind, Except.bind, Except.map, pure, Except.pure, eq_comm]

/-- **When a bundle is valid**: when it is for this url and method, not older or newer than the skew, and its payload,
    where it has one, is the body's digest. -/
theorem validate_ok_iff {bundle : HttpAuthRequest} {signedAt now : Timestamp} {skewSecs : Nat} {url : Url}
    {method : HttpMethod} {body : Bytes} :
    bundle.validate crypto signedAt now skewSecs url method (some body) = .ok () ↔
    HttpAuthRequest.absDiff signedAt now ≤ skewSecs ∧ bundle.url = url ∧ bundle.method = method ∧
      ∀ hash, bundle.payloadHash = some hash → hash = crypto.sha256 body := by
  obtain ⟨found, verb, payloadHash⟩ := bundle
  unfold HttpAuthRequest.validate
  by_cases hskew : skewSecs < HttpAuthRequest.absDiff signedAt now
  · simp only [if_pos hskew, reduceCtorEq, false_iff]
    omega
  · by_cases hurl : found = url
    · by_cases hmethod : verb = method
      · cases payloadHash with
        | none => simp [hskew, hurl, hmethod, Nat.le_of_not_lt hskew]
        | some hash =>
            by_cases hhash : crypto.sha256 body = hash
            · simp [hskew, hurl, hmethod, hhash, Nat.le_of_not_lt hskew]
            · simp [hskew, hurl, hmethod, hhash, Ne.symm hhash]
      · simp [hskew, hurl, hmethod]
    · simp [hskew, hurl]

/-- **What is accepted**: an event of the kind, dated near the clock, that names the request. -/
theorem accepted_iff {event : Event} {now : Timestamp} {skewSecs : Nat} {url : Url} {method : HttpMethod}
    {body : Bytes} :
    (∃ bundle, HttpAuthRequest.fromEvent parseUrl event = .ok bundle ∧
      bundle.validate crypto event.createdAt now skewSecs url method (some body) = .ok ()) ↔
    event.kind = .httpAuth ∧ HttpAuthRequest.absDiff event.createdAt now ≤ skewSecs ∧
      Names parseUrl crypto event.tags url method body := by
  by_cases hkind : event.kind = .httpAuth
  · simp only [HttpAuthRequest.fromEvent, hkind, ne_eq, not_true_eq_false, if_false, fromTags_ok_iff, validate_ok_iff,
      true_and]
    constructor
    · rintro ⟨bundle, ⟨hurl, hmethod, hpayload⟩, hskew, rfl, rfl, hhash⟩
      refine ⟨hskew, hurl, hmethod, fun hex hhex => ?_⟩
      rw [hhex] at hpayload
      obtain ⟨hash, hparse, hsome⟩ := hpayload
      rw [hparse, hhash hash hsome]
    · rintro ⟨hskew, names⟩
      refine ⟨⟨url, method, (customValue event.tags "payload").map (fun _ => crypto.sha256 body)⟩,
        ⟨names.url, names.method, ?_⟩, hskew, rfl, rfl, ?_⟩
      · cases hpayload : customValue event.tags "payload" with
        | none => rfl
        | some hex => exact ⟨_, names.payload hex hpayload, rfl⟩
      · rintro hash hhash
        obtain ⟨-, -, rfl⟩ := Option.map_eq_some_iff.mp hhash
        rfl
  · simp [HttpAuthRequest.fromEvent, hkind]

end Accepted

end Nip98

end Nula
