import Nula.Core.Nips
import Nula.Core.Signing

/-!
# `Signer.Envelope` — what a remote signer and its clients say to each other

Methods, requests, results and the JSON envelope of NIP-46 (`nips/nip46.rs`). A request travels as a method and
a list of strings, a result as one string that is read by the method it answers; the envelope is an untagged
enum, so an object that is no request is tried as a response.
-/

namespace Nula.Nip46

open Nula

/-- `KIND`. -/
def kind : Kind := ⟨24133⟩

/-! ## Methods -/

/-- The methods of the protocol. -/
inductive Method where
  | connect
  | getPublicKey
  | signEvent
  | nip04Encrypt
  | nip04Decrypt
  | nip44Encrypt
  | nip44Decrypt
  | ping
  | switchRelays
  deriving DecidableEq, Repr

/-- `Nip46Error`, as far as envelopes go; JSON errors without their text. -/
inductive Nip46Error where
  | publicKey (e : PublicKeyError)
  | relayUrl (e : RelayUrlError)
  | json
  | invalidParamLength (method : Method) (expected actual : Nat)
  | unsupportedMethod (s : String)
  | invalidSwitchRelaysPayload
  | wrongMessageKind (text : String)
  | unexpectedResponse (method : Method) (expected received : String)
  deriving DecidableEq, Repr

namespace Method

/-- `Method::as_str`. -/
def asStr : Method → String
  | connect => "connect"
  | getPublicKey => "get_public_key"
  | signEvent => "sign_event"
  | nip04Encrypt => "nip04_encrypt"
  | nip04Decrypt => "nip04_decrypt"
  | nip44Encrypt => "nip44_encrypt"
  | nip44Decrypt => "nip44_decrypt"
  | ping => "ping"
  | switchRelays => "switch_relays"

/-- `Method::from_str`. -/
def fromStr (s : String) : Except Nip46Error Method :=
  match s with
  | "connect" => .ok connect
  | "get_public_key" => .ok getPublicKey
  | "sign_event" => .ok signEvent
  | "nip04_encrypt" => .ok nip04Encrypt
  | "nip04_decrypt" => .ok nip04Decrypt
  | "nip44_encrypt" => .ok nip44Encrypt
  | "nip44_decrypt" => .ok nip44Decrypt
  | "ping" => .ok ping
  | "switch_relays" => .ok switchRelays
  | other => .error (.unsupportedMethod other)

theorem fromStr_asStr (m : Method) : fromStr m.asStr = .ok m := by
  cases m <;> rfl

/-- `Deserialize for Method`: the name is lent from the text (`<&str>::deserialize`). -/
def ofContent (c : JsonContent) : Option Method := c.lent.bind (fun s => (fromStr s).toOption)

theorem ofContent_asStr (m : Method) : ofContent (JsonValue.string m.asStr).content = some m := by
  have hplain : m.asStr.toList.any Json.escaped = false := by
    cases m <;> decide
  rw [ofContent, JsonContent.lent_content hplain, Option.bind_some, fromStr_asStr]
  rfl

end Method

/-! ## Permissions -/

inductive Permission where
  | method (m : Method)
  | signEventKind (kind : Kind)
  | other (raw : String)
  deriving DecidableEq, Repr

namespace Permission

/-- `Permission::to_wire`. -/
def toWire : Permission → String
  | method m => m.asStr
  | signEventKind kind => Method.signEvent.asStr ++ ":" ++ toString kind.val.toNat
  | other raw => raw

/-- `Permission::join`. -/
def join (perms : List Permission) : String := ",".intercalate (perms.map toWire)

/-- `Permission::from_str`, which never fails. -/
def parse (s : String) : Permission :=
  match splitOnce ':' s.toList with
  | some (head, tail) =>
      match parseU16 (String.ofList tail) with
      | some raw => if String.ofList head = Method.signEvent.asStr then signEventKind ⟨raw⟩ else other s
      | none => other s
  | none =>
      match Method.fromStr s with
      | .ok m => method m
      | .error _ => other s

/-- `Permission::split`. -/
def split (wire : String) : List Permission :=
  if wire = "" then []
  else (((splitOn ',' wire.toList).map trimChars).filter (fun tok => tok ≠ [])).map
    (fun tok => parse (String.ofList tok))

end Permission

/-! ## Requests -/

inductive Request where
  | connect (remoteSignerPublicKey : PublicKey) (secret : Option String) (perms : Option (List Permission))
  | getPublicKey
  | signEvent (unsigned : UnsignedEvent)
  | nip04Encrypt (peer : PublicKey) (text : String)
  | nip04Decrypt (peer : PublicKey) (ciphertext : String)
  | nip44Encrypt (peer : PublicKey) (text : String)
  | nip44Decrypt (peer : PublicKey) (ciphertext : String)
  | ping
  | switchRelays
  deriving DecidableEq

namespace Request

/-- `Request::method`. -/
def method : Request → Method
  | connect .. => .connect
  | getPublicKey => .getPublicKey
  | signEvent _ => .signEvent
  | nip04Encrypt .. => .nip04Encrypt
  | nip04Decrypt .. => .nip04Decrypt
  | nip44Encrypt .. => .nip44Encrypt
  | nip44Decrypt .. => .nip44Decrypt
  | ping => .ping
  | switchRelays => .switchRelays

variable (json : JsonCodec)

/-- `Request::params`. -/
def params : Request → List String
  | connect pk secret none => pk.toHex :: secret.toList
  | connect pk secret (some perms) => [pk.toHex, secret.getD "", Permission.join perms]
  | getPublicKey | ping | switchRelays => []
  | signEvent unsigned => [unsigned.asJson json]
  | nip04Encrypt peer text | nip44Encrypt peer text => [peer.toHex, text]
  | nip04Decrypt peer ciphertext | nip44Decrypt peer ciphertext => [peer.toHex, ciphertext]

/-- `PublicKey::parse` under `?`. -/
def parseKey (s : String) : Except Nip46Error PublicKey := (PublicKey.parse s).mapError .publicKey

/-- `Request::from_wire`. -/
def fromWire (method : Method) (params : List String) : Except Nip46Error Request :=
  match method, params with
  | .connect, [pk] => do return connect (← parseKey pk) none none
  | .connect, [pk, secret] => do return connect (← parseKey pk) (some secret) none
  | .connect, [pk, secret, perms] => do
      return connect (← parseKey pk) (if secret = "" then none else some secret) (some (Permission.split perms))
  | .getPublicKey, [] => .ok getPublicKey
  | .signEvent, [text] =>
      match UnsignedEvent.fromJson json text with
      | some unsigned => .ok (signEvent unsigned)
      | none => .error .json
  | .nip04Encrypt, [pk, text] => do return nip04Encrypt (← parseKey pk) text
  | .nip44Encrypt, [pk, text] => do return nip44Encrypt (← parseKey pk) text
  | .nip04Decrypt, [pk, ciphertext] => do return nip04Decrypt (← parseKey pk) ciphertext
  | .nip44Decrypt, [pk, ciphertext] => do return nip44Decrypt (← parseKey pk) ciphertext
  | .ping, [] => .ok ping
  | .switchRelays, [] => .ok switchRelays
  -- the number of parameters is wrong
  | .getPublicKey, _ | .ping, _ | .switchRelays, _ => .error (.invalidParamLength method 0 params.length)
  | .signEvent, _ | .connect, _ => .error (.invalidParamLength method 1 params.length)
  | .nip04Encrypt, _ | .nip04Decrypt, _ | .nip44Encrypt, _ | .nip44Decrypt, _ =>
      .error (.invalidParamLength method 2 params.length)

theorem parseKey_toHex (pk : PublicKey) : parseKey pk.toHex = .ok pk := by
  rw [parseKey, PublicKey.parse_toHex]
  rfl

/-- Every request but `connect` is read back from its method and params. -/
theorem fromWire_params {request : Request} (h : request.method ≠ .connect) :
    fromWire json request.method (request.params json) = .ok request := by
  cases request with
  | connect pk secret perms => exact absurd rfl h
  | getPublicKey => rfl
  | signEvent unsigned =>
      have hread := UnsignedEvent.fromJson_asJson json unsigned
      simp only [method, params, fromWire, hread]
  | nip04Encrypt peer text => simp only [method, params, fromWire, parseKey_toHex]; rfl
  | nip04Decrypt peer ciphertext => simp only [method, params, fromWire, parseKey_toHex]; rfl
  | nip44Encrypt peer text => simp only [method, params, fromWire, parseKey_toHex]; rfl
  | nip44Decrypt peer ciphertext => simp only [method, params, fromWire, parseKey_toHex]; rfl
  | ping => rfl
  | switchRelays => rfl

end Request

/-! ## Results -/

inductive ResponseResult where
  | ack
  | connectSecret (secret : String)
  | getPublicKey (pk : PublicKey)
  | signEvent (event : Event)
  | nip04Encrypt (ciphertext : String)
  | nip04Decrypt (plaintext : String)
  | nip44Encrypt (ciphertext : String)
  | nip44Decrypt (plaintext : String)
  | pong
  | switchRelays (relays : Option (List RelayUrl))
  | authUrl
  | error
  deriving DecidableEq

namespace ResponseResult

variable (json : JsonCodec) (urls : UrlCrate)

/-- The relay list of `switch_relays`, one url after the other. -/
def parseRelays (raw : List String) : Except Nip46Error (List RelayUrl) :=
  raw.mapM (fun url => (RelayUrl.parse urls url).mapError .relayUrl)

/-- `ResponseResult::from_wire`: the two sentinels before the method. -/
def fromWire (method : Method) (result : String) : Except Nip46Error ResponseResult :=
  if result = "auth_url" then .ok authUrl
  else if result = "error" then .ok error
  else
    match method with
    | .connect => .ok (if result = "ack" then ack else connectSecret result)
    | .getPublicKey => do return getPublicKey (← Request.parseKey result)
    | .signEvent =>
        match Event.fromJson json result with
        | some event => .ok (signEvent event)
        | none => .error .json
    | .nip04Encrypt => .ok (nip04Encrypt result)
    | .nip04Decrypt => .ok (nip04Decrypt result)
    | .nip44Encrypt => .ok (nip44Encrypt result)
    | .nip44Decrypt => .ok (nip44Decrypt result)
    | .ping => if result = "pong" then .ok pong else .error (.unexpectedResponse method "pong" result)
    | .switchRelays =>
        if trim result = "null" then .ok (switchRelays none)
        else
          match (json.read (trim result)).bind (JsonContent.list JsonContent.text) with
          | none => .error .invalidSwitchRelaysPayload
          | some raw => do return switchRelays (some (← parseRelays urls raw))

/-- `ResponseResult::to_wire`. -/
def toWire : ResponseResult → String
  | ack => "ack"
  | connectSecret s | nip04Encrypt s | nip04Decrypt s | nip44Encrypt s | nip44Decrypt s => s
  | getPublicKey pk => pk.toHex
  | signEvent event => event.asJson json
  | pong => "pong"
  | switchRelays none => "null"
  | switchRelays (some relays) => json.write (.array (relays.map (fun url => .string url.asStr)))
  | authUrl => "auth_url"
  | error => "error"

/-- The results that answer a method. -/
def Answers : Method → ResponseResult → Prop
  | _, authUrl | _, error => True
  | .connect, ack | .connect, connectSecret _ => True
  | .getPublicKey, getPublicKey _ => True
  | .signEvent, signEvent _ => True
  | .nip04Encrypt, nip04Encrypt _ => True
  | .nip04Decrypt, nip04Decrypt _ => True
  | .nip44Encrypt, nip44Encrypt _ => True
  | .nip44Decrypt, nip44Decrypt _ => True
  | .ping, pong => True
  -- a `RelayUrl` comes from `RelayUrl::parse`
  | .switchRelays, switchRelays relays => ∀ urls' ∈ relays, ∀ url ∈ urls', ∃ s, RelayUrl.parse urls s = .ok url
  | _, _ => False

/-- The text a user put into a result. -/
def userText : ResponseResult → Option String
  | connectSecret s | nip04Encrypt s | nip04Decrypt s | nip44Encrypt s | nip44Decrypt s => some s
  | _ => none

end ResponseResult

/-! ## Responses -/

/-- `result` and `error`; at most one of them is meaningful. -/
structure Response where
  result : Option ResponseResult
  error : Option String
  deriving DecidableEq

namespace Response

/-- `Response::with_result`. -/
def withResult (result : ResponseResult) : Response := ⟨some result, none⟩

/-- `Response::with_error`. -/
def withError (error : String) : Response := ⟨none, some error⟩

/-- `Response::from_wire`. -/
def fromWire (json : JsonCodec) (urls : UrlCrate) (method : Method) (result error : Option String) :
    Except Nip46Error Response :=
  match result with
  | some s => do return ⟨some (← ResponseResult.fromWire json urls method s), error⟩
  | none => .ok ⟨none, error⟩

end Response

/-! ## The envelope -/

/-- `Message`. -/
inductive Message where
  | request (id : String) (method : Method) (params : List String)
  | response (id : String) (result error : Option String)
  deriving DecidableEq

namespace Message

variable (json : JsonCodec)

/-- `Message::request`. -/
def ofRequest (id : String) (r : Request) : Message := request id r.method (r.params json)

/-- `Message::response`. -/
def ofResponse (id : String) (r : Response) : Message := response id (r.result.map (·.toWire json)) r.error

/-- `Message::id`. -/
def id : Message → String
  | request id _ _ => id
  | response id _ _ => id

/-- `Message::into_request`. -/
def intoRequest : Message → Except Nip46Error Request
  | request _ method params => Request.fromWire json method params
  | response .. => .error (.wrongMessageKind "expected Request, got Response")

/-- A slot that is written even when it is empty. -/
def slot : Option String → JsonValue
  | some s => .string s
  | none => .null

/-- `Serialize for Message`. -/
def toJson : Message → JsonValue
  | request id method params =>
      .object [("id", .string id), ("method", .string method.asStr), ("params", .array (params.map .string))]
  | response id result error => .object [("id", .string id), ("result", slot result), ("error", slot error)]

/-- The variant `Request` of the untagged enum. -/
def requestOf (members : List (String × JsonContent)) : Option Message := do
  return request (← Json.required members "id" JsonContent.text) (← Json.required members "method" Method.ofContent)
    (← Json.required members "params" (JsonContent.list JsonContent.text))

/-- The variant `Response`. -/
def responseOf (members : List (String × JsonContent)) : Option Message := do
  return response (← Json.required members "id" JsonContent.text) (← Json.optional members "result" JsonContent.text)
    (← Json.optional members "error" JsonContent.text)

/-- `Deserialize for Message`: the first variant that fits; both are objects. -/
def ofContent : JsonContent → Option Message
  | .map members => (requestOf members).or (responseOf members)
  | _ => none

/-- `serde_json::to_string`. -/
def asJson (m : Message) : String := json.write m.toJson

/-- `serde_json::from_str`. -/
def fromJson (text : String) : Option Message := (json.read text).bind ofContent

/-- A slot of a response comes back, an empty one as `null`. -/
theorem nullable_slot (s : Option String) : (slot s).content.nullable JsonContent.text = some s := by
  cases s with
  | none => rfl
  | some s => exact JsonContent.nullable_text_content s

/-- A message is not nested too deep for the parser. -/
theorem depth_toJson (m : Message) : m.toJson.depth ≤ Json.maxDepth := by
  have hslot : ∀ s : Option String, (slot s).depth ≤ 1 := by
    intro s
    cases s <;> exact Nat.zero_le 1
  have hall : m.toJson.depth ≤ 2 := by
    cases m with
    | request id method params =>
        have hparams : (JsonValue.array (params.map .string)).depth ≤ 1 := by
          apply depth_array_le
          intro v hv
          obtain ⟨s, -, rfl⟩ := List.mem_map.mp hv
          exact le_rfl
        apply depth_object_le
        simp only [List.forall_mem_cons, JsonValue.depth]
        exact ⟨Nat.zero_le 1, Nat.zero_le 1, hparams, List.forall_mem_nil _⟩
    | response id result error =>
        apply depth_object_le
        simp only [List.forall_mem_cons, JsonValue.depth]
        exact ⟨Nat.zero_le 1, hslot result, hslot error, List.forall_mem_nil _⟩
  exact hall.trans (by decide)

/-- **A message comes back from its value**, as a request or as a response. -/
theorem ofContent_toJson (m : Message) : ofContent m.toJson.content = some m := by
  cases m with
  | request id method params =>
      have hparams := JsonContent.list_content JsonContent.text_content params
      simp [ofContent, toJson, JsonValue.content_object, requestOf, Json.required, Json.member,
        JsonContent.text_content, Method.ofContent_asStr, hparams]
  | response id result error =>
      simp [ofContent, toJson, JsonValue.content_object, requestOf, responseOf, Json.required, Json.optional,
        Json.member, JsonContent.text_content, nullable_slot]

/-- **Round trip of the envelope.** -/
theorem fromJson_asJson (m : Message) : fromJson json (m.asJson json) = some m := by
  rw [fromJson, asJson, json.read_write _ m.depth_toJson, Option.bind_some, ofContent_toJson]

end Message

end Nula.Nip46
