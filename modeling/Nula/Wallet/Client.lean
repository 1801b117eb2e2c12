import Nula.Signer.Client

/-!
# `Wallet.Client` — a client of a wallet service

`NostrWalletConnect` (`nula-nwc`: `client.rs`, `dispatcher.rs`, `pending.rs`) and the messages it exchanges
(`nips/nip47.rs`). The sibling of `Signer.Client`: the same table of calls, here under the ids of the request
events. It listens to one key only, and a call that times out or reaches no relay takes its own entry along.
-/

namespace Nula.Wallet

open Signer (Ctx)

/-! ## Messages (`nips/nip47.rs`) -/

def kindRequest : Kind := ⟨23194⟩

def kindResponse : Kind := ⟨23195⟩

/-- `ENCRYPTION_TAG`. -/
def encryptionTag : String := "encryption"

inductive Encryption where
  | nip44V2
  | nip04
  deriving DecidableEq, Repr

/-- `NwcError`, as far as requests and responses go; JSON errors without their text. -/
inductive NwcError where
  | wrongKind (kind : Kind)
  | unknownEncryption (token : String)
  | invalidJson
  | nip44 (e : Nip44.Nip44Error)
  | nip04 (e : Nip04.Nip04Error)
  | nip04Unavailable
  deriving DecidableEq

namespace Encryption

/-- `Encryption::as_token`. -/
def asToken : Encryption → String
  | nip44V2 => "nip44_v2"
  | nip04 => "nip04"

/-- `Encryption::parse`. -/
def parse (token : String) : Except NwcError Encryption :=
  match token with
  | "nip44_v2" => .ok nip44V2
  | "nip04" => .ok nip04
  | other => .error (.unknownEncryption other)

end Encryption

inductive ErrorCode where
  | rateLimited
  | notImplemented
  | insufficientBalance
  | quotaExceeded
  | restricted
  | unauthorized
  | internal
  | unsupportedEncryption
  | paymentFailed
  | notFound
  | other
  | custom (s : String)
  deriving DecidableEq, Repr

/-- `ErrorCode::parse`. -/
def ErrorCode.parse (token : String) : ErrorCode :=
  match token with
  | "RATE_LIMITED" => rateLimited
  | "NOT_IMPLEMENTED" => notImplemented
  | "INSUFFICIENT_BALANCE" => insufficientBalance
  | "QUOTA_EXCEEDED" => quotaExceeded
  | "RESTRICTED" => restricted
  | "UNAUTHORIZED" => unauthorized
  | "INTERNAL" => internal
  | "UNSUPPORTED_ENCRYPTION" => unsupportedEncryption
  | "PAYMENT_FAILED" => paymentFailed
  | "NOT_FOUND" => notFound
  | "OTHER" => other
  | s => custom s

structure ResponseError where
  code : ErrorCode
  message : String

/-- The result is kept as the JSON it is. -/
structure Response where
  resultType : String
  error : Option ResponseError
  result : Option JsonContent

structure Request where
  method : String
  params : JsonValue

/-- The members of a record whose last fields have defaults. -/
def fields (names : List String) : JsonContent → Option (List (String × JsonContent))
  | .map members => some members
  | .seq elements => if elements.length ≤ names.length then some (names.zip elements) else none
  | _ => none

/-- `Deserialize for ResponseError`. -/
def ResponseError.ofContent (c : JsonContent) : Option ResponseError := do
  let members ← Json.record ["code", "message"] c
  return {
    code := ErrorCode.parse (← Json.required members "code" JsonContent.text)
    message := ← Json.required members "message" JsonContent.text }

/-- `Deserialize for Response`. -/
def Response.ofContent (c : JsonContent) : Option Response := do
  let members ← fields ["result_type", "error", "result"] c
  return {
    resultType := ← Json.required members "result_type" JsonContent.text
    error := ← Json.optional members "error" ResponseError.ofContent
    result := ← Json.optional members "result" some }

section

variable (ctx : Ctx)

/-- `encrypt_with`. -/
def encryptWith (encryption : Encryption) (entropy : Entropy) (secret : SecretKey) (peer : PublicKey)
    (plaintext : String) : Except NwcError String :=
  match encryption with
  | .nip44V2 => (Nip44.encrypt ctx.crypto entropy secret peer plaintext).mapError .nip44
  | .nip04 =>
      if ctx.nip04 then (Nip04.encrypt ctx.crypto entropy secret peer plaintext).mapError .nip04
      else .error .nip04Unavailable

/-- `decrypt_with`. -/
def decryptWith (encryption : Encryption) (secret : SecretKey) (peer : PublicKey) (payload : String) :
    Except NwcError String :=
  match encryption with
  | .nip44V2 => (Nip44.decrypt ctx.crypto secret peer payload).mapError .nip44
  | .nip04 =>
      if ctx.nip04 then (Nip04.decrypt ctx.crypto secret peer payload).mapError .nip04
      else .error .nip04Unavailable

/-- `encryption_for_event`: the first `encryption` tag with a value; none means NIP-04. -/
def encryptionForEvent (event : Event) : Except NwcError Encryption :=
  match event.tags.items.findSome? (fun tag => if tag.name = encryptionTag then tag.content else none) with
  | some token => Encryption.parse token
  | none => .ok .nip04

/-- `EventBuilder::nwc_request` without an expiration. -/
def nwcRequest (entropy : Entropy) (clientSecret : SecretKey) (walletPublic : PublicKey) (request : Request)
    (encryption : Encryption) : Except NwcError EventBuilder :=
  let plaintext := ctx.json.write (.object [("method", .string request.method), ("params", request.params)])
  match encryptWith ctx encryption entropy clientSecret walletPublic plaintext with
  | .error e => .error e
  | .ok ciphertext =>
      .ok (((EventBuilder.new kindRequest ciphertext).tag (Tag.p walletPublic)).tag
        ⟨[encryptionTag, encryption.asToken], List.cons_ne_nil _ _⟩)

/-- `decrypt_response`. -/
def decryptResponse (event : Event) (clientSecret : SecretKey) : Except NwcError Response :=
  if event.kind ≠ kindResponse then .error (.wrongKind event.kind)
  else
    -- the tag on the event says how it was encrypted
    match encryptionForEvent event with
    | .error e => .error e
    | .ok encryption =>
        match decryptWith ctx encryption clientSecret event.pubkey event.content with
        | .error e => .error e
        | .ok plaintext =>
            match (ctx.json.read plaintext).bind Response.ofContent with
            | some response => .ok response
            | none => .error .invalidJson

end

/-! ## The client -/

/-- `Error`, as far as calls go; a pool's error by its text. -/
inductive Error where
  | pool (text : String)
  | nwc (e : NwcError)
  | event (e : EventBuilderError)
  | timeout (method : String)
  | publishFailed (text : String)
  | dispatcherDown (reason : String)

/-- What a client is made with. -/
structure Config where
  ctx : Ctx
  clientKeys : Keys
  walletPubkey : PublicKey
  encryption : Encryption
  relays : List RelayUrl

/-- What a call returns. -/
abbrev Reply := Except Error Response

/-- The client between two actions. -/
structure State where
  table : InFlight EventId Request Reply
  /-- The requests handed to `send_event_to`. -/
  requests : List Event

def start : State := ⟨.empty, []⟩

/-- What `send_event_to` gives back. -/
abbrev SendOutcome := Signer.SendOutcome

/-- What can happen next. -/
inductive Action where
  /-- A call, with the randomness and the time it uses. -/
  | dispatch (request : Request) (entropy : Entropy) (aux : Bytes) (clock : Clock)
  | published (n : Nat) (outcome : SendOutcome)
  /-- The call looks at its channel. -/
  | receive (n : Nat)
  | timeout (n : Nat)
  | event (e : Event)

section

variable (cfg : Config)

/-- The request event of a call. -/
def requestEvent (request : Request) (entropy : Entropy) (aux : Bytes) (clock : Clock) : Except Error Event :=
  match nwcRequest cfg.ctx entropy cfg.clientKeys.secretKey cfg.walletPubkey request cfg.encryption with
  | .error e => .error (.nwc e)
  | .ok builder => (builder.signWithKeys cfg.ctx.crypto clock aux cfg.clientKeys).mapError .event

/-- `dispatch`, up to `send_event_to`. A call without an event has no id and leaves no trace. -/
def dispatch (s : State) (request : Request) (entropy : Entropy) (aux : Bytes) (clock : Clock) : State :=
  match requestEvent cfg request entropy aux clock with
  | .error _ => s
  | .ok event => ⟨s.table.enter event.id request Channel.drop, s.requests ++ [event]⟩

/-- `dispatch`, after `send_event_to`. -/
def published (s : State) (n : Nat) (outcome : SendOutcome) : State :=
  match s.table.calls[n]? with
  | some ⟨id, _, _, .sending⟩ =>
      match outcome with
      | .error text => { s with table := s.table.finish n (.error (.pool text)) }
      | .totalFailure failed =>
          -- the request never went out: its own slot is dropped
          { s with table := (s.table.remove id).finish n (.error (.publishFailed failed)) }
      | .accepted => { s with table := s.table.await n }
  | _ => s

/-- `dispatch`, when its receiver is ready. -/
def receive (s : State) (n : Nat) : State :=
  { s with table := s.table.receive n (.error (.dispatcherDown "pending channel cancelled")) }

/-- `dispatch`, when its time is over; a receiver that is ready goes first. -/
def expire (s : State) (n : Nat) : State :=
  match s.table.calls[n]? with
  | some ⟨id, request, .empty, .waiting⟩ =>
      { s with table := (s.table.remove id).finish n (.error (.timeout request.method)) }
  | _ => s

/-- `PendingMap::resolve`. -/
def resolve (s : State) (id : EventId) (reply : Reply) : State :=
  match s.table.lookup id with
  | none => s
  | some n => { s with table := s.table.answer id n reply }

/-- The loop of the dispatcher, once, as far as responses go. -/
def handleEvent (s : State) (event : Event) : State :=
  if cfg.relays = [] ∨ event.pubkey ≠ cfg.walletPubkey ∨ event.kind ≠ kindResponse then s
  else
    match decryptResponse cfg.ctx event cfg.clientKeys.secretKey with
    | .error _ => s
    | .ok response =>
        match event.tags.eventIds with
        | [] => s
        | requestId :: _ => resolve s requestId (.ok response)

def step (s : State) : Action → State
  | .dispatch request entropy aux clock => dispatch cfg s request entropy aux clock
  | .published n outcome => published s n outcome
  | .receive n => receive s n
  | .timeout n => expire s n
  | .event e => handleEvent cfg s e

/-- The state after a run. -/
def run (actions : List Action) : State := actions.foldl (step cfg) start

theorem run_append_singleton (actions : List Action) (a : Action) :
    run cfg (actions ++ [a]) = step cfg (run cfg actions) a := by
  rw [run, List.foldl_append]
  rfl

end

end Nula.Wallet
