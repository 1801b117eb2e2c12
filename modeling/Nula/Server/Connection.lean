import Nula.Core.Message
import Nula.Core.Nips
import Nula.Storage.Canonical

/-!
# `Server.Connection` — the relay's per-connection actor

One accepted socket of the relay server (`server/connection.rs`, with the options and policy verdicts of
`server/options.rs` and `server/policy.rs`): it issues the authentication challenge, then serves one wakeup
of its `select!` at a time — the shutdown signal, an event of the relay-wide broadcast, a frame from the
client — until the loop breaks.

As for the client's actor, a schedule is a list of wakeups, each with what the outside world does during it
(`Env`): which writes the transport refuses, what the policies and the storage answer, what the clocks read.
A policy or a storage call takes the position of the filter it is about, so its answers may differ from call
to call. What a connection does to the outside goes to `log`, oldest first, stamped with the number of the
wakeup.

A fallible handler is a `Flow`: the connection it leaves, in `.error` where the source returns
`DispatchError` or breaks the loop.
-/

namespace Nula.Server

open Std

/-! ## Options and verdicts (`server/options.rs`, `server/policy.rs`) -/

inductive Nip42Mode where
  | disabled
  | read
  | write
  | both
  deriving DecidableEq, Repr

namespace Nip42Mode

def isEnabled (mode : Nip42Mode) : Bool := mode ≠ .disabled

def requiresForRead (mode : Nip42Mode) : Bool := mode = .read ∨ mode = .both

def requiresForWrite (mode : Nip42Mode) : Bool := mode = .write ∨ mode = .both

end Nip42Mode

/-- `RateLimit`. -/
structure RateLimit where
  notesPerMinute : Option Nat
  reqsPerMinute : Option Nat

/-- `RateLimit::DISABLED`. -/
def RateLimit.disabled : RateLimit := ⟨none, none⟩

/-- `AdmitVerdict`; the category is the machine-readable prefix. -/
inductive AdmitVerdict where
  | accept
  | reject (category : MachineReadablePrefix) (message : String)
  deriving DecidableEq

/-- `format!("{}: {detail}", prefix.as_str())`. -/
def reason (category : MachineReadablePrefix) (detail : String) : String := category.asStr ++ ": " ++ detail

/-- `Debug` of `RejectedReason`. -/
def debugReason : RejectedReason → String
  | .duplicate => "Duplicate"
  | .ephemeral => "Ephemeral"
  | .deleted => "Deleted"
  | .expired => "Expired"
  | .replaced => "Replaced"
  | .vanished => "Vanished"
  | .invalidDelete => "InvalidDelete"

/-! ## Reconciliation sessions (`nula-sync`) -/

/-- What the repository uses of the negentropy crate; errors are their texts. -/
structure Negentropy where
  Storage : Type
  Session : Type
  /-- Insert every item, then seal. -/
  sealItems : List (Timestamp × EventId) → Except String Storage
  /-- `Negentropy::owned` with the default frame size limit. -/
  owned : Storage → Except String Session
  reconcile : Session → Bytes → Except String (Bytes × Session)

namespace Negentropy

variable (N : Negentropy)

/-- `Display` of `HexError`. -/
def hexErrorText : HexError → String
  | .invalidChar => "invalid hex character"
  | .invalidLength len => "invalid hex length: " ++ toString len
  | .lengthMismatch expected actual =>
      "hex length mismatch: expected " ++ toString expected ++ " bytes, got " ++ toString actual

/-- `nula_sync::Error::Algorithm`. -/
def algorithmError (text : String) : String := "negentropy algorithm error: " ++ text

/-- `prepare_storage`. -/
def prepareStorage (items : List (EventId × Timestamp)) : Except String N.Storage :=
  (N.sealItems (items.map Prod.swap)).mapError algorithmError

/-- `Responder::with_defaults`. -/
def withDefaults (storage : N.Storage) : Except String N.Session := (N.owned storage).mapError algorithmError

/-- `Responder::reconcile_hex`. -/
def reconcileHex (session : N.Session) (queryHex : String) : Except String (String × N.Session) :=
  match Hex.decode (strBytes queryHex) with
  | .error e => .error ("invalid hex payload: " ++ hexErrorText e)
  | .ok query =>
      match N.reconcile session query with
      | .error text => .error (algorithmError text)
      | .ok (reply, session) => .ok (Hex.encode reply, session)

end Negentropy

/-! ## What goes in and out -/

/-- Frames read from the socket. -/
inductive WsMessage where
  | text (content : String)
  | binary (payload : Bytes)
  | ping (payload : Bytes)
  | pong (payload : Bytes)
  | frame
  | close

/-- Frames written to the socket; `encode_relay` never fails on a `RelayMessage`. -/
inductive Frame where
  | text (message : RelayMessage)
  | pong (payload : Bytes)
  | close
  deriving DecidableEq

/-- The arms of the `select!`. A live `none` is a lagging or closed broadcast channel, an inbound `none` the
    end of the stream. -/
inductive Wakeup where
  | shutdown
  | live (event : Option Event)
  | inbound (frame : Option (Except Unit WsMessage))

/-- `Instant`, in nanoseconds on the monotonic clock. -/
abbrev Instant := Nat

/-- What the outside does during one wakeup. -/
structure Env where
  /-- Whether the sink refuses the `n`-th frame pushed during the wakeup. -/
  refuses : Nat → Bool
  now : Except String Timestamp
  /-- The reading of `elapsed`, and of the `now` after it, in the rate limiter. -/
  elapsedAt : Instant
  rolledAt : Instant
  randomHexToken : String
  admitEvent : Event → AdmitVerdict
  /-- The verdict on the `n`-th filter of a request, and the filter the policy leaves. -/
  admitQuery : Nat → Filter → Filter × AdmitVerdict
  saveEvent : Event → Except String SaveEventStatus
  /-- The answer to the `n`-th filter of a request. -/
  query : Nat → Filter → Except String (List Event)
  count : Filter → Except String Nat
  negentropyItems : Filter → Except String (List (EventId × Timestamp))
  /-- `Keys::generate`, then the signing of the `n`-th random note. -/
  randomNote : Option (Nat → Option Event)
  subscriptionOrder : SubscriptionId → Nat

/-- One thing the outside can see: a frame the sink took or refused, a storage call, an event put on the
    relay-wide broadcast. -/
inductive Effect where
  | wrote (frame : Frame)
  | refused (frame : Frame)
  | saved (event : Event) (result : Except String SaveEventStatus)
  | queried (filter : Filter)
  | counted (filter : Filter)
  | listed (filter : Filter)
  | broadcast (event : Event)

/-- `ConnectionContext`, with the crates it rests on; `fromJson` is `ClientMessage::from_json`. -/
structure ConnectionContext where
  crypto : Crypto
  urls : UrlCrate
  fromJson : String → Except String ClientMessage
  relayUrl : RelayUrl
  nip42Mode : Nip42Mode
  minPow : Option UInt8
  maxSubidLength : Option Nat
  maxFilterLimit : Option Nat
  maxActiveSubscriptions : Option Nat
  defaultFilterLimit : Option Nat
  rateLimit : RateLimit
  unresponsive : Bool
  sendRandomEvents : Option Nat

/-- `AuthState`. -/
structure AuthState where
  authenticated : Bool
  pubkey : Option PublicKey
  challenge : String

/-- `RateLimiter`; the limit itself stays in the context. -/
structure RateLimiter where
  windowStart : Instant
  notes : Nat
  reqs : Nat

/-- The connection between two wakeups; `attempts` counts the frames pushed during the current one. -/
structure Connection (N : Negentropy) where
  subscriptions : HashMap SubscriptionId (List Filter)
  negSessions : HashMap SubscriptionId N.Session
  auth : AuthState
  rate : RateLimiter
  isOpen : Bool
  turn : Nat
  attempts : Nat
  log : List (Nat × Effect)

/-- A handler that goes on, or has broken off the loop. -/
abbrev Flow (N : Negentropy) := Except (Connection N) (Connection N)

/-- The connection a handler leaves, whatever it returned. -/
def Flow.left {N : Negentropy} : Flow N → Connection N
  | .ok c => c
  | .error c => c

/-! ## The rate limiter -/

namespace RateLimiter

/-- `RateLimiter::roll`: a window lasts a minute. -/
def roll (env : Env) (rate : RateLimiter) : RateLimiter :=
  if 60000000000 ≤ env.elapsedAt - rate.windowStart then ⟨env.rolledAt, 0, 0⟩ else rate

/-- `RateLimiter::check`. -/
def check (limit : RateLimit) (env : Env) (message : ClientMessage) (rate : RateLimiter) :
    Option RelayMessage × RateLimiter :=
  let rate := rate.roll env
  match message with
  | .event event =>
      match limit.notesPerMinute with
      | none => (none, rate)
      | some max =>
          -- a message that is refused is not counted
          if max ≤ rate.notes then
            (some (.ok event.id false (reason .rateLimited ("more than " ++ toString max ++ " events per minute"))),
              rate)
          else (none, { rate with notes := rate.notes + 1 })
  | .req id _ =>
      match limit.reqsPerMinute with
      | none => (none, rate)
      | some max =>
          if max ≤ rate.reqs then
            (some (.closed id (reason .rateLimited ("more than " ++ toString max ++ " REQs per minute"))), rate)
          else (none, { rate with reqs := rate.reqs + 1 })
  -- other messages are free
  | _ => (none, rate)

end RateLimiter

/-- `message_needs_auth`. -/
def messageNeedsAuth (message : ClientMessage) (mode : Nip42Mode) : Bool :=
  match message with
  | .event _ => mode.requiresForWrite
  | .req _ _ | .count _ _ | .negOpen _ _ _ => mode.requiresForRead
  | _ => false

/-- The refusal of a message that needs authentication. -/
def authRefusal : ClientMessage → RelayMessage
  | .event event => .ok event.id false (reason .authRequired "authentication required to publish")
  | .req id _ => .closed id (reason .authRequired "authentication required to read")
  | _ => .notice "auth-required: this relay requires NIP-42 authentication"

/-- `verify_client_auth`. -/
def verifyClientAuth (ctx : ConnectionContext) (env : Env) (event : Event) (challenge : String) :
    Except String Unit :=
  match event.verify ctx.crypto with
  | .error e => .error ("invalid auth event: " ++ e.text)
  | .ok () =>
      match env.now with
      | .error text => .error ("relay clock unavailable: " ++ text)
      | .ok now =>
          (Nip42.verifyAuthEvent ctx.urls event ctx.relayUrl challenge now Nip42.defaultMaxAgeSecs).mapError
            Nip42.AuthError.text

/-- `apply_filter_limits`. -/
def applyFilterLimits (filter : Filter) (default max : Option Nat) : Filter :=
  let filled := if filter.limit = none then default else filter.limit
  match max with
  | none => { filter with limit := filled }
  | some max => { filter with limit := some (filled.elim max (fun limit => min limit max)) }

namespace Connection

variable {N : Negentropy} (ctx : ConnectionContext) (env : Env)

/-- Log an effect of the current turn. -/
def emit (e : Effect) (c : Connection N) : Connection N := { c with log := c.log ++ [(c.turn, e)] }

/-- Push a frame on the sink. -/
def push (frame : Frame) (c : Connection N) : Flow N :=
  let pushed := { c with attempts := c.attempts + 1 }
  if env.refuses c.attempts then .error (pushed.emit (.refused frame)) else .ok (pushed.emit (.wrote frame))

/-- `send`. -/
def send (message : RelayMessage) (c : Connection N) : Flow N := c.push env (.text message)

/-- A loop of `send`s that stops at the first error. -/
def sendAll (messages : List RelayMessage) (c : Connection N) : Flow N :=
  messages.foldlM (fun c message => c.send env message) c

/-! ## `EVENT` -/

/-- `check_expired`: without a clock, or with a malformed deadline, the event passes. -/
def checkExpired (event : Event) : Option RelayMessage :=
  match env.now with
  | .error _ => none
  | .ok now =>
      if event.deadOnArrival now then some (.ok event.id false (reason .blocked "event is expired")) else none

/-- `check_pow`. -/
def checkPow (event : Event) (min : UInt8) : Option RelayMessage :=
  match Nip13.verifyPow event min with
  | .error e => some (.ok event.id false (reason .pow e.text))
  | .ok () => none

/-- `check_protected`: the challenge to repeat, if any, and the refusal. A first challenge is made up here. -/
def checkProtected (event : Event) (auth : AuthState) :
    Option (Option RelayMessage × RelayMessage) × AuthState :=
  if !event.isProtected || auth.pubkey = some event.pubkey then (none, auth)
  else if auth.pubkey = none then
    let auth := if auth.challenge = "" then { auth with challenge := "nula-mock-" ++ env.randomHexToken } else auth
    (some (some (.auth auth.challenge),
      .ok event.id false (reason .authRequired "this event may only be published by its author")), auth)
  else
    (some (none, .ok event.id false (reason .blocked "this event may only be published by its author")), auth)

/-- Whether a storage result is acknowledged, and the `OK` it is answered with. -/
def saveReply (id : EventId) : Except String SaveEventStatus → Bool × RelayMessage
  | .ok .success => (true, .ok id true "")
  | .ok (.rejected .ephemeral) => (true, .ok id true "")
  | .ok (.rejected why) => (false, .ok id false (reason .invalid (debugReason why)))
  | .error text => (false, .ok id false (reason .error text))

/-- `handle_event`. -/
def handleEvent (event : Event) (c : Connection N) : Flow N :=
  match checkExpired env event with
  | some refusal => c.send env refusal
  | none =>
  match ctx.minPow.bind (checkPow event) with
  | some refusal => c.send env refusal
  | none =>
  -- the challenge is made up even if the write of it fails
  let (refused, auth) := checkProtected env event c.auth
  let c := { c with auth := auth }
  match refused with
  | some (some challenge, refusal) => c.send env challenge >>= fun c => c.send env refusal
  | some (none, refusal) => c.send env refusal
  | none =>
  match env.admitEvent event with
  | .reject category message => c.send env (.ok event.id false (reason category message))
  | .accept =>
      -- past every gate
      let result := env.saveEvent event
      let c := c.emit (.saved event result)
      let (accepted, reply) := saveReply event.id result
      c.send env reply >>= fun c => .ok (if accepted then c.emit (.broadcast event) else c)

/-- `forward_to_subscriptions`. -/
def forwardToSubscriptions (event : Event) (c : Connection N) : Flow N :=
  let matching := (c.subscriptions.iter env.subscriptionOrder).filter
    (fun entry => entry.2.any (fun filter => filter.admits event))
  c.sendAll env (matching.map (fun entry => .event entry.1 event))

/-! ## `REQ` -/

/-- The admit gate: the filters the policy leaves, with the server's limits, or the first rejection. -/
def admitFilters : Nat → List Filter → Except (MachineReadablePrefix × String) (List Filter)
  | _, [] => .ok []
  | n, filter :: filters =>
      match env.admitQuery n filter with
      | (_, .reject category message) => .error (category, message)
      | (filter, .accept) =>
          (admitFilters (n + 1) filters).map
            (applyFilterLimits filter ctx.defaultFilterLimit ctx.maxFilterLimit :: ·)

/-- The stored events, one filter at a time, then `EOSE` and the subscription for `all` the filters. -/
def streamStored (id : SubscriptionId) (all : List Filter) : Nat → List Filter → Connection N → Flow N
  | _, [], c =>
      c.send env (.endOfStoredEvents id) >>= fun c =>
        .ok { c with subscriptions := c.subscriptions.insert id all }
  | n, filter :: filters, c =>
      let c := c.emit (.queried filter)
      match env.query n filter with
      | .error text => c.send env (.closed id (reason .error ("storage backend error: " ++ text)))
      | .ok events =>
          c.sendAll env (events.map (.event id)) >>= fun c => streamStored id all (n + 1) filters c

/-- The notes of `stream_random_events`; one that cannot be signed is left out. -/
def randomEvents (note : Nat → Option Event) (count : Nat) : List Event := (List.range count).filterMap note

/-- `stream_random_events`. -/
def streamRandomEvents (id : SubscriptionId) (count : Nat) (c : Connection N) : Flow N :=
  match env.randomNote with
  | none => .error c
  | some note =>
      c.sendAll env ((randomEvents note count).map (.event id)) >>= fun c => c.send env (.endOfStoredEvents id)

/-- The id is longer than the server takes, in bytes. -/
def subidTooLong (id : SubscriptionId) : Option Nat :=
  ctx.maxSubidLength.filter (fun max => max < id.text.utf8ByteSize)

/-- A new id over the cap. -/
def tooManySubscriptions (id : SubscriptionId) (c : Connection N) : Option Nat :=
  ctx.maxActiveSubscriptions.filter (fun max => max ≤ c.subscriptions.size && !c.subscriptions.contains id)

/-- `handle_req`. -/
def handleReq (id : SubscriptionId) (filters : List Filter) (c : Connection N) : Flow N :=
  match subidTooLong ctx id with
  | some max =>
      c.send env (.closed id (reason .invalid ("subscription id exceeds " ++ toString max ++ " characters")))
  | none =>
  match c.tooManySubscriptions ctx id with
  | some max =>
      c.send env
        (.closed id (reason .rateLimited ("too many concurrent subscriptions (max " ++ toString max ++ ")")))
  | none =>
  -- a relay for tests, which answers with whatever it makes up
  match ctx.sendRandomEvents with
  | some count => c.streamRandomEvents env id count
  | none =>
  if filters = [] then c.send env (.closed id (reason .invalid "REQ requires at least one filter"))
  else
    match admitFilters ctx env 0 filters with
    | .error (category, message) => c.send env (.closed id (reason category message))
    | .ok filters => c.streamStored env id filters 0 filters

/-! ## `NEG-OPEN` and `NEG-MSG` -/

/-- `send_neg_err`. -/
def sendNegErr (id : SubscriptionId) (category : MachineReadablePrefix) (detail : String) (c : Connection N) :
    Flow N :=
  c.send env (.negErr id (reason category detail))

/-- `handle_neg_open`. -/
def handleNegOpen (id : SubscriptionId) (filter : Filter) (initialMessageHex : String) (c : Connection N) :
    Flow N :=
  match subidTooLong ctx id with
  | some max => c.sendNegErr env id .invalid ("subscription id exceeds " ++ toString max ++ " characters")
  | none =>
  if c.negSessions.contains id then c.sendNegErr env id .duplicate "subscription already open"
  else
  match env.admitQuery 0 filter with
  | (_, .reject category message) => c.sendNegErr env id category message
  | (filter, .accept) =>
  -- the filter goes to storage as the policy left it
  let c := c.emit (.listed filter)
  match env.negentropyItems filter >>= N.prepareStorage with
  | .error text => c.sendNegErr env id .error ("storage backend error: " ++ text)
  | .ok storage =>
  match N.withDefaults storage with
  | .error text => c.sendNegErr env id .error ("negentropy init error: " ++ text)
  | .ok session =>
  -- the session is kept only if its first message is answered
  match N.reconcileHex session initialMessageHex with
  | .error text => c.sendNegErr env id .invalid ("negentropy reconcile error: " ++ text)
  | .ok (replyHex, session) =>
      ({ c with negSessions := c.negSessions.insert id session } : Connection N).send env (.negMsg id replyHex)

/-- `handle_neg_msg`: a session that fails is dropped. -/
def handleNegMsg (id : SubscriptionId) (messageHex : String) (c : Connection N) : Flow N :=
  match c.negSessions[id]? with
  | none => c.sendNegErr env id .invalid "no open NIP-77 session for this subscription id"
  | some session =>
      match N.reconcileHex session messageHex with
      | .error text =>
          ({ c with negSessions := c.negSessions.erase id } : Connection N).sendNegErr env id .invalid
            ("negentropy reconcile error: " ++ text)
      | .ok (replyHex, session) =>
          ({ c with negSessions := c.negSessions.insert id session } : Connection N).send env (.negMsg id replyHex)

/-! ## Dispatch -/

/-- The `AUTH` arm of `dispatch`. -/
def handleAuth (event : Event) (c : Connection N) : Flow N :=
  match verifyClientAuth ctx env event c.auth.challenge with
  | .ok () =>
      ({ c with auth := { c.auth with authenticated := true, pubkey := some event.pubkey } } : Connection N).send
        env (.ok event.id true "")
  | .error why => c.send env (.ok event.id false (reason .restricted why))

/-- `dispatch`. -/
def dispatch (message : ClientMessage) (c : Connection N) : Flow N :=
  match message with
  | .event event => c.handleEvent ctx env event
  | .req id filters => c.handleReq ctx env id filters
  | .close id => .ok { c with subscriptions := c.subscriptions.erase id }
  | .auth event => c.handleAuth ctx env event
  | .count id filter =>
      -- a failed count is a count of none
      (c.emit (.counted filter)).send env
        (.count id (match env.count filter with | .ok n => UInt64.ofNat n | .error _ => 0))
  | .negOpen id filter initialMessage => c.handleNegOpen ctx env id filter initialMessage
  | .negMsg id message => c.handleNegMsg env id message
  | .negClose id => .ok { c with negSessions := c.negSessions.erase id }

/-- Push a frame whose loss does not matter. -/
def pushAnyway (frame : Frame) (c : Connection N) : Connection N := (c.push env frame).left

/-- A client message behind the authentication gate and the rate limiter. -/
def handleMessage (message : ClientMessage) (c : Connection N) : Flow N :=
  if !c.auth.authenticated && messageNeedsAuth message ctx.nip42Mode then
    .ok (c.pushAnyway env (.text (authRefusal message)))
  else
    let (refusal, rate) := c.rate.check ctx.rateLimit env message
    let c := { c with rate := rate }
    match refusal with
    | some refusal => .ok (c.pushAnyway env (.text refusal))
    | none => c.dispatch ctx env message

/-- `handle_inbound_frame`. -/
def handleInboundFrame (frame : Option (Except Unit WsMessage)) (c : Connection N) : Flow N :=
  match frame with
  | none => .error c
  -- a failed read hangs up
  | some (.error ()) => .error c
  | some (.ok .close) => .error c
  | some (.ok (.binary _)) =>
      .ok (c.pushAnyway env (.text (.notice "binary frames are not part of NIP-01")))
  | some (.ok (.ping payload)) => .ok (c.pushAnyway env (.pong payload))
  | some (.ok (.pong _)) | some (.ok .frame) => .ok c
  | some (.ok (.text text)) =>
      -- a relay for tests, which reads and never answers
      if ctx.unresponsive then .ok c
      else match ctx.fromJson text with
        | .error e => .ok (c.pushAnyway env (.text (.notice ("invalid client message: " ++ e))))
        | .ok message => c.handleMessage ctx env message

/-! ## The loop (`handle_connection`) -/

/-- The body of an arm; `.error` leaves the loop. -/
def wake (c : Connection N) : Wakeup → Flow N
  | .shutdown => .error (c.pushAnyway env .close)
  | .live none => .ok c
  | .live (some event) => c.forwardToSubscriptions env event
  | .inbound frame => c.handleInboundFrame ctx env frame

/-- The connection after an arm. -/
def settled : Flow N → Connection N
  | .ok c => c
  | .error c => { c with isOpen := false }

/-- One entry of the schedule; nothing happens once the loop has been left. -/
def step (c : Connection N) (event : Wakeup × Env) : Connection N :=
  let served := if c.isOpen then settled (wake ctx event.2 { c with attempts := 0 } event.1) else c
  { served with turn := c.turn + 1 }

/-- Before the loop: the challenge, where authentication is on. -/
def accept : Connection N :=
  let fresh : Connection N :=
    ⟨∅, ∅, ⟨!ctx.nip42Mode.isEnabled, none, ""⟩, ⟨env.rolledAt, 0, 0⟩, true, 0, 0, []⟩
  let opened :=
    if ctx.nip42Mode.isEnabled then
      let challenge := "nula-mock-" ++ env.randomHexToken
      settled ({ fresh with auth := { fresh.auth with challenge := challenge } }.send env (.auth challenge))
    else fresh
  { opened with turn := 1 }

/-- The connection after a schedule; `first` is the outside while it is set up. -/
def run (first : Env) (schedule : List (Wakeup × Env)) : Connection N :=
  schedule.foldl (step ctx) (accept ctx first)

end Connection

end Nula.Server

namespace Nula.Sample

open Server

/-- No session ever fails, and every reply is empty. -/
def negentropy : Negentropy := ⟨Unit, Unit, fun _ => .ok (), fun _ => .ok (), fun _ _ => .ok ([], ())⟩

/-- Every url is a `wss` one with a host and no port. -/
def urls : UrlCrate := ⟨fun s => .ok ⟨s⟩, fun _ => "wss", fun _ => some "relay", fun _ => none, fun url => url, some⟩

/-- Every gate open. -/
def serverCtx (fromJson : String → Except String ClientMessage) : ConnectionContext where
  crypto := crypto
  urls := urls
  fromJson := fromJson
  relayUrl := ⟨⟨"wss://relay/"⟩⟩
  nip42Mode := .disabled
  minPow := none
  maxSubidLength := none
  maxFilterLimit := none
  maxActiveSubscriptions := none
  defaultFilterLimit := none
  rateLimit := .disabled
  unresponsive := false
  sendRandomEvents := none

/-- Everything is admitted, taken and found empty; writes are refused from the `n`-th on. -/
def serverEnv (n : Nat) : Env where
  refuses k := n ≤ k
  now := .ok 1700000000
  elapsedAt := 0
  rolledAt := 0
  randomHexToken := "0000000000000000"
  admitEvent _ := .accept
  admitQuery _ filter := (filter, .accept)
  saveEvent _ := .ok .success
  query _ _ := .ok []
  count _ := .ok 0
  negentropyItems _ := .ok []
  randomNote := none
  subscriptionOrder _ := 0

end Nula.Sample
