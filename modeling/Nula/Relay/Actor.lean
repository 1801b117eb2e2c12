import Nula.Core.Message

/-!
# `Relay.Actor` — the client's connection actor

The task behind a `Relay` handle (`inner/run.rs`, `inner/dispatch.rs`, `inner/state.rs`,
`inner/outbound.rs`): it owns the socket, the subscription map and the publishes that wait for their `OK`,
and serves one wakeup of its `select!` at a time.

A schedule is a list of wakeups, each with what the outside world does during it (`Env`): which writes the
transport refuses, how a handshake ends, what the clocks read. Wakeups are numbered in order. A reply slot and
an item channel take the number of the wakeup that serves their command, a socket the number of the wakeup
that opened it, so each is new by construction. What the actor does to the outside goes to `log`, oldest
first, stamped with the number of the wakeup.

Two arms add a delay to the clock with `+`, which panics when the sum leaves the range of `Instant`. A panic
unwinds the task: whatever it owned is dropped, nothing is signalled or announced, and no wakeup is served
again.
-/

namespace Nula.Relay

open Std

/-! ## Options and errors (`options.rs`, `limits.rs`, `policy.rs`, `error.rs`) -/

/-- `Duration`: a `u64` of seconds and the nanoseconds below one more, all in nanoseconds. -/
abbrev Duration := Fin (2 ^ 64 * 10 ^ 9)

/-- `Duration::from_nanos`. -/
def Duration.fromNanos (nanos : UInt64) : Duration := ⟨nanos.toNat, by have := nanos.toNat_lt; omega⟩

/-- `Instant`, in nanoseconds on the monotonic clock; the seconds are an `i64`. -/
abbrev Instant := Fin (2 ^ 63 * 10 ^ 9)

/-- `Instant::checked_add`; `+` panics on `none`. -/
def Instant.checkedAdd (now : Instant) (delay : Duration) : Option Instant :=
  if h : now.val + delay.val < 2 ^ 63 * 10 ^ 9 then some ⟨now.val + delay.val, h⟩ else none

inductive ReconnectPolicy where
  | never
  | constant (delay : Duration)
  | exponential (base cap : Duration)
  deriving DecidableEq, Repr

/-- `full_jitter`; `random` is what `rand_u64` returned. -/
def fullJitter (base cap : Duration) (attempts : UInt32) (random : UInt64) : Duration :=
  let shift := min attempts.toNat 32
  let exp := min (base.val * 2 ^ shift) (2 ^ 128 - 1)
  let upper := min exp cap.val
  if upper = 0 then 0 else .fromNanos (.ofNat (min (random.toNat % upper) (2 ^ 64 - 1)))

/-- `ReconnectPolicy::next_delay`. -/
def ReconnectPolicy.nextDelay (attempts : UInt32) (random : UInt64) : ReconnectPolicy → Option Duration
  | .never => none
  | .constant delay => some delay
  | .exponential base cap => some (fullJitter base cap attempts random)

/-- `RelayLimits`. -/
structure RelayLimits where
  maxMessageBytes : Nat
  maxSubscriptions : Nat
  maxPendingPublishes : Nat

/-- `RelayLimits::default`. -/
def RelayLimits.default : RelayLimits := ⟨5 * 1024 * 1024, 512, 1024⟩

/-- `RelayOptions`. -/
structure RelayOptions where
  reconnectPolicy : ReconnectPolicy
  connectTimeout : Duration
  publishTimeout : Duration
  limits : RelayLimits

/-- `RelayOptions::default`: half a second doubling up to a minute, 30 s to connect, 60 s to publish. -/
def RelayOptions.default : RelayOptions where
  reconnectPolicy := .exponential 500000000 60000000000
  connectTimeout := 30000000000
  publishTimeout := 60000000000
  limits := .default

/-- `SubscribeOptions`. -/
structure SubscribeOptions where
  closeOnEose : Bool
  deriving DecidableEq

/-- `SubscribeOptions::new`. -/
def SubscribeOptions.new : SubscribeOptions := ⟨false⟩

/-- `PublishOptions`. -/
structure PublishOptions where
  timeout : Option Duration
  deriving DecidableEq

/-- The errors the actor answers with. Transport and encoding errors carry their text. -/
inductive Error where
  | transport (text : String)
  | json (text : String)
  | publishRejected (eventId : EventId) (message : String)
  | publishTimeout (eventId : EventId) (timeout : Duration)
  | connectTimeout (timeout : Duration)
  | notConnected
  | tooManySubscriptions (limit : Nat)
  | tooManyPendingPublishes (limit : Nat)
  | duplicateSubscription (id : SubscriptionId)
  deriving DecidableEq

/-! ## State (`inner/state.rs`, `status.rs`) -/

inductive RelayStatus where
  | initialized
  | connecting
  | connected
  | disconnected
  | terminated
  deriving DecidableEq, Repr

/-- `SubscriptionEntry`; `sink` names the channel of its handle. -/
structure SubscriptionEntry where
  filters : List Filter
  options : SubscribeOptions
  sink : Nat
  skipReissue : Bool
  deriving DecidableEq

/-- `PendingPublish`; `reply` names the slot of its caller. -/
structure PendingPublish where
  reply : Nat
  deadline : Instant
  timeout : Duration
  deriving DecidableEq

/-- `ActorState`; `sink` and `stream` hold the number of the socket they belong to. -/
structure ActorState where
  sink : Option Nat
  stream : Option Nat
  subscriptions : HashMap SubscriptionId SubscriptionEntry
  pendingPublishes : HashMap EventId PendingPublish
  reconnectAttempts : UInt32

namespace ActorState

/-- `ActorState::new`. -/
def new : ActorState := ⟨none, none, ∅, ∅, 0⟩

/-- `ActorState::drop_socket`. -/
def dropSocket (st : ActorState) : ActorState := { st with sink := none, stream := none }

/-- `ActorState::is_connected`. -/
def isConnected (st : ActorState) : Bool := st.sink.isSome && st.stream.isSome

/-- `ActorState::earliest_publish_deadline`. -/
def earliestPublishDeadline (st : ActorState) : Option Instant :=
  (st.pendingPublishes.toList.map (fun entry => entry.2.deadline)).min?

end ActorState

/-! ## What goes in and out -/

/-- `Command`, without the reply slots and item channels: they carry the wakeup's number. -/
inductive Command where
  | connect
  | disconnect
  | subscribe (id : SubscriptionId) (filters : List Filter) (options : SubscribeOptions)
  | subscribeNeg (id : SubscriptionId) (filter : Filter) (initialMessageHex : String)
  | publish (event : Event) (options : PublishOptions)
  | authenticate (event : Event)
  | sendMsg (message : ClientMessage)
  | shutdown
  deriving DecidableEq

/-- `transport::Message`. -/
inductive Message where
  | text (content : String)
  | binary (payload : Bytes)
  | ping (payload : Bytes)
  | pong (payload : Bytes)
  | close

/-- The arms of the `select!`; an inbound `none` is the end of the stream. -/
inductive Wakeup where
  | command (cmd : Command)
  | commandsClosed
  | closeSignal (id : SubscriptionId)
  | inbound (frame : Option (Except Error Message))
  | reconnectTimer
  | publishTimer

/-- How `transport.connect` under its timeout ends. -/
inductive Handshake where
  | opened
  | failed (text : String)
  | timedOut

/-- What the outside does during one wakeup. -/
structure Env where
  handshake : Handshake
  /-- The error of encoding or writing a frame; no wakeup writes the same frame twice. -/
  refuses : ClientMessage → Option Error
  now : Instant
  /-- The later reading of the clock in the expiry sweep. -/
  sweptAt : Instant
  random : UInt64
  subscriptionOrder : SubscriptionId → Nat
  publishOrder : EventId → Nat

/-- `SubscriptionItem`. -/
inductive SubscriptionItem where
  | event (event : Event)
  | endOfStoredEvents
  | closed (message : String)
  | negMsg (message : String)
  | negErr (message : String)
  deriving DecidableEq

/-- `RelayNotification`. -/
inductive RelayNotification where
  | status (status : RelayStatus)
  | notice (message : String)
  | authChallenge (challenge : String)
  | shutdown
  deriving DecidableEq

/-- One thing the outside can see: a frame written or read on a socket, an item on a handle's channel, a
    reply slot signalled, a notification. -/
inductive Obs where
  | sent (socket : Nat) (message : ClientMessage)
  | received (socket : Nat) (message : RelayMessage)
  | item (sink : Nat) (item : SubscriptionItem)
  | reply (slot : Nat) (result : Except Error Unit)
  | notified (notification : RelayNotification)

/-- `StaticCtx`; `parse` is `serde_json::from_str::<RelayMessage>`. -/
structure StaticCtx where
  options : RelayOptions
  parse : String → Option RelayMessage

/-- The actor between two wakeups; `panicked` once a wakeup has unwound its task. -/
structure Actor where
  state : ActorState
  status : RelayStatus
  reconnectDeadline : Option Instant
  panicked : Bool
  turn : Nat
  log : List (Nat × Obs)

namespace Actor

/-- A freshly spawned actor; announcing `Initialized` over `Initialized` notifies nobody. -/
def new : Actor := ⟨.new, .initialized, none, false, 0, []⟩

/-- Log an observation of the current turn. -/
def emit (o : Obs) (a : Actor) : Actor := { a with log := a.log ++ [(a.turn, o)] }

/-- Signal the reply slot of the command being served. -/
def answer (result : Except Error Unit) (a : Actor) : Actor := a.emit (.reply a.turn result)

/-- `set_status`. -/
def setStatus (new : RelayStatus) (a : Actor) : Actor :=
  if a.status = new then a else ({ a with status := new }).emit (.notified (.status new))

/-- `state.subscriptions.insert`. -/
def register (id : SubscriptionId) (entry : SubscriptionEntry) (a : Actor) : Actor :=
  { a with state := { a.state with subscriptions := a.state.subscriptions.insert id entry } }

/-- `state.subscriptions.remove`. -/
def unregister (id : SubscriptionId) (a : Actor) : Actor :=
  { a with state := { a.state with subscriptions := a.state.subscriptions.erase id } }

/-! ## Outbound (`inner/outbound.rs`) -/

/-- `send_req`, `send_close`, `send_event`, `send_auth` and `send_msg`: encode a frame, push it on the sink. -/
def send (env : Env) (socket : Nat) (message : ClientMessage) (a : Actor) : Except Error Unit × Actor :=
  match env.refuses message with
  | some err => (.error err, a)
  | none => (.ok (), a.emit (.sent socket message))

/-- The same behind `if let Some(wire_sink) = state.sink.as_mut()`. -/
def sendIfLive (env : Env) (message : ClientMessage) (a : Actor) : Except Error Unit × Actor :=
  match a.state.sink with
  | none => (.ok (), a)
  | some socket => a.send env socket message

/-- The same, where a missing sink is an error. -/
def sendConnected (env : Env) (message : ClientMessage) (a : Actor) : Except Error Unit × Actor :=
  match a.state.sink with
  | none => (.error .notConnected, a)
  | some socket => a.send env socket message

/-! ## Connecting (`inner/run.rs`) -/

variable (ctx : StaticCtx) (env : Env)

/-- The live halves of a fresh socket replace the old ones. -/
def openSocket (a : Actor) : Actor :=
  { a with state := { a.state with sink := some a.turn, stream := some a.turn, reconnectAttempts := 0 } }

/-- Drop both halves of the socket. -/
def dropSocket (a : Actor) : Actor := { a with state := a.state.dropSocket }

/-- `perform_connect`. -/
def performConnect (a : Actor) : Except Error Unit × Actor :=
  let a := a.setStatus .connecting
  match env.handshake with
  | .failed text => (.error (.transport text), a.setStatus .disconnected)
  | .timedOut => (.error (.connectTimeout ctx.options.connectTimeout), a.setStatus .disconnected)
  | .opened => (.ok (), a.openSocket.setStatus .connected)

/-- One entry of the loop in `reissue_subscriptions`; the outcome of the write is dropped. -/
def reissueOne (socket : Nat) (a : Actor) (entry : SubscriptionId × SubscriptionEntry) : Actor :=
  if entry.2.skipReissue then a
  else (a.send env socket (.req entry.1 entry.2.filters)).2

/-- `reissue_subscriptions`. -/
def reissueSubscriptions (a : Actor) : Actor :=
  match a.state.sink with
  | none => a
  | some socket =>
      (a.state.subscriptions.iter env.subscriptionOrder).foldl (reissueOne env socket) a

/-- `handle_connect`. -/
def handleConnect (a : Actor) : Actor :=
  if a.status = .connected then a.answer (.ok ())
  else match a.performConnect ctx env with
    | (.ok (), a) => (a.reissueSubscriptions env).answer (.ok ())
    | (.error err, a) => a.answer (.error err)

/-- `handle_disconnect`, also under the name `transition_to_disconnected`. -/
def handleDisconnect (a : Actor) : Actor := a.dropSocket.setStatus .disconnected

/-- A panic on the way: what follows it in the wakeup does not happen. -/
def panic (a : Actor) : Actor := { a with panicked := true }

/-- `schedule_reconnect`; the outer `none` is the panic of `Instant::now() + delay`. -/
def scheduleReconnect (a : Actor) : Option (Option Instant) :=
  match ctx.options.reconnectPolicy.nextDelay a.state.reconnectAttempts env.random with
  | none => some none
  | some delay => (env.now.checkedAdd delay).map some

/-- `reconnect_deadline = schedule_reconnect(..)`. -/
def rearm (a : Actor) : Actor :=
  match a.scheduleReconnect ctx env with
  | none => a.panic
  | some deadline => { a with reconnectDeadline := deadline }

/-- `u32::saturating_add(1)`. -/
def saturatingSucc (n : UInt32) : UInt32 := if n = 0xFFFFFFFF then n else n + 1

/-- `run_reconnect`. -/
def runReconnect (a : Actor) : Actor :=
  let a := { a with
    state := { a.state with reconnectAttempts := saturatingSucc a.state.reconnectAttempts } }
  match a.performConnect ctx env with
  | (.error _, a) => a
  | (.ok (), a) => a.reissueSubscriptions env

/-! ## Subscriptions (`inner/run.rs`) -/

/-- `handle_subscribe`. -/
def handleSubscribe (id : SubscriptionId) (filters : List Filter) (options : SubscribeOptions)
    (a : Actor) : Actor :=
  if a.state.subscriptions.contains id then a.answer (.error (.duplicateSubscription id))
  else if ctx.options.limits.maxSubscriptions ≤ a.state.subscriptions.size then
    a.answer (.error (.tooManySubscriptions ctx.options.limits.maxSubscriptions))
  else
    let (result, a) := (a.register id ⟨filters, options, a.turn, false⟩).sendIfLive env (.req id filters)
    a.answer result

/-- `handle_subscribe_neg`. -/
def handleSubscribeNeg (id : SubscriptionId) (filter : Filter) (initialMessageHex : String)
    (a : Actor) : Actor :=
  if a.state.subscriptions.contains id then a.answer (.error (.duplicateSubscription id))
  else if ctx.options.limits.maxSubscriptions ≤ a.state.subscriptions.size then
    a.answer (.error (.tooManySubscriptions ctx.options.limits.maxSubscriptions))
  else
    let a := a.register id ⟨[filter], .new, a.turn, true⟩
    match a.sendConnected env (.negOpen id filter initialMessageHex) with
    | (.error err, a) => (a.unregister id).answer (.error err)
    | (.ok (), a) => a.answer (.ok ())

/-- `handle_drop_subscription`. -/
def handleDropSubscription (id : SubscriptionId) (a : Actor) : Actor :=
  if a.state.subscriptions.contains id then ((a.unregister id).sendIfLive env (.close id)).2 else a

/-! ## Publishes and raw frames (`inner/run.rs`) -/

/-- `handle_publish`. -/
def handlePublish (event : Event) (options : PublishOptions) (a : Actor) : Actor :=
  if !a.state.isConnected then a.answer (.error .notConnected)
  else if ctx.options.limits.maxPendingPublishes ≤ a.state.pendingPublishes.size then
    a.answer (.error (.tooManyPendingPublishes ctx.options.limits.maxPendingPublishes))
  else
    let timeout := options.timeout.getD ctx.options.publishTimeout
    match a.sendIfLive env (.event event) with
    | (.error err, a) => a.answer (.error err)
    | (.ok (), a) =>
        -- the deadline is worked out once the frame is written
        match env.now.checkedAdd timeout with
        | none => a.panic
        | some deadline => { a with state := { a.state with
            pendingPublishes := a.state.pendingPublishes.insert event.id ⟨a.turn, deadline, timeout⟩ } }

/-- `handle_authenticate`. -/
def handleAuthenticate (event : Event) (a : Actor) : Actor :=
  let (result, a) := a.sendConnected env (.auth event)
  a.answer result

/-- `handle_send_msg`. -/
def handleSendMsg (message : ClientMessage) (a : Actor) : Actor :=
  let (result, a) := a.sendConnected env message
  a.answer result

/-- Take a pending publish out of the map and signal its slot. -/
def settle (id : EventId) (result : PendingPublish → Except Error Unit) (a : Actor) : Actor :=
  match a.state.pendingPublishes[id]? with
  | none => a
  | some pending =>
      ({ a with state := { a.state with
        pendingPublishes := a.state.pendingPublishes.erase id } }).emit
          (.reply pending.reply (result pending))

/-- One timed-out id of `expire_pending_publishes`. -/
def expireOne (a : Actor) (id : EventId) : Actor :=
  a.settle id (fun pending => .error (.publishTimeout id pending.timeout))

/-- `expire_pending_publishes`. -/
def expirePendingPublishes (a : Actor) : Actor :=
  let timedOut := (a.state.pendingPublishes.iter env.publishOrder).filter
    (fun entry => entry.2.deadline ≤ env.sweptAt)
  (timedOut.map Prod.fst).foldl expireOne a

/-- `handle_command`. -/
def handleCommand (cmd : Command) (a : Actor) : Actor :=
  match cmd with
  | .connect => { a.handleConnect ctx env with reconnectDeadline := none }
  | .disconnect => ({ a.handleDisconnect with reconnectDeadline := none }).answer (.ok ())
  | .subscribe id filters options => a.handleSubscribe ctx env id filters options
  | .subscribeNeg id filter hex => a.handleSubscribeNeg ctx env id filter hex
  | .publish event options => a.handlePublish ctx env event options
  | .authenticate event => a.handleAuthenticate env event
  | .sendMsg message => a.handleSendMsg env message
  | .shutdown => a

/-! ## Inbound frames (`inner/dispatch.rs`) -/

/-- Forward an item to the handle of a tracked subscription. -/
def forward (id : SubscriptionId) (item : SubscriptionItem) (a : Actor) : Actor :=
  match a.state.subscriptions[id]? with
  | none => a
  | some entry => a.emit (.item entry.sink item)

/-- `dispatch_relay_message`. -/
def dispatchRelayMessage (message : RelayMessage) (a : Actor) : Actor :=
  match message with
  | .event id event => a.forward id (.event event)
  -- an id that nobody holds is passed over
  | .endOfStoredEvents id =>
      match a.state.subscriptions[id]? with
      | none => a
      | some entry =>
          let a := a.emit (.item entry.sink .endOfStoredEvents)
          if entry.options.closeOnEose then a.unregister id else a
  | .closed id message => (a.forward id (.closed message)).unregister id
  | .ok eventId accepted message =>
      a.settle eventId (fun _ => if accepted then .ok () else .error (.publishRejected eventId message))
  | .notice message => a.emit (.notified (.notice message))
  | .auth challenge => a.emit (.notified (.authChallenge challenge))
  -- nobody waits for a count here
  | .count _ _ => a
  | .negMsg id message => a.forward id (.negMsg message)
  | .negErr id message => (a.forward id (.negErr message)).unregister id

/-- `handle_text_frame`: an oversized or malformed frame is dropped. -/
def handleTextFrame (socket : Nat) (text : String) (a : Actor) : Actor :=
  if ctx.options.limits.maxMessageBytes < text.utf8ByteSize then a
  else match ctx.parse text with
    | none => a
    | some message => (a.emit (.received socket message)).dispatchRelayMessage message

/-- What the frame handler tells the loop. -/
inductive FrameOutcome where
  | continue
  | disconnected
  deriving DecidableEq

/-- `handle_frame`, and the end of the stream. -/
def handleFrame (socket : Nat) (frame : Option (Except Error Message)) (a : Actor) :
    FrameOutcome × Actor :=
  match frame with
  | none => (.disconnected, a)
  | some (.error _) => (.disconnected, a)
  | some (.ok (.text text)) => (.continue, a.handleTextFrame ctx socket text)
  | some (.ok (.binary _)) => (.continue, a)
  | some (.ok (.ping _)) => (.continue, a)
  | some (.ok (.pong _)) => (.continue, a)
  | some (.ok .close) => (.disconnected, a)

/-! ## The loop (`actor_run`) -/

/-- The arm of an inbound frame. -/
def handleInbound (frame : Option (Except Error Message)) (a : Actor) : Actor :=
  match a.state.stream with
  | none => a
  | some socket =>
      match a.handleFrame ctx socket frame with
      | (.continue, a) => a
      | (.disconnected, a) => a.handleDisconnect.rearm ctx env

/-- The arm of the reconnect timer. -/
def handleReconnect (a : Actor) : Actor :=
  let a := ({ a with reconnectDeadline := none }).runReconnect ctx env
  if !a.state.isConnected && a.status ≠ .terminated then a.rearm ctx env else a

/-- After the loop. -/
def terminate (a : Actor) : Actor :=
  ((a.setStatus .terminated).dropSocket).emit (.notified .shutdown)

/-- The future of an arm is ready. A timer is ready no sooner than its deadline. -/
def ready (a : Actor) : Wakeup → Bool
  | .command _ | .commandsClosed | .closeSignal _ => true
  | .inbound _ => a.state.stream.isSome
  | .reconnectTimer => a.reconnectDeadline.any (· ≤ env.now)
  | .publishTimer => a.state.earliestPublishDeadline.any (· ≤ env.now)

/-- The body of an arm that does not leave the loop. -/
def handle (a : Actor) : Wakeup → Actor
  | .command cmd => a.handleCommand ctx env cmd
  | .commandsClosed => a
  | .closeSignal id => a.handleDropSubscription env id
  | .inbound frame => a.handleInbound ctx env frame
  | .reconnectTimer => a.handleReconnect ctx env
  | .publishTimer => a

/-- A panicked task drops its sockets, the maps with the item channels and the reply slots, and its timer. -/
def unwind (a : Actor) : Actor :=
  { a with
    state := { a.state.dropSocket with subscriptions := ∅, pendingPublishes := ∅ }
    reconnectDeadline := none }

/-- One wakeup: `break` on shutdown, else the arm and, unless the arm panics, the expiry sweep. -/
def wake (a : Actor) : Wakeup → Actor
  | .command .shutdown | .commandsClosed => a.terminate
  | wakeup =>
      let a := a.handle ctx env wakeup
      if a.panicked then a.unwind else a.expirePendingPublishes env

/-- One entry of the schedule; nothing happens once the task is gone or when the arm is not ready. -/
def step (a : Actor) (event : Wakeup × Env) : Actor :=
  let served := if a.status = .terminated ∨ a.panicked = true ∨ a.ready event.2 event.1 = false then a
    else a.wake ctx event.2 event.1
  { served with turn := a.turn + 1 }

/-- The actor after a schedule. -/
def run (schedule : List (Wakeup × Env)) : Actor := schedule.foldl (step ctx) .new

end Actor

end Nula.Relay

namespace Nula.Sample

open Relay

/-- Nothing is refused, every handshake succeeds, no time passes. -/
def calm : Env := ⟨.opened, fun _ => none, 0, 0, 0, fun _ => 0, fun _ => 0⟩

/-- The default options; the texts of an `EOSE` and a `CLOSED` for the sample subscription are understood. -/
def actorCtx : StaticCtx where
  options := .default
  parse text :=
    if text = "[\"EOSE\",\"a\"]" then some (.endOfStoredEvents subscription)
    else if text = "[\"CLOSED\",\"a\",\"\"]" then some (.closed subscription "")
    else none

end Nula.Sample
