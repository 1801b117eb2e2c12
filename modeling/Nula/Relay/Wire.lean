import Nula.Relay.Overflow
import Nula.Lib.Always

/-!
# `Relay.Wire` — the subscription side of the actor

What a wakeup does to the socket, the subscription map and the frames that passed, apart from publishes,
replies and notifications. `Actor.wire` projects this side out; `Actor.wireAfter` says what one wakeup makes
of it, and `wire_step` that it is what the actor does. The properties of subscriptions are read off
`wireAfter`, never off the handlers.
-/

namespace Nula.Relay

open Std

/-- A frame written or read. -/
def Obs.isFrame : Obs → Bool
  | .sent _ _ | .received _ _ => true
  | _ => false

/-- The subscription side: the halves of the socket, the map, and the frames with their turns. -/
structure Wire where
  sink : Option Nat
  stream : Option Nat
  subscriptions : HashMap SubscriptionId SubscriptionEntry
  frames : List (Nat × Obs)

namespace Wire

variable (env : Env) (turn : Nat)

def push (o : Obs) (w : Wire) : Wire := { w with frames := w.frames ++ [(turn, o)] }

/-- Register a subscription. -/
def insert (id : SubscriptionId) (entry : SubscriptionEntry) (w : Wire) : Wire :=
  { w with subscriptions := w.subscriptions.insert id entry }

/-- Unregister it. -/
def erase (id : SubscriptionId) (w : Wire) : Wire :=
  { w with subscriptions := w.subscriptions.erase id }

/-- Both halves gone, and the subscriptions kept. -/
def dropped (w : Wire) : Wire := { w with sink := none, stream := none }

/-- What a panic leaves: the frames that passed. -/
def unwound (w : Wire) : Wire := { w.dropped with subscriptions := ∅ }

/-- A write on a live socket that the transport may refuse. -/
def send (socket : Nat) (message : ClientMessage) (w : Wire) : Wire :=
  if env.refuses message = none then w.push turn (.sent socket message) else w

/-- The same where the socket may be missing. -/
def sendIfLive (message : ClientMessage) (w : Wire) : Wire :=
  match w.sink with
  | none => w
  | some socket => w.send env turn socket message

/-- What reissuing an entry writes. -/
def reissued (socket : Nat) (entry : SubscriptionId × SubscriptionEntry) : Option (Nat × Obs) :=
  let message := ClientMessage.req entry.1 entry.2.filters
  if entry.2.skipReissue then none
  else if env.refuses message = none then some (turn, .sent socket message) else none

/-- A fresh socket, with the subscriptions reissued on it. -/
def connected (w : Wire) : Wire :=
  { w with
    sink := some turn
    stream := some turn
    frames := w.frames ++
      (w.subscriptions.iter env.subscriptionOrder).filterMap (reissued env turn turn) }

theorem sendIfLive_none {w : Wire} (h : w.sink = none) (message : ClientMessage) :
    w.sendIfLive env turn message = w := by
  rw [sendIfLive, h]

theorem sendIfLive_some {w : Wire} {socket : Nat} (h : w.sink = some socket) (message : ClientMessage) :
    w.sendIfLive env turn message = w.send env turn socket message := by
  rw [sendIfLive, h]

end Wire

namespace Actor

variable (ctx : StaticCtx) (env : Env)

/-- The subscription side of the actor. -/
def wire (a : Actor) : Wire :=
  ⟨a.state.sink, a.state.stream, a.state.subscriptions, a.log.filter (fun o => o.2.isFrame)⟩

/-- The frame a wakeup reads, with its socket. -/
def reads (a : Actor) : Wakeup → Option (Nat × RelayMessage)
  | .inbound (some (.ok (.text text))) =>
      match a.state.stream with
      | none => none
      | some socket =>
          if ctx.options.limits.maxMessageBytes < text.utf8ByteSize then none
          else (ctx.parse text).map (fun message => (socket, message))
  | _ => none

/-- The subscription a frame takes out of the map. -/
def ends (a : Actor) : RelayMessage → Option SubscriptionId
  | .endOfStoredEvents id =>
      if (a.state.subscriptions[id]?).any (fun entry => entry.options.closeOnEose) then some id else none
  | .closed id _ => some id
  | .negErr id _ => some id
  | _ => none

/-- A subscription under this id would be refused before it reaches the map. -/
def blocked (a : Actor) (id : SubscriptionId) : Bool :=
  a.state.subscriptions.contains id ||
    decide (ctx.options.limits.maxSubscriptions ≤ a.state.subscriptions.size)

/-- The subscription side after a handshake. -/
def wireConnect (a : Actor) : Wire :=
  match env.handshake with
  | .opened => a.wire.connected env a.turn
  | _ => a.wire

/-- The subscription side after a wakeup. -/
def wireAfter (a : Actor) : Wakeup → Wire
  | .command .connect => if a.status = .connected then a.wire else a.wireConnect env
  | .command .disconnect | .command .shutdown | .commandsClosed => a.wire.dropped
  | .command (.subscribe id filters options) =>
      if a.blocked ctx id then a.wire
      else (a.wire.insert id ⟨filters, options, a.turn, false⟩).sendIfLive env a.turn (.req id filters)
  | .command (.subscribeNeg id filter hex) =>
      if a.blocked ctx id then a.wire
      -- without a socket the session is refused, and not kept for later
      else match a.state.sink with
        | none => a.wire
        | some socket =>
            if env.refuses (.negOpen id filter hex) = none then
              (a.wire.insert id ⟨[filter], .new, a.turn, true⟩).push a.turn
                (.sent socket (.negOpen id filter hex))
            else a.wire
  | .command (.publish event _) =>
      if !a.state.isConnected ∨ ctx.options.limits.maxPendingPublishes ≤ a.state.pendingPublishes.size
      then a.wire
      else a.wire.sendIfLive env a.turn (.event event)
  | .command (.authenticate event) => a.wire.sendIfLive env a.turn (.auth event)
  | .command (.sendMsg message) => a.wire.sendIfLive env a.turn message
  | .closeSignal id =>
      if a.state.subscriptions.contains id then (a.wire.erase id).sendIfLive env a.turn (.close id)
      else a.wire
  | .inbound frame =>
      match a.reads ctx (.inbound frame) with
      | some (socket, message) =>
          let w := a.wire.push a.turn (.received socket message)
          match a.ends message with
          | some id => w.erase id
          | none => w
      | none => if hangsUp (.inbound frame) then a.wire.dropped else a.wire
  | .reconnectTimer => a.wireConnect env
  | .publishTimer => a.wire

/-! ## The building blocks -/

theorem subscriptions_of_wire {a : Actor} {w : Wire} (h : a.wire = w) :
    a.state.subscriptions = w.subscriptions := congrArg Wire.subscriptions h

@[simp] theorem wire_emit (a : Actor) (o : Obs) :
    (a.emit o).wire = if o.isFrame then a.wire.push a.turn o else a.wire := by
  simp only [emit, wire, List.filter_append, Wire.push]
  split <;> rename_i h <;> simp [h]

@[simp] theorem wire_answer (a : Actor) (result : Except Error Unit) : (a.answer result).wire = a.wire := by
  rw [answer, wire_emit]
  rfl

@[simp] theorem wire_setStatus (a : Actor) (new : RelayStatus) : (a.setStatus new).wire = a.wire := by
  rw [setStatus]
  split
  · rfl
  · rw [wire_emit]
    rfl

@[simp] theorem wire_register (a : Actor) (id : SubscriptionId) (entry : SubscriptionEntry) :
    (a.register id entry).wire = a.wire.insert id entry := rfl

@[simp] theorem sink_register (a : Actor) (id : SubscriptionId) (entry : SubscriptionEntry) :
    (a.register id entry).state.sink = a.state.sink := rfl

@[simp] theorem wire_unregister (a : Actor) (id : SubscriptionId) :
    (a.unregister id).wire = a.wire.erase id := rfl

@[simp] theorem wire_dropSocket (a : Actor) : a.dropSocket.wire = a.wire.dropped := rfl

@[simp] theorem turn_emit (a : Actor) (o : Obs) : (a.emit o).turn = a.turn := rfl

@[simp] theorem turn_setStatus (a : Actor) (new : RelayStatus) : (a.setStatus new).turn = a.turn := by
  rw [setStatus]
  split <;> rfl

@[simp] theorem turn_register (a : Actor) (id : SubscriptionId) (entry : SubscriptionEntry) :
    (a.register id entry).turn = a.turn := rfl

@[simp] theorem turn_unregister (a : Actor) (id : SubscriptionId) : (a.unregister id).turn = a.turn := rfl

@[simp] theorem wire_send (a : Actor) (socket : Nat) (message : ClientMessage) :
    (a.send env socket message).2.wire = a.wire.send env a.turn socket message := by
  rw [send, Wire.send]
  cases env.refuses message with
  | none => rw [wire_emit]; rfl
  | some err => rfl

@[simp] theorem turn_send (a : Actor) (socket : Nat) (message : ClientMessage) :
    (a.send env socket message).2.turn = a.turn := by
  rw [send]
  split <;> rfl

@[simp] theorem wire_sendIfLive (a : Actor) (message : ClientMessage) :
    (a.sendIfLive env message).2.wire = a.wire.sendIfLive env a.turn message := by
  rw [sendIfLive, Wire.sendIfLive]
  show _ = match a.state.sink with
    | none => a.wire
    | some socket => a.wire.send env a.turn socket message
  cases a.state.sink with
  | none => rfl
  | some socket => exact wire_send env a socket message

/-- Only the answer tells `send_msg` and `send_auth` from the writes that skip a missing sink. -/
@[simp] theorem wire_sendConnected (a : Actor) (message : ClientMessage) :
    (a.sendConnected env message).2.wire = a.wire.sendIfLive env a.turn message := by
  rw [sendConnected, Wire.sendIfLive]
  show _ = match a.state.sink with
    | none => a.wire
    | some socket => a.wire.send env a.turn socket message
  cases a.state.sink with
  | none => rfl
  | some socket => exact wire_send env a socket message

@[simp] theorem wire_settle (a : Actor) (id : EventId) (result : PendingPublish → Except Error Unit) :
    (a.settle id result).wire = a.wire := by
  rw [settle]
  split
  · rfl
  · rw [wire_emit]
    rfl

@[simp] theorem wire_forward (a : Actor) (id : SubscriptionId) (item : SubscriptionItem) :
    (a.forward id item).wire = a.wire := by
  rw [forward]
  split
  · rfl
  · rw [wire_emit]
    rfl

/-- The sweep touches publishes only. -/
@[simp] theorem wire_expirePendingPublishes (a : Actor) : (a.expirePendingPublishes env).wire = a.wire := by
  have hfold : ∀ (ids : List EventId) (b : Actor), (ids.foldl expireOne b).wire = b.wire := by
    intro ids
    induction ids with
    | nil => exact fun b => rfl
    | cons id ids ih =>
        intro b
        rw [List.foldl_cons, ih, expireOne, wire_settle]
  exact hfold _ a

/-! ## The handlers -/

theorem wire_reissueOne (socket : Nat) (a : Actor) (entry : SubscriptionId × SubscriptionEntry) :
    (reissueOne env socket a entry).turn = a.turn ∧
    (reissueOne env socket a entry).wire =
      { a.wire with frames := a.wire.frames ++ (Wire.reissued env a.turn socket entry).toList } := by
  rw [reissueOne, Wire.reissued]
  by_cases hskip : entry.2.skipReissue = true
  · simp [hskip]
  · by_cases hrefuse : env.refuses (.req entry.1 entry.2.filters) = none
    · simp [hskip, hrefuse, Wire.send, Wire.push]
    · simp [hskip, hrefuse, Wire.send]

/-- **Reissuing** sends a frame for each subscription of the map, on the new socket. -/
theorem wire_reissueSubscriptions {a : Actor} {socket : Nat} (h : a.state.sink = some socket) :
    (a.reissueSubscriptions env).wire = { a.wire with
      frames := a.wire.frames ++ (a.state.subscriptions.iter env.subscriptionOrder).filterMap
        (Wire.reissued env a.turn socket) } := by
  have hfold : ∀ (entries : List (SubscriptionId × SubscriptionEntry)) (b : Actor),
      (entries.foldl (reissueOne env socket) b).wire = { b.wire with
        frames := b.wire.frames ++ entries.filterMap (Wire.reissued env b.turn socket) } := by
    intro entries
    induction entries with
    | nil => simp
    | cons entry entries ih =>
        intro b
        obtain ⟨hturn, hwire⟩ := wire_reissueOne env socket b entry
        rw [List.foldl_cons, ih, hturn, hwire, List.filterMap_cons]
        cases Wire.reissued env b.turn socket entry <;> simp
  rw [reissueSubscriptions, h]
  exact hfold _ a

/-- Both callers of `perform_connect` reissue when it succeeds. -/
theorem wire_performConnect (a : Actor) :
    match a.performConnect ctx env with
    | (.ok (), b) => (b.reissueSubscriptions env).wire = a.wireConnect env
    | (.error _, b) => b.wire = a.wireConnect env := by
  rw [performConnect, wireConnect]
  cases env.handshake with
  | failed text => simp
  | timedOut => simp
  | opened =>
      let c := ((a.setStatus .connecting).openSocket).setStatus .connected
      have hwire : c.wire = { a.wire with sink := some a.turn, stream := some a.turn } := by
        show (((a.setStatus .connecting).openSocket).setStatus .connected).wire = _
        rw [wire_setStatus]
        show { (a.setStatus .connecting).wire with
          sink := some (a.setStatus .connecting).turn
          stream := some (a.setStatus .connecting).turn } = _
        rw [wire_setStatus, turn_setStatus]
      have hturn : c.turn = a.turn := by
        show (((a.setStatus .connecting).openSocket).setStatus .connected).turn = _
        rw [turn_setStatus]
        exact turn_setStatus a .connecting
      have hsink : c.state.sink = some a.turn := congrArg Wire.sink hwire
      have hsubs : c.state.subscriptions = a.state.subscriptions := congrArg Wire.subscriptions hwire
      show (c.reissueSubscriptions env).wire = a.wire.connected env a.turn
      rw [wire_reissueSubscriptions env hsink, hwire, hsubs, hturn]
      rfl

/-- A connected actor leaves its wire; another has a new connection. -/
theorem wire_handleConnect (a : Actor) : (a.handleConnect ctx env).wire =
    if a.status = .connected then a.wire else a.wireConnect env := by
  have h := wire_performConnect ctx env a
  rw [handleConnect]
  split
  · rw [wire_answer]
  · cases hp : a.performConnect ctx env with
    | mk result b =>
        rw [hp] at h
        cases result <;> simpa using h

@[simp] theorem wire_rearm (a : Actor) : (a.rearm ctx env).wire = a.wire := by
  rw [rearm]
  split <;> rfl

theorem wire_handleReconnect (a : Actor) : (a.handleReconnect ctx env).wire = a.wireConnect env := by
  have hrun : (({ a with reconnectDeadline := none }).runReconnect ctx env).wire = a.wireConnect env := by
    rw [runReconnect]
    generalize hb : ({ ({ a with reconnectDeadline := none } : Actor) with state := _ } : Actor) = b
    have hsame : b.wireConnect env = a.wireConnect env := by
      subst hb
      rfl
    have h := wire_performConnect ctx env b
    cases hp : b.performConnect ctx env with
    | mk result c =>
        rw [hp] at h
        cases result with
        | error err => exact h.trans hsame
        | ok u => exact h.trans hsame
  rw [handleReconnect]
  split
  · exact (wire_rearm ctx env _).trans hrun
  · exact hrun

/-- What a `Subscribe` command leaves on the wire. -/
theorem wire_handleSubscribe (a : Actor) (id : SubscriptionId) (filters : List Filter)
    (options : SubscribeOptions) : (a.handleSubscribe ctx env id filters options).wire =
      a.wireAfter ctx env (.command (.subscribe id filters options)) := by
  simp only [handleSubscribe, wireAfter, blocked, Bool.or_eq_true, decide_eq_true_eq]
  by_cases hdup : a.state.subscriptions.contains id = true
  · simp [hdup]
  · by_cases hfull : ctx.options.limits.maxSubscriptions ≤ a.state.subscriptions.size
    · simp [hdup, hfull]
    · simp [hdup, hfull]

/-- A refused session leaves the map as it was: the id was not in it. -/
theorem wire_handleSubscribeNeg (a : Actor) (id : SubscriptionId) (filter : Filter) (hex : String) :
    (a.handleSubscribeNeg ctx env id filter hex).wire =
      a.wireAfter ctx env (.command (.subscribeNeg id filter hex)) := by
  simp only [handleSubscribeNeg, wireAfter, blocked, Bool.or_eq_true, decide_eq_true_eq]
  by_cases hdup : a.state.subscriptions.contains id = true
  · simp [hdup]
  · by_cases hfull : ctx.options.limits.maxSubscriptions ≤ a.state.subscriptions.size
    · simp [hdup, hfull]
    · have hundo : ∀ entry, (a.wire.insert id entry).erase id = a.wire := by
        intro entry
        have hmap : (a.state.subscriptions.insert id entry).erase id = a.state.subscriptions := by
          apply ExtTreeMap.ext_getElem?
          intro k
          grind
        show { a.wire with subscriptions := (a.state.subscriptions.insert id entry).erase id } = _
        rw [hmap]
        rfl
      cases hsink : a.state.sink with
      | none => simp [hdup, hfull, sendConnected, hsink, hundo]
      | some socket =>
          cases hrefuse : env.refuses (.negOpen id filter hex) with
          | none => simp [hdup, hfull, sendConnected, hsink, send, hrefuse, Obs.isFrame]
          | some err => simp [hdup, hfull, sendConnected, hsink, send, hrefuse, hundo]

theorem wire_handlePublish (a : Actor) (event : Event) (options : PublishOptions) :
    (a.handlePublish ctx env event options).wire =
      a.wireAfter ctx env (.command (.publish event options)) := by
  simp only [handlePublish, wireAfter]
  by_cases hup : (!a.state.isConnected) = true
  · simp [hup]
  · by_cases hfull : ctx.options.limits.maxPendingPublishes ≤ a.state.pendingPublishes.size
    · simp [hup, hfull]
    · rw [if_neg hup, if_neg hfull, if_neg (by simp [hup, hfull])]
      have h := wire_sendIfLive env a (.event event)
      cases hs : a.sendIfLive env (.event event) with
      | mk result b =>
          rw [hs] at h
          cases result with
          | error err => exact (wire_answer b _).trans h
          | ok u =>
              -- the deadline, and a panic on it, touch neither the socket nor the subscriptions
              dsimp only
              split
              · exact h
              · exact h

theorem wire_handleDropSubscription (a : Actor) (id : SubscriptionId) :
    (a.handleDropSubscription env id).wire = a.wireAfter ctx env (.closeSignal id) := by
  simp only [handleDropSubscription, wireAfter]
  split
  · rw [wire_sendIfLive, wire_unregister, turn_unregister]
  · rfl

/-- A frame takes at most one subscription out of the map. -/
theorem wire_dispatchRelayMessage (a : Actor) (message : RelayMessage) :
    (a.dispatchRelayMessage message).wire =
      match a.ends message with
      | some id => a.wire.erase id
      | none => a.wire := by
  cases message with
  | endOfStoredEvents id =>
      simp only [dispatchRelayMessage, ends]
      cases hentry : a.state.subscriptions[id]? with
      | none => rfl
      | some entry =>
          by_cases hclose : entry.options.closeOnEose = true
          · simp [hclose, Obs.isFrame]
          · simp [hclose, Obs.isFrame]
  | event id event => exact wire_forward a id _
  | closed id text => simp [dispatchRelayMessage, ends]
  | ok id accepted text => exact wire_settle a id _
  | notice text => simp [dispatchRelayMessage, ends, Obs.isFrame]
  | auth challenge => simp [dispatchRelayMessage, ends, Obs.isFrame]
  | count id n => rfl
  | negMsg id text => exact wire_forward a id _
  | negErr id text => simp [dispatchRelayMessage, ends]

theorem wire_handleInbound (a : Actor) (frame : Option (Except Error Message))
    (hready : a.state.stream.isSome = true) :
    (a.handleInbound ctx env frame).wire = a.wireAfter ctx env (.inbound frame) := by
  obtain ⟨socket, hsocket⟩ := Option.isSome_iff_exists.mp hready
  have hup : (a.handleDisconnect.rearm ctx env).wire = a.wire.dropped := by
    rw [wire_rearm, handleDisconnect, wire_setStatus, wire_dropSocket]
  simp only [handleInbound, hsocket, wireAfter]
  cases frame with
  | none => exact hup
  | some frame =>
      cases frame with
      | error err => exact hup
      | ok message =>
          cases message with
          | binary payload => rfl
          | ping payload => rfl
          | pong payload => rfl
          | close => exact hup
          | text text =>
              simp only [handleFrame, handleTextFrame, reads, hsocket, hangsUp]
              by_cases hlong : ctx.options.limits.maxMessageBytes < text.utf8ByteSize
              · simp [hlong]
              · cases hparse : ctx.parse text with
                | none => simp [hlong]
                | some message =>
                    simp only [hlong, if_false, Option.map_some]
                    rw [wire_dispatchRelayMessage, wire_emit]
                    rfl

/-- The subscription side of one arm. -/
theorem wire_handle (a : Actor) (w : Wakeup) (hready : a.ready env w = true) (hstays : leavesLoop w = false) :
    (a.handle ctx env w).wire = a.wireAfter ctx env w := by
  cases w with
  | commandsClosed => cases hstays
  | publishTimer => rfl
  | closeSignal id => exact wire_handleDropSubscription ctx env a id
  | inbound frame => exact wire_handleInbound ctx env a frame hready
  | reconnectTimer => exact wire_handleReconnect ctx env a
  | command cmd =>
      cases cmd with
      | shutdown => cases hstays
      | connect => exact wire_handleConnect ctx env a
      | disconnect =>
          show (({ a.handleDisconnect with reconnectDeadline := none } : Actor).answer (.ok ())).wire = _
          rw [wire_answer]
          show a.handleDisconnect.wire = _
          rw [handleDisconnect, wire_setStatus, wire_dropSocket]
          rfl
      | subscribe id filters options => exact wire_handleSubscribe ctx env a id filters options
      | subscribeNeg id filter hex => exact wire_handleSubscribeNeg ctx env a id filter hex
      | publish event options => exact wire_handlePublish ctx env a event options
      | authenticate event => exact (wire_answer _ _).trans (wire_sendConnected env a (.auth event))
      | sendMsg message => exact (wire_answer _ _).trans (wire_sendConnected env a message)

theorem wire_terminate (a : Actor) : a.terminate.wire = a.wire.dropped := by
  rw [terminate, wire_emit, wire_dropSocket, wire_setStatus]
  rfl

theorem wireAfter_of_leaves (a : Actor) {w : Wakeup} (h : leavesLoop w = true) :
    a.wireAfter ctx env w = a.wire.dropped := by
  unfold leavesLoop at h
  split at h
  · rfl
  · rfl
  · cases h

/-- **The subscription side of one step.** -/
theorem wire_step (a : Actor) (event : Wakeup × Env) (h : a.serves ctx event) :
    (a.step ctx event).wire = a.wireAfter ctx event.2 event.1 := by
  rw [step_of_serves ctx h]
  show (a.wake ctx event.2 event.1).wire = _
  cases hleaves : leavesLoop event.1 with
  | true => rw [wake_of_leaves ctx event.2 hleaves, wire_terminate, wireAfter_of_leaves ctx event.2 a hleaves]
  | false =>
      rw [wake_of_serves ctx h hleaves, wire_expirePendingPublishes, wire_handle ctx event.2 a _ h.isReady hleaves]

/-- A panic takes the socket and the map, after what the arm has written. -/
theorem wire_step_of_overflows (a : Actor) (event : Wakeup × Env) (h : a.attends event)
    (hover : a.Overflows ctx event) :
    (a.step ctx event).wire = (a.wireAfter ctx event.2 event.1).unwound := by
  rw [step_of_overflows ctx h hover]
  show (a.handle ctx event.2 event.1).wire.unwound = _
  rw [wire_handle ctx event.2 a event.1 h.2.2 hover.not_leavesLoop]

theorem sink_step_of_overflows {a : Actor} {event : Wakeup × Env} (h : a.attends event)
    (hover : a.Overflows ctx event) : (a.step ctx event).state.sink = none :=
  congrArg Wire.sink (wire_step_of_overflows ctx a event h hover)

theorem subscriptions_step_of_overflows {a : Actor} {event : Wakeup × Env} (h : a.attends event)
    (hover : a.Overflows ctx event) : (a.step ctx event).state.subscriptions = ∅ :=
  subscriptions_of_wire (wire_step_of_overflows ctx a event h hover)

end Actor

/-! ## Fresh numbers -/

/-- A frame of this socket. -/
def Obs.On (socket : Nat) : Obs → Prop
  | .sent s _ | .received s _ => s = socket
  | _ => False

namespace Wire

/-- Nothing is stamped with turn `n` or a later one, and both halves belong to one socket. -/
structure Below (n : Nat) (w : Wire) : Prop where
  paired : w.stream = w.sink
  socket : ∀ s, w.sink = some s → s < n
  entry : ∀ (id : SubscriptionId) e, w.subscriptions[id]? = some e → e.sink < n
  frame : ∀ x ∈ w.frames, x.1 < n ∧ ∀ s, x.2.On s → s < n

variable {n turn : Nat} {w : Wire} {env : Env}

namespace Below

theorem mono {m : Nat} (h : Below n w) (hnm : n ≤ m) : Below m w where
  paired := h.paired
  socket s hs := (h.socket s hs).trans_le hnm
  entry id e he := (h.entry id e he).trans_le hnm
  frame x hx := ⟨(h.frame x hx).1.trans_le hnm, fun s hs => ((h.frame x hx).2 s hs).trans_le hnm⟩

theorem push {o : Obs} (h : Below n w) (ht : turn < n) (ho : ∀ s, o.On s → s < n) :
    Below n (w.push turn o) where
  paired := h.paired
  socket := h.socket
  entry := h.entry
  frame x hx := by
    rcases List.mem_append.mp hx with hx | hx
    · exact h.frame x hx
    · rw [List.mem_singleton.mp hx]
      exact ⟨ht, ho⟩

theorem insert {id : SubscriptionId} {entry : SubscriptionEntry} (h : Below n w) (he : entry.sink < n) :
    Below n (w.insert id entry) where
  paired := h.paired
  socket := h.socket
  entry := by
    intro k e hk
    have hk' : (w.subscriptions.insert id entry)[k]? = some e := hk
    rw [ExtTreeMap.getElem?_insert] at hk'
    split at hk'
    · cases hk'
      exact he
    · exact h.entry k e hk'
  frame := h.frame

theorem erase {id : SubscriptionId} (h : Below n w) : Below n (w.erase id) where
  paired := h.paired
  socket := h.socket
  entry := by
    intro k e hk
    have hk' : (w.subscriptions.erase id)[k]? = some e := hk
    rw [ExtTreeMap.getElem?_erase] at hk'
    split at hk'
    · cases hk'
    · exact h.entry k e hk'
  frame := h.frame

theorem dropped (h : Below n w) : Below n w.dropped where
  paired := rfl
  socket := by
    intro s hs
    cases hs
  entry := h.entry
  frame := h.frame

theorem unwound (h : Below n w) : Below n w.unwound where
  paired := rfl
  socket := h.dropped.socket
  entry := by
    intro id e he
    have he' : (∅ : HashMap SubscriptionId SubscriptionEntry)[id]? = some e := he
    simp at he'
  frame := h.frame

theorem sendIfLive {message : ClientMessage} (h : Below n w) (ht : turn < n) :
    Below n (w.sendIfLive env turn message) := by
  rw [Wire.sendIfLive]
  cases hsink : w.sink with
  | none => exact h
  | some socket =>
      show Below n (if env.refuses message = none then w.push turn (.sent socket message) else w)
      split
      · apply h.push ht
        rintro s rfl
        exact h.socket _ hsink
      · exact h

theorem connected (h : Below n w) (ht : turn < n) : Below n (w.connected env turn) where
  paired := rfl
  socket := by
    intro s hs
    cases hs
    exact ht
  entry := h.entry
  frame x hx := by
    rcases List.mem_append.mp hx with hx | hx
    · exact h.frame x hx
    · obtain ⟨entry, _, hentry⟩ := List.mem_filterMap.mp hx
      simp only [reissued] at hentry
      split at hentry
      · cases hentry
      · split at hentry
        · cases hentry
          refine ⟨ht, ?_⟩
          rintro s rfl
          exact ht
        · cases hentry

end Below

end Wire

namespace Actor

open Relay.Wire

variable {ctx : StaticCtx} {env : Env} {a : Actor}

theorem stream_of_reads {w : Wakeup} {socket : Nat} {message : RelayMessage}
    (h : a.reads ctx w = some (socket, message)) : a.state.stream = some socket := by
  unfold reads at h
  split at h
  · split at h
    · cases h
    · rename_i s hs
      split at h
      · cases h
      · obtain ⟨m, _, hm⟩ := Option.map_eq_some_iff.mp h
        cases hm
        exact hs
  · cases h

/-- A new connection has the socket of its turn. -/
theorem below_wireConnect (h : Below a.turn a.wire) : Below (a.turn + 1) (a.wireConnect env) := by
  have hlt := Nat.lt_succ_self a.turn
  rw [wireConnect]
  cases env.handshake with
  | opened => exact (h.mono hlt.le).connected hlt
  | failed text => exact h.mono hlt.le
  | timedOut => exact h.mono hlt.le

/-- **No arm makes up a socket** that is not of this turn or before. One case for each wakeup; a socket is opened by a
    handshake only, and gets the number of the turn. -/
theorem below_wireAfter (h : Below a.turn a.wire) (w : Wakeup) :
    Below (a.turn + 1) (a.wireAfter ctx env w) := by
  -- whatever a wakeup numbers gets the number of its turn
  have hlt := Nat.lt_succ_self a.turn
  have hmono := h.mono hlt.le
  cases w with
  | commandsClosed => exact hmono.dropped
  | publishTimer => exact hmono
  | reconnectTimer => exact below_wireConnect h
  | closeSignal id =>
      simp only [wireAfter]
      split
      · exact hmono.erase.sendIfLive hlt
      · exact hmono
  | inbound frame =>
      simp only [wireAfter]
      cases hread : a.reads ctx (.inbound frame) with
      | none =>
          show Below _ (if hangsUp (.inbound frame) then a.wire.dropped else a.wire)
          split
          · exact hmono.dropped
          · exact hmono
      | some read =>
          obtain ⟨socket, message⟩ := read
          have hpush : Below (a.turn + 1) (a.wire.push a.turn (.received socket message)) := by
            apply hmono.push hlt
            rintro s rfl
            apply hmono.socket
            rw [← hmono.paired]
            exact stream_of_reads hread
          cases hends : a.ends message with
          | none => simpa [hends] using hpush
          | some id => simpa [hends] using hpush.erase
  | command cmd =>
      cases cmd with
      | shutdown => exact hmono.dropped
      | disconnect => exact hmono.dropped
      | connect =>
          simp only [wireAfter]
          split
          · exact hmono
          · exact below_wireConnect h
      | subscribe id filters options =>
          simp only [wireAfter]
          split
          · exact hmono
          · exact (hmono.insert hlt).sendIfLive hlt
      | subscribeNeg id filter hex =>
          simp only [wireAfter]
          split
          · exact hmono
          · split
            · exact hmono
            · rename_i socket hsocket
              split
              · apply (hmono.insert hlt).push hlt
                rintro s rfl
                exact hmono.socket _ hsocket
              · exact hmono
      | publish event options =>
          simp only [wireAfter]
          split
          · exact hmono
          · exact hmono.sendIfLive hlt
      | authenticate event => exact hmono.sendIfLive hlt
      | sendMsg message => exact hmono.sendIfLive hlt

theorem below_step (h : Below a.turn a.wire) (event : Wakeup × Env) :
    Below (a.step ctx event).turn (a.step ctx event).wire := by
  by_cases hs : a.serves ctx event
  · rw [wire_step ctx a event hs]
    exact below_wireAfter h event.1
  · rcases step_of_not_serves ctx hs with ⟨hattends, hover, _⟩ | ⟨_, hidle⟩
    · rw [wire_step_of_overflows ctx a event hattends hover]
      exact (below_wireAfter h event.1).unwound
    · rw [hidle]
      exact h.mono (Nat.le_succ _)

theorem below_new : Below new.turn new.wire where
  paired := rfl
  socket := by
    intro s hs
    cases hs
  entry := by
    intro id e he
    have he' : (∅ : HashMap SubscriptionId SubscriptionEntry)[id]? = some e := he
    simp at he'
  frame := by
    intro x hx
    cases hx

/-- **Every reachable actor** numbers its sockets, entries and frames below its turn. -/
theorem below_run (schedule : List (Wakeup × Env)) :
    Below (run ctx schedule).turn (run ctx schedule).wire := by
  refine (Always.invariant (I := fun past => Below (run ctx past).turn (run ctx past).wire) below_new ?_
    schedule).last
  intro past event h
  rw [run_append]
  exact below_step h event

end Actor

/-! ## Frames are appended -/

/-- From `w` to `w'` frames were appended, all under this turn. -/
def Wire.Grows (turn : Nat) (w w' : Wire) : Prop :=
  ∃ new : List (Nat × Obs), w'.frames = w.frames ++ new ∧ ∀ x ∈ new, x.1 = turn

namespace Wire.Grows

variable {turn : Nat} {w w' : Wire} {env : Env}

/-- Where no frame is added, the log has not grown. -/
theorem same (h : w'.frames = w.frames) : Grows turn w w' :=
  ⟨[], by rw [h, List.append_nil], fun _ hx => absurd hx List.not_mem_nil⟩

theorem push {o : Obs} : Grows turn w (w.push turn o) := by
  refine ⟨[(turn, o)], rfl, ?_⟩
  intro x hx
  rw [List.mem_singleton.mp hx]

theorem sendIfLive {message : ClientMessage} : Grows turn w (w.sendIfLive env turn message) := by
  unfold Wire.sendIfLive
  split
  · exact same rfl
  · unfold Wire.send
    split
    · exact push
    · exact same rfl

theorem connected : Grows turn w (w.connected env turn) := by
  refine ⟨_, rfl, ?_⟩
  intro x hx
  obtain ⟨entry, _, hentry⟩ := List.mem_filterMap.mp hx
  unfold reissued at hentry
  dsimp only at hentry
  split at hentry
  · cases hentry
  · split at hentry
    · cases hentry
      rfl
    · cases hentry

end Wire.Grows

namespace Actor

open Relay.Wire

variable {ctx : StaticCtx} {env : Env} {a : Actor}

theorem grows_wireConnect : Grows a.turn a.wire (a.wireConnect env) := by
  unfold wireConnect
  split
  · exact .connected
  · exact .same rfl

/-- **So does every arm**, and what it adds is of this turn. One case for each wakeup. -/
theorem grows_wireAfter (w : Wakeup) : Grows a.turn a.wire (a.wireAfter ctx env w) := by
  cases w with
  | commandsClosed => exact .same rfl
  | publishTimer => exact .same rfl
  | reconnectTimer => exact grows_wireConnect
  | closeSignal id =>
      simp only [wireAfter]
      split
      · exact .sendIfLive
      · exact .same rfl
  | inbound frame =>
      simp only [wireAfter]
      split
      · split
        · exact .push
        · exact .push
      · split
        · exact .same rfl
        · exact .same rfl
  | command cmd =>
      cases cmd with
      | shutdown => exact .same rfl
      | disconnect => exact .same rfl
      | connect =>
          simp only [wireAfter]
          split
          · exact .same rfl
          · exact grows_wireConnect
      | subscribe id filters options =>
          simp only [wireAfter]
          split
          · exact .same rfl
          · exact .sendIfLive
      | subscribeNeg id filter hex =>
          simp only [wireAfter]
          split
          · exact .same rfl
          · split
            · exact .same rfl
            · split
              · exact .push
              · exact .same rfl
      | publish event options =>
          simp only [wireAfter]
          split
          · exact .same rfl
          · exact .sendIfLive
      | authenticate event => exact .sendIfLive
      | sendMsg message => exact .sendIfLive

/-- A step appends frames of its own turn. -/
theorem grows_step (a : Actor) (event : Wakeup × Env) : Grows a.turn a.wire (a.step ctx event).wire := by
  by_cases hs : a.serves ctx event
  · rw [wire_step ctx a event hs]
    exact grows_wireAfter event.1
  · rcases step_of_not_serves ctx hs with ⟨hattends, hover, _⟩ | ⟨_, hidle⟩
    · rw [wire_step_of_overflows ctx a event hattends hover]
      exact grows_wireAfter event.1
    · rw [hidle]
      exact .same rfl

end Actor

end Nula.Relay
