import Nula.Relay.Wire

/-!
# `Relay.Link` — the connection side of the actor

The status, the halves of the socket, the attempt counter and the reconnect deadline, with the status changes
announced so far. They depend on nothing else the actor holds: `Link` is a machine of its own with one
transition for each arm, and `link_step` says that the actor, seen from this side, is this machine. What holds
of every run of the machine (`Link.Sound`) then holds of every run of the actor.
-/

namespace Nula.Relay

/-- The status a notification announces. -/
def Obs.announced : Obs → Option RelayStatus
  | .notified (.status status) => some status
  | _ => none

/-- The connection side; `changes` are the announced statuses with their turns. -/
structure Link where
  status : RelayStatus
  sink : Option Nat
  stream : Option Nat
  attempts : UInt32
  deadline : Option Instant
  changes : List (Nat × RelayStatus)

namespace Link

variable (policy : ReconnectPolicy) (env : Env) (turn : Nat)

/-- Announce a status, if it is another. -/
def announce (new : RelayStatus) (l : Link) : Link :=
  if l.status = new then l else { l with status := new, changes := l.changes ++ [(turn, new)] }

/-- Both halves gone. -/
def dropped (l : Link) : Link := { l with sink := none, stream := none }

/-- Both halves of a new socket. -/
def opened (l : Link) : Link := { l with sink := some turn, stream := some turn, attempts := 0 }

/-- No retry to come. -/
def disarmed (l : Link) : Link := { l with deadline := none }

/-- Arm the reconnect timer, where the policy has a delay; a deadline beyond the range changes nothing. -/
def scheduled (l : Link) : Link :=
  { l with deadline := match policy.nextDelay l.attempts env.random with
      | none => none
      | some delay => (env.now.checkedAdd delay).or l.deadline }

/-- A handshake: a fresh socket, or none. -/
def attempt (l : Link) : Link :=
  match env.handshake with
  | .opened => ((l.announce turn .connecting).opened turn).announce turn .connected
  | _ => (l.announce turn .connecting).announce turn .disconnected

/-- The timer went off: it is taken down, and the retry counted. -/
def retrying (l : Link) : Link :=
  { l with attempts := Actor.saturatingSucc l.attempts, deadline := none }

/-- What a panic leaves. -/
def unwound (l : Link) : Link := l.dropped.disarmed

/-- Both halves are there. -/
def isConnected (l : Link) : Bool := l.sink.isSome && l.stream.isSome

/-- The wakeup can be served: the loop still runs, and the stream or the timer it comes from is there. -/
def ready (l : Link) (w : Wakeup) : Prop :=
  l.status ≠ .terminated ∧ (∀ frame, w = .inbound frame → l.stream.isSome) ∧
    (w = .reconnectTimer → l.deadline.isSome)

/-- The deadline of the retry that the wakeup works out overflows. -/
def Overflows (l : Link) : Wakeup → Prop
  | .inbound frame => Actor.hangsUp (.inbound frame) = true ∧ Actor.RetryOverflows env policy l.attempts
  | .reconnectTimer =>
      env.handshake ≠ .opened ∧ l.isConnected = false ∧
        Actor.RetryOverflows env policy (Actor.saturatingSucc l.attempts)
  | _ => False

/-- The connection side after a wakeup. -/
def after (l : Link) : Wakeup → Link
  | .command .connect => (if l.status = .connected then l else l.attempt env turn).disarmed
  | .command .disconnect => (l.dropped.announce turn .disconnected).disarmed
  | .command .shutdown | .commandsClosed => (l.announce turn .terminated).dropped
  | .inbound frame =>
      if Actor.hangsUp (.inbound frame) then (l.dropped.announce turn .disconnected).scheduled policy env
      else l
  -- the timer is taken before the attempt, and armed again if that fails
  | .reconnectTimer =>
      let l := l.retrying.attempt env turn
      if !l.isConnected && l.status ≠ .terminated then l.scheduled policy env else l
  | _ => l

end Link

namespace Actor

variable (ctx : StaticCtx) (env : Env)

/-- The status changes announced so far, with their turns. -/
def changes (a : Actor) : List (Nat × RelayStatus) :=
  a.log.filterMap (fun x => x.2.announced.map (fun status => (x.1, status)))

/-- The connection side of the actor. -/
def link (a : Actor) : Link :=
  ⟨a.status, a.state.sink, a.state.stream, a.state.reconnectAttempts, a.reconnectDeadline, a.changes⟩

/-! ## The building blocks -/

theorem link_emit (a : Actor) {o : Obs} (h : o.announced = none) : (a.emit o).link = a.link := by
  simp [emit, link, changes, h]

@[simp] theorem link_answer (a : Actor) (result : Except Error Unit) : (a.answer result).link = a.link :=
  link_emit a rfl

@[simp] theorem link_setStatus (a : Actor) (new : RelayStatus) :
    (a.setStatus new).link = a.link.announce a.turn new := by
  rw [setStatus, Link.announce]
  show _ = if a.status = new then a.link else _
  split
  · rfl
  · simp [emit, link, changes, Obs.announced]

@[simp] theorem link_register (a : Actor) (id : SubscriptionId) (entry : SubscriptionEntry) :
    (a.register id entry).link = a.link := rfl

@[simp] theorem link_unregister (a : Actor) (id : SubscriptionId) : (a.unregister id).link = a.link := rfl

@[simp] theorem link_dropSocket (a : Actor) : a.dropSocket.link = a.link.dropped := rfl

@[simp] theorem link_openSocket (a : Actor) : a.openSocket.link = a.link.opened a.turn := rfl

@[simp] theorem link_send (a : Actor) (socket : Nat) (message : ClientMessage) :
    (a.send env socket message).2.link = a.link := by
  rw [send]
  split
  · rfl
  · exact link_emit a rfl

@[simp] theorem link_sendIfLive (a : Actor) (message : ClientMessage) :
    (a.sendIfLive env message).2.link = a.link := by
  rw [sendIfLive]
  split
  · rfl
  · exact link_send env a _ message

@[simp] theorem link_sendConnected (a : Actor) (message : ClientMessage) :
    (a.sendConnected env message).2.link = a.link := by
  rw [sendConnected]
  split
  · rfl
  · exact link_send env a _ message

@[simp] theorem link_forward (a : Actor) (id : SubscriptionId) (item : SubscriptionItem) :
    (a.forward id item).link = a.link := by
  rw [forward]
  split
  · rfl
  · exact link_emit a rfl

@[simp] theorem link_settle (a : Actor) (id : EventId) (result : PendingPublish → Except Error Unit) :
    (a.settle id result).link = a.link := by
  rw [settle]
  split
  · rfl
  · exact link_emit _ rfl

/-- A fold whose steps leave the connection side alone leaves it alone. -/
theorem link_foldl {α : Type} {f : Actor → α → Actor} (h : ∀ b x, (f b x).link = b.link) (xs : List α)
    (b : Actor) : (xs.foldl f b).link = b.link := by
  induction xs generalizing b with
  | nil => rfl
  | cons x xs ih => rw [List.foldl_cons, ih, h]

@[simp] theorem link_expirePendingPublishes (a : Actor) : (a.expirePendingPublishes env).link = a.link :=
  link_foldl (fun b _ => link_settle b _ _) _ a

@[simp] theorem link_reissueSubscriptions (a : Actor) : (a.reissueSubscriptions env).link = a.link := by
  rw [reissueSubscriptions]
  split
  · rfl
  · refine link_foldl (fun b entry => ?_) _ a
    rw [reissueOne]
    split
    · rfl
    · exact link_send env b _ _

/-! ## The handlers -/

/-- **An attempt** is the same for a command and for a retry. -/
theorem link_performConnect (a : Actor) :
    (a.performConnect ctx env).2.link = a.link.attempt env a.turn := by
  rw [performConnect, Link.attempt]
  cases env.handshake with
  | failed text => simp
  | timedOut => simp
  | opened =>
      show (((a.setStatus .connecting).openSocket).setStatus .connected).link = _
      rw [link_setStatus, link_openSocket, link_setStatus]
      show Link.announce (a.setStatus .connecting).turn _ (Link.opened (a.setStatus .connecting).turn _) = _
      rw [turn_setStatus]

/-- A connected actor is left as it is; another tries. -/
theorem link_handleConnect (a : Actor) : (a.handleConnect ctx env).link =
    if a.status = .connected then a.link else a.link.attempt env a.turn := by
  have h := link_performConnect ctx env a
  rw [handleConnect]
  split
  · exact link_answer a _
  · cases hp : a.performConnect ctx env with
    | mk result b =>
        rw [hp] at h
        cases result <;> simpa using h

theorem link_handleDisconnect (a : Actor) :
    a.handleDisconnect.link = a.link.dropped.announce a.turn .disconnected :=
  link_setStatus a.dropSocket .disconnected

/-- No message of the relay changes the connection. -/
theorem link_dispatchRelayMessage (a : Actor) (message : RelayMessage) :
    (a.dispatchRelayMessage message).link = a.link := by
  cases message with
  | event id event => exact link_forward a _ _
  | closed id message => exact link_forward a _ _
  | ok id accepted message => exact link_settle a _ _
  | notice message => exact link_emit a rfl
  | auth challenge => exact link_emit a rfl
  | count id count => rfl
  | negMsg id message => exact link_forward a _ _
  | negErr id message => exact link_forward a _ _
  | endOfStoredEvents id =>
      rw [dispatchRelayMessage]
      split
      · rfl
      · split
        · exact link_emit a rfl
        · exact link_emit a rfl

theorem link_handleTextFrame (a : Actor) (socket : Nat) (text : String) :
    (a.handleTextFrame ctx socket text).link = a.link := by
  rw [handleTextFrame]
  split
  · rfl
  · split
    · rfl
    · exact (link_dispatchRelayMessage _ _).trans (link_emit a rfl)

/-- The next retry is what the policy says, of the attempts so far. -/
theorem link_rearm (a : Actor) :
    (a.rearm ctx env).link = a.link.scheduled ctx.options.reconnectPolicy env := by
  rw [rearm, scheduleReconnect, Link.scheduled]
  show _ = { a.link with deadline :=
    match ctx.options.reconnectPolicy.nextDelay a.state.reconnectAttempts env.random with
    | none => none
    | some delay => (env.now.checkedAdd delay).or a.reconnectDeadline }
  cases ctx.options.reconnectPolicy.nextDelay a.state.reconnectAttempts env.random with
  | none => rfl
  | some delay =>
      dsimp only
      cases env.now.checkedAdd delay with
      | none => rfl
      | some deadline => rfl

/-- A frame that ends the stream loses the connection; any other leaves it. -/
theorem link_handleInbound (a : Actor) (frame : Option (Except Error Message))
    (hready : a.ready env (.inbound frame) = true) :
    (a.handleInbound ctx env frame).link =
      a.link.after ctx.options.reconnectPolicy env a.turn (.inbound frame) := by
  have hhang : (a.handleDisconnect.rearm ctx env).link =
      (a.link.dropped.announce a.turn .disconnected).scheduled ctx.options.reconnectPolicy env := by
    rw [link_rearm, link_handleDisconnect]
  rw [handleInbound, Link.after]
  cases hstream : a.state.stream with
  | none => simp [ready, hstream] at hready
  | some socket =>
      rcases frame with _ | err | message
      · exact hhang
      · exact hhang
      cases message with
      | close => exact hhang
      | binary payload => rfl
      | ping payload => rfl
      | pong payload => rfl
      | text text => exact link_handleTextFrame ctx a socket text

/-- A retry is an attempt, and is scheduled again if it failed. -/
theorem link_handleReconnect (a : Actor) : (a.handleReconnect ctx env).link =
    a.link.after ctx.options.reconnectPolicy env a.turn .reconnectTimer := by
  have hrun : (({ a with reconnectDeadline := none }).runReconnect ctx env).link =
      a.link.retrying.attempt env a.turn := by
    rw [runReconnect]
    generalize hb : ({ ({ a with reconnectDeadline := none } : Actor) with state := _ } : Actor) = b
    have hlink : b.link = a.link.retrying := by
      subst hb
      rfl
    have hturn : b.turn = a.turn := by
      subst hb
      rfl
    have hattempt := link_performConnect ctx env b
    rw [hlink, hturn] at hattempt
    cases hp : b.performConnect ctx env with
    | mk result c =>
        rw [hp] at hattempt
        cases result with
        | error err => exact hattempt
        | ok u => exact (link_reissueSubscriptions env c).trans hattempt
  rw [handleReconnect, Link.after, ← hrun]
  show _ = if !(runReconnect ctx env _).state.isConnected && (runReconnect ctx env _).status ≠ .terminated
    then _ else _
  split
  · exact link_rearm ctx env _
  · rfl

theorem link_handleSubscribe (a : Actor) (id : SubscriptionId) (filters : List Filter)
    (options : SubscribeOptions) : (a.handleSubscribe ctx env id filters options).link = a.link := by
  rw [handleSubscribe]
  split
  · exact link_answer a _
  · split
    · exact link_answer a _
    · exact (link_answer _ _).trans (link_sendIfLive env _ _)

theorem link_handleSubscribeNeg (a : Actor) (id : SubscriptionId) (filter : Filter) (hex : String) :
    (a.handleSubscribeNeg ctx env id filter hex).link = a.link := by
  rw [handleSubscribeNeg]
  split
  · exact link_answer a _
  · split
    · exact link_answer a _
    · have hsend := link_sendConnected env (a.register id ⟨[filter], .new, a.turn, true⟩)
        (.negOpen id filter hex)
      dsimp only
      cases hs : (a.register id ⟨[filter], .new, a.turn, true⟩).sendConnected env (.negOpen id filter hex) with
      | mk result b =>
          rw [hs] at hsend
          cases result with
          | error err => exact (link_answer (b.unregister id) _).trans hsend
          | ok u => exact (link_answer b _).trans hsend

theorem link_handlePublish (a : Actor) (event : Event) (options : PublishOptions) :
    (a.handlePublish ctx env event options).link = a.link := by
  rw [handlePublish]
  split
  · exact link_answer a _
  · split
    · exact link_answer a _
    · have hsend := link_sendIfLive env a (.event event)
      cases hs : a.sendIfLive env (.event event) with
      | mk result b =>
          rw [hs] at hsend
          cases result with
          | error err => exact (link_answer b _).trans hsend
          | ok u =>
              dsimp only
              split
              · exact hsend
              · exact hsend

theorem link_handleDropSubscription (a : Actor) (id : SubscriptionId) :
    (a.handleDropSubscription env id).link = a.link := by
  rw [handleDropSubscription]
  split
  · exact link_sendIfLive env (a.unregister id) _
  · rfl

/-- The connection side of one arm. -/
theorem link_handle (a : Actor) (w : Wakeup) (hready : a.ready env w = true) (hstays : leavesLoop w = false) :
    (a.handle ctx env w).link = a.link.after ctx.options.reconnectPolicy env a.turn w := by
  cases w with
  | commandsClosed => cases hstays
  | publishTimer => rfl
  | closeSignal id => exact link_handleDropSubscription env a id
  | inbound frame => exact link_handleInbound ctx env a frame hready
  | reconnectTimer => exact link_handleReconnect ctx env a
  | command cmd =>
      cases cmd with
      | shutdown => cases hstays
      | connect => exact congrArg Link.disarmed (link_handleConnect ctx env a)
      | disconnect => exact (link_answer _ _).trans (congrArg Link.disarmed (link_handleDisconnect a))
      | subscribe id filters options => exact link_handleSubscribe ctx env a id filters options
      | subscribeNeg id filter hex => exact link_handleSubscribeNeg ctx env a id filter hex
      | publish event options => exact link_handlePublish ctx env a event options
      | authenticate event => exact (link_answer _ _).trans (link_sendConnected env a (.auth event))
      | sendMsg message => exact (link_answer _ _).trans (link_sendConnected env a message)

theorem link_terminate (a : Actor) : a.terminate.link = (a.link.announce a.turn .terminated).dropped := by
  rw [terminate, link_emit _ rfl, link_dropSocket, link_setStatus]

theorem after_of_leaves (policy : ReconnectPolicy) (turn : Nat) (l : Link) {w : Wakeup}
    (h : leavesLoop w = true) : l.after policy env turn w = (l.announce turn .terminated).dropped := by
  unfold leavesLoop at h
  split at h
  · rfl
  · rfl
  · cases h

/-- What readiness is, seen from this side. -/
theorem attends.link_ready {a : Actor} {event : Wakeup × Env} (h : a.attends event) :
    a.link.ready event.1 := by
  obtain ⟨hup, _, hready⟩ := h
  refine ⟨hup, ?_, ?_⟩
  · intro frame hw
    rw [hw] at hready
    exact hready
  · intro hw
    rw [hw] at hready
    obtain ⟨d, hd, _⟩ := (Option.any_eq_true _ _).mp hready
    exact Option.isSome_of_eq_some hd

/-- A retry overflows on the connection exactly as on the actor. -/
theorem overflows_of_link {a : Actor} {w : Wakeup} (h : a.link.Overflows ctx.options.reconnectPolicy env w) :
    a.Overflows ctx (w, env) := by
  cases w with
  | inbound frame => exact h
  | reconnectTimer => exact h
  | _ => exact h.elim

/-- The machine takes the step of the wakeup when the actor serves it. -/
theorem link_step {a : Actor} {event : Wakeup × Env} (h : a.serves ctx event) :
    (a.step ctx event).link = a.link.after ctx.options.reconnectPolicy event.2 a.turn event.1 := by
  rw [step_of_serves ctx h]
  show (a.wake ctx event.2 event.1).link = _
  cases hleaves : leavesLoop event.1 with
  | true => rw [wake_of_leaves ctx event.2 hleaves, link_terminate, after_of_leaves event.2 _ _ _ hleaves]
  | false =>
      rw [wake_of_serves ctx h hleaves, link_expirePendingPublishes,
        link_handle ctx event.2 a event.1 h.isReady hleaves]

/-- A panic takes the socket and the timer, after what the arm has announced. -/
theorem link_step_of_overflows {a : Actor} {event : Wakeup × Env} (h : a.attends event)
    (hover : a.Overflows ctx event) :
    (a.step ctx event).link =
      (a.link.after ctx.options.reconnectPolicy event.2 a.turn event.1).unwound := by
  rw [step_of_overflows ctx h hover]
  exact congrArg Link.unwound (link_handle ctx event.2 a event.1 h.2.2 hover.not_leavesLoop)

/-- A wakeup that is passed over leaves the connection. -/
theorem link_step_of_not_attends {a : Actor} {event : Wakeup × Env} (h : ¬ a.attends event) :
    (a.step ctx event).link = a.link := by
  rw [step_of_not_attends ctx h]
  rfl

end Actor

/-! ## What every run of the machine keeps -/

namespace Link

variable {policy : ReconnectPolicy} {env : Env} {turn : Nat} {l : Link} {new : RelayStatus}

/-- The turn of the last status change. -/
def lastChange (l : Link) : Option Nat := l.changes.getLast?.map Prod.fst

@[simp] theorem status_announce : (l.announce turn new).status = new := by
  rw [announce]
  split
  · assumption
  · rfl

@[simp] theorem sink_announce : (l.announce turn new).sink = l.sink := by
  rw [announce]
  split <;> rfl

@[simp] theorem stream_announce : (l.announce turn new).stream = l.stream := by
  rw [announce]
  split <;> rfl

@[simp] theorem deadline_announce : (l.announce turn new).deadline = l.deadline := by
  rw [announce]
  split <;> rfl

@[simp] theorem attempts_announce : (l.announce turn new).attempts = l.attempts := by
  rw [announce]
  split <;> rfl

/-- The last change is now, if it was another status. -/
theorem lastChange_announce : (l.announce turn new).lastChange =
    if l.status = new then l.lastChange else some turn := by
  rw [announce]
  split
  · rfl
  · simp [lastChange]

@[simp] theorem deadline_attempt : (l.attempt env turn).deadline = l.deadline := by
  rw [attempt]
  split
  · rw [deadline_announce]
    exact deadline_announce
  · rw [deadline_announce, deadline_announce]

/-- A failed attempt is counted where it is scheduled, not where it is made. -/
theorem attempts_attempt (h : env.handshake ≠ .opened) : (l.attempt env turn).attempts = l.attempts := by
  rw [attempt]
  split
  · rename_i hshake
    exact absurd hshake h
  · rw [attempts_announce, attempts_announce]

/-- An attempt passes through `Connecting`, so it always ends in a change. -/
@[simp] theorem lastChange_attempt : (l.attempt env turn).lastChange = some turn := by
  rw [attempt]
  split
  · rw [lastChange_announce, if_neg]
    show (l.announce turn .connecting).status ≠ .connected
    rw [status_announce]
    decide
  · rw [lastChange_announce, status_announce, if_neg (by decide)]

theorem status_attempt : (l.attempt env turn).status =
    match env.handshake with
    | .opened => .connected
    | _ => .disconnected := by
  rw [attempt]
  cases env.handshake <;> exact status_announce

theorem not_connected_attempt (h : (l.attempt env turn).status ≠ .connected) :
    (l.attempt env turn).status = .disconnected := by
  rw [status_attempt] at h ⊢
  cases hshake : env.handshake with
  | opened => simp [hshake] at h
  | failed text => rfl
  | timedOut => rfl

theorem disarmed_of_none (h : l.deadline = none) : l.disarmed = l := by
  cases l
  cases h
  rfl

/-- The halves of the socket are there exactly while the status is `Connected`; the reconnect timer is armed
    only while it is not. -/
structure Sound (l : Link) : Prop where
  sink : l.sink.isSome ↔ l.status = .connected
  stream : l.stream.isSome ↔ l.status = .connected
  armed : l.deadline.isSome → l.status = .disconnected ∨ l.status = .terminated

namespace Sound

/-- A sound connection is connected exactly if it says so. -/
theorem isConnected (h : l.Sound) : l.isConnected = true ↔ l.status = .connected := by
  rw [Link.isConnected, Bool.and_eq_true, h.sink, h.stream, and_self_iff]

theorem disarmed (h : l.Sound) : l.disarmed.Sound where
  sink := h.sink
  stream := h.stream
  armed := nofun

/-- Without a connection it has no half of a socket. -/
theorem down (h : l.Sound) (hstatus : l.status ≠ .connected) : l.sink = none ∧ l.stream = none := by
  have hsink := mt h.sink.mp hstatus
  have hstream := mt h.stream.mp hstatus
  simp only [Option.not_isSome_iff_eq_none] at hsink hstream
  exact ⟨hsink, hstream⟩

/-- A dropped socket with another status than connected is sound, if the timer fits the status. -/
theorem dropped (hstatus : new ≠ .connected)
    (harmed : l.deadline.isSome → new = .disconnected ∨ new = .terminated) :
    (l.dropped.announce turn new).Sound where
  sink := by simp [Link.dropped, hstatus]
  stream := by simp [Link.dropped, hstatus]
  armed := by simpa [Link.dropped] using harmed

theorem retrying (h : l.Sound) : l.retrying.Sound where
  sink := h.sink
  stream := h.stream
  armed := nofun

theorem terminated : (l.announce turn .terminated).dropped.Sound := by
  have hsame : (l.announce turn .terminated).dropped = l.dropped.announce turn .terminated := by
    rw [Link.announce, Link.announce]
    show Link.dropped (if l.status = .terminated then _ else _) = if l.status = .terminated then _ else _
    split <;> rfl
  rw [hsame]
  exact dropped (by decide) (fun _ => Or.inr rfl)

/-- An attempt from a missing socket, once the timer is off. -/
theorem attempt (h : l.Sound) (hstatus : l.status ≠ .connected) :
    (l.attempt env turn).disarmed.Sound := by
  obtain ⟨hsink, hstream⟩ := h.down hstatus
  rw [Link.attempt]
  split
  · exact ⟨by simp [Link.disarmed, Link.opened], by simp [Link.disarmed, Link.opened], nofun⟩
  · exact ⟨by simp [Link.disarmed, hsink], by simp [Link.disarmed, hstream], nofun⟩

theorem disconnected (h : l.Sound) (hup : l.status ≠ .terminated) (hdeadline : l.deadline.isSome) :
    l.status = .disconnected :=
  (h.armed hdeadline).resolve_right hup

/-- The timer goes off while the socket is gone. -/
theorem retried (h : l.Sound) (hup : l.status ≠ .terminated) (hdeadline : l.deadline.isSome) :
    (l.retrying.attempt env turn).Sound := by
  have hdown : l.retrying.status ≠ .connected := by
    rw [show l.retrying.status = .disconnected from h.disconnected hup hdeadline]
    decide
  have hsound : (l.retrying.attempt env turn).disarmed.Sound := h.retrying.attempt hdown
  rwa [disarmed_of_none deadline_attempt] at hsound

theorem scheduled (h : l.Sound) (hstatus : l.status = .disconnected) :
    (l.scheduled policy env).Sound where
  sink := h.sink
  stream := h.stream
  armed _ := Or.inl hstatus

/-- **What one wakeup keeps.** One case for each wakeup, each with the lemma on the move it makes: an announcement,
    an attempt, a drop, or the timer. -/
theorem after (h : l.Sound) {w : Wakeup} (hready : l.ready w) :
    (l.after policy env turn w).Sound := by
  obtain ⟨hup, hinbound, htimer⟩ := hready
  cases w with
  | commandsClosed => exact terminated
  | publishTimer => exact h
  | closeSignal id => exact h
  | inbound frame =>
      rw [Link.after]
      split
      · exact (dropped (by decide) (fun _ => Or.inl rfl)).scheduled status_announce
      · exact h
  | reconnectTimer =>
      have htried : (l.retrying.attempt env turn).Sound := h.retried hup (htimer rfl)
      simp only [Link.after, Bool.and_eq_true, Bool.not_eq_true', decide_eq_true_eq]
      split
      · rename_i hfailed
        refine htried.scheduled (not_connected_attempt ?_)
        rw [ne_eq, ← htried.isConnected, hfailed.1]
        decide
      · exact htried
  | command cmd =>
      cases cmd with
      | connect =>
          rw [Link.after]
          split
          · exact h.disarmed
          · rename_i hstatus
            exact h.attempt hstatus
      | disconnect => exact (dropped (by decide) (fun _ => Or.inl rfl)).disarmed
      | shutdown => exact terminated
      | _ => exact h

end Sound

/-- A wakeup changes the status in its own turn. One case for each wakeup; all of them go through `announce`, which
    changes the status in its turn or not at all. -/
theorem lastChange_after (l : Link) (w : Wakeup) : (l.after policy env turn w).lastChange = l.lastChange ∨
    (l.after policy env turn w).lastChange = some turn := by
  have hannounce : ∀ (m : Link) (new : RelayStatus), m.lastChange = l.lastChange →
      (m.announce turn new).lastChange = l.lastChange ∨ (m.announce turn new).lastChange = some turn := by
    intro m new hsame
    rw [lastChange_announce]
    split
    · exact Or.inl hsame
    · exact Or.inr rfl
  cases w with
  | commandsClosed => exact hannounce l _ rfl
  | publishTimer => exact Or.inl rfl
  | closeSignal id => exact Or.inl rfl
  | inbound frame =>
      rw [Link.after]
      split
      · exact hannounce l.dropped _ rfl
      · exact Or.inl rfl
  | reconnectTimer =>
      simp only [Link.after]
      split
      · exact Or.inr lastChange_attempt
      · exact Or.inr lastChange_attempt
  | command cmd =>
      cases cmd with
      | connect =>
          rw [Link.after]
          split
          · exact Or.inl rfl
          · exact Or.inr lastChange_attempt
      | disconnect => exact hannounce l.dropped _ rfl
      | shutdown => exact hannounce l _ rfl
      | _ => exact Or.inl rfl

/-- Where the policy retries and nothing overflows, a retry is scheduled. -/
theorem isSome_scheduled (hpolicy : policy ≠ .never) (h : ¬ Actor.RetryOverflows env policy l.attempts) :
    (l.scheduled policy env).deadline.isSome := by
  have hdelay : ∀ delay, policy.nextDelay l.attempts env.random = some delay →
      (l.scheduled policy env).deadline.isSome := by
    intro delay hdelay
    rw [scheduled, hdelay]
    show ((env.now.checkedAdd delay).or l.deadline).isSome
    cases hadd : env.now.checkedAdd delay with
    | none => exact absurd ⟨delay, hdelay, hadd⟩ h
    | some deadline => rfl
  cases policy with
  | never => exact absurd rfl hpolicy
  | constant delay => exact hdelay delay rfl
  | exponential base cap => exact hdelay _ rfl

/-- **What the arms do that serve neither a `Connect` nor a `Disconnect`**: nothing, or they change the status,
    and a change to `Disconnected` comes with the timer, where the policy allows one. -/
theorem after_cases (h : l.Sound) {w : Wakeup} (hready : l.ready w)
    (hquick : ¬ l.Overflows policy env w) (hconnect : w ≠ .command .connect)
    (hdisconnect : w ≠ .command .disconnect) :
    l.after policy env turn w = l ∨
    (l.after policy env turn w).lastChange = some turn ∧
      ((l.after policy env turn w).status = .disconnected → policy ≠ .never →
        (l.after policy env turn w).deadline.isSome) := by
  obtain ⟨hup, hinbound, htimer⟩ := hready
  have hend : (l.announce turn .terminated).dropped.lastChange = some turn ∧
      ((l.announce turn .terminated).dropped.status = .disconnected → policy ≠ .never →
        (l.announce turn .terminated).dropped.deadline.isSome) := by
    refine ⟨lastChange_announce.trans (if_neg hup), fun hstatus => ?_⟩
    rw [show (l.announce turn .terminated).dropped.status = .terminated from status_announce] at hstatus
    cases hstatus
  cases w with
  | commandsClosed => exact Or.inr hend
  | publishTimer => exact Or.inl rfl
  | closeSignal id => exact Or.inl rfl
  | inbound frame =>
      rw [Link.after]
      split
      · rename_i hhangs
        have hconnected := h.stream.mp (hinbound frame rfl)
        refine Or.inr ⟨lastChange_announce.trans (if_neg ?_), fun _ hpolicy => isSome_scheduled hpolicy ?_⟩
        swap
        · rw [attempts_announce]
          exact fun hover => hquick ⟨hhangs, hover⟩
        rw [show l.dropped.status = .connected from hconnected]
        decide
      · exact Or.inl rfl
  | reconnectTimer =>
      simp only [Link.after]
      split
      · rename_i hfailed
        refine Or.inr ⟨lastChange_attempt, fun hdown hpolicy => isSome_scheduled hpolicy ?_⟩
        have hshake : env.handshake ≠ .opened := by
          intro hshake
          have hstatus : (l.retrying.attempt env turn).status = .disconnected := hdown
          rw [status_attempt, hshake] at hstatus
          cases hstatus
        have hclosed : l.isConnected = false := by
          rw [← Bool.not_eq_true, h.isConnected, h.disconnected hup (htimer rfl)]
          decide
        rw [attempts_attempt hshake]
        exact fun hover => hquick ⟨hshake, hclosed, hover⟩
      · rename_i hdone
        refine Or.inr ⟨lastChange_attempt, fun hstatus hpolicy => absurd ?_ hdone⟩
        have htried : (l.retrying.attempt env turn).Sound := h.retried hup (htimer rfl)
        have hclosed : ¬ (l.retrying.attempt env turn).isConnected = true := by
          rw [htried.isConnected, hstatus]
          decide
        simp [hclosed, hstatus]
  | command cmd =>
      cases cmd with
      | connect => exact absurd rfl hconnect
      | disconnect => exact absurd rfl hdisconnect
      | shutdown => exact Or.inr hend
      | _ => exact Or.inl rfl

/-- **An arm that panics on a retry** has announced `Disconnected` by then. -/
theorem after_of_overflows (h : l.Sound) {w : Wakeup} (hready : l.ready w) (hover : l.Overflows policy env w) :
    (l.after policy env turn w).status = .disconnected ∧
      (l.after policy env turn w).lastChange = some turn := by
  cases w with
  | inbound frame =>
      have hconnected := h.stream.mp (hready.2.1 frame rfl)
      rw [Link.after, if_pos hover.1]
      refine ⟨status_announce, lastChange_announce.trans (if_neg ?_)⟩
      rw [show l.dropped.status = .connected from hconnected]
      decide
  | reconnectTimer =>
      have hstatus : (l.retrying.attempt env turn).status = .disconnected := by
        rw [status_attempt]
        cases hshake : env.handshake with
        | opened => exact absurd hshake hover.1
        | failed text => rfl
        | timedOut => rfl
      simp only [Link.after]
      split
      · exact ⟨hstatus, lastChange_attempt⟩
      · exact ⟨hstatus, lastChange_attempt⟩
  | _ => exact hover.elim

end Link

namespace Actor

variable {ctx : StaticCtx}

/-- As long as the task runs. -/
theorem sound_run (ctx : StaticCtx) (past : List (Wakeup × Env)) (hruns : (run ctx past).panicked = false) :
    (run ctx past).link.Sound := by
  induction past using List.reverseRecOn with
  | nil => exact ⟨by simp [run, link, new, ActorState.new], by simp [run, link, new, ActorState.new], nofun⟩
  | append_singleton past event ih =>
      rw [run_append] at hruns ⊢
      by_cases hserves : (run ctx past).serves ctx event
      · rw [link_step ctx hserves]
        exact (ih hserves.1.2.1).after hserves.1.link_ready
      · rcases step_of_not_serves ctx hserves with ⟨hattends, hover, _⟩ | ⟨hpassed, hidle⟩
        · rw [panicked_step_of_overflows ctx hattends hover] at hruns
          cases hruns
        · rw [hidle] at hruns
          rw [link_step_of_not_attends ctx hpassed]
          exact ih hruns

/-- A status change belongs to a turn that is over. -/
theorem lastChange_lt (ctx : StaticCtx) (past : List (Wakeup × Env)) {n : Nat}
    (h : (run ctx past).link.lastChange = some n) : n < (run ctx past).turn := by
  induction past using List.reverseRecOn with
  | nil => cases h
  | append_singleton past event ih =>
      rw [run_append] at h ⊢
      have hstep : ((run ctx past).step ctx event).link.lastChange = (run ctx past).link.lastChange ∨
          ((run ctx past).step ctx event).link.lastChange = some (run ctx past).turn := by
        by_cases hserves : (run ctx past).serves ctx event
        · rw [link_step ctx hserves]
          exact Link.lastChange_after _ _
        · rcases step_of_not_serves ctx hserves with ⟨hattends, hover, _⟩ | ⟨hpassed, _⟩
          · rw [link_step_of_overflows ctx hattends hover]
            exact Link.lastChange_after (run ctx past).link event.1
          · exact Or.inl (congrArg Link.lastChange (link_step_of_not_attends ctx hpassed))
      rcases hstep with hsame | hnew
      · exact (ih (hsame.symm.trans h)).trans (Nat.lt_succ_self _)
      · rw [hnew] at h
        cases h
        exact Nat.lt_succ_self _

/-- A wakeup that overflows, and is no publish, overflows on the connection. -/
theorem link_overflows {a : Actor} {event : Wakeup × Env} (h : a.Overflows ctx event)
    (hw : ∀ e opts, event.1 ≠ .command (.publish e opts)) :
    a.link.Overflows ctx.options.reconnectPolicy event.2 event.1 := by
  unfold Overflows at h
  split at h
  · exact absurd rfl (hw _ _)
  · exact h
  · exact h
  · exact h.elim

/-- A panic on a retry leaves the status `Disconnected`, and the timer off. -/
theorem status_step_of_overflows {past : List (Wakeup × Env)} {event : Wakeup × Env}
    (h : (run ctx past).attends event) (hover : (run ctx past).Overflows ctx event)
    (hw : ∀ e opts, event.1 ≠ .command (.publish e opts)) :
    ((run ctx past).step ctx event).status = .disconnected :=
  (congrArg Link.status (link_step_of_overflows ctx h hover)).trans
    (Link.after_of_overflows (sound_run ctx past h.2.1) h.link_ready (link_overflows hover hw)).1

end Actor

end Nula.Relay
