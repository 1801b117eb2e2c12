import Nula.Relay.Actor

/-!
# `Relay.Overflow` — the wakeups that unwind the actor

A deadline is the clock plus a delay, and the sum may leave the range of `Instant`: the timeout of a publish and
the delay of a reconnect policy are the caller's, and nothing bounds them. `Overflows` says, of the actor before
a wakeup, that the wakeup works out such a deadline; `panicked_handle` that these are the wakeups that panic. A
wakeup is `serves`d when the `select!` takes its arm and the arm runs to its end, and a step is one of three:
served, unwound, or passed over.
-/

namespace Nula.Relay

open Std

namespace Actor

/-! ## The deadlines -/

section

variable (ctx : StaticCtx) (env : Env)

/-- The end of the stream, an error on it, or a close frame. -/
def hangsUp : Wakeup → Bool
  | .inbound none | .inbound (some (.error _)) | .inbound (some (.ok .close)) => true
  | _ => false

/-- The wakeups that end the loop. -/
def leavesLoop : Wakeup → Bool
  | .command .shutdown | .commandsClosed => true
  | _ => false

/-- A publish that reaches the map: the socket is live, there is room, and the frame is taken. -/
def accepts (a : Actor) (event : Event) : Prop :=
  a.state.isConnected = true ∧ a.state.pendingPublishes.size < ctx.options.limits.maxPendingPublishes ∧
    env.refuses (.event event) = none

/-- The deadline of a publish. -/
def publishTimeout (options : PublishOptions) : Duration :=
  options.timeout.getD ctx.options.publishTimeout

/-- The policy has a delay after so many attempts, and the clock cannot be moved that far. -/
def RetryOverflows (policy : ReconnectPolicy) (attempts : UInt32) : Prop :=
  ∃ delay, policy.nextDelay attempts env.random = some delay ∧ env.now.checkedAdd delay = none

/-- The arm of the wakeup works out a deadline that overflows: that of a publish whose frame was taken, or that
    of the retry after a lost connection or a failed attempt. -/
def Overflows (a : Actor) : Wakeup × Env → Prop
  | (.command (.publish event options), env) =>
      a.accepts ctx env event ∧ env.now.checkedAdd (publishTimeout ctx options) = none
  | (.inbound frame, env) =>
      hangsUp (.inbound frame) = true ∧
        RetryOverflows env ctx.options.reconnectPolicy a.state.reconnectAttempts
  | (.reconnectTimer, env) =>
      env.handshake ≠ .opened ∧ a.state.isConnected = false ∧
        RetryOverflows env ctx.options.reconnectPolicy (saturatingSucc a.state.reconnectAttempts)
  | _ => False

end

theorem Overflows.not_leavesLoop {ctx : StaticCtx} {a : Actor} {event : Wakeup × Env}
    (h : a.Overflows ctx event) : leavesLoop event.1 = false := by
  unfold Overflows at h
  split at h
  · rfl
  · rfl
  · rfl
  · exact h.elim

/-- A sum overflows when it is beyond the last instant. -/
theorem checkedAdd_eq_none {now : Instant} {delay : Duration} :
    now.checkedAdd delay = none ↔ 2 ^ 63 * 10 ^ 9 ≤ now.val + delay.val := by
  unfold Instant.checkedAdd
  split <;> simp <;> omega

theorem val_of_checkedAdd {now deadline : Instant} {delay : Duration} (h : now.checkedAdd delay = some deadline) :
    deadline.val = now.val + delay.val := by
  unfold Instant.checkedAdd at h
  split at h
  · cases h
    rfl
  · cases h

/-! ## The building blocks do not panic -/

variable (ctx : StaticCtx) (env : Env)

theorem isConnected_eq_isSome_sink_and {st : ActorState} (h : st.isConnected = true) : st.sink.isSome = true :=
  (Bool.and_eq_true_iff.mp h).1

@[simp] theorem panicked_emit (a : Actor) (o : Obs) : (a.emit o).panicked = a.panicked := rfl

@[simp] theorem panicked_answer (a : Actor) (result : Except Error Unit) :
    (a.answer result).panicked = a.panicked := rfl

@[simp] theorem panicked_setStatus (a : Actor) (new : RelayStatus) :
    (a.setStatus new).panicked = a.panicked := by
  rw [setStatus]
  split <;> rfl

@[simp] theorem panicked_register (a : Actor) (id : SubscriptionId) (entry : SubscriptionEntry) :
    (a.register id entry).panicked = a.panicked := rfl

@[simp] theorem panicked_unregister (a : Actor) (id : SubscriptionId) :
    (a.unregister id).panicked = a.panicked := rfl

@[simp] theorem panicked_send (a : Actor) (socket : Nat) (message : ClientMessage) :
    (a.send env socket message).2.panicked = a.panicked := by
  rw [send]
  split <;> rfl

@[simp] theorem panicked_sendIfLive (a : Actor) (message : ClientMessage) :
    (a.sendIfLive env message).2.panicked = a.panicked := by
  rw [sendIfLive]
  split
  · rfl
  · exact panicked_send env a _ message

@[simp] theorem panicked_sendConnected (a : Actor) (message : ClientMessage) :
    (a.sendConnected env message).2.panicked = a.panicked := by
  rw [sendConnected]
  split
  · rfl
  · exact panicked_send env a _ message

@[simp] theorem panicked_forward (a : Actor) (id : SubscriptionId) (item : SubscriptionItem) :
    (a.forward id item).panicked = a.panicked := by
  rw [forward]
  split <;> rfl

@[simp] theorem panicked_settle (a : Actor) (id : EventId) (result : PendingPublish → Except Error Unit) :
    (a.settle id result).panicked = a.panicked := by
  rw [settle]
  split <;> rfl

@[simp] theorem panicked_expirePendingPublishes (a : Actor) :
    (a.expirePendingPublishes env).panicked = a.panicked := by
  have hfold : ∀ (ids : List EventId) (b : Actor), (ids.foldl expireOne b).panicked = b.panicked := by
    intro ids
    induction ids with
    | nil => exact fun b => rfl
    | cons id ids ih =>
        intro b
        rw [List.foldl_cons, ih, expireOne, panicked_settle]
  exact hfold _ a

@[simp] theorem panicked_reissueSubscriptions (a : Actor) :
    (a.reissueSubscriptions env).panicked = a.panicked := by
  have hfold : ∀ (socket : Nat) (entries : List (SubscriptionId × SubscriptionEntry)) (b : Actor),
      (entries.foldl (reissueOne env socket) b).panicked = b.panicked := by
    intro socket entries
    induction entries with
    | nil => exact fun b => rfl
    | cons entry entries ih =>
        intro b
        rw [List.foldl_cons, ih, reissueOne]
        split
        · rfl
        · exact panicked_send env b socket _
  rw [reissueSubscriptions]
  split
  · rfl
  · exact hfold _ _ a

@[simp] theorem panicked_performConnect (a : Actor) : (a.performConnect ctx env).2.panicked = a.panicked := by
  rw [performConnect]
  cases env.handshake with
  | failed text => simp
  | timedOut => simp
  | opened =>
      show (((a.setStatus .connecting).openSocket).setStatus .connected).panicked = _
      rw [panicked_setStatus]
      exact panicked_setStatus a .connecting

/-! ## The arms -/

/-- A `Connect` command schedules nothing, so it does not panic. -/
theorem panicked_handleConnect (a : Actor) : (a.handleConnect ctx env).panicked = a.panicked := by
  have h := panicked_performConnect ctx env a
  rw [handleConnect]
  split
  · rfl
  · cases hp : a.performConnect ctx env with
    | mk result b =>
        rw [hp] at h
        cases result with
        | error err => exact h
        | ok u => exact (panicked_reissueSubscriptions env b).trans h

theorem panicked_handleSubscribe (a : Actor) (id : SubscriptionId) (filters : List Filter)
    (options : SubscribeOptions) : (a.handleSubscribe ctx env id filters options).panicked = a.panicked := by
  rw [handleSubscribe]
  split
  · rfl
  · split
    · rfl
    · exact panicked_sendIfLive env _ _

theorem panicked_handleSubscribeNeg (a : Actor) (id : SubscriptionId) (filter : Filter) (hex : String) :
    (a.handleSubscribeNeg ctx env id filter hex).panicked = a.panicked := by
  rw [handleSubscribeNeg]
  split
  · rfl
  · split
    · rfl
    · have hsend := panicked_sendConnected env (a.register id ⟨[filter], .new, a.turn, true⟩)
        (.negOpen id filter hex)
      dsimp only
      cases hs : (a.register id ⟨[filter], .new, a.turn, true⟩).sendConnected env (.negOpen id filter hex) with
      | mk result b =>
          rw [hs] at hsend
          cases result with
          | error err => exact hsend
          | ok u => exact hsend

theorem panicked_handleDropSubscription (a : Actor) (id : SubscriptionId) :
    (a.handleDropSubscription env id).panicked = a.panicked := by
  rw [handleDropSubscription]
  split
  · exact panicked_sendIfLive env (a.unregister id) _
  · rfl

theorem panicked_handleTextFrame (a : Actor) (socket : Nat) (text : String) :
    (a.handleTextFrame ctx socket text).panicked = a.panicked := by
  have hdispatch : ∀ (b : Actor) (message : RelayMessage),
      (b.dispatchRelayMessage message).panicked = b.panicked := by
    intro b message
    cases message with
    | endOfStoredEvents id =>
        rw [dispatchRelayMessage]
        split
        · rfl
        · split <;> rfl
    | event id event => exact panicked_forward b _ _
    | closed id message => exact panicked_forward b _ _
    | ok id accepted message => exact panicked_settle b _ _
    | notice message => rfl
    | auth challenge => rfl
    | count id count => rfl
    | negMsg id message => exact panicked_forward b _ _
    | negErr id message => exact panicked_forward b _ _
  rw [handleTextFrame]
  split
  · rfl
  · split
    · rfl
    · exact hdispatch _ _

/-- A publish that is accepted panics on the deadline. -/
theorem panicked_handlePublish (a : Actor) (event : Event) (options : PublishOptions) :
    (a.handlePublish ctx env event options).panicked = true ↔
      a.panicked = true ∨ a.Overflows ctx (.command (.publish event options), env) := by
  rw [handlePublish, Overflows]
  by_cases hup : a.state.isConnected = true
  · by_cases hfull : ctx.options.limits.maxPendingPublishes ≤ a.state.pendingPublishes.size
    · simp [hup, hfull, accepts, Nat.not_lt.mpr hfull]
    · obtain ⟨socket, hsocket⟩ := Option.isSome_iff_exists.mp (isConnected_eq_isSome_sink_and hup)
      cases hrefuse : env.refuses (.event event) with
      | some err => simp [hup, hfull, accepts, sendIfLive, hsocket, send, hrefuse]
      | none =>
          cases hdeadline : env.now.checkedAdd (publishTimeout ctx options) with
          | none =>
              rw [publishTimeout] at hdeadline
              simp [hup, hfull, accepts, sendIfLive, hsocket, send, hrefuse, hdeadline, panic,
                Nat.lt_of_not_le hfull]
          | some deadline =>
              rw [publishTimeout] at hdeadline
              simp [hup, hfull, sendIfLive, hsocket, send, hrefuse, hdeadline]
  · simp [hup, accepts]

/-- **Scheduling a retry panics exactly if its deadline overflows.** -/
theorem panicked_rearm (a : Actor) : (a.rearm ctx env).panicked = true ↔
    a.panicked = true ∨ RetryOverflows env ctx.options.reconnectPolicy a.state.reconnectAttempts := by
  rw [rearm, scheduleReconnect, RetryOverflows]
  cases ctx.options.reconnectPolicy.nextDelay a.state.reconnectAttempts env.random with
  | none => simp
  | some delay => cases hadd : env.now.checkedAdd delay <;> simp [hadd, panic]

/-- A frame panics exactly if it ends the stream and the retry overflows. -/
theorem panicked_handleInbound (a : Actor) (frame : Option (Except Error Message))
    (hready : a.ready env (.inbound frame) = true) : (a.handleInbound ctx env frame).panicked = true ↔
      a.panicked = true ∨ a.Overflows ctx (.inbound frame, env) := by
  obtain ⟨socket, hsocket⟩ := Option.isSome_iff_exists.mp (show a.state.stream.isSome = true from hready)
  have hlost : (a.handleDisconnect.rearm ctx env).panicked = true ↔
      a.panicked = true ∨ RetryOverflows env ctx.options.reconnectPolicy a.state.reconnectAttempts := by
    have hattempts : a.handleDisconnect.state.reconnectAttempts = a.state.reconnectAttempts := by
      rw [handleDisconnect, setStatus]
      split <;> rfl
    rw [panicked_rearm, hattempts, handleDisconnect, panicked_setStatus]
    rfl
  rw [handleInbound, hsocket, Overflows]
  rcases frame with _ | err | message
  · simpa [handleFrame, hangsUp] using hlost
  · simpa [handleFrame, hangsUp] using hlost
  cases message with
  | close => simpa [handleFrame, hangsUp] using hlost
  | binary payload => simp [handleFrame, hangsUp]
  | ping payload => simp [handleFrame, hangsUp]
  | pong payload => simp [handleFrame, hangsUp]
  | text text => simp [handleFrame, hangsUp, panicked_handleTextFrame]

/-- An attempt leaves the socket and the counter alone unless it opens a new one. -/
theorem performConnect_failed {a : Actor} (h : env.handshake ≠ .opened) :
    ∃ err, (a.performConnect ctx env).1 = .error err ∧
      (a.performConnect ctx env).2.state = a.state ∧
      (a.performConnect ctx env).2.status = .disconnected := by
  have hstate : ∀ (b : Actor) (new : RelayStatus), (b.setStatus new).state = b.state ∧
      (b.setStatus new).status = new := by
    intro b new
    rw [setStatus]
    split
    · exact ⟨rfl, by assumption⟩
    · exact ⟨rfl, rfl⟩
  rw [performConnect]
  cases hshake : env.handshake with
  | opened => exact absurd hshake h
  | failed text => exact ⟨_, rfl, ((hstate _ _).1.trans (hstate a _).1), (hstate _ _).2⟩
  | timedOut => exact ⟨_, rfl, ((hstate _ _).1.trans (hstate a _).1), (hstate _ _).2⟩

/-- Subscriptions that are asked for again stay in the map. -/
theorem state_reissueSubscriptions (a : Actor) : (a.reissueSubscriptions env).state = a.state := by
  have hfold : ∀ (socket : Nat) (entries : List (SubscriptionId × SubscriptionEntry)) (b : Actor),
      (entries.foldl (reissueOne env socket) b).state = b.state := by
    intro socket entries
    induction entries with
    | nil => exact fun b => rfl
    | cons entry entries ih =>
        intro b
        rw [List.foldl_cons, ih, reissueOne, send]
        split
        · rfl
        · split <;> rfl
  rw [reissueSubscriptions]
  split
  · rfl
  · exact hfold _ _ a

theorem performConnect_opened {a : Actor} (h : env.handshake = .opened) :
    (a.performConnect ctx env).1 = .ok () ∧ (a.performConnect ctx env).2.state.isConnected = true := by
  have hstate : ∀ (b : Actor) (new : RelayStatus), (b.setStatus new).state = b.state := by
    intro b new
    rw [setStatus]
    split <;> rfl
  rw [performConnect, h]
  refine ⟨rfl, ?_⟩
  show ((a.setStatus .connecting).openSocket.setStatus .connected).state.isConnected = true
  rw [hstate]
  rfl

/-- A retry panics exactly if it fails and the next one overflows. Two cases, as the handshake opens a socket or not:
    only a failure arms the timer, with the attempts counted up. -/
theorem panicked_handleReconnect (a : Actor) : (a.handleReconnect ctx env).panicked = true ↔
    a.panicked = true ∨ a.Overflows ctx (.reconnectTimer, env) := by
  rw [handleReconnect, runReconnect, Overflows]
  generalize hb : ({ ({ a with reconnectDeadline := none } : Actor) with state := _ } : Actor) = b
  have hpanicked : (b.performConnect ctx env).2.panicked = a.panicked := by
    rw [panicked_performConnect]
    subst hb
    rfl
  by_cases hshake : env.handshake = .opened
  · -- a fresh socket: no timer is needed
    obtain ⟨hok, hopen⟩ := performConnect_opened ctx env (a := b) hshake
    cases hp : b.performConnect ctx env with
    | mk result c =>
        rw [hp] at hok hopen hpanicked
        subst hok
        simp only [state_reissueSubscriptions]
        simpa [hopen, hshake] using hpanicked
  · obtain ⟨err, herror, hstate, hstatus⟩ := performConnect_failed ctx env (a := b) hshake
    cases hp : b.performConnect ctx env with
    | mk result c =>
        rw [hp] at herror hstate hstatus hpanicked
        subst herror
        have hattempts : c.state.reconnectAttempts = saturatingSucc a.state.reconnectAttempts := by
          rw [show c.state = b.state from hstate, ← hb]
        have hopen : c.state.isConnected = a.state.isConnected := by
          rw [show c.state = b.state from hstate, ← hb]
          rfl
        have hup : c.status ≠ .terminated := by
          rw [show c.status = .disconnected from hstatus]
          decide
        have hsame : c.panicked = a.panicked := hpanicked
        simp only [hopen]
        cases hconnected : a.state.isConnected with
        | true => simp [hsame]
        | false => simp [hup, panicked_rearm, hsame, hattempts, hshake]

/-- **What panics.** An arm raises a panic exactly when a deadline it works out overflows. -/
theorem panicked_handle (a : Actor) (w : Wakeup) (hready : a.ready env w = true) :
    (a.handle ctx env w).panicked = true ↔ a.panicked = true ∨ a.Overflows ctx (w, env) := by
  have hnever : ∀ {b : Actor}, b.panicked = a.panicked →
      (b.panicked = true ↔ a.panicked = true ∨ False) := by
    intro b h
    rw [h, or_false]
  cases w with
  | commandsClosed => exact hnever rfl
  | publishTimer => exact hnever rfl
  | closeSignal id => exact hnever (panicked_handleDropSubscription env a id)
  | inbound frame => exact panicked_handleInbound ctx env a frame hready
  | reconnectTimer => exact panicked_handleReconnect ctx env a
  | command cmd =>
      cases cmd with
      | shutdown => exact hnever rfl
      | connect => exact hnever (panicked_handleConnect ctx env a)
      | disconnect => exact hnever (panicked_setStatus a.dropSocket .disconnected)
      | subscribe id filters options => exact hnever (panicked_handleSubscribe ctx env a id filters options)
      | subscribeNeg id filter hex => exact hnever (panicked_handleSubscribeNeg ctx env a id filter hex)
      | publish event options => exact panicked_handlePublish ctx env a event options
      | authenticate event => exact hnever (panicked_sendConnected env a (.auth event))
      | sendMsg message => exact hnever (panicked_sendConnected env a message)

/-! ## Steps -/

/-- The `select!` takes this arm: the task still runs and the arm is ready. -/
def attends (a : Actor) (event : Wakeup × Env) : Prop :=
  a.status ≠ .terminated ∧ a.panicked = false ∧ a.ready event.2 event.1 = true

/-- The schedule entry is served: the `select!` takes its arm, and the arm runs to its end. -/
def serves (a : Actor) (event : Wakeup × Env) : Prop := a.attends event ∧ ¬ a.Overflows ctx event

variable {ctx} {a : Actor} {event : Wakeup × Env}

theorem serves.up (h : a.serves ctx event) : a.status ≠ .terminated := h.1.1

theorem serves.isReady (h : a.serves ctx event) : a.ready event.2 event.1 = true := h.1.2.2

variable (ctx)

/-- A wakeup of the loop: its arm, then the sweep, unless the arm unwinds. -/
theorem wake_of_stays {w : Wakeup} (h : leavesLoop w = false) : a.wake ctx env w =
    if (a.handle ctx env w).panicked then (a.handle ctx env w).unwind
    else (a.handle ctx env w).expirePendingPublishes env := by
  unfold wake
  split
  · cases h
  · cases h
  · rfl

theorem wake_of_leaves {w : Wakeup} (h : leavesLoop w = true) : a.wake ctx env w = a.terminate := by
  unfold leavesLoop at h
  split at h
  · rfl
  · rfl
  · cases h

theorem serves.quiet (h : a.serves ctx event) : (a.handle ctx event.2 event.1).panicked = false := by
  rw [← Bool.not_eq_true, panicked_handle ctx event.2 a event.1 h.isReady, h.1.2.1]
  simpa using h.2

/-- An arm that runs to its end is followed by the sweep. -/
theorem wake_of_serves (h : a.serves ctx event) (hstays : leavesLoop event.1 = false) :
    a.wake ctx event.2 event.1 = (a.handle ctx event.2 event.1).expirePendingPublishes event.2 := by
  rw [wake_of_stays ctx event.2 hstays, h.quiet]
  rfl

/-- **A step that is served.** -/
theorem step_of_serves (h : a.serves ctx event) :
    a.step ctx event = { a.wake ctx event.2 event.1 with turn := a.turn + 1 } := by
  rw [step, if_neg (by simp [h.up, h.isReady, h.1.2.1])]

/-- An arm that panics unwinds the task, with whatever the arm had done. -/
theorem step_of_overflows (h : a.attends event) (hover : a.Overflows ctx event) :
    a.step ctx event = { (a.handle ctx event.2 event.1).unwind with turn := a.turn + 1 } := by
  have hpanics : (a.handle ctx event.2 event.1).panicked = true :=
    (panicked_handle ctx event.2 a event.1 h.2.2).mpr (Or.inr hover)
  rw [step, if_neg (by simp [h.1, h.2.1, h.2.2]), wake_of_stays ctx event.2 hover.not_leavesLoop, if_pos hpanics]

/-- A wakeup that is passed over only counts the turn. -/
theorem step_of_not_attends (h : ¬ a.attends event) : a.step ctx event = { a with turn := a.turn + 1 } := by
  rw [step, if_pos]
  by_cases hstatus : a.status = .terminated
  · exact Or.inl hstatus
  · by_cases hpanicked : a.panicked = true
    · exact Or.inr (Or.inl hpanicked)
    · rw [Bool.not_eq_true] at hpanicked
      exact Or.inr (Or.inr (by simpa using fun hready => h ⟨hstatus, hpanicked, hready⟩))

/-- **A wakeup that is not served** unwinds the task, or is passed over. -/
theorem step_of_not_serves (h : ¬ a.serves ctx event) :
    (a.attends event ∧ a.Overflows ctx event ∧
      a.step ctx event = { (a.handle ctx event.2 event.1).unwind with turn := a.turn + 1 }) ∨
    (¬ a.attends event ∧ a.step ctx event = { a with turn := a.turn + 1 }) := by
  by_cases hattends : a.attends event
  · have hover : a.Overflows ctx event := by
      by_contra hnot
      exact h ⟨hattends, hnot⟩
    exact Or.inl ⟨hattends, hover, step_of_overflows ctx hattends hover⟩
  · exact Or.inr ⟨hattends, step_of_not_attends ctx hattends⟩

@[simp] theorem turn_step (a : Actor) (event : Wakeup × Env) : (a.step ctx event).turn = a.turn + 1 := rfl

theorem run_append (schedule : List (Wakeup × Env)) (event : Wakeup × Env) :
    run ctx (schedule ++ [event]) = (run ctx schedule).step ctx event := by
  rw [run, run, List.foldl_append]
  rfl

/-! ## A task that is gone -/

theorem panicked_step_of_serves (h : a.serves ctx event) : (a.step ctx event).panicked = false := by
  rw [step_of_serves ctx h]
  show (a.wake ctx event.2 event.1).panicked = false
  cases hleaves : leavesLoop event.1 with
  | true =>
      rw [wake_of_leaves ctx event.2 hleaves]
      exact (panicked_setStatus a .terminated).trans h.1.2.1
  | false =>
      rw [wake_of_serves ctx h hleaves, panicked_expirePendingPublishes]
      exact h.quiet

theorem panicked_step_of_overflows (h : a.attends event) (hover : a.Overflows ctx event) :
    (a.step ctx event).panicked = true := by
  rw [step_of_overflows ctx h hover]
  exact (panicked_handle ctx event.2 a event.1 h.2.2).mpr (Or.inr hover)

/-- After a panic the task owns nothing. -/
theorem unwound_run (past : List (Wakeup × Env)) (h : (run ctx past).panicked = true) :
    (run ctx past).unwind = run ctx past := by
  induction past using List.reverseRecOn with
  | nil => cases h
  | append_singleton past event ih =>
      rw [run_append] at h ⊢
      by_cases hserves : (run ctx past).serves ctx event
      · rw [panicked_step_of_serves ctx hserves] at h
        cases h
      · rcases step_of_not_serves ctx hserves with ⟨_, _, hunwound⟩ | ⟨_, hidle⟩
        · rw [hunwound]
          rfl
        · rw [hidle] at h ⊢
          exact congrArg (fun b : Actor => { b with turn := (run ctx past).turn + 1 }) (ih h)

end Actor

end Nula.Relay
