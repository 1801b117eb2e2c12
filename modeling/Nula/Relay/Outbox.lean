import Nula.Relay.Wire

/-!
# `Relay.Outbox` — the publish side of the actor

What an arm does to the publishes that wait for their `OK`, and to the replies signalled so far, apart from
sockets and subscriptions. `Actor.outbox` projects this side out; `OutboxStep` says what one arm may do to it,
and `outboxStep_handle` that no arm does anything else. The last part follows one reply slot through a
settlement and through the expiry sweep.
-/

namespace Nula.Relay

open Std

/-! ## The publish side -/

/-- An observation that signals a reply slot. -/
def Obs.isReply : Obs → Bool
  | .reply _ _ => true
  | _ => false

/-- The turn, the waiting publishes, and the replies with their turns. -/
structure Outbox where
  turn : Nat
  pending : HashMap EventId PendingPublish
  replies : List (Nat × Obs)

/-- The signals of one reply slot, with their turns. -/
def repliesTo (slot : Nat) (log : List (Nat × Obs)) : List (Nat × Except Error Unit) :=
  log.filterMap (fun x => match x.2 with
    | .reply s result => if s = slot then some (x.1, result) else none
    | _ => none)

theorem repliesTo_append (slot : Nat) (log more : List (Nat × Obs)) :
    repliesTo slot (log ++ more) = repliesTo slot log ++ repliesTo slot more := List.filterMap_append

@[simp] theorem repliesTo_self (slot turn : Nat) (result : Except Error Unit) :
    repliesTo slot [(turn, .reply slot result)] = [(turn, result)] := by
  simp [repliesTo]

/-- An answer to another slot is none to this one. -/
theorem repliesTo_other {slot other turn : Nat} (h : other ≠ slot) (result : Except Error Unit) :
    repliesTo slot [(turn, .reply other result)] = [] := by
  simp [repliesTo, h]

namespace Outbox

/-- Signal a slot. -/
def reply (slot : Nat) (result : Except Error Unit) (o : Outbox) : Outbox :=
  { o with replies := o.replies ++ [(o.turn, .reply slot result)] }

/-- Let a publish wait under its event's id. -/
def insert (id : EventId) (pending : PendingPublish) (o : Outbox) : Outbox :=
  { o with pending := o.pending.insert id pending }

/-- Take a waiting publish out and signal its slot. -/
def settle (id : EventId) (result : PendingPublish → Except Error Unit) (o : Outbox) : Outbox :=
  match o.pending[id]? with
  | none => o
  | some p => ({ o with pending := o.pending.erase id }).reply p.reply (result p)

/-- The expiry of the given ids. -/
def expire (ids : List EventId) (o : Outbox) : Outbox :=
  ids.foldl (fun o id => o.settle id (fun p => .error (.publishTimeout id p.timeout))) o

end Outbox

namespace Actor

variable (ctx : StaticCtx) (env : Env)

/-- The publish side of the actor. -/
def outbox (a : Actor) : Outbox :=
  ⟨a.turn, a.state.pendingPublishes, a.log.filter (fun x => x.2.isReply)⟩

@[simp] theorem outbox_emit (a : Actor) (o : Obs) (h : o.isReply = false) : (a.emit o).outbox = a.outbox := by
  simp [emit, outbox, h]

@[simp] theorem outbox_reply (a : Actor) (slot : Nat) (result : Except Error Unit) :
    (a.emit (.reply slot result)).outbox = a.outbox.reply slot result := by
  simp [emit, outbox, Obs.isReply, Outbox.reply]

@[simp] theorem outbox_answer (a : Actor) (result : Except Error Unit) :
    (a.answer result).outbox = a.outbox.reply a.turn result := outbox_reply a a.turn result

@[simp] theorem outbox_setStatus (a : Actor) (new : RelayStatus) : (a.setStatus new).outbox = a.outbox := by
  rw [setStatus]
  split
  · rfl
  · rw [outbox_emit _ _ rfl]
    rfl

@[simp] theorem outbox_register (a : Actor) (id : SubscriptionId) (entry : SubscriptionEntry) :
    (a.register id entry).outbox = a.outbox := rfl

@[simp] theorem outbox_unregister (a : Actor) (id : SubscriptionId) :
    (a.unregister id).outbox = a.outbox := rfl

@[simp] theorem outbox_send (a : Actor) (socket : Nat) (message : ClientMessage) :
    (a.send env socket message).2.outbox = a.outbox := by
  rw [send]
  split
  · rfl
  · exact outbox_emit _ _ rfl

@[simp] theorem outbox_sendIfLive (a : Actor) (message : ClientMessage) :
    (a.sendIfLive env message).2.outbox = a.outbox := by
  rw [sendIfLive]
  split
  · rfl
  · exact outbox_send env a _ message

@[simp] theorem outbox_sendConnected (a : Actor) (message : ClientMessage) :
    (a.sendConnected env message).2.outbox = a.outbox := by
  rw [sendConnected]
  split
  · rfl
  · exact outbox_send env a _ message

@[simp] theorem outbox_forward (a : Actor) (id : SubscriptionId) (item : SubscriptionItem) :
    (a.forward id item).outbox = a.outbox := by
  rw [forward]
  split
  · rfl
  · exact outbox_emit _ _ rfl

@[simp] theorem outbox_settle (a : Actor) (id : EventId) (result : PendingPublish → Except Error Unit) :
    (a.settle id result).outbox = a.outbox.settle id result := by
  rw [settle, Outbox.settle]
  show _ = match a.state.pendingPublishes[id]? with
    | none => a.outbox
    | some p => _
  cases a.state.pendingPublishes[id]? with
  | none => rfl
  | some p => exact outbox_reply _ _ _

/-- The ids the sweep expires. -/
def timedOut (a : Actor) : List EventId :=
  ((a.state.pendingPublishes.iter env.publishOrder).filter
    (fun entry => entry.2.deadline ≤ env.sweptAt)).map Prod.fst

/-- What has timed out waits with a deadline that has passed. -/
theorem mem_timedOut {a : Actor} {id : EventId} :
    id ∈ a.timedOut env ↔ ∃ p, a.state.pendingPublishes[id]? = some p ∧ p.deadline ≤ env.sweptAt := by
  rw [timedOut, List.mem_map]
  constructor
  · rintro ⟨⟨k, p⟩, hmem, rfl⟩
    obtain ⟨hiter, hdue⟩ := List.mem_filter.mp hmem
    exact ⟨p, HashMap.mem_iter.mp hiter, by simpa using hdue⟩
  · rintro ⟨p, hp, hdue⟩
    exact ⟨(id, p), List.mem_filter.mpr ⟨HashMap.mem_iter.mpr hp, by simpa using hdue⟩, rfl⟩

/-- **The sweep** answers what has timed out, and keeps the rest. -/
theorem outbox_expirePendingPublishes (a : Actor) :
    (a.expirePendingPublishes env).outbox = a.outbox.expire (a.timedOut env) := by
  have hfold : ∀ (ids : List EventId) (b : Actor),
      (ids.foldl expireOne b).outbox = b.outbox.expire ids := by
    intro ids
    induction ids with
    | nil => exact fun b => rfl
    | cons id ids ih =>
        intro b
        rw [List.foldl_cons, ih, expireOne, outbox_settle]
        rfl
  exact hfold _ a

@[simp] theorem outbox_reissueSubscriptions (a : Actor) :
    (a.reissueSubscriptions env).outbox = a.outbox := by
  have hfold : ∀ (socket : Nat) (entries : List (SubscriptionId × SubscriptionEntry)) (b : Actor),
      (entries.foldl (reissueOne env socket) b).outbox = b.outbox := by
    intro socket entries
    induction entries with
    | nil => exact fun b => rfl
    | cons entry entries ih =>
        intro b
        rw [List.foldl_cons, ih, reissueOne]
        split
        · rfl
        · exact outbox_send env b socket _
  rw [reissueSubscriptions]
  split
  · rfl
  · exact hfold _ _ a

@[simp] theorem outbox_performConnect (a : Actor) : (a.performConnect ctx env).2.outbox = a.outbox := by
  rw [performConnect]
  cases env.handshake with
  | failed text => simp
  | timedOut => simp
  | opened =>
      show (((a.setStatus .connecting).openSocket).setStatus .connected).outbox = _
      rw [outbox_setStatus]
      exact outbox_setStatus a .connecting

/-- Why a publish is refused at once. -/
inductive Refusal (a : Actor) (event : Event) : Error → Prop where
  | notConnected (h : a.state.isConnected = false) : Refusal a event .notConnected
  | tooMany (h : ctx.options.limits.maxPendingPublishes ≤ a.state.pendingPublishes.size) :
      Refusal a event (.tooManyPendingPublishes ctx.options.limits.maxPendingPublishes)
  | refused {err : Error} (h : env.refuses (.event event) = some err) : Refusal a event err

theorem Refusal.not_accepts {a : Actor} {event : Event} {err : Error}
    (h : Refusal ctx env a event err) : ¬ a.accepts ctx env event := by
  rintro ⟨hup, hroom, hok⟩
  cases h with
  | notConnected hdown => rw [hup] at hdown; cases hdown
  | tooMany hfull => omega
  | refused hrefuse => rw [hrefuse] at hok; cases hok

/-- **A publish** is refused and answered, or accepted and filed under its event id, unless its deadline
    overflows. -/
theorem outbox_handlePublish (a : Actor) (event : Event) (options : PublishOptions) :
    (∃ err, Refusal ctx env a event err ∧
      (a.handlePublish ctx env event options).outbox = a.outbox.reply a.turn (.error err)) ∨
    a.accepts ctx env event ∧
      match env.now.checkedAdd (publishTimeout ctx options) with
      | none => (a.handlePublish ctx env event options).outbox = a.outbox
      | some deadline => (a.handlePublish ctx env event options).outbox =
          a.outbox.insert event.id ⟨a.turn, deadline, publishTimeout ctx options⟩ := by
  rw [handlePublish]
  by_cases hup : a.state.isConnected = true
  · by_cases hfull : ctx.options.limits.maxPendingPublishes ≤ a.state.pendingPublishes.size
    · refine Or.inl ⟨_, .tooMany hfull, ?_⟩
      simp [hup, hfull]
    · have hsink : a.state.sink.isSome = true := (Bool.and_eq_true_iff.mp hup).1
      obtain ⟨socket, hsocket⟩ := Option.isSome_iff_exists.mp hsink
      cases hrefuse : env.refuses (.event event) with
      | some err =>
          refine Or.inl ⟨err, .refused hrefuse, ?_⟩
          simp [hup, hfull, sendIfLive, hsocket, send, hrefuse]
      | none =>
          refine Or.inr ⟨⟨hup, Nat.lt_of_not_le hfull, hrefuse⟩, ?_⟩
          rw [publishTimeout]
          cases hdeadline : env.now.checkedAdd (options.timeout.getD ctx.options.publishTimeout) with
          | none =>
              simp [hup, hfull, sendIfLive, hsocket, send, hrefuse, hdeadline, outbox, panic, emit, Obs.isReply]
          | some deadline =>
              simp [hup, hfull, sendIfLive, hsocket, send, hrefuse, hdeadline, outbox, Outbox.insert, emit,
                Obs.isReply]
  · rw [Bool.not_eq_true] at hup
    refine Or.inl ⟨_, .notConnected hup, ?_⟩
    simp [hup]

/-- What an arm that does not panic does to the publish side, before the sweep. -/
inductive OutboxStep (a : Actor) : Wakeup → Outbox → Prop where
  | quiet {w : Wakeup} (h : ∀ event options, w ≠ .command (.publish event options)) :
      OutboxStep a w a.outbox
  | answered {w : Wakeup} {result : Except Error Unit}
      (h : ∀ event options, w ≠ .command (.publish event options)) :
      OutboxStep a w (a.outbox.reply a.turn result)
  | refused {event : Event} {options : PublishOptions} {err : Error} (h : Refusal ctx env a event err) :
      OutboxStep a (.command (.publish event options)) (a.outbox.reply a.turn (.error err))
  | accepted {event : Event} {options : PublishOptions} {deadline : Instant} (h : a.accepts ctx env event)
      (hdeadline : env.now.checkedAdd (publishTimeout ctx options) = some deadline) :
      OutboxStep a (.command (.publish event options)) (a.outbox.insert event.id
        ⟨a.turn, deadline, publishTimeout ctx options⟩)
  | acknowledged {w : Wakeup} {s : Nat} {id : EventId} {accepted : Bool} {message : String}
      (h : a.reads ctx w = some (s, .ok id accepted message)) :
      OutboxStep a w (a.outbox.settle id (fun _ =>
        if accepted then .ok () else .error (.publishRejected id message)))

/-- The slot of a command belongs to its turn. -/
theorem outbox_answer_of {a b : Actor} (h : b.outbox = a.outbox) (result : Except Error Unit) :
    (b.answer result).outbox = a.outbox.reply a.turn result := by
  have hturn : b.turn = a.turn := congrArg Outbox.turn h
  rw [outbox_answer, h, hturn]

/-- A subscription command is answered and leaves the publishes alone. -/
theorem outbox_handleSubscribe (a : Actor) (id : SubscriptionId) (filters : List Filter)
    (options : SubscribeOptions) : ∃ result,
      (a.handleSubscribe ctx env id filters options).outbox = a.outbox.reply a.turn result := by
  rw [handleSubscribe]
  split
  · exact ⟨_, outbox_answer a _⟩
  · split
    · exact ⟨_, outbox_answer a _⟩
    · exact ⟨_, outbox_answer_of (outbox_sendIfLive env _ _) _⟩

theorem outbox_handleSubscribeNeg (a : Actor) (id : SubscriptionId) (filter : Filter) (hex : String) :
    ∃ result, (a.handleSubscribeNeg ctx env id filter hex).outbox = a.outbox.reply a.turn result := by
  rw [handleSubscribeNeg]
  split
  · exact ⟨_, outbox_answer a _⟩
  · split
    · exact ⟨_, outbox_answer a _⟩
    · have hbox := outbox_sendConnected env (a.register id ⟨[filter], .new, a.turn, true⟩)
        (.negOpen id filter hex)
      dsimp only
      cases hs : (a.register id ⟨[filter], .new, a.turn, true⟩).sendConnected env (.negOpen id filter hex) with
      | mk result b =>
          rw [hs] at hbox
          have hbox' : b.outbox = a.outbox := hbox
          cases result with
          | error err => exact ⟨_, outbox_answer_of (b := b.unregister id) hbox' _⟩
          | ok u => exact ⟨_, outbox_answer_of hbox' _⟩

theorem outbox_handleConnect (a : Actor) : ∃ result,
    (a.handleConnect ctx env).outbox = a.outbox.reply a.turn result := by
  rw [handleConnect]
  split
  · exact ⟨_, outbox_answer a _⟩
  · have hbox := outbox_performConnect ctx env a
    cases hp : a.performConnect ctx env with
    | mk result b =>
        rw [hp] at hbox
        cases result with
        | error err => exact ⟨_, outbox_answer_of hbox _⟩
        | ok u => exact ⟨_, outbox_answer_of ((outbox_reissueSubscriptions env b).trans hbox) _⟩

@[simp] theorem outbox_rearm (a : Actor) : (a.rearm ctx env).outbox = a.outbox := by
  rw [rearm]
  split <;> rfl

theorem outbox_handleReconnect (a : Actor) : (a.handleReconnect ctx env).outbox = a.outbox := by
  have hrun : (({ a with reconnectDeadline := none }).runReconnect ctx env).outbox = a.outbox := by
    rw [runReconnect]
    generalize hb : ({ ({ a with reconnectDeadline := none } : Actor) with state := _ } : Actor) = b
    have hsame : b.outbox = a.outbox := by
      subst hb
      rfl
    have hbox := (outbox_performConnect ctx env b).trans hsame
    cases hp : b.performConnect ctx env with
    | mk result c =>
        rw [hp] at hbox
        cases result with
        | error err => exact hbox
        | ok u => exact (outbox_reissueSubscriptions env c).trans hbox
  rw [handleReconnect]
  split
  · exact (outbox_rearm ctx env _).trans hrun
  · exact hrun

/-- **Of the relay's messages only `OK` answers**, and what waits under its event id. -/
theorem outbox_dispatchRelayMessage (a : Actor) (message : RelayMessage) :
    (a.dispatchRelayMessage message).outbox =
      match message with
      | .ok id accepted text => a.outbox.settle id (fun _ =>
          if accepted then .ok () else .error (.publishRejected id text))
      | _ => a.outbox := by
  cases message with
  | event id event => exact outbox_forward a id _
  | endOfStoredEvents id =>
      simp only [dispatchRelayMessage]
      cases a.state.subscriptions[id]? with
      | none => rfl
      | some entry =>
          have hitem := outbox_emit a (.item entry.sink .endOfStoredEvents) rfl
          by_cases hclose : entry.options.closeOnEose = true
          · simp [hclose, hitem]
          · simp [hclose, hitem]
  | closed id text => simp [dispatchRelayMessage]
  | ok id accepted text => exact outbox_settle a id _
  | notice text => exact outbox_emit _ _ rfl
  | auth challenge => exact outbox_emit _ _ rfl
  | count id n => rfl
  | negMsg id text => exact outbox_forward a id _
  | negErr id text => simp [dispatchRelayMessage]

/-- A frame does at most what the message in it does. A frame that is not read does nothing, and of those that are,
    only an `OK` reaches the publishes. -/
theorem outboxStep_handleInbound (a : Actor) (frame : Option (Except Error Message)) :
    OutboxStep ctx env a (.inbound frame) (a.handleInbound ctx env frame).outbox := by
  have hquiet : ∀ o, o = a.outbox → OutboxStep ctx env a (.inbound frame) o := by
    rintro o rfl
    exact .quiet (by simp)
  have hdrop : (a.handleDisconnect.rearm ctx env).outbox = a.outbox :=
    (outbox_rearm ctx env _).trans (outbox_setStatus a.dropSocket .disconnected)
  rw [handleInbound]
  cases hsocket : a.state.stream with
  | none => exact hquiet _ rfl
  | some socket =>
      cases frame with
      | none => exact hquiet _ hdrop
      | some frame =>
          cases frame with
          | error err => exact hquiet _ hdrop
          | ok message =>
              cases message with
              | binary payload => exact hquiet _ rfl
              | ping payload => exact hquiet _ rfl
              | pong payload => exact hquiet _ rfl
              | close => exact hquiet _ hdrop
              | text text =>
                  simp only [handleFrame, handleTextFrame]
                  by_cases hlong : ctx.options.limits.maxMessageBytes < text.utf8ByteSize
                  · simp only [hlong, if_true]
                    exact hquiet _ rfl
                  · cases hparse : ctx.parse text with
                    | none =>
                        simp only [hlong, if_false]
                        exact hquiet _ rfl
                    | some message =>
                        simp only [hlong, if_false]
                        rw [outbox_dispatchRelayMessage, outbox_emit _ _ rfl]
                        cases message with
                        | ok id accepted text' =>
                            apply OutboxStep.acknowledged (s := socket)
                            simp [reads, hsocket, hlong, hparse]
                        | event id event => exact hquiet _ rfl
                        | endOfStoredEvents id => exact hquiet _ rfl
                        | closed id text' => exact hquiet _ rfl
                        | notice text' => exact hquiet _ rfl
                        | auth challenge => exact hquiet _ rfl
                        | count id n => exact hquiet _ rfl
                        | negMsg id text' => exact hquiet _ rfl
                        | negErr id text' => exact hquiet _ rfl

/-- **The publish side of one arm.** One case for each wakeup, each with the lemma on what its arm does to the
    outbox. -/
theorem outboxStep_handle (a : Actor) (w : Wakeup) (hquick : ¬ a.Overflows ctx (w, env)) :
    OutboxStep ctx env a w (a.handle ctx env w).outbox := by
  have hquiet : ∀ o, (∀ event options, w ≠ .command (.publish event options)) → o = a.outbox →
      OutboxStep ctx env a w o := by
    rintro o hw rfl
    exact .quiet hw
  have hanswer : ∀ o, (∀ event options, w ≠ .command (.publish event options)) →
      (∃ result, o = a.outbox.reply a.turn result) → OutboxStep ctx env a w o := by
    rintro o hw ⟨result, rfl⟩
    exact .answered hw
  -- only a publish and a frame read touch the waiting publishes
  cases w with
  | commandsClosed => exact hquiet _ (by simp) rfl
  | publishTimer => exact hquiet _ (by simp) rfl
  | reconnectTimer => exact hquiet _ (by simp) (outbox_handleReconnect ctx env a)
  | inbound frame => exact outboxStep_handleInbound ctx env a frame
  | closeSignal id =>
      refine hquiet _ (by simp) ?_
      show (a.handleDropSubscription env id).outbox = _
      rw [handleDropSubscription]
      split
      · rw [outbox_sendIfLive, outbox_unregister]
      · rfl
  | command cmd =>
      cases cmd with
      | shutdown => exact hquiet _ (by simp) rfl
      | connect => exact hanswer _ (by simp) (outbox_handleConnect ctx env a)
      | disconnect =>
          refine hanswer _ (by simp) ⟨.ok (), ?_⟩
          exact outbox_answer_of (b := { a.handleDisconnect with reconnectDeadline := none })
            (outbox_setStatus a.dropSocket .disconnected) _
      | subscribe id filters options =>
          exact hanswer _ (by simp) (outbox_handleSubscribe ctx env a id filters options)
      | subscribeNeg id filter hex =>
          exact hanswer _ (by simp) (outbox_handleSubscribeNeg ctx env a id filter hex)
      | authenticate event =>
          refine hanswer _ (by simp) ⟨(a.sendConnected env (.auth event)).1, ?_⟩
          exact outbox_answer_of (outbox_sendConnected env a _) _
      | sendMsg message =>
          refine hanswer _ (by simp) ⟨(a.sendConnected env message).1, ?_⟩
          exact outbox_answer_of (outbox_sendConnected env a _) _
      | publish event options =>
          rcases outbox_handlePublish ctx env a event options with ⟨err, hrefused, hbox⟩ | ⟨hacc, hbox⟩
          · show OutboxStep ctx env a _ (a.handlePublish ctx env event options).outbox
            rw [hbox]
            exact .refused hrefused
          · show OutboxStep ctx env a _ (a.handlePublish ctx env event options).outbox
            cases hdeadline : env.now.checkedAdd (publishTimeout ctx options) with
            | none => exact absurd ⟨hacc, hdeadline⟩ hquick
            | some deadline =>
                rw [hdeadline] at hbox
                rw [hbox]
                exact .accepted hacc hdeadline

/-- An arm that panics has signalled no slot. The three places that add to a clock stand before any reply: a publish
    that is accepted, a frame that hangs up, and a retry. -/
theorem outbox_handle_of_overflows (a : Actor) (w : Wakeup) (h : a.Overflows ctx (w, env)) :
    (a.handle ctx env w).outbox = a.outbox := by
  unfold Overflows at h
  split at h
  · rename_i event options env hevent
    cases hevent
    rcases outbox_handlePublish ctx env a event options with ⟨err, hrefused, _⟩ | ⟨_, hbox⟩
    · exact absurd h.1 hrefused.not_accepts
    · rw [h.2] at hbox
      exact hbox
  · rename_i frame env hevent
    cases hevent
    have hdrop : (a.handleDisconnect.rearm ctx env).outbox = a.outbox :=
      (outbox_rearm ctx env _).trans (outbox_setStatus a.dropSocket .disconnected)
    show (a.handleInbound ctx env frame).outbox = _
    rw [handleInbound]
    cases a.state.stream with
    | none => rfl
    | some socket =>
        have hhangs := h.1
        rcases frame with _ | err | message
        · exact hdrop
        · exact hdrop
        cases message with
        | close => exact hdrop
        | _ => cases hhangs
  · rename_i env hevent
    cases hevent
    exact outbox_handleReconnect ctx env a
  · exact h.elim

end Actor

/-! ## Slots -/

namespace Outbox

variable {o : Outbox}

/-- Signalling a slot is one answer more for it, and none for another. -/
theorem repliesTo_reply (slot other : Nat) (result : Except Error Unit) :
    repliesTo slot (o.reply other result).replies =
      repliesTo slot o.replies ++ if other = slot then [(o.turn, result)] else [] := by
  rw [reply, repliesTo_append]
  split
  · rename_i h
    rw [h, repliesTo_self]
  · rename_i h
    rw [repliesTo_other h]

/-- The publish that waits in this slot, if there is one, has this id. -/
def Owns (o : Outbox) (slot : Nat) (id : EventId) : Prop :=
  ∀ (k : EventId) p, o.pending[k]? = some p → p.reply = slot → k = id

/-- No publish waits in this slot. -/
def Vacant (o : Outbox) (slot : Nat) : Prop := ∀ (k : EventId) p, o.pending[k]? = some p → p.reply ≠ slot

@[simp] theorem turn_settle (o : Outbox) (id : EventId) (f : PendingPublish → Except Error Unit) :
    (o.settle id f).turn = o.turn := by
  rw [settle]
  split <;> rfl

/-- Nothing new waits after a settlement. -/
theorem pending_settle {id k : EventId} {f : PendingPublish → Except Error Unit} {p : PendingPublish}
    (h : (o.settle id f).pending[k]? = some p) : o.pending[k]? = some p ∧ k ≠ id := by
  rw [settle] at h
  split at h
  · rename_i hnone
    refine ⟨h, ?_⟩
    rintro rfl
    rw [hnone] at h
    cases h
  · have h' : (o.pending.erase id)[k]? = some p := h
    rw [ExtTreeMap.getElem?_erase] at h'
    split at h'
    · cases h'
    · rename_i hne
      refine ⟨h', ?_⟩
      rintro rfl
      exact hne Std.compare_self

/-- A settlement leaves the other ids alone. -/
theorem pending_settle_of_ne {id k : EventId} {f : PendingPublish → Except Error Unit} {p : PendingPublish}
    (h : o.pending[k]? = some p) (hne : id ≠ k) : (o.settle id f).pending[k]? = some p := by
  rw [settle]
  split
  · exact h
  · show (o.pending.erase id)[k]? = some p
    rw [ExtTreeMap.getElem?_erase, if_neg, h]
    intro hid
    exact hne (Std.compare_eq_iff_eq.mp hid)

/-- What settling one id does to a slot. -/
theorem settle_slot (slot : Nat) (id : EventId) (f : PendingPublish → Except Error Unit) :
    (∃ p, o.pending[id]? = some p ∧ p.reply = slot ∧
      repliesTo slot (o.settle id f).replies = repliesTo slot o.replies ++ [(o.turn, f p)]) ∨
    (∀ p, o.pending[id]? = some p → p.reply ≠ slot) ∧
      repliesTo slot (o.settle id f).replies = repliesTo slot o.replies := by
  rw [settle]
  cases hp : o.pending[id]? with
  | none => exact Or.inr ⟨by simp, rfl⟩
  | some p =>
      simp only
      rw [repliesTo_reply]
      by_cases hslot : p.reply = slot
      · exact Or.inl ⟨p, rfl, hslot, by rw [if_pos hslot]⟩
      · refine Or.inr ⟨?_, by rw [if_neg hslot, List.append_nil]⟩
        rintro q hq
        cases hq
        exact hslot

/-- What waits after an expiry waited before. -/
theorem pending_expire {ids : List EventId} {k : EventId} {p : PendingPublish}
    (h : (o.expire ids).pending[k]? = some p) : o.pending[k]? = some p := by
  induction ids generalizing o with
  | nil => exact h
  | cons id ids ih => exact (pending_settle (ih h)).1

/-- A slot for which nothing waits gets no answer from the sweep. -/
theorem expire_vacant (ids : List EventId) {slot : Nat} (h : o.Vacant slot) :
    repliesTo slot (o.expire ids).replies = repliesTo slot o.replies := by
  induction ids generalizing o with
  | nil => rfl
  | cons id ids ih =>
      have hstep : (o.settle id (fun p => .error (.publishTimeout id p.timeout))).Vacant slot :=
        fun k p hp => h k p (pending_settle hp).1
      refine (ih hstep).trans ?_
      rcases settle_slot (o := o) slot id
        (fun p => .error (.publishTimeout id p.timeout)) with ⟨p, hp, hslot, _⟩ | ⟨_, hsame⟩
      · exact absurd hslot (h id p hp)
      · exact hsame

/-- A waiting publish goes on waiting, or its id is expired and its slot signalled. By induction on the ids of the
    sweep: its own id, or another one, which leaves the slot alone because no other entry owns it. -/
theorem expire_waiting (ids : List EventId) {slot : Nat} {id : EventId} {p : PendingPublish}
    (hp : o.pending[id]? = some p) (hslot : p.reply = slot) (hown : o.Owns slot id) :
    (o.expire ids).pending[id]? = some p ∧
      repliesTo slot (o.expire ids).replies = repliesTo slot o.replies ∨
    id ∈ ids ∧ (o.expire ids).Vacant slot ∧
      repliesTo slot (o.expire ids).replies =
        repliesTo slot o.replies ++ [(o.turn, .error (.publishTimeout id p.timeout))] := by
  induction ids generalizing o with
  | nil => exact Or.inl ⟨hp, rfl⟩
  | cons k ids ih =>
      let f : PendingPublish → Except Error Unit := fun q => .error (.publishTimeout k q.timeout)
      show (((o.settle k f).expire ids).pending[id]? = some p ∧
          repliesTo slot ((o.settle k f).expire ids).replies = _) ∨
        _ ∧ ((o.settle k f).expire ids).Vacant slot ∧
          repliesTo slot ((o.settle k f).expire ids).replies = _
      by_cases hk : k = id
      · -- its own id: the slot is signalled, and vacant for the rest of the sweep
        subst hk
        have hvacant : (o.settle k f).Vacant slot := by
          intro j q hq hqslot
          obtain ⟨hold, hne⟩ := pending_settle hq
          exact hne (hown j q hold hqslot)
        refine Or.inr ⟨List.mem_cons_self, fun j q hq => hvacant j q (pending_expire hq), ?_⟩
        rw [expire_vacant ids hvacant]
        rcases settle_slot (o := o) slot k f with
          ⟨q, hq, _, hreplies⟩ | ⟨hnone, _⟩
        · rw [hreplies]
          rw [hp] at hq
          cases hq
          rfl
        · exact absurd hslot (hnone p hp)
      · -- another id: the publish waits on under the induction hypothesis
        have hsame : repliesTo slot (o.settle k f).replies = repliesTo slot o.replies := by
          rcases settle_slot (o := o) slot k f with
            ⟨q, hq, hqslot, _⟩ | ⟨_, hsame⟩
          · exact absurd (hown k q hq hqslot) hk
          · exact hsame
        have hp' : (o.settle k f).pending[id]? = some p := pending_settle_of_ne hp hk
        have hown' : (o.settle k f).Owns slot id := fun j q hq => hown j q (pending_settle hq).1
        rcases ih hp' hown' with ⟨hwait, hreplies⟩ | ⟨hmem, hvacant, hreplies⟩
        · exact Or.inl ⟨hwait, hreplies.trans hsame⟩
        · exact Or.inr ⟨List.mem_cons_of_mem _ hmem, hvacant, by rw [hreplies, hsame, turn_settle]⟩

end Outbox

end Nula.Relay
