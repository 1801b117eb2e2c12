import Nula.Core.MessageJson
import Nula.Relay.Handles
import Nula.Server.Gate

/-!
# `Session` — a reconciliation session at both ends

The client actor, connected to the server's handler by a channel that keeps the order of frames. A session
opened with `subscribe_neg` is an entry of the client's subscription map and of the server's `neg_sessions`.
Dropping its handle makes the client write `CLOSE` (`handle_drop_subscription`), which the server takes for the
end of a `REQ` subscription: only `NEG-CLOSE`, a failed reconciliation or the end of the connection take the
entry out of `neg_sessions`. So a session is over at both ends when something else than the drop of its handle
has ended it at the server (`sessions_end`).

What the client reads is left open: any frames, in any order.
-/

namespace Nula

open Std

/-! ## What the server holds -/

namespace Server.Connection

variable {N : Negentropy} {c : Connection N} {ctx : ConnectionContext} {env : Env} {id : SubscriptionId}

/-- The handler still runs and has a session under this id. -/
def Holds (id : SubscriptionId) (c : Connection N) : Prop := c.isOpen = true ∧ id ∈ c.negSessions

instance : Decidable (c.Holds id) := inferInstanceAs (Decidable (_ ∧ _))

theorem negSessions_send {m : RelayMessage} : (c.send env m).left.negSessions = c.negSessions :=
  push_unwritten unwritten_negSessions _ _

theorem handleNegOpen_negSessions {k : SubscriptionId} {filter : Filter} {hex : String}
    (h : id ∈ (c.handleNegOpen ctx env k filter hex).left.negSessions) : id ∈ c.negSessions ∨ id = k := by
  have hrefused : ∀ {d : Connection N} {category : MachineReadablePrefix} {detail : String},
      d.negSessions = c.negSessions → id ∈ (d.sendNegErr env k category detail).left.negSessions →
      id ∈ c.negSessions ∨ id = k := by
    intro d category detail hd hmem
    rw [sendNegErr, negSessions_send, hd] at hmem
    exact .inl hmem
  rw [handleNegOpen] at h
  split at h
  · exact hrefused rfl h
  split at h
  · exact hrefused rfl h
  split at h
  · exact hrefused rfl h
  rename_i f _
  have hlisted : (c.emit (.listed f)).negSessions = c.negSessions := rfl
  dsimp only at h
  split at h
  · exact hrefused hlisted h
  split at h
  · exact hrefused hlisted h
  split at h
  · exact hrefused hlisted h
  · rw [negSessions_send] at h
    rcases ExtTreeMap.mem_insert.mp h with heq | hold
    · exact .inr (compare_eq_iff_eq.mp heq).symm
    · exact .inl hold

theorem handleNegMsg_negSessions {k : SubscriptionId} {hex : String}
    (h : id ∈ (c.handleNegMsg env k hex).left.negSessions) : id ∈ c.negSessions := by
  rw [handleNegMsg] at h
  split at h
  · rwa [sendNegErr, negSessions_send] at h
  rename_i session hsession
  split at h
  · rw [sendNegErr, negSessions_send] at h
    exact (ExtTreeMap.mem_erase.mp h).2
  · rw [negSessions_send] at h
    rcases ExtTreeMap.mem_insert.mp h with heq | hold
    · rw [← compare_eq_iff_eq.mp heq, ← ExtTreeMap.isSome_getElem?_iff_mem, hsession]
      rfl
    · exact hold

/-- A message leaves a session under `id` only if there was one and it is no `NEG-CLOSE` for it, or if it is a
    `NEG-OPEN` for it. -/
theorem dispatch_negSessions {message : ClientMessage}
    (h : id ∈ (c.dispatch ctx env message).left.negSessions) :
    id ∈ c.negSessions ∧ message ≠ .negClose id ∨ ∃ filter hex, message = .negOpen id filter hex := by
  cases message with
  | event event =>
      rw [show (c.dispatch ctx env (.event event)).left.negSessions = c.negSessions from
        handleEvent_unwritten unwritten_negSessions (fun _ _ => rfl) event c] at h
      exact .inl ⟨h, by rintro ⟨⟩⟩
  | req k filters =>
      rw [show (c.dispatch ctx env (.req k filters)).left.negSessions = c.negSessions from
        handleReq_unwritten unwritten_negSessions (fun _ _ => rfl) k filters c] at h
      exact .inl ⟨h, by rintro ⟨⟩⟩
  | close k => exact .inl ⟨h, by rintro ⟨⟩⟩
  | auth event =>
      rw [show (c.dispatch ctx env (.auth event)).left.negSessions = c.negSessions from
        handleAuth_unwritten unwritten_negSessions (fun _ _ => rfl) event c] at h
      exact .inl ⟨h, by rintro ⟨⟩⟩
  | count k filter =>
      rw [show (c.dispatch ctx env (.count k filter)).left.negSessions = c.negSessions from negSessions_send] at h
      exact .inl ⟨h, by rintro ⟨⟩⟩
  | negOpen k filter hex =>
      rcases handleNegOpen_negSessions h with hold | rfl
      · exact .inl ⟨hold, by rintro ⟨⟩⟩
      · exact .inr ⟨filter, hex, rfl⟩
  | negMsg k hex => exact .inl ⟨handleNegMsg_negSessions h, by rintro ⟨⟩⟩
  | negClose k =>
      obtain ⟨hne, hold⟩ := ExtTreeMap.mem_erase.mp (show id ∈ c.negSessions.erase k from h)
      refine .inl ⟨hold, ?_⟩
      rintro ⟨⟩
      exact hne compare_self

/-- The same of a wakeup that brings a message, whatever its gates say. -/
theorem step_received_negSessions {w : Wakeup × Env} {message : ClientMessage}
    (hreceived : received ctx c w.1 = some message) (h : id ∈ (c.step ctx w).negSessions) :
    id ∈ c.negSessions ∧ message ≠ .negClose id ∨ ∃ filter hex, message = .negOpen id filter hex := by
  rw [step_received hreceived] at h
  have hsettled : id ∈ (({ c with attempts := 0 } : Connection N).handleMessage ctx w.2 message).left.negSessions := by
    rw [← settled_unwritten unwritten_negSessions _ (c.turn + 1)]
    exact h
  cases hpasses : passes ctx w.2 { c with attempts := 0 } message with
  | true =>
      rw [handleMessage_passes hpasses] at hsettled
      exact dispatch_negSessions (c := { c with attempts := 0, rate := _ }) hsettled
  | false =>
      obtain ⟨rate, refusal, hrefusal, hstopped⟩ := handleMessage_stopped hpasses
      rw [hstopped] at hsettled
      have hkept : id ∈ c.negSessions := by
        rw [← show (({ c with attempts := 0, rate := rate } : Connection N).pushAnyway w.2
          (.text refusal)).negSessions = c.negSessions from push_unwritten unwritten_negSessions _ _]
        exact hsettled
      refine .inl ⟨hkept, ?_⟩
      -- a `NEG-CLOSE` is neither gated nor limited
      rintro rfl
      have hpass : passes ctx w.2 ({ c with attempts := 0 } : Connection N) (.negClose id) = true := by
        simp [passes, messageNeedsAuth, RateLimiter.check]
      rw [hpass] at hpasses
      cases hpasses

/-- A `CLOSE` does nothing to the sessions. -/
theorem holds_close {k : SubscriptionId} {text : String} (h : c.Holds id)
    (hdecodes : ∀ message, ctx.fromJson text = .ok message → message = .close k) :
    (c.step ctx (.inbound (some (.ok (.text text))), env)).Holds id := by
  obtain ⟨hopen, hmem⟩ := h
  rw [step, if_pos hopen]
  show (settled (handleInboundFrame ctx env (some (.ok (.text text))) { c with attempts := 0 })).Holds id
  unfold handleInboundFrame
  dsimp only
  split
  · exact ⟨hopen, hmem⟩
  · split
    · refine ⟨?_, ?_⟩
      · show (pushAnyway env _ _).isOpen = true
        rw [pushAnyway, push]
        split
        · exact hopen
        · exact hopen
      · show id ∈ (pushAnyway env _ _).negSessions
        rw [pushAnyway, push_unwritten unwritten_negSessions]
        exact hmem
    · rename_i message hjson
      rw [hdecodes message hjson, handleMessage_passes]
      · exact ⟨hopen, hmem⟩
      · simp [passes, messageNeedsAuth, RateLimiter.check]

end Server.Connection

/-! ## Frames about a session -/

/-- Whether the server may hold a session under `id` behind this item, where `held` says so before it. -/
def trackSession (id : SubscriptionId) (held : Bool) : Option ClientMessage → Bool
  | none => false
  | some (.negOpen k _ _) => held || decide (k = id)
  | some (.negClose k) => held && decide (k ≠ id)
  | some _ => held

/-- The filter of a `NEG-OPEN` does not matter. -/
theorem trackSession_bare {id : SubscriptionId} {held : Bool} (message : ClientMessage) :
    trackSession id held (some message.bare) = trackSession id held (some message) := by
  cases message <;> rfl

/-- A `NEG-OPEN` for `id`. -/
def opensSession (id : SubscriptionId) : ClientMessage → Bool
  | .negOpen k _ _ => decide (k = id)
  | _ => false

theorem trackSession_mono {id : SubscriptionId} {held held' : Bool} (h : held = true → held' = true)
    (item : Option ClientMessage) (ht : trackSession id held item = true) : trackSession id held' item = true := by
  cases held with
  | true => rwa [h rfl]
  | false =>
      cases item with
      | none => cases ht
      | some message =>
          cases message with
          | negOpen k filter hex =>
              have hk : decide (k = id) = true := ht
              rw [trackSession, hk, Bool.or_true]
          | negClose k => cases ht
          | _ => cases ht

theorem foldl_trackSession_mono {id : SubscriptionId} {held held' : Bool} (h : held = true → held' = true)
    (items : List (Option ClientMessage)) (ht : items.foldl (trackSession id) held = true) :
    items.foldl (trackSession id) held' = true := by
  induction items generalizing held held' with
  | nil => exact h ht
  | cons item items ih => exact ih (trackSession_mono h item) ht

/-- Without a `NEG-OPEN` no session comes up. -/
theorem foldl_trackSession_false {id : SubscriptionId} {messages : List ClientMessage}
    (h : ∀ message ∈ messages, opensSession id message = false) :
    (messages.map some).foldl (trackSession id) false = false := by
  induction messages with
  | nil => rfl
  | cons message messages ih =>
      have hhead : trackSession id false (some message) = false := by
        cases message with
        | negOpen k filter hex => exact h _ List.mem_cons_self
        | _ => rfl
      rw [List.map_cons, List.foldl_cons, hhead]
      exact ih (fun m hm => h m (List.mem_cons_of_mem _ hm))

namespace Relay

/-- The frame an observation shows on its way out. -/
def Obs.written : Obs → Option ClientMessage
  | .sent _ message => some message
  | _ => none

namespace Actor

/-- The frames written between `a` and `a'`. -/
def writtenSince (a a' : Actor) : List ClientMessage :=
  (a'.wire.frames.drop a.wire.frames.length).filterMap (fun x => x.2.written)

/-- No `NEG-OPEN` under the id of this handle was written after its own. -/
def NotReopened (a : Actor) (handle : Handle) : Prop :=
  ∀ x ∈ a.wire.frames, x.2.written.any (opensSession handle.id) = true → x.1 ≤ handle.slot

instance {a : Actor} {handle : Handle} : Decidable (a.NotReopened handle) :=
  inferInstanceAs (Decidable (∀ x ∈ a.wire.frames, _ → _))

end Actor

end Relay

/-! ## Both ends -/

/-- The two programs, and the JSON between them: the server reads its frames as `ClientMessage::from_json` does.
    A filter with a value twice comes back without the second, and one with a malformed value not at all. -/
structure LinkContext where
  client : Relay.StaticCtx
  server : Server.ConnectionContext
  json : JsonCodec
  reads : ∀ text, (server.fromJson text).toOption = ClientMessage.fromJson json text

/-- The client, the handler of its connection, and the frames in flight from the one to the other, where `none` is
    the end of the stream. Of the handles, those of sessions and those whose close signal was served. -/
structure Link (N : Server.Negentropy) where
  client : Relay.System
  server : Server.Connection N
  upstream : List (Option ClientMessage)
  sessions : List Relay.Handle
  ended : List Relay.Handle

/-- What happens next: something at the client (`accepted` is the server's side of a fresh connection), the server
    reads the next frame in flight, or another arm of the server's loop. -/
inductive Move where
  | client (action : Relay.Action) (accepted : Server.Env)
  | read (env : Server.Env)
  | server (wakeup : Server.Wakeup) (env : Server.Env)

namespace Link

variable {N : Server.Negentropy}

/-- Not connected yet. -/
def new (ctx : LinkContext) (first : Server.Env) : Link N :=
  ⟨.new, { Server.Connection.accept ctx.server first with isOpen := false }, [], [], []⟩

/-- What the client wrote goes on its way; a new socket has a handler of its own. -/
def deliver (ctx : LinkContext) (client : Relay.System) (accepted : Server.Env) (l : Link N) : Link N :=
  let messages := (l.client.actor.writtenSince client.actor).map some
  if client.actor.state.sink = l.client.actor.state.sink then
    { l with client := client, upstream := l.upstream ++ messages }
  else match client.actor.state.sink with
    | none => { l with client := client, upstream := l.upstream ++ [none] }
    | some _ => { l with client := client, server := .accept ctx.server accepted, upstream := messages }

/-- The handle of a session that this action hands out. -/
def opening (ctx : LinkContext) (l : Link N) : Relay.Action → Option Relay.Handle
  | .serveCommand env =>
      match l.client.commands with
      | .subscribeNeg id filter hex :: _ => l.client.grant ctx.client (.subscribeNeg id filter hex) env
      | _ => none
  | _ => none

/-- The handle of a session whose close signal this action serves. -/
def closing (l : Link N) : Relay.Action → Option Relay.Handle
  | .serveClose _ =>
      match l.client.commands, l.client.closes with
      | [], handle :: _ => if handle ∈ l.sessions then some handle else none
      | _, _ => none
  | _ => none

variable (ctx : LinkContext)

def step (l : Link N) : Move → Link N
  | .client action accepted => { l.deliver ctx (l.client.step ctx.client action) accepted with
      sessions := l.sessions ++ (l.opening ctx action).toList
      ended := l.ended ++ (l.closing action).toList }
  | .read env =>
      match l.upstream with
      | [] => l
      | item :: rest => { l with
          server := l.server.step ctx.server (.inbound (item.map (fun m => .ok (.text (m.asJson ctx.json)))), env)
          upstream := rest }
  | .server wakeup env =>
      match wakeup with
      -- what comes in is read by the move above
      | .inbound _ => l
      | _ => { l with server := l.server.step ctx.server (wakeup, env) }

def run (first : Server.Env) (moves : List Move) : Link N := moves.foldl (step ctx) (new ctx first)

/-- The server may come to hold a session under `id` with the frames in flight. -/
def mayHold (id : SubscriptionId) (l : Link N) : Bool :=
  l.upstream.foldl (trackSession id) (decide (l.server.Holds id))

end Link

/-- Once the close signal of a session's handle was served, no `NEG-OPEN` for its id was written since, and the
    server has read all there is, the server holds no session under the id. -/
def SessionsEnd {N : Server.Negentropy} (l : Link N) : Prop :=
  ∀ handle ∈ l.ended, l.client.actor.NotReopened handle → l.upstream = [] → ¬l.server.Holds handle.id

/-- The drop of a handle does not have to end the session: when the server reads the `CLOSE` it sent, no session is
    held, or a `NEG-CLOSE` is on its way; and so too when the drop sends none. -/
def EndedOtherwise {N : Server.Negentropy} (ctx : LinkContext) (l : Link N) : Move → Prop
  | .client action accepted => ∀ handle ∈ l.closing action,
      .close handle.id ∉ l.client.actor.writtenSince (l.step ctx (.client action accepted)).client.actor →
      l.mayHold handle.id = false
  | .read _ => ∀ handle ∈ l.ended, l.client.actor.NotReopened handle →
      l.upstream.head? = some (some (.close handle.id)) → l.mayHold handle.id = false
  | .server _ _ => True

instance {N : Server.Negentropy} {ctx : LinkContext} {l : Link N} {move : Move} :
    Decidable (EndedOtherwise ctx l move) := by
  cases move <;> unfold EndedOtherwise <;> infer_instance

/-! ## What a move does -/

/-- What is not its `NEG-CLOSE` leaves a session held. -/
theorem trackSession_held {id : SubscriptionId} {message : ClientMessage} (h : message ≠ .negClose id) :
    trackSession id true (some message) = true := by
  cases message with
  | negClose k =>
      have hk : k ≠ id := fun heq => h (congrArg ClientMessage.negClose heq)
      rw [trackSession, decide_eq_true hk]
      rfl
  | negOpen k filter hex => rfl
  | _ => rfl

/-- What the server holds behind a frame, it may have been expected to hold. Two cases, as the frame is received or
    not: what is not received leaves the sessions, and a `NEG-CLOSE` is always received by a server that holds one. -/
theorem LinkContext.holds_read {N : Server.Negentropy} {c : Server.Connection N} (ctx : LinkContext)
    {item : Option ClientMessage} {env : Server.Env} {id : SubscriptionId}
    (hquiet : ctx.server.unresponsive = true → c.negSessions = ∅)
    (h : (c.step ctx.server (.inbound (item.map (fun m => .ok (.text (m.asJson ctx.json)))), env)).Holds id) :
    trackSession id (decide (c.Holds id)) item = true := by
  obtain ⟨hopen', hmem⟩ := h
  have hopen : c.isOpen = true := Server.Connection.isOpen_of_step hopen'
  cases item with
  | none =>
      rw [Server.Connection.step, if_pos hopen] at hopen'
      cases hopen'
  | some message =>
      have hreading : Server.Connection.received ctx.server c
          (.inbound (some (.ok (.text (message.asJson ctx.json))))) =
          if c.isOpen && !ctx.server.unresponsive then ClientMessage.fromJson ctx.json (message.asJson ctx.json)
          else none := by
        rw [← ctx.reads]
        rfl
      cases hreceived : Server.Connection.received ctx.server c
          (.inbound (some (.ok (.text (message.asJson ctx.json))))) with
      | none =>
          have hsame : (c.step ctx.server (.inbound (some (.ok (.text (message.asJson ctx.json)))), env)).negSessions =
              c.negSessions :=
            Server.Connection.step_unreceived_unwritten Server.Connection.unwritten_negSessions hreceived
          have hold : id ∈ c.negSessions := hsame ▸ hmem
          have hheld : decide (c.Holds id) = true := decide_eq_true ⟨hopen, hold⟩
          rw [hheld]
          apply trackSession_held
          rintro rfl
          -- a `NEG-CLOSE` goes unread only where nothing is read
          have hread := ClientMessage.fromJson_asJson (m := .negClose id) ctx.json True.intro
          rw [hreading, hopen, hread] at hreceived
          cases hunresponsive : ctx.server.unresponsive with
          | true =>
              rw [hquiet hunresponsive] at hold
              exact ExtTreeMap.not_mem_empty hold
          | false =>
              rw [hunresponsive] at hreceived
              cases hreceived
      | some message' =>
          have hbare : message'.bare = message.bare := by
            rw [hreading] at hreceived
            split at hreceived
            · exact ClientMessage.bare_of_fromJson hreceived
            · cases hreceived
          rw [← trackSession_bare, ← hbare, trackSession_bare]
          rcases Server.Connection.step_received_negSessions hreceived hmem with ⟨hold, hne⟩ | ⟨filter, hex, rfl⟩
          · rw [decide_eq_true (show c.Holds id from ⟨hopen, hold⟩)]
            exact trackSession_held hne
          · rw [trackSession, decide_eq_true (rfl : id = id), Bool.or_true]

/-- An action of the client appends frames of the actor's turn. -/
theorem Relay.System.grows (ctx : Relay.StaticCtx) (s : Relay.System) (action : Relay.Action) :
    Relay.Wire.Grows s.actor.turn s.actor.wire (s.step ctx action).actor.wire := by
  cases action with
  | issue cmd => exact .same rfl
  | lose handle => exact .same rfl
  | drop handle =>
      rw [Relay.System.step]
      split
      · exact .same rfl
      · exact .same rfl
  | serveCommand env =>
      rw [Relay.System.step]
      split
      · exact .same rfl
      · exact Relay.Actor.grows_step _ _
  | serveClose env =>
      rw [Relay.System.step]
      split
      · exact Relay.Actor.grows_step _ _
      · exact .same rfl
  | serveOther wakeup env =>
      rw [Relay.System.step]
      split
      · split
        · exact Relay.Actor.grows_step _ _
        · exact .same rfl
      · exact .same rfl

theorem Relay.System.granted_subset (ctx : Relay.StaticCtx) (s : Relay.System) (action : Relay.Action) :
    s.granted ⊆ (s.step ctx action).granted := by
  cases action with
  | issue cmd => exact fun _ h => h
  | lose handle => exact fun _ h => h
  | drop handle =>
      rw [Relay.System.step]
      split
      · exact fun _ h => h
      · exact fun _ h => h
  | serveCommand env =>
      rw [Relay.System.step]
      split
      · exact fun _ h => h
      · exact List.subset_append_left _ _
  | serveClose env =>
      rw [Relay.System.step]
      split
      · exact fun _ h => h
      · exact fun _ h => h
  | serveOther wakeup env =>
      rw [Relay.System.step]
      split
      · split
        · exact fun _ h => h
        · exact fun _ h => h
      · exact fun _ h => h

namespace Link

variable {N : Server.Negentropy} {ctx : LinkContext} {l : Link N}

/-- The handles are those the client handed out, under numbers of the past, and a server that answers nothing has
    no session. -/
structure WellFormed (ctx : LinkContext) (l : Link N) : Prop where
  client : l.client.Orderly
  sessions : l.sessions ⊆ l.client.granted
  ended : l.ended ⊆ l.sessions
  quiet : ctx.server.unresponsive = true → l.server.negSessions = ∅

/-- What the client writes does not change the client. -/
theorem deliver_client (client : Relay.System) (accepted : Server.Env) :
    (l.deliver ctx client accepted).client = client := by
  unfold deliver
  dsimp only
  split
  · rfl
  · split
    · rfl
    · rfl

theorem mem_granted_of_opening {action : Relay.Action} {handle : Relay.Handle}
    (h : l.opening ctx action = some handle) : handle ∈ (l.client.step ctx.client action).granted := by
  unfold opening at h
  split at h
  · split at h
    · rename_i id filter hex rest hcommands
      rw [Relay.System.step, hcommands]
      exact List.mem_append_right _ (Option.mem_toList.mpr h)
    · cases h
  · cases h

theorem mem_sessions_of_closing {action : Relay.Action} {handle : Relay.Handle}
    (h : l.closing action = some handle) : handle ∈ l.sessions := by
  unfold closing at h
  split at h
  · split at h
    · split at h
      · cases h
        assumption
      · cases h
    · cases h
  · cases h

/-- **One move keeps the link well formed**: what is in flight was written by the client, in its order. A move of the
    client is one of its system, and a move of the server leaves the client alone. -/
theorem WellFormed.step (h : WellFormed ctx l) (move : Move) : WellFormed ctx (l.step ctx move) := by
  cases move with
  | client action accepted =>
      refine ⟨?_, ?_, ?_, ?_⟩
      · show (l.deliver ctx _ accepted).client.Orderly
        rw [deliver_client]
        exact h.client.step action
      · show l.sessions ++ (l.opening ctx action).toList ⊆ (l.deliver ctx _ accepted).client.granted
        rw [deliver_client]
        intro handle hmem
        rcases List.mem_append.mp hmem with hold | hnew
        · exact Relay.System.granted_subset _ _ _ (h.sessions hold)
        · exact mem_granted_of_opening (Option.mem_toList.mp hnew)
      · show l.ended ++ (l.closing action).toList ⊆ l.sessions ++ (l.opening ctx action).toList
        intro handle hmem
        rcases List.mem_append.mp hmem with hold | hnew
        · exact List.mem_append_left _ (h.ended hold)
        · exact List.mem_append_left _ (mem_sessions_of_closing (Option.mem_toList.mp hnew))
      · intro hunresponsive
        show (l.deliver ctx _ accepted).server.negSessions = ∅
        unfold deliver
        dsimp only
        split
        · exact h.quiet hunresponsive
        · split
          · exact h.quiet hunresponsive
          · exact (Server.Connection.accept_unread ctx.server accepted).negSessions
  | read env =>
      rw [Link.step]
      split
      · exact h
      · refine ⟨h.client, h.sessions, h.ended, ?_⟩
        intro hunresponsive
        rw [← h.quiet hunresponsive]
        apply Server.Connection.step_unreceived_unwritten Server.Connection.unwritten_negSessions
        unfold Server.Connection.received
        split
        · rw [hunresponsive, Bool.not_true, Bool.and_false, if_neg Bool.false_ne_true]
        · rfl
  | server wakeup env =>
      have hkept : Server.Connection.received ctx.server l.server wakeup = none →
          ctx.server.unresponsive = true → (l.server.step ctx.server (wakeup, env)).negSessions = ∅ := by
        intro hreceived hunresponsive
        rw [← h.quiet hunresponsive]
        exact Server.Connection.step_unreceived_unwritten Server.Connection.unwritten_negSessions hreceived
      cases wakeup with
      | inbound frame => exact h
      | shutdown => exact ⟨h.client, h.sessions, h.ended, hkept rfl⟩
      | live event => exact ⟨h.client, h.sessions, h.ended, hkept rfl⟩

/-- Each ended session is over at the server, or its `CLOSE` is still in flight, unless it was opened again. -/
def Over (l : Link N) : Prop := ∀ handle ∈ l.ended, l.client.actor.NotReopened handle →
  l.mayHold handle.id = false ∨ some (.close handle.id) ∈ l.upstream

/-- No session may come up with what the client writes next, unless it is opened again. What is written since holds no
    `NEG-OPEN` of the id, so the sessions it may bring up can only be closed. -/
theorem deliver_over {client : Relay.System} {accepted : Server.Env} {handle : Relay.Handle}
    (hgrows : Relay.Wire.Grows l.client.actor.turn l.client.actor.wire client.actor.wire)
    (hslot : handle.slot < l.client.actor.turn) (hkept : client.actor.NotReopened handle)
    (hover : .close handle.id ∈ l.client.actor.writtenSince client.actor ∨ l.mayHold handle.id = false ∨
      some (.close handle.id) ∈ l.upstream) :
    (l.deliver ctx client accepted).mayHold handle.id = false ∨
      some (.close handle.id) ∈ (l.deliver ctx client accepted).upstream := by
  obtain ⟨new, hframes, hturn⟩ := hgrows
  have hwritten : l.client.actor.writtenSince client.actor = new.filterMap (fun x => x.2.written) := by
    rw [Relay.Actor.writtenSince, hframes, List.drop_left]
  have hnone : ∀ message ∈ l.client.actor.writtenSince client.actor, opensSession handle.id message = false := by
    intro message hmessage
    rw [hwritten] at hmessage
    obtain ⟨x, hx, hxm⟩ := List.mem_filterMap.mp hmessage
    cases hopens : opensSession handle.id message with
    | false => rfl
    | true =>
        have hle : x.1 ≤ handle.slot := by
          apply hkept x
          · rw [hframes]
            exact List.mem_append_right _ hx
          · rw [hxm]
            exact hopens
        have hlt := hturn x hx
        omega
  have hfresh := foldl_trackSession_false hnone
  unfold deliver
  dsimp only
  split
  · -- the same connection
    rcases hover with hclose | hnot | hflight
    · exact .inr (List.mem_append_right _ (List.mem_map_of_mem hclose))
    · left
      show (l.upstream ++ _).foldl _ _ = false
      rw [List.foldl_append, show l.upstream.foldl _ _ = false from hnot]
      exact hfresh
    · exact .inr (List.mem_append_left _ hflight)
  · split
    · -- the end of the stream
      left
      show (l.upstream ++ [none]).foldl _ _ = false
      rw [List.foldl_append]
      rfl
    · -- a handler that has read nothing
      left
      have hempty : ¬(Server.Connection.accept ctx.server accepted : Server.Connection N).Holds handle.id := by
        rintro ⟨_, hmem⟩
        rw [(Server.Connection.accept_unread ctx.server accepted).negSessions] at hmem
        exact ExtTreeMap.not_mem_empty hmem
      show (List.map some _).foldl _ (decide _) = false
      rw [decide_eq_false hempty]
      exact hfresh

/-- A handle that was not reopened before and is not by what is added. -/
theorem notReopened_of_grows {a a' : Relay.Actor} {handle : Relay.Handle} {turn : Nat}
    (hgrows : Relay.Wire.Grows turn a.wire a'.wire) (h : a'.NotReopened handle) : a.NotReopened handle := by
  obtain ⟨new, hframes, _⟩ := hgrows
  intro x hx
  apply h
  rw [hframes]
  exact List.mem_append_left _ hx

theorem step_read {item : Option ClientMessage} {rest : List (Option ClientMessage)} {env : Server.Env}
    (h : l.upstream = item :: rest) : l.step ctx (.read env) = { l with
      server := l.server.step ctx.server (.inbound (item.map (fun m => .ok (.text (m.asJson ctx.json)))), env)
      upstream := rest } := by
  rw [Link.step, h]

/-- A server that holds less may come to hold less. -/
theorem mayHold_mono {server : Server.Connection N} {upstream : List (Option ClientMessage)} {id : SubscriptionId}
    {held : Bool} (hheld : decide (server.Holds id) = true → held = true)
    (hnot : upstream.foldl (trackSession id) held = false) :
    upstream.foldl (trackSession id) (decide (server.Holds id)) = false := by
  rw [← Bool.not_eq_true] at hnot ⊢
  exact fun hmay => hnot (foldl_trackSession_mono hheld upstream hmay)

/-- What the client does keeps the ended sessions over, but for those it ends itself. -/
theorem Over.client (hwf : WellFormed ctx l) (h : l.Over) {action : Relay.Action} {accepted : Server.Env}
    (hmove : EndedOtherwise ctx l (.client action accepted)) : (l.step ctx (.client action accepted)).Over := by
  have hgrows := l.client.grows ctx.client action
  intro handle hended hkept
  have hclient : (l.step ctx (.client action accepted)).client = l.client.step ctx.client action :=
    deliver_client _ _
  rw [hclient] at hkept
  have hsession : handle ∈ l.sessions := by
    rcases List.mem_append.mp hended with hold | hnew
    · exact hwf.ended hold
    · exact mem_sessions_of_closing (Option.mem_toList.mp hnew)
  have hslot : handle.slot < l.client.actor.turn := hwf.client.granted handle (hwf.sessions hsession)
  apply deliver_over hgrows hslot hkept
  rcases List.mem_append.mp hended with hold | hnew
  · exact .inr (h handle hold (notReopened_of_grows hgrows hkept))
  · have hotherwise := hmove handle (Option.mem_toList.mp hnew)
    rw [hclient] at hotherwise
    by_cases hclose : .close handle.id ∈ l.client.actor.writtenSince (l.client.step ctx.client action).actor
    · exact .inl hclose
    · exact .inr (.inl (hotherwise hclose))

/-- What the server reads keeps the ended sessions over, but for those whose `CLOSE` it reads. -/
theorem Over.read (hwf : WellFormed ctx l) (h : l.Over) {env : Server.Env}
    (hmove : EndedOtherwise ctx l (.read env)) : (l.step ctx (.read env)).Over := by
  cases hupstream : l.upstream with
  | nil =>
      rw [show l.step ctx (.read env) = l by rw [Link.step, hupstream]]
      exact h
  | cons item rest =>
      rw [step_read hupstream]
      intro handle hended hkept
      have hlater : l.mayHold handle.id = false → (rest.foldl (trackSession handle.id) (decide
          ((l.server.step ctx.server (.inbound (item.map (fun m => .ok (.text (m.asJson ctx.json)))), env)).Holds
            handle.id))) = false := by
        intro hnot
        rw [mayHold, hupstream, List.foldl_cons] at hnot
        exact mayHold_mono (fun hholds => ctx.holds_read hwf.quiet (of_decide_eq_true hholds)) hnot
      rcases h handle hended hkept with hnot | hflight
      · exact .inl (hlater hnot)
      · rw [hupstream] at hflight
        rcases List.mem_cons.mp hflight with hhead | hrest
        · left
          apply hlater
          apply hmove handle hended hkept
          rw [hupstream, hhead]
          rfl
        · exact .inr hrest

/-- A wakeup of the server that reads nothing keeps the ended sessions over. -/
theorem Over.unread (h : l.Over) {wakeup : Server.Wakeup} {env : Server.Env}
    (hreceived : Server.Connection.received ctx.server l.server wakeup = none) :
    ({ l with server := l.server.step ctx.server (wakeup, env) } : Link N).Over := by
  intro handle hended hkept
  rcases h handle hended hkept with hnot | hflight
  · left
    refine mayHold_mono (fun hholds => ?_) hnot
    obtain ⟨hopen, hmem⟩ := of_decide_eq_true hholds
    have hsame : (l.server.step ctx.server (wakeup, env)).negSessions = l.server.negSessions :=
      Server.Connection.step_unreceived_unwritten Server.Connection.unwritten_negSessions hreceived
    exact decide_eq_true ⟨Server.Connection.isOpen_of_step hopen, hsame ▸ hmem⟩
  · exact .inr hflight

/-- **A move that ends no session by a drop alone** keeps the ended ones over. -/
theorem Over.step (hwf : WellFormed ctx l) (h : l.Over) {move : Move} (hmove : EndedOtherwise ctx l move) :
    (l.step ctx move).Over := by
  cases move with
  | client action accepted => exact h.client hwf hmove
  | read env => exact h.read hwf hmove
  | server wakeup env =>
      cases wakeup with
      | inbound frame => exact h
      | shutdown => exact h.unread rfl
      | live event => exact h.unread rfl

theorem run_append_singleton (first : Server.Env) (past : List Move) (move : Move) :
    (run ctx first (past ++ [move]) : Link N) = (run ctx first past).step ctx move := by
  rw [run, run, List.foldl_append]
  rfl

theorem run_wellFormed (first : Server.Env) (past : List Move) : WellFormed ctx (run ctx first past : Link N) := by
  have hall : Always (fun past => WellFormed ctx (run ctx first past : Link N)) past := by
    apply Always.invariant
    · refine ⟨Relay.System.orderly_new, fun _ h => h, fun _ h => h, fun _ => ?_⟩
      exact (Server.Connection.accept_unread ctx.server first).negSessions
    · intro past move h
      rw [run_append_singleton]
      exact h.step move
  exact hall.last

/-- A `CLOSE` leaves a session open, so one that is read last leaves it behind. -/
theorem close_leaves {env : Server.Env} {handle : Relay.Handle} (hended : handle ∈ l.ended)
    (hkept : l.client.actor.NotReopened handle) (hupstream : l.upstream = [some (.close handle.id)])
    (hheld : l.server.Holds handle.id) : ¬SessionsEnd (l.step ctx (.read env)) := by
  obtain ⟨hopen, hmem⟩ := hheld
  rw [step_read hupstream]
  intro hends
  refine hends handle hended hkept rfl ?_
  have hclose := ClientMessage.fromJson_asJson (m := .close handle.id) ctx.json True.intro
  have hdecodes : ∀ message, ctx.server.fromJson ((ClientMessage.close handle.id).asJson ctx.json) = .ok message →
      message = .close handle.id := by
    intro message hmessage
    have hread := ctx.reads ((ClientMessage.close handle.id).asJson ctx.json)
    rw [hmessage, hclose] at hread
    exact Option.some.inj hread
  exact Server.Connection.holds_close ⟨hopen, hmem⟩ hdecodes

end Link

/-- **A session ends at both ends** along every run in which something else than the drop of its handle ends it at
    the server.

    The invariant of a run is `Over`: a session whose handle was dropped is not held at the server, or is sure to
    be ended by what is in flight. One move keeps it under the condition (`Over.step`), and where nothing is in
    flight it says that both ends are done. -/
theorem sessions_end {N : Server.Negentropy} (ctx : LinkContext) (first : Server.Env) (moves : List Move)
    (h : EachStep (fun past move => EndedOtherwise ctx (Link.run ctx first past : Link N) move) moves) :
    Always (fun past => SessionsEnd (Link.run ctx first past : Link N)) moves := by
  have hover : Always (fun past => (Link.run ctx first past : Link N).Over) moves := by
    have hwf : ∀ past, Link.WellFormed ctx (Link.run ctx first past : Link N) := Link.run_wellFormed first
    refine Always.of_eachStep hwf ?_ ?_ h
    · exact fun handle hended => absurd hended List.not_mem_nil
    · intro past move hwf hpast hmove
      rw [Link.run_append_singleton]
      exact hpast.step hwf hmove
  intro k handle hended hkept hread
  rcases hover k handle hended hkept with hnot | hflight
  · rw [Link.mayHold, hread] at hnot
    exact of_decide_eq_false hnot
  · rw [hread] at hflight
    exact absurd hflight List.not_mem_nil

end Nula

namespace Nula.Sample

open Relay Server

/-- `ClientMessage::from_json`, whatever its error says. -/
def readLink (text : String) : Except String ClientMessage :=
  match ClientMessage.fromJson Json.codec text with
  | some message => .ok message
  | none => .error "malformed"

/-- The decoder of the example is the repository's. -/
theorem readLink_toOption (text : String) :
    (readLink text).toOption = ClientMessage.fromJson Json.codec text := by
  unfold readLink
  split
  · rename_i message hread
    rw [hread]
    rfl
  · rename_i hread
    rw [hread]
    rfl

/-- Both ends with every gate open. -/
def linkCtx : LinkContext where
  client := actorCtx
  server := serverCtx readLink
  json := Json.codec
  reads := readLink_toOption

/-- The client connects, opens a session, drops its handle, and the server reads all of it. -/
def droppedSession : List Move :=
  [.client (.issue .connect) (serverEnv 8), .client (.serveCommand calm) (serverEnv 8),
    .client (.issue (.subscribeNeg subscription everything "61")) (serverEnv 8),
    .client (.serveCommand calm) (serverEnv 8), .read (serverEnv 8),
    .client (.drop ⟨subscription, 1⟩) (serverEnv 8), .client (.serveClose calm) (serverEnv 8), .read (serverEnv 8)]

/-- The same with a `NEG-CLOSE` before the drop. -/
def closedSession : List Move :=
  [.client (.issue .connect) (serverEnv 8), .client (.serveCommand calm) (serverEnv 8),
    .client (.issue (.subscribeNeg subscription everything "61")) (serverEnv 8),
    .client (.serveCommand calm) (serverEnv 8), .read (serverEnv 8),
    .client (.issue (.sendMsg (.negClose subscription))) (serverEnv 8), .client (.serveCommand calm) (serverEnv 8),
    .client (.drop ⟨subscription, 1⟩) (serverEnv 8), .client (.serveClose calm) (serverEnv 8), .read (serverEnv 8),
    .read (serverEnv 8)]

end Nula.Sample

namespace Nula

open Nula.Sample

/-- The server still holds the session when it has read the `CLOSE`. -/
theorem droppedSession_held :
    ¬Always (fun past => SessionsEnd (Link.run linkCtx (serverEnv 8) past : Link negentropy)) droppedSession := by
  intro h
  have hended : (⟨subscription, 1⟩ : Relay.Handle) ∈
      (Link.run linkCtx (serverEnv 8) droppedSession : Link negentropy).ended := by
    decide +kernel
  refine h.last _ hended ?_ ?_ ?_
  · decide +kernel
  · decide +kernel
  · decide +kernel

theorem sessions_end_closedSession :
    Always (fun past => SessionsEnd (Link.run linkCtx (serverEnv 8) past : Link negentropy)) closedSession := by
  apply sessions_end
  decide +kernel

end Nula
