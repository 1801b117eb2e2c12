import Nula.Relay.Handles

/-!
# `Relay.Refused` — refused commands and the subscription map

`handle_subscribe` and `handle_subscribe_neg` enter a subscription in the map before they write its opening
frame. When the write fails both answer with the error, but only the second takes the entry out again. The
caller of the first holds no handle, so nobody sends a close signal for the entry: its id and its slot stay
taken, and it is reissued on every connect.
-/

namespace Nula.Relay

namespace Actor

variable (ctx : StaticCtx) (env : Env)

/-- Handling the command answers it with this error. -/
def Refused (cmd : Command) (err : Error) (a : Actor) : Prop :=
  (a.turn, .reply a.turn (.error err)) ∈ (a.handleCommand ctx env cmd).log.drop a.log.length

/-- If the command is answered with an error, the subscription map is what it was. -/
def LeavesNoTrace (cmd : Command) (a : Actor) : Prop :=
  ∀ err, a.Refused ctx env cmd err →
    (a.handleCommand ctx env cmd).state.subscriptions = a.state.subscriptions

/-- The `REQ` of a subscription that is neither a duplicate nor over the cap fails on the live socket. -/
def strands (a : Actor) : Command → Bool
  | .subscribe id filters _ =>
      !a.blocked ctx id && a.state.sink.isSome && (env.refuses (.req id filters)).isSome
  | _ => false

variable {ctx env} {a : Actor}

/-! ## What a command does to the map -/

/-- A subscription is registered unless it is blocked or refused. -/
theorem subscriptions_handleSubscribe {id : SubscriptionId} {filters : List Filter}
    {options : SubscribeOptions} : (a.handleSubscribe ctx env id filters options).state.subscriptions =
      if a.blocked ctx id then a.state.subscriptions
      else a.state.subscriptions.insert id ⟨filters, options, a.turn, false⟩ := by
  rw [subscriptions_of_wire (wire_handleSubscribe ctx env a id filters options), wireAfter]
  split
  · rfl
  · exact subscriptions_sendIfLive _ a.turn _

/-- A session whose `NEG-OPEN` is not written is taken out of the map again. -/
theorem subscriptions_handleSubscribeNeg {id : SubscriptionId} {filter : Filter} {hex : String} :
    (a.handleSubscribeNeg ctx env id filter hex).state.subscriptions =
      if a.blocked ctx id ∨ a.state.sink = none ∨ env.refuses (.negOpen id filter hex) ≠ none then
        a.state.subscriptions
      else a.state.subscriptions.insert id ⟨[filter], .new, a.turn, true⟩ := by
  rw [subscriptions_of_wire (wire_handleSubscribeNeg ctx env a id filter hex), wireAfter]
  by_cases hblocked : a.blocked ctx id = true
  · simp only [hblocked, if_true, true_or]
    rfl
  · cases hsink : a.state.sink with
    | none => simp [hblocked]; rfl
    | some socket =>
        by_cases hwrite : env.refuses (.negOpen id filter hex) = none
        · simp [hblocked, hwrite]; rfl
        · simp [hblocked, hwrite]; rfl

/-- A command that opens no subscription leaves the map alone. -/
theorem subscriptions_handleCommand {cmd : Command} (h : cmd.opens = none) :
    (a.handleCommand ctx env cmd).state.subscriptions = a.state.subscriptions := by
  cases cmd with
  | subscribe id filters options => cases h
  | subscribeNeg id filter hex => cases h
  | shutdown => rfl
  | connect =>
      refine (subscriptions_of_wire (wire_handleConnect ctx env a)).trans ?_
      split
      · rfl
      · exact subscriptions_wireConnect
  | disconnect =>
      show (a.dropSocket.setStatus .disconnected).state.subscriptions = _
      rw [subscriptions_of_wire (wire_setStatus a.dropSocket .disconnected)]
      rfl
  | publish event options =>
      rw [handleCommand, subscriptions_of_wire (wire_handlePublish ctx env a event options), wireAfter]
      split
      · rfl
      · exact subscriptions_sendIfLive a.wire a.turn (.event event)
  | authenticate event =>
      rw [handleCommand, handleAuthenticate,
        subscriptions_of_wire ((wire_answer _ _).trans (wire_sendConnected env a (.auth event)))]
      exact subscriptions_sendIfLive a.wire a.turn (.auth event)
  | sendMsg message =>
      rw [handleCommand, handleSendMsg,
        subscriptions_of_wire ((wire_answer _ _).trans (wire_sendConnected env a message))]
      exact subscriptions_sendIfLive a.wire a.turn message

/-! ## What it is answered -/

/-- The last thing a handler does to the log is to answer. -/
theorem mem_drop_answer {b : Actor} {result : Except Error Unit} {err : Error}
    (hlog : b.log = a.log) (hturn : b.turn = a.turn) :
    (a.turn, .reply a.turn (.error err)) ∈ (b.answer result).log.drop a.log.length ↔ result = .error err := by
  have hgrown : (b.answer result).log = a.log ++ [(a.turn, .reply a.turn result)] := by
    rw [answer, emit, hlog, hturn]
  rw [hgrown, List.drop_left]
  simp only [List.mem_singleton, Prod.mk.injEq, Obs.reply.injEq, true_and]
  exact eq_comm

/-- A `REQ` that reaches no socket, or a socket that takes it, is answered `Ok`. -/
theorem refused_subscribe_iff {id : SubscriptionId} {filters : List Filter} {options : SubscribeOptions}
    {err : Error} (hfree : a.blocked ctx id = false) :
    a.Refused ctx env (.subscribe id filters options) err ↔
      a.state.sink.isSome ∧ env.refuses (.req id filters) = some err := by
  simp only [blocked, Bool.or_eq_false_iff, decide_eq_false_iff_not] at hfree
  rw [Refused, handleCommand, handleSubscribe, if_neg (by simp [hfree.1]), if_neg hfree.2, sendIfLive,
    sink_register]
  cases hsink : a.state.sink with
  | none =>
      refine (mem_drop_answer (a := a) rfl rfl).trans ?_
      simp
  | some socket =>
      cases hwrite : env.refuses (.req id filters) with
      | some e =>
          simp only [send, hwrite]
          refine (mem_drop_answer (a := a) rfl rfl).trans ?_
          simp
      | none =>
          simp only [send, hwrite]
          rw [answer, emit, emit]
          simp [register]

/-- A session whose `NEG-OPEN` is written is answered `Ok`. -/
theorem not_refused_subscribeNeg {id : SubscriptionId} {filter : Filter} {hex : String} {err : Error}
    {socket : Nat} (hfree : a.blocked ctx id = false) (hsink : a.state.sink = some socket)
    (hwrite : env.refuses (.negOpen id filter hex) = none) :
    ¬ a.Refused ctx env (.subscribeNeg id filter hex) err := by
  simp only [blocked, Bool.or_eq_false_iff, decide_eq_false_iff_not] at hfree
  rw [Refused, handleCommand, handleSubscribeNeg, if_neg (by simp [hfree.1]), if_neg hfree.2]
  simp only [sendConnected, sink_register, hsink, send, hwrite]
  rw [answer, emit, emit]
  simp [register]

/-- A subscription that was entered is a change of the map. -/
theorem insert_ne_of_free {id : SubscriptionId} {entry : SubscriptionEntry} (hfree : a.blocked ctx id = false) :
    a.state.subscriptions.insert id entry ≠ a.state.subscriptions := by
  intro hsame
  have hcontains : (a.state.subscriptions.insert id entry).contains id = true := by simp
  rw [hsame] at hcontains
  simp [blocked, hcontains] at hfree

/-! ## Main result -/

/-- **A refused command leaves no trace in the subscription map**, unless it is a `Subscribe` whose `REQ` fails
    on a live socket.

    One case for each command: only two write into the map, and of these only `Subscribe` registers before it
    sends. -/
theorem leavesNoTrace_iff (ctx : StaticCtx) (env : Env) (cmd : Command) (a : Actor) :
    a.LeavesNoTrace ctx env cmd ↔ a.strands ctx env cmd = false := by
  cases hopen : cmd.opens with
  | none =>
      have hquiet : a.strands ctx env cmd = false := by
        cases cmd with
        | subscribe id filters options => cases hopen
        | _ => rfl
      exact iff_of_true (fun err _ => subscriptions_handleCommand hopen) hquiet
  | some _ =>
      cases cmd with
      | subscribe id filters options =>
          rw [LeavesNoTrace, handleCommand, subscriptions_handleSubscribe, strands]
          by_cases hblocked : a.blocked ctx id = true
          · simp [hblocked]
          · rw [Bool.not_eq_true] at hblocked
            simp only [refused_subscribe_iff hblocked, hblocked, Bool.false_eq_true, if_false,
              insert_ne_of_free hblocked, imp_false, Bool.not_false, Bool.true_and]
            cases env.refuses (.req id filters) <;> simp
      | subscribeNeg id filter hex =>
          refine iff_of_true ?_ rfl
          intro err hrefused
          rw [handleCommand, subscriptions_handleSubscribeNeg]
          split
          · rfl
          · rename_i hwritten
            simp only [not_or, Bool.not_eq_true, not_not] at hwritten
            obtain ⟨hfree, hlive, hwrite⟩ := hwritten
            obtain ⟨socket, hsink⟩ := Option.ne_none_iff_exists'.mp hlive
            exact absurd hrefused (not_refused_subscribeNeg hfree hsink hwrite)
      | _ => cases hopen

/-- A connected actor whose socket takes nothing any more keeps the subscription it refuses. -/
theorem subscribe_brokenPipe :
    ¬ (run Sample.actorCtx [(.command .connect, Sample.calm)]).LeavesNoTrace Sample.actorCtx
        { Sample.calm with refuses := fun _ => some (.transport "broken pipe") }
        (.subscribe Sample.subscription [Sample.everything] .new) := by
  have hfree : (run Sample.actorCtx [(.command .connect, Sample.calm)]).blocked Sample.actorCtx
      Sample.subscription = false := by decide +kernel
  intro h
  have hsame := h _ ((refused_subscribe_iff hfree).mpr ⟨by decide +kernel, rfl⟩)
  rw [handleCommand, subscriptions_handleSubscribe, hfree] at hsame
  exact insert_ne_of_free hfree hsame

end Actor

end Nula.Relay
