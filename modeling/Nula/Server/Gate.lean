import Nula.Server.Auth

/-!
# `Server.Gate` — nothing is read or published before its authentication

`message_needs_auth` stops `REQ`, `COUNT` and `NEG-OPEN` where reads need authentication, and `EVENT` where
writes do. Two more handlers give data out and are not stopped: the live forwarding and `NEG-MSG`. They find
nothing to answer from, since the maps they read are filled by gated messages only; `Unread` is the invariant
that says so.
-/

namespace Nula.Server

open Std

variable {N : Negentropy}

/-- The frames that carry what was read. -/
def answersRead : RelayMessage → Bool
  | .event _ _ => true
  | .count _ _ => true
  | .negMsg _ _ => true
  | _ => false

/-- The event an effect passes to storage or to the broadcast. -/
def Effect.passed : Effect → Option Event
  | .saved event _ => some event
  | .broadcast event => some event
  | _ => none

/-- The frame announces a subscription. -/
def announces : RelayMessage → Bool
  | .endOfStoredEvents _ => true
  | _ => false

/-- Nothing has been read: no subscription, no session, and no frame with an answer. -/
structure Unread (c : Connection N) : Prop where
  subscriptions : c.subscriptions = ∅
  negSessions : c.negSessions = ∅
  silent : ∀ entry ∈ c.log, ∀ m, entry.2.message = some m → answersRead m = false

/-- The wakeup brings no `AUTH` that `verify_client_auth` accepts. -/
def Unauthenticated (N : Negentropy) (ctx : ConnectionContext) (first : Env) (past : List (Wakeup × Env))
    (w : Wakeup × Env) : Prop :=
  Connection.authenticates ctx (Connection.run ctx first past : Connection N) w = none

theorem Nip42Mode.isEnabled_of_requiresForRead {mode : Nip42Mode} (h : mode.requiresForRead = true) :
    mode.isEnabled = true := by
  cases mode with
  | disabled => cases h
  | read => rfl
  | write => rfl
  | both => rfl

theorem Nip42Mode.isEnabled_of_requiresForWrite {mode : Nip42Mode} (h : mode.requiresForWrite = true) :
    mode.isEnabled = true := by
  cases mode with
  | disabled => cases h
  | read => rfl
  | write => rfl
  | both => rfl

instance {ctx : ConnectionContext} {first : Env} {past : List (Wakeup × Env)} {w : Wakeup × Env} :
    Decidable (Unauthenticated N ctx first past w) :=
  inferInstanceAs (Decidable (Connection.authenticates ctx (Connection.run ctx first past : Connection N) w = none))

namespace Effect

/-- No frame that answers a read or announces a subscription. -/
def Mute (e : Effect) : Prop :=
  ∀ m, e.message = some m → answersRead m = false ∧ announces m = false

theorem mute_wrote {m : RelayMessage} (hread : answersRead m = false) (heose : announces m = false) :
    Mute (.wrote (.text m)) := by
  intro m' hm'
  cases hm'
  exact ⟨hread, heose⟩

theorem mute_of_none {e : Effect} (h : e.message = none) : Mute e := by
  intro m hm
  rw [h] at hm
  cases hm

theorem passed_of_stored {e : Effect} {event : Event} (h : e.stored = some event) : e.passed = some event := by
  cases e with
  | saved event' result => exact h
  | broadcast event' => cases h
  | wrote frame => cases h
  | refused frame => cases h
  | queried filter => cases h
  | counted filter => cases h
  | listed filter => cases h

theorem Local.passed {e : Effect} (h : e.Local) : e.passed = none := by
  cases e with
  | saved event result => cases h.stored
  | broadcast event => cases h.announced
  | wrote frame => rfl
  | refused frame => rfl
  | queried filter => rfl
  | counted filter => rfl
  | listed filter => rfl

end Effect

namespace Connection

variable {c c' : Connection N} {ctx : ConnectionContext} {env : Env}

/-! ## Reads -/

theorem Adds.send_mute {m : RelayMessage} (hread : answersRead m = false)
    (heose : announces m = false) : Adds Effect.Mute c (c.send env m).left :=
  .push (Effect.mute_wrote hread heose) (Effect.mute_of_none rfl)

/-- Without an announcement no subscription is new. -/
theorem Adds.subscriptions_empty (h : Adds Effect.Mute c c') (hempty : c.subscriptions = ∅) :
    c'.subscriptions = ∅ := by
  obtain ⟨fx, _, hmute, hsubs⟩ := h.log
  rw [ExtTreeMap.eq_empty_iff_forall_not_mem]
  intro id hid
  rcases hsubs id hid with hold | hnew
  · rw [hempty] at hold
    exact ExtTreeMap.not_mem_empty hold
  · exact Bool.noConfusion (hmute _ hnew _ rfl).2

/-- A connection that has read nothing has still read nothing after mute effects. -/
theorem Adds.unread (h : Adds Effect.Mute c c') (hneg : c'.negSessions = ∅) (hc : Unread c) : Unread c' := by
  refine ⟨h.subscriptions_empty hc.subscriptions, hneg, ?_⟩
  obtain ⟨fx, hlog, hmute, _⟩ := h.log
  intro entry hentry m hm
  rw [hlog, List.mem_append] at hentry
  rcases hentry with hold | hnew
  · exact hc.silent entry hold m hm
  · obtain ⟨e, he, rfl⟩ := List.mem_map.mp hnew
    exact (hmute e he m hm).1

/-- A message that is not gated for reads is not answered with data, where there is no session. One case for each
    message; a `NEG-MSG` is the one that is not gated, and finds no session. -/
theorem dispatch_mute {message : ClientMessage} (hneg : c.negSessions = ∅)
    (hmessage : messageNeedsAuth message .read = false) :
    Adds Effect.Mute c (c.dispatch ctx env message).left ∧
      (c.dispatch ctx env message).left.negSessions = ∅ := by
  cases message with
  | event event =>
      refine ⟨handleEvent_adds ?_ ?_ ?_, ?_⟩
      · intro accepted why
        exact ⟨Effect.mute_wrote rfl rfl, Effect.mute_of_none rfl⟩
      · intro challenge
        exact ⟨Effect.mute_wrote rfl rfl, Effect.mute_of_none rfl⟩
      · intro _
        exact ⟨fun _ => Effect.mute_of_none rfl, Effect.mute_of_none rfl⟩
      · rw [← hneg]
        exact handleEvent_unwritten unwritten_negSessions (fun _ _ => rfl) event c
  | req id filters => cases hmessage
  | close id =>
      refine ⟨.same rfl rfl ?_, hneg⟩
      intro k hk
      have hmem : k ∈ c.subscriptions.erase id := hk
      exact (ExtTreeMap.mem_erase.mp hmem).2
  | auth event =>
      constructor
      · show Adds _ _ (c.handleAuth ctx env event).left
        rw [handleAuth]
        split
        · exact .from_same (.send_mute rfl rfl) rfl rfl rfl
        · exact .send_mute rfl rfl
      · rw [← hneg]
        exact handleAuth_unwritten unwritten_negSessions (fun _ _ => rfl) event c
  | count id filter => cases hmessage
  | negOpen id filter hex => cases hmessage
  | negMsg id hex =>
      -- the one handler with data to give that is not gated: it finds no session
      have hdispatch : c.dispatch ctx env (.negMsg id hex) =
          c.sendNegErr env id .invalid "no open NIP-77 session for this subscription id" := by
        show c.handleNegMsg env id hex = _
        rw [handleNegMsg, hneg, ExtTreeMap.getElem?_empty]
      rw [hdispatch, sendNegErr]
      refine ⟨.send_mute rfl rfl, ?_⟩
      rw [← hneg]
      exact push_unwritten unwritten_negSessions _ c
  | negClose id =>
      refine ⟨.same rfl rfl (fun _ h => h), ?_⟩
      show c.negSessions.erase id = ∅
      rw [hneg, ExtTreeMap.erase_empty]

/-- What the gates answer with carries no data. One case for each message at each of the two gates, and
    `dispatch_mute` past them. -/
theorem handleMessage_mute {message : ClientMessage} (hread : ctx.nip42Mode.requiresForRead = true)
    (hauth : c.auth.authenticated = false) (hneg : c.negSessions = ∅) :
    Adds Effect.Mute c (c.handleMessage ctx env message).left ∧
      (c.handleMessage ctx env message).left.negSessions = ∅ := by
  have hpush : ∀ {d : Connection N} {m : RelayMessage}, answersRead m = false →
      announces m = false → d.negSessions = ∅ →
      Adds Effect.Mute d (d.pushAnyway env (.text m)) ∧ (d.pushAnyway env (.text m)).negSessions = ∅ := by
    intro d m hm heose hd
    refine ⟨.send_mute hm heose, ?_⟩
    rw [← hd]
    exact push_unwritten unwritten_negSessions _ d
  rw [handleMessage]
  split
  · -- the authentication gate
    show Adds _ _ (c.pushAnyway env _) ∧ (c.pushAnyway env _).negSessions = ∅
    cases message with
    | req id filters => exact hpush rfl rfl hneg
    | event event => exact hpush rfl rfl hneg
    | close id => exact hpush rfl rfl hneg
    | auth event => exact hpush rfl rfl hneg
    | count id filter => exact hpush rfl rfl hneg
    | negOpen id filter hex => exact hpush rfl rfl hneg
    | negMsg id hex => exact hpush rfl rfl hneg
    | negClose id => exact hpush rfl rfl hneg
  rename_i hgate
  have hmessage : messageNeedsAuth message .read = false := by
    rw [hauth] at hgate
    cases message with
    | req id filters => simp [messageNeedsAuth, hread] at hgate
    | count id filter => simp [messageNeedsAuth, hread] at hgate
    | negOpen id filter hex => simp [messageNeedsAuth, hread] at hgate
    | event event => rfl
    | close id => rfl
    | auth event => rfl
    | negMsg id hex => rfl
    | negClose id => rfl
  cases hcheck : c.rate.check ctx.rateLimit env message with
  | mk refusal rate =>
      cases refusal with
      | none =>
          have hdispatch : Adds Effect.Mute { c with rate := rate }
                (({ c with rate := rate } : Connection N).dispatch ctx env message).left ∧
              (({ c with rate := rate } : Connection N).dispatch ctx env message).left.negSessions = ∅ :=
            dispatch_mute hneg hmessage
          exact ⟨.from_same hdispatch.1 rfl rfl rfl, hdispatch.2⟩
      | some refusal =>
          -- the rate limiter
          rcases check_some (show (c.rate.check ctx.rateLimit env message).1 = some refusal by rw [hcheck]) with
            ⟨event, why, -, rfl⟩ | ⟨id, filters, why, -, rfl⟩
          · have hpushed := hpush (d := { c with rate := rate }) (m := .ok event.id false why) rfl rfl hneg
            exact ⟨.from_same hpushed.1 rfl rfl rfl, hpushed.2⟩
          · have hpushed := hpush (d := { c with rate := rate }) (m := .closed id why) rfl rfl hneg
            exact ⟨.from_same hpushed.1 rfl rfl rfl, hpushed.2⟩

/-- The live forwarding finds no subscription. -/
theorem forwardToSubscriptions_empty (event : Event) (hempty : c.subscriptions = ∅) :
    c.forwardToSubscriptions env event = .ok c := by
  rw [forwardToSubscriptions, hempty]
  rfl

theorem settled_unread {flow : Flow N} {turn : Nat} (h : Unread flow.left) :
    Unread { settled flow with turn } := by
  refine ⟨?_, ?_, ?_⟩
  · rw [← h.subscriptions]
    exact settled_unwritten unwritten_subscriptions flow turn
  · rw [← h.negSessions]
    exact settled_unwritten unwritten_negSessions flow turn
  · show ∀ entry ∈ (settled flow).log, _
    rw [settled_log]
    exact h.silent

/-- A wakeup of a client that may not read leaves everything unread. A message is received, and answered mutely, or
    the wakeup idles, and there is no subscription to forward to. -/
theorem step_unread {w : Wakeup × Env} (hread : ctx.nip42Mode.requiresForRead = true)
    (hauth : c.auth.authenticated = false) (hc : Unread c) : Unread (c.step ctx w) := by
  have hstart : Unread { c with attempts := 0 } := ⟨hc.subscriptions, hc.negSessions, hc.silent⟩
  cases hreceived : received ctx c w.1 with
  | some message =>
      rw [step_received hreceived]
      apply settled_unread
      obtain ⟨hadds, hneg⟩ := handleMessage_mute (c := { c with attempts := 0 }) hread hauth hc.negSessions
      exact hadds.unread hneg hstart
  | none =>
      cases hopen : c.isOpen with
      | false =>
          rw [step_left ctx hopen]
          exact ⟨hc.subscriptions, hc.negSessions, hc.silent⟩
      | true =>
          obtain ⟨flow, hidles, hstep⟩ := step_idles hopen hreceived
          rw [hstep]
          apply settled_unread
          have hpush : ∀ {frame : Frame}, Effect.Mute (.wrote frame) →
              Unread (pushAnyway w.2 frame { c with attempts := 0 }) := by
            intro frame hframe
            have hneg : (pushAnyway w.2 frame { c with attempts := 0 }).negSessions = ∅ := by
              rw [← hc.negSessions]
              exact push_unwritten unwritten_negSessions _ _
            exact Adds.unread (.push hframe (Effect.mute_of_none rfl)) hneg hstart
          cases hidles with
          | rest => exact hstart
          | leave => exact hstart
          | notice text => exact hpush (Effect.mute_wrote rfl rfl)
          | pong payload => exact hpush (Effect.mute_of_none rfl)
          | shutdown => exact hpush (Effect.mute_of_none rfl)
          | live event =>
              rw [forwardToSubscriptions_empty event hstart.subscriptions]
              exact hstart

/-! ## Writes -/

/-- What a wakeup passes on is the event it submits, past the gates of `handle_event`. -/
theorem step_passed (ctx : ConnectionContext) (c : Connection N) (w : Wakeup × Env) :
    ∃ fx : List Effect, (c.step ctx w).log = c.log ++ fx.map (c.turn, ·) ∧
      ∀ e ∈ fx, ∀ event, e.passed = some event →
        submitted ctx c w = some event ∧ Admits ctx w.2 c.auth event := by
  have hstep : ∃ d, Adds (fun e => ∀ event, e.passed = some event →
      submitted ctx c w = some event ∧ Admits ctx w.2 c.auth event) c d ∧
        c.step ctx w = { d with turn := c.turn + 1 } := by
    apply step_adds
    · intro frame
      exact ⟨nofun, nofun⟩
    · intro event hsubmitted hadmits
      refine ⟨fun result event' h => ?_, fun event' h => ?_⟩
      · cases h
        exact ⟨hsubmitted, hadmits⟩
      · cases h
        exact ⟨hsubmitted, hadmits⟩
    · intro id filters admitted _ _ f _
      exact nofun
    · intro id filter _
      exact nofun
    · intro f _
      exact nofun
  obtain ⟨d, hadds, hstep⟩ := hstep
  obtain ⟨fx, hlog, hpassed, _⟩ := hadds.log
  exact ⟨fx, by rw [hstep]; exact hlog, hpassed⟩

/-! ## Runs -/

theorem run_turn (ctx : ConnectionContext) (first : Env) (past : List (Wakeup × Env)) :
    (run ctx first past : Connection N).turn = past.length + 1 := by
  induction past using List.reverseRecOn with
  | nil => rfl
  | append_singleton past w ih =>
      rw [run_append_singleton, step_turn, ih, List.length_append, List.length_singleton]

/-- Where authentication is on, nobody is authenticated before an accepted `AUTH`. -/
theorem run_unauthenticated {first : Env} {past : List (Wakeup × Env)} (henabled : ctx.nip42Mode.isEnabled = true)
    (h : EachStep (Unauthenticated N ctx first) past) :
    (run ctx first past : Connection N).auth.authenticated = false := by
  induction past using List.reverseRecOn with
  | nil =>
      show (accept ctx first : Connection N).auth.authenticated = false
      rw [accept, if_pos henabled]
      refine (congrArg AuthState.authenticated (settled_unwritten unwritten_auth _ _)).trans ?_
      rw [send_auth]
      simp [henabled]
  | append_singleton past w ih =>
      obtain ⟨hpast, hlast⟩ := eachStep_append_singleton.mp h
      rw [run_append_singleton]
      rcases step_auth_cases ctx (run ctx first past) w with
        ⟨event, haccepted, _⟩ | ⟨_, hsame | ⟨event, _, _, _, hnew, _⟩⟩
      · rw [Unauthenticated, haccepted] at hlast
        cases hlast
      · rw [hsame]
        exact ih hpast
      · rw [hnew]
        exact ih hpast

/-- The loop has not read anything when it starts. -/
theorem accept_unread (ctx : ConnectionContext) (first : Env) : Unread (accept ctx first : Connection N) := by
  have hfresh : ∀ auth rate turn, Unread (⟨∅, ∅, auth, rate, true, turn, 0, []⟩ : Connection N) :=
    fun _ _ _ => ⟨rfl, rfl, fun _ h => absurd h List.not_mem_nil⟩
  rw [accept]
  split
  · apply settled_unread
    apply Adds.unread (.send_mute (m := .auth _) rfl rfl) _ (hfresh _ _ 0)
    exact push_unwritten unwritten_negSessions _ _
  · exact hfresh _ _ 1

end Connection

/-- **The authentication gate.** Before the first `AUTH` that `verify_client_auth` accepts: where reads need
    authentication, nothing is read; where writes do, no event received is passed to storage or the broadcast,
    which the log shows from the other side: whatever it says was passed on was received by a wakeup that comes
    after such an `AUTH`.

    Both halves are inductions on the run, last wakeup first. For reads the invariant is `Unread`: the maps that
    ungated messages are answered from stay empty. For writes, what one wakeup passes on was submitted in it and
    got through the gate (`step_passed`), so the connection was authenticated by then, and somebody is only by an
    accepted `AUTH` (`run_unauthenticated`). -/
theorem auth_gates (ctx : ConnectionContext) (first : Env) (schedule : List (Wakeup × Env)) :
    (ctx.nip42Mode.requiresForRead = true → EachStep (Unauthenticated N ctx first) schedule →
      Unread (Connection.run ctx first schedule : Connection N)) ∧
    (ctx.nip42Mode.requiresForWrite = true →
      ∀ entry ∈ (Connection.run ctx first schedule : Connection N).log, ∀ event, entry.2.passed = some event →
        ∃ k w, schedule[k]? = some w ∧ entry.1 = k + 1 ∧
          Connection.received ctx (Connection.run ctx first (schedule.take k) : Connection N) w.1 =
            some (.event event) ∧
          ¬EachStep (Unauthenticated N ctx first) (schedule.take k)) := by
  constructor
  · intro hread hschedule
    have henabled := Nip42Mode.isEnabled_of_requiresForRead hread
    induction schedule using List.reverseRecOn with
    | nil => exact Connection.accept_unread ctx first
    | append_singleton past w ih =>
        obtain ⟨hpast, _⟩ := eachStep_append_singleton.mp hschedule
        rw [Connection.run_append_singleton]
        exact Connection.step_unread hread (Connection.run_unauthenticated henabled hpast) (ih hpast)
  · intro hwrite
    have henabled := Nip42Mode.isEnabled_of_requiresForWrite hwrite
    induction schedule using List.reverseRecOn with
    | nil =>
        intro entry hentry event hpassed
        rw [(Connection.accept_aside entry hentry).local.passed] at hpassed
        cases hpassed
    | append_singleton past w ih =>
        intro entry hentry event hpassed
        rw [Connection.run_append_singleton] at hentry
        obtain ⟨fx, hlog, hfx⟩ := Connection.step_passed ctx (Connection.run ctx first past) w
        rw [hlog, List.mem_append] at hentry
        rcases hentry with hold | hnew
        · obtain ⟨k, w', hk, hturn, hreceived, hauth⟩ := ih entry hold event hpassed
          have htake : (past ++ [w]).take k = past.take k := take_append_of_some hk
          rw [← htake] at hreceived hauth
          exact ⟨k, w', getElem?_append_of_some hk, hturn, hreceived, hauth⟩
        · -- the event of this wakeup passed the authentication gate
          obtain ⟨e, he, rfl⟩ := List.mem_map.mp hnew
          obtain ⟨hreceived, hpasses⟩ := Connection.submitted_iff.mp (hfx e he event hpassed).1
          refine ⟨past.length, w, List.getElem?_concat_length, Connection.run_turn ctx first past, ?_, ?_⟩
          · rwa [List.take_left]
          · rw [List.take_left]
            intro hnone
            rw [Connection.passes, Connection.run_unauthenticated henabled hnone] at hpasses
            simp [messageNeedsAuth, hwrite] at hpasses

/-- A `REQ` where authentication is on for reads and writes: it is turned away. -/
theorem auth_gates_turnedAway :
    Unread (Connection.run { Sample.serverCtx (fun _ => .ok (.req Sample.subscription [Sample.everything])) with
        nip42Mode := .both } (Sample.serverEnv 8)
      [(.inbound (some (.ok (.text "[]"))), Sample.serverEnv 8)] : Connection Sample.negentropy) :=
  (auth_gates _ _ _).1 rfl (by decide +kernel)

end Nula.Server
