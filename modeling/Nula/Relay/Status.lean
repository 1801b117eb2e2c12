import Nula.Relay.Handles
import Nula.Relay.Link
import Nula.Relay.Publish

/-!
# `Relay.Status` — the documented status machine

`status.rs` and `policy.rs` document the status machine: `Connected` while the socket is open; `Terminated`
once a connection drops and reconnection is disabled; `Disconnected` while the reconnect timer runs. The first
holds while the task runs, as do the caps on the two maps. The actor never terminates on a drop, a `Connect`
command that fails disarms the timer, and so does a `Disconnect` command that finds the status `Disconnected`
already; and a panic on a deadline leaves the status as it stood: `documented_iff`.
-/

namespace Nula.Relay

open Std

namespace Actor

variable (ctx : StaticCtx)

/-- The event takes the established connection away, and is no `Disconnect` command. -/
def Loses (a : Actor) (event : Wakeup × Env) : Prop :=
  a.state.isConnected = true ∧ (a.step ctx event).state.isConnected = false ∧ event.1 ≠ .command .disconnect

/-- The last status change was announced while a `Disconnect` command was served. -/
def ByDisconnect (past : List (Wakeup × Env)) : Prop :=
  ∃ n env, (run ctx past).link.lastChange = some n ∧ past[n]? = some (.command .disconnect, env)

/-- After a loss the status is `Terminated` for good. -/
def Terminates (past : List (Wakeup × Env)) : Prop :=
  ∀ n event, past[n]? = some event → (run ctx (past.take n)).Loses ctx event →
    (run ctx past).status = .terminated

/-- The reconnect timer runs while the status is `Disconnected`, unless a `Disconnect` command made it so. -/
def Rearms (past : List (Wakeup × Env)) : Prop :=
  (run ctx past).status = .disconnected → ¬ ByDisconnect ctx past → (run ctx past).reconnectDeadline.isSome

/-- What the documentation says of the actor after a schedule. -/
structure Documented (past : List (Wakeup × Env)) : Prop where
  connected : (run ctx past).status = .connected ↔
    (run ctx past).state.sink.isSome ∧ (run ctx past).state.stream.isSome
  terminates : ctx.options.reconnectPolicy = .never → Terminates ctx past
  rearms : ctx.options.reconnectPolicy ≠ .never → Rearms ctx past
  subscriptions : (run ctx past).state.subscriptions.size ≤ ctx.options.limits.maxSubscriptions
  publishes : (run ctx past).state.pendingPublishes.size ≤ ctx.options.limits.maxPendingPublishes

/-- No frame ends the established connection. -/
def StaysUp (a : Actor) : Wakeup × Env → Prop
  | (.inbound frame, _) => a.state.stream.isSome → hangsUp (.inbound frame) = false
  | _ => True

/-- No `Connect` command fails, and no `Disconnect` command comes while the reconnect timer runs. -/
def KeepsTimer (a : Actor) : Wakeup × Env → Prop
  | (.command .connect, env) => a.status ≠ .connected → env.handshake = .opened
  | (.command .disconnect, _) => a.reconnectDeadline = none
  | _ => True

/-- The event keeps to the documentation, without reconnection and with it, and works out no deadline beyond the
    range of the clock. -/
def Harmless (a : Actor) (event : Wakeup × Env) : Prop :=
  ¬ a.Overflows ctx event ∧ (ctx.options.reconnectPolicy = .never → a.StaysUp event) ∧
  (ctx.options.reconnectPolicy ≠ .never → a.KeepsTimer event)

/-! ## The caps -/

open Link

variable {ctx} {env : Env} {a : Actor}

/-- **No wakeup makes the subscriptions exceed their cap**: the arm that adds one looks first. -/
theorem capped_wireAfter (h : a.state.subscriptions.size ≤ ctx.options.limits.maxSubscriptions) (w : Wakeup) :
    (a.wireAfter ctx env w).subscriptions.size ≤ ctx.options.limits.maxSubscriptions := by
  rcases subscriptions_wireAfter (a := a) w with hsame | ⟨id, herased⟩ | ⟨id, entry, hfree, _, _, hgrown⟩
  · rwa [hsame]
  · rw [herased]
    exact ExtTreeMap.size_erase_le.trans h
  · simp only [blocked, Bool.or_eq_false_iff, decide_eq_false_iff_not, Nat.not_le] at hfree
    rw [hgrown]
    exact ExtTreeMap.size_insert_le.trans hfree.2

theorem size_settle (o : Outbox) (id : EventId) (result : PendingPublish → Except Error Unit) :
    (o.settle id result).pending.size ≤ o.pending.size := by
  rw [Outbox.settle]
  split
  · exact le_rfl
  · exact ExtTreeMap.size_erase_le

theorem size_expire (o : Outbox) (ids : List EventId) : (o.expire ids).pending.size ≤ o.pending.size := by
  rw [Outbox.expire]
  induction ids generalizing o with
  | nil => exact le_rfl
  | cons id ids ih => exact (ih _).trans (size_settle o id _)

/-- The publishes stay within their cap, since the arm that adds one looks first. -/
theorem OutboxStep.capped {w : Wakeup} {arm : Outbox} (hstep : OutboxStep ctx env a w arm)
    (h : a.state.pendingPublishes.size ≤ ctx.options.limits.maxPendingPublishes) :
    arm.pending.size ≤ ctx.options.limits.maxPendingPublishes := by
  cases hstep with
  | quiet => exact h
  | answered => exact h
  | refused => exact h
  | accepted hacc => exact ExtTreeMap.size_insert_le.trans hacc.2.1
  | acknowledged => exact (size_settle a.outbox _ _).trans h

theorem capped_run (ctx : StaticCtx) (past : List (Wakeup × Env)) :
    (run ctx past).state.subscriptions.size ≤ ctx.options.limits.maxSubscriptions ∧
    (run ctx past).state.pendingPublishes.size ≤ ctx.options.limits.maxPendingPublishes := by
  induction past using List.reverseRecOn with
  | nil => exact ⟨Nat.zero_le _, Nat.zero_le _⟩
  | append_singleton past event ih =>
      rw [run_append]
      by_cases hserves : (run ctx past).serves ctx event
      · constructor
        · rw [subscriptions_of_wire (wire_step ctx _ event hserves)]
          exact capped_wireAfter ih.1 event.1
        · show ((run ctx past).step ctx event).outbox.pending.size ≤ _
          rcases outbox_step ctx hserves with ⟨_, _, hbox⟩ | ⟨_, arm, harm, ids, _, hbox⟩
          · rw [hbox]
            exact ih.2
          · rw [hbox]
            exact (size_expire arm ids).trans (harm.capped ih.2)
      · rcases step_of_not_serves ctx hserves with ⟨hattends, hover, _⟩ | ⟨_, hidle⟩
        · rw [step_of_overflows ctx hattends hover]
          exact ⟨Nat.zero_le _, Nat.zero_le _⟩
        · rw [hidle]
          exact ih

/-! ## A lost connection -/

/-- On a sound connection both halves are there exactly if the status says so. -/
theorem isConnected_iff (h : a.link.Sound) : a.state.isConnected = true ↔ a.status = .connected :=
  h.isConnected

/-- A terminated actor does nothing. -/
theorem status_step_terminated {event : Wakeup × Env} (h : a.status = .terminated) :
    (a.step ctx event).status = .terminated := by
  rw [step_of_not_attends ctx (fun hattends => hattends.1 h)]
  exact h

/-- Without a frame that hangs up, only the end of the loop takes a connection away. One case for each wakeup: a
    hang-up and a `Disconnect` are ruled out, and what is left ends the loop or keeps the connection. -/
theorem terminated_of_loses {event : Wakeup × Env} (h : a.link.Sound) (hserves : a.serves ctx event)
    (hloses : a.Loses ctx event) (hup : a.StaysUp event) : (a.step ctx event).status = .terminated := by
  obtain ⟨w, env⟩ := event
  obtain ⟨hopen, hclosed, hcmd⟩ := hloses
  have hstatus : a.link.status = .connected := (isConnected_iff h).mp hopen
  have hstep := link_step ctx hserves
  show (a.step ctx (w, env)).link.status = .terminated
  have hlost : (a.step ctx (w, env)).link ≠ a.link := by
    intro hsame
    have hkept : (a.step ctx (w, env)).state.isConnected = a.state.isConnected :=
      congrArg Link.isConnected hsame
    rw [hkept, hopen] at hclosed
    cases hclosed
  rw [hstep] at hlost ⊢
  cases w with
  | commandsClosed => exact status_announce
  | publishTimer => exact absurd rfl hlost
  | closeSignal id => exact absurd rfl hlost
  | inbound frame =>
      have hquiet := hup (hserves.1.link_ready.2.1 frame rfl)
      rw [Link.after, if_neg (by simp [hquiet])] at hlost
      exact absurd rfl hlost
  | reconnectTimer =>
      rcases h.armed (hserves.1.link_ready.2.2 rfl) with hdown | hdown
      · rw [hstatus] at hdown
        cases hdown
      · rw [hstatus] at hdown
        cases hdown
  | command cmd =>
      cases cmd with
      | shutdown => exact status_announce
      | disconnect => exact absurd rfl hcmd
      | connect =>
          have hkept : (a.step ctx (.command .connect, env)).state.isConnected = a.state.isConnected := by
            refine (congrArg Link.isConnected hstep).trans ?_
            rw [Link.after, if_pos hstatus]
            rfl
          rw [hkept, hopen] at hclosed
          cases hclosed
      | _ => exact absurd rfl hlost

/-- A frame that hangs up takes the connection away, and leaves the actor running. -/
theorem loses_of_hangsUp {frame : Option (Except Error Message)} (h : a.link.Sound)
    (hserves : a.serves ctx (.inbound frame, env)) (hhangs : hangsUp (.inbound frame) = true) :
    a.Loses ctx (.inbound frame, env) ∧ (a.step ctx (.inbound frame, env)).status = .disconnected := by
  have hstatus : a.status = .connected := h.stream.mp hserves.isReady
  have hstep := link_step ctx hserves
  rw [Link.after, if_pos hhangs] at hstep
  refine ⟨⟨(isConnected_iff h).mpr hstatus, ?_, (fun hcommand => by cases hcommand)⟩, ?_⟩
  · refine (congrArg Link.isConnected hstep).trans ?_
    simp [Link.isConnected, Link.scheduled, Link.dropped]
  · exact (congrArg Link.status hstep).trans status_announce

/-- **One step, without reconnection**: what must terminate has terminated exactly if the step ends no connection. -/
theorem terminates_append_iff {past : List (Wakeup × Env)} {event : Wakeup × Env}
    (hserves : (run ctx past).serves ctx event) (h : Terminates ctx past) :
    Terminates ctx (past ++ [event]) ↔ (run ctx past).StaysUp event := by
  have hsound := sound_run ctx past hserves.1.2.1
  constructor
  · intro hlater
    obtain ⟨w, env⟩ := event
    cases w with
    | inbound frame =>
        intro _
        by_contra hhangs
        rw [Bool.not_eq_false] at hhangs
        obtain ⟨hloses, hstatus⟩ := loses_of_hangsUp hsound hserves hhangs
        have hend := hlater past.length (.inbound frame, env) List.getElem?_concat_length
        rw [List.take_append_of_le_length le_rfl, List.take_length, run_append, hstatus] at hend
        cases hend hloses
    | _ => trivial
  · intro hup n e hn hloses
    rw [run_append]
    rcases getElem?_append_singleton hn with hold | ⟨rfl, rfl⟩
    · rw [take_append_of_some hold] at hloses
      exact status_step_terminated (h n e hold hloses)
    · rw [List.take_append_of_le_length le_rfl, List.take_length] at hloses
      exact terminated_of_loses hsound hserves hloses hup

/-- A wakeup that is passed over loses nothing. -/
theorem terminates_append_of_not_attends {past : List (Wakeup × Env)} {event : Wakeup × Env}
    (hpassed : ¬ (run ctx past).attends event) (h : Terminates ctx past) :
    Terminates ctx (past ++ [event]) := by
  intro n e hn hloses
  rcases getElem?_append_singleton hn with hold | ⟨rfl, rfl⟩
  · rw [take_append_of_some hold] at hloses
    rw [run_append]
    exact status_step_terminated (h n e hold hloses)
  · rw [List.take_append_of_le_length le_rfl, List.take_length] at hloses
    obtain ⟨hopen, hclosed, _⟩ := hloses
    rw [step_of_not_attends ctx hpassed] at hclosed
    rw [show (run ctx past).state.isConnected = false from hclosed] at hopen
    cases hopen

/-! ## The reconnect timer -/

section Timer

variable {past : List (Wakeup × Env)} {event : Wakeup × Env}

/-- A wakeup that changes no status leaves the cause of the last change where it was. -/
theorem byDisconnect_same (h : (run ctx (past ++ [event])).link.lastChange = (run ctx past).link.lastChange) :
    ByDisconnect ctx (past ++ [event]) ↔ ByDisconnect ctx past := by
  have hbound : ∀ n, (run ctx past).link.lastChange = some n → n < past.length := by
    intro n hn
    rw [← turn_run ctx past]
    exact lastChange_lt ctx past hn
  simp only [ByDisconnect, h]
  constructor
  · rintro ⟨n, env, hn, hcause⟩
    rw [List.getElem?_append_left (hbound n hn)] at hcause
    exact ⟨n, env, hn, hcause⟩
  · rintro ⟨n, env, hn, hcause⟩
    exact ⟨n, env, hn, getElem?_append_of_some hcause⟩

/-- A wakeup that changes the status is the cause of the last change. -/
theorem byDisconnect_fresh (h : (run ctx (past ++ [event])).link.lastChange = some past.length) :
    ByDisconnect ctx (past ++ [event]) ↔ event.1 = .command .disconnect := by
  simp only [ByDisconnect, h]
  constructor
  · rintro ⟨n, env, hn, hcause⟩
    cases hn
    rw [List.getElem?_concat_length] at hcause
    cases hcause
    rfl
  · intro hevent
    refine ⟨past.length, event.2, rfl, ?_⟩
    rw [List.getElem?_concat_length, ← hevent]

/-- While the timer runs, the last change was no `Disconnect` command's. -/
def Recorded (ctx : StaticCtx) (past : List (Wakeup × Env)) : Prop :=
  (run ctx past).reconnectDeadline.isSome → ¬ ByDisconnect ctx past

theorem link_run_append (hserves : (run ctx past).serves ctx event) :
    (run ctx (past ++ [event])).link =
      (run ctx past).link.after ctx.options.reconnectPolicy event.2 past.length event.1 := by
  rw [run_append, link_step ctx hserves, turn_run]

/-- The connection after a step that is passed over. -/
theorem link_run_idle (hpassed : ¬ (run ctx past).attends event) :
    (run ctx (past ++ [event])).link = (run ctx past).link := by
  rw [run_append, link_step_of_not_attends ctx hpassed]

/-- Where no timer runs there is nothing to record. -/
theorem recorded_of_disarmed (h : (run ctx past).reconnectDeadline = none) : Recorded ctx past := by
  intro hdeadline
  rw [h] at hdeadline
  cases hdeadline

/-- Where the connection is the same, the cause of its last change is still on record. -/
theorem recorded_same (hsame : (run ctx (past ++ [event])).link = (run ctx past).link) (h : Recorded ctx past) :
    Recorded ctx (past ++ [event]) := by
  intro hdeadline
  rw [byDisconnect_same (congrArg Link.lastChange hsame)]
  rw [show (run ctx (past ++ [event])).reconnectDeadline = (run ctx past).reconnectDeadline
    from congrArg Link.deadline hsame] at hdeadline
  exact h hdeadline

/-- A wakeup that is served leaves the cause on record: it takes the timer down, changes nothing of the connection,
    or is no `Disconnect` command and makes the last change itself. -/
theorem recorded_append (hserves : (run ctx past).serves ctx event) (h : Recorded ctx past) :
    Recorded ctx (past ++ [event]) := by
  obtain ⟨w, env⟩ := event
  have hlink := link_run_append hserves
  by_cases hconnect : w = .command .connect
  · subst hconnect
    exact recorded_of_disarmed (congrArg Link.deadline hlink)
  · by_cases hdisconnect : w = .command .disconnect
    · subst hdisconnect
      exact recorded_of_disarmed (congrArg Link.deadline hlink)
    · rcases after_cases (sound_run ctx past hserves.1.2.1) hserves.1.link_ready
        (mt (overflows_of_link ctx env) hserves.2) hconnect hdisconnect with hsame | ⟨hfresh, _⟩
      · exact recorded_same (hlink.trans hsame) h
      · intro _
        rwa [byDisconnect_fresh ((congrArg Link.lastChange hlink).trans hfresh)]

/-- **Causes are on record in every run**: the last change of status, and whether a command made it. By induction, with
    `recorded_append` for a wakeup that is served; a panic takes the timer down. -/
theorem recorded_run (ctx : StaticCtx) (past : List (Wakeup × Env)) : Recorded ctx past := by
  induction past using List.reverseRecOn with
  | nil => exact nofun
  | append_singleton past event ih =>
      by_cases hserves : (run ctx past).serves ctx event
      · exact recorded_append hserves ih
      · rcases step_of_not_serves ctx hserves with ⟨hattends, hover, _⟩ | ⟨hpassed, _⟩
        · refine recorded_of_disarmed ?_
          rw [run_append, step_of_overflows ctx hattends hover]
          rfl
        · exact recorded_same (link_run_idle hpassed) ih

/-- Only a `Connect` and a `Disconnect` command take the timer down. -/
theorem keepsTimer_of_ne {w : Wakeup} (hconnect : w ≠ .command .connect)
    (hdisconnect : w ≠ .command .disconnect) : a.KeepsTimer (w, env) := by
  cases w with
  | command cmd =>
      cases cmd with
      | connect => exact absurd rfl hconnect
      | disconnect => exact absurd rfl hdisconnect
      | _ => trivial
  | _ => trivial

/-- A `Connect` command takes the timer down, and only a handshake makes up for it. With the connection up nothing
    changes; otherwise an attempt is made, and it is the handshake that decides. -/
theorem rearms_connect_iff {env : Env} (hserves : (run ctx past).serves ctx (.command .connect, env)) :
    Rearms ctx (past ++ [(.command .connect, env)]) ↔ (run ctx past).KeepsTimer (.command .connect, env) := by
  have hlink := link_run_append hserves
  by_cases hup : (run ctx past).link.status = .connected
  · refine iff_of_true (fun hstatus => ?_) (fun hdown => absurd hup hdown)
    have hkept : (run ctx (past ++ [(.command .connect, env)])).status = .connected := by
      refine (congrArg Link.status hlink).trans ?_
      rw [Link.after, if_pos hup]
      exact hup
    rw [hkept] at hstatus
    cases hstatus
  · rw [Link.after, if_neg hup] at hlink
    have hstatus := (congrArg Link.status hlink).trans status_attempt
    have hcause := byDisconnect_fresh ((congrArg Link.lastChange hlink).trans lastChange_attempt)
    have hdeadline : (run ctx (past ++ [(.command .connect, env)])).reconnectDeadline = none :=
      congrArg Link.deadline hlink
    constructor
    · intro h _
      by_contra hfailed
      have hdown : (run ctx (past ++ [(.command .connect, env)])).status = .disconnected := by
        refine hstatus.trans ?_
        cases hshake : env.handshake with
        | opened => exact absurd hshake hfailed
        | failed text => rfl
        | timedOut => rfl
      have harmed := h hdown (fun hcommand => by cases hcause.mp hcommand)
      rw [hdeadline] at harmed
      cases harmed
    · intro h hdown
      rw [show (run ctx (past ++ [(.command .connect, env)])).status = _ from hstatus, h hup] at hdown
      cases hdown

/-- A `Disconnect` command takes the timer down, and accounts for it only if it changes the status. Two cases, as the
    status was disconnected already or not: in the first the command leaves no trace in it. -/
theorem rearms_disconnect_iff {env : Env} (hserves : (run ctx past).serves ctx (.command .disconnect, env))
    (h : Rearms ctx past) :
    Rearms ctx (past ++ [(.command .disconnect, env)]) ↔
      (run ctx past).KeepsTimer (.command .disconnect, env) := by
  have hlink := link_run_append hserves
  have hdeadline : (run ctx (past ++ [(.command .disconnect, env)])).reconnectDeadline = none :=
    congrArg Link.deadline hlink
  have hstatus : (run ctx (past ++ [(.command .disconnect, env)])).status = .disconnected :=
    (congrArg Link.status hlink).trans status_announce
  have hlast := (congrArg Link.lastChange hlink).trans lastChange_announce
  have hrearms : Rearms ctx (past ++ [(.command .disconnect, env)]) ↔
      ByDisconnect ctx (past ++ [(.command .disconnect, env)]) := by
    rw [Rearms, hdeadline]
    simp [hstatus]
  rw [hrearms]
  by_cases hdown : (run ctx past).link.dropped.status = .disconnected
  · rw [if_pos hdown] at hlast
    rw [byDisconnect_same hlast]
    constructor
    · intro hcause
      by_contra harmed
      exact recorded_run ctx past (Option.isSome_iff_ne_none.mpr harmed) hcause
    · intro hnone
      by_contra hcause
      have harmed := h hdown hcause
      rw [show (run ctx past).reconnectDeadline = none from hnone] at harmed
      cases harmed
  · rw [if_neg hdown] at hlast
    refine iff_of_true ((byDisconnect_fresh hlast).mpr rfl) ?_
    by_contra harmed
    exact hdown ((sound_run ctx past hserves.1.2.1).disconnected hserves.up
      (Option.isSome_iff_ne_none.mpr harmed))

/-- Where the connection is the same, the timer is still armed. -/
theorem rearms_same (hsame : (run ctx (past ++ [event])).link = (run ctx past).link) (h : Rearms ctx past) :
    Rearms ctx (past ++ [event]) := by
  intro hstatus hcause
  rw [byDisconnect_same (congrArg Link.lastChange hsame)] at hcause
  rw [show (run ctx (past ++ [event])).reconnectDeadline = (run ctx past).reconnectDeadline
    from congrArg Link.deadline hsame]
  exact h ((congrArg Link.status hsame).symm.trans hstatus) hcause

/-- **The timer after one more event.** -/
theorem rearms_append_iff (hserves : (run ctx past).serves ctx event)
    (hpolicy : ctx.options.reconnectPolicy ≠ .never) (h : Rearms ctx past) :
    Rearms ctx (past ++ [event]) ↔ (run ctx past).KeepsTimer event := by
  obtain ⟨w, env⟩ := event
  by_cases hconnect : w = .command .connect
  · subst hconnect
    exact rearms_connect_iff hserves
  · by_cases hdisconnect : w = .command .disconnect
    · subst hdisconnect
      exact rearms_disconnect_iff hserves h
    · refine iff_of_true ?_ (keepsTimer_of_ne hconnect hdisconnect)
      have hlink := link_run_append hserves
      rcases after_cases (sound_run ctx past hserves.1.2.1) hserves.1.link_ready
        (mt (overflows_of_link ctx env) hserves.2) hconnect hdisconnect with hsame | ⟨_, harmed⟩
      · exact rearms_same (hlink.trans hsame) h
      · intro hstatus _
        rw [← show _ = _ from congrArg Link.status hlink] at harmed
        have := harmed hstatus hpolicy
        rwa [← show _ = _ from congrArg Link.deadline hlink] at this

/-- A panic on a retry leaves the status `Disconnected` with no timer to come. -/
theorem not_rearms_of_overflows (hattends : (run ctx past).attends event)
    (hover : (run ctx past).Overflows ctx event)
    (hw : ∀ e opts, event.1 ≠ .command (.publish e opts)) : ¬ Rearms ctx (past ++ [event]) := by
  intro h
  have hsound := sound_run ctx past hattends.2.1
  have hlink := link_overflows hover hw
  have hlast : (run ctx (past ++ [event])).link.lastChange = some past.length := by
    rw [run_append, link_step_of_overflows ctx hattends hover, ← turn_run ctx past]
    exact (after_of_overflows hsound hattends.link_ready hlink).2
  have harmed := h (by rw [run_append, status_step_of_overflows hattends hover hw]) (fun hcause => ?_)
  · rw [run_append, step_of_overflows ctx hattends hover] at harmed
    cases harmed
  · rw [byDisconnect_fresh hlast] at hcause
    rw [hcause] at hlink
    exact hlink

end Timer

/-! ## Main result -/

/-- What holds as long as the task runs: the socket is open exactly while the status says so, and the caps are
    kept. -/
theorem documented_iff_reconnects {past : List (Wakeup × Env)} (hruns : (run ctx past).panicked = false) :
    Documented ctx past ↔
      (ctx.options.reconnectPolicy = .never → Terminates ctx past) ∧
      (ctx.options.reconnectPolicy ≠ .never → Rearms ctx past) := by
  constructor
  · intro h
    exact ⟨h.terminates, h.rearms⟩
  · rintro ⟨hterminates, hrearms⟩
    have hsound := sound_run ctx past hruns
    obtain ⟨hsubscriptions, hpublishes⟩ := capped_run ctx past
    refine ⟨?_, hterminates, hrearms, hsubscriptions, hpublishes⟩
    rw [← isConnected_iff hsound, ActorState.isConnected, Bool.and_eq_true]

/-- A panic breaks the documentation: on a publish the status stays `Connected` without a socket, on a retry it
    stays `Disconnected` without a timer. -/
theorem not_documented_of_overflows {past : List (Wakeup × Env)} {event : Wakeup × Env}
    (hattends : (run ctx past).attends event) (hover : (run ctx past).Overflows ctx event) :
    ¬ Documented ctx (past ++ [event]) := by
  intro h
  by_cases hpublish : ∃ e opts, event.1 = .command (.publish e opts)
  · obtain ⟨w, env⟩ := event
    obtain ⟨e, opts, hw⟩ := hpublish
    have hw' : w = .command (.publish e opts) := hw
    subst hw'
    have hstatus : (run ctx past).status = .connected :=
      (isConnected_iff (sound_run ctx past hattends.2.1)).mp hover.1.1
    have hsocket := h.connected.mp (by rw [run_append, status_step_publish, hstatus])
    rw [run_append, sink_step_of_overflows ctx hattends hover] at hsocket
    cases hsocket.1
  · simp only [not_exists] at hpublish
    refine not_rearms_of_overflows hattends hover hpublish (h.rearms ?_)
    -- a policy that never reconnects has no delay
    intro hnever
    have hlink := link_overflows hover hpublish
    rw [hnever] at hlink
    obtain ⟨w, env⟩ := event
    cases w with
    | inbound frame =>
        obtain ⟨_, delay, hdelay, _⟩ := hlink
        cases hdelay
    | reconnectTimer =>
        obtain ⟨_, _, delay, hdelay, _⟩ := hlink
        cases hdelay
    | _ => exact hlink

/-- A wakeup that is passed over leaves what is documented as it is. -/
theorem documented_append_of_not_attends {past : List (Wakeup × Env)} {event : Wakeup × Env}
    (hpassed : ¬ (run ctx past).attends event) (h : Documented ctx past) : Documented ctx (past ++ [event]) := by
  have hidle := step_of_not_attends ctx hpassed
  refine ⟨?_, fun hnever => terminates_append_of_not_attends hpassed (h.terminates hnever),
    fun hpolicy => rearms_same (link_run_idle hpassed) (h.rearms hpolicy), ?_, ?_⟩
  · rw [run_append, hidle]
    exact h.connected
  · rw [run_append, hidle]
    exact h.subscriptions
  · rw [run_append, hidle]
    exact h.publishes

/-- **The status machine is the documented one** exactly in the runs where no deadline leaves the range of the
    clock and, without reconnection, no frame ends an established connection, and with it no `Connect` command
    fails and none disconnects while the reconnect timer runs.

    The connection side alone decides it (`documented_iff_reconnects`). A step that is served keeps it exactly
    when it is `Harmless` (`terminates_append_iff`, `rearms_append_iff`); a step that panics loses it. -/
theorem documented_iff (ctx : StaticCtx) (schedule : List (Wakeup × Env)) :
    Always (Documented ctx) schedule ↔
      EachStep (fun past event => (run ctx past).attends event → (run ctx past).Harmless ctx event)
        schedule := by
  refine always_iff_eachStep (I := fun _ => True) (fun _ => trivial) ?_ ?_
  · rw [documented_iff_reconnects rfl]
    refine ⟨fun _ n event hn => ?_, fun _ hstatus => ?_⟩
    · rw [List.getElem?_nil] at hn
      cases hn
    · cases hstatus
  · intro past event _ h
    by_cases hserves : (run ctx past).serves ctx event
    · have hruns : (run ctx (past ++ [event])).panicked = false := by
        rw [run_append]
        exact panicked_step_of_serves ctx hserves
      rw [documented_iff_reconnects hruns]
      constructor
      · rintro ⟨hterminates, hrearms⟩ _
        exact ⟨hserves.2,
          fun hnever => (terminates_append_iff hserves (h.terminates hnever)).mp (hterminates hnever),
          fun hpolicy => (rearms_append_iff hserves hpolicy (h.rearms hpolicy)).mp (hrearms hpolicy)⟩
      · intro hharmless
        obtain ⟨_, hup, htimer⟩ := hharmless hserves.1
        exact ⟨fun hnever => (terminates_append_iff hserves (h.terminates hnever)).mpr (hup hnever),
          fun hpolicy => (rearms_append_iff hserves hpolicy (h.rearms hpolicy)).mpr (htimer hpolicy)⟩
    · rcases step_of_not_serves ctx hserves with ⟨hattends, hover, _⟩ | ⟨hpassed, _⟩
      · exact iff_of_false (not_documented_of_overflows hattends hover)
          (fun hharmless => (hharmless hattends).1 hover)
      · exact iff_of_true (documented_append_of_not_attends hpassed h)
          (fun hattends => absurd hattends hpassed)

/-- Without reconnection, the relay closes the connection and the status stays `Disconnected`; with it, a
    `Connect` command fails and no retry is scheduled. -/
theorem undocumented_runs :
    ¬ Always (Documented { Sample.actorCtx with
        options := { RelayOptions.default with reconnectPolicy := .never } })
      [(.command .connect, Sample.calm), (.inbound none, Sample.calm)] ∧
    ¬ Always (Documented Sample.actorCtx)
      [(.command .connect, { Sample.calm with handshake := .failed "refused" })] := by
  constructor
  · intro h
    have hstatus := h.last.terminates rfl 1 (.inbound none, Sample.calm) rfl
      ⟨by decide +kernel, by decide +kernel, nofun⟩
    exact absurd hstatus (by decide +kernel)
  · intro h
    have harmed := h.last.rearms (by decide) (by decide +kernel) (by
      rintro ⟨n, env, _, hcause⟩
      cases n with
      | zero => cases hcause
      | succ n => simp at hcause)
    exact absurd harmed (by decide +kernel)

end Actor

end Nula.Relay
