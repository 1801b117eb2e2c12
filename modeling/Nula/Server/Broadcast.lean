import Nula.Lib.Always
import Nula.Server.Effects

/-!
# `Server.Broadcast` — what is accepted is broadcast, unless the `OK` is lost

`handle_event` stores an event, answers its publisher, and only then puts it on the relay-wide broadcast; a
failed answer returns in between. So the events broadcast are exactly the events storage took, for each `EVENT`
(`accepted_broadcast_iff`) and along a whole run (`run_broadcast_iff`), exactly as long as no acknowledgement of
a taken event is refused by the transport.
-/

namespace Nula.Server

variable {N : Negentropy}

/-- A storage result that takes the event: stored, or ephemeral. -/
def acknowledged : Except String SaveEventStatus → Bool
  | .ok .success => true
  | .ok (.rejected .ephemeral) => true
  | _ => false

/-- The event of a storage call that took it. -/
def Effect.taken : Effect → Option Event
  | .saved event result => if acknowledged result then some event else none
  | _ => none

/-- The events broadcast are the events storage took, in order and once each. -/
def AcceptedMeansBroadcast (fx : List Effect) : Prop := fx.filterMap Effect.announced = fx.filterMap Effect.taken

namespace Connection

/-- The effects so far. -/
def effects (c : Connection N) : List Effect := c.log.map Prod.snd

/-- The effects from `c` to `c'`. -/
def added (c c' : Connection N) : List Effect := c'.effects.drop c.effects.length

end Connection

/-- What stays local is not taken from the channel. -/
theorem Effect.Local.taken {e : Effect} (h : e.Local) : e.taken = none := by
  cases e with
  | saved event result => cases h.stored
  | wrote frame => rfl
  | refused frame => rfl
  | queried filter => rfl
  | counted filter => rfl
  | listed filter => rfl
  | broadcast event => rfl

/-- Where nothing leaves the connection, nothing is to be broadcast. -/
theorem acceptedMeansBroadcast_of_local {fx : List Effect} (h : ∀ e ∈ fx, e.Local) : AcceptedMeansBroadcast fx := by
  rw [AcceptedMeansBroadcast, List.filterMap_eq_nil_iff.mpr (fun e he => (h e he).announced),
    List.filterMap_eq_nil_iff.mpr (fun e he => (h e he).taken)]

/-- After effects that were in step, new ones keep in step on their own. -/
theorem acceptedMeansBroadcast_append {fx new : List Effect} (h : AcceptedMeansBroadcast fx) :
    AcceptedMeansBroadcast (fx ++ new) ↔ AcceptedMeansBroadcast new := by
  rw [AcceptedMeansBroadcast] at h
  rw [AcceptedMeansBroadcast, AcceptedMeansBroadcast, List.filterMap_append, List.filterMap_append, h,
    List.append_cancel_left_eq]

namespace Connection

variable {P : Effect → Prop} {c c' : Connection N} {ctx : ConnectionContext} {env : Env} {event : Event}

/-- The effects of an event past the gates. -/
def admittedEffects (env : Env) (event : Event) (attempts : Nat) : List Effect :=
  let result := env.saveEvent event
  let reply := Frame.text (saveReply event.id result).2
  .saved event result ::
    if env.refuses attempts then [.refused reply]
    else .wrote reply :: if acknowledged result then [.broadcast event] else []

theorem saveReply_fst (id : EventId) (result : Except String SaveEventStatus) :
    (saveReply id result).1 = acknowledged result := by
  cases result with
  | error text => rfl
  | ok status =>
      cases status with
      | success => rfl
      | rejected why => cases why <;> rfl

/-- **An admitted event** is acknowledged and broadcast, unless the reply cannot be written: the broadcast comes after
    it. -/
theorem acceptedMeansBroadcast_admitted {attempts : Nat} :
    AcceptedMeansBroadcast (admittedEffects env event attempts) ↔
      ¬(acknowledged (env.saveEvent event) = true ∧ env.refuses attempts = true) := by
  rw [admittedEffects]
  cases hack : acknowledged (env.saveEvent event) <;> cases hrefuses : env.refuses attempts <;>
    simp [AcceptedMeansBroadcast, List.filterMap_cons, Effect.announced, Effect.taken, hack]

theorem handleEvent_log (h : Admits ctx env c.auth event) : ((c.handleEvent ctx env event).left).log =
    c.log ++ (admittedEffects env event c.attempts).map (c.turn, ·) := by
  rw [handleEvent_admitted h, admittedEffects, saveReply_fst]
  cases hrefuses : env.refuses c.attempts with
  | true =>
      -- the early return: the event is stored, and the handler ends here
      rw [send, push, if_pos (show env.refuses (c.emit _).attempts = true from hrefuses)]
      show (c.log ++ [_]) ++ [_] = _
      rw [List.append_assoc]
      rfl
  | false =>
      rw [send, push, if_neg (show ¬env.refuses (c.emit _).attempts = true from Bool.eq_false_iff.mp hrefuses)]
      cases acknowledged (env.saveEvent event) with
      | true =>
          show ((c.log ++ [_]) ++ [_]) ++ [_] = _
          rw [List.append_assoc, List.append_assoc]
          rfl
      | false =>
          show (c.log ++ [_]) ++ [_] = _
          rw [List.append_assoc]
          rfl

/-- What is added to the log is added to the effects. -/
theorem effects_of_log {fx : List Effect} {turn : Nat} (h : c'.log = c.log ++ fx.map (turn, ·)) :
    c'.effects = c.effects ++ fx := by
  rw [effects, effects, h, List.map_append, List.map_map]
  congr 1
  exact List.map_id fx

theorem added_of_log {fx : List Effect} {turn : Nat} (h : c'.log = c.log ++ fx.map (turn, ·)) :
    c.added c' = fx := by
  rw [added, effects_of_log h, List.drop_left]

end Connection

/-- **Accepted means broadcast, unless the acknowledgement is lost.** One `EVENT` is broadcast exactly when
    storage took it if and only if it is not the case that it passed the gates, storage took it, and the
    transport refused the `OK`.

    An admitted event leaves storage's verdict, the reply and the broadcast in the log, in this order
    (`handleEvent_log`), so only the reply can keep the broadcast back; a refused one leaves nothing but a reply. -/
theorem accepted_broadcast_iff (ctx : ConnectionContext) (env : Env) (event : Event) (c : Connection N) :
    AcceptedMeansBroadcast (c.added (c.handleEvent ctx env event).left) ↔
      ¬(Connection.Admits ctx env c.auth event ∧ acknowledged (env.saveEvent event) = true ∧
        env.refuses c.attempts = true) := by
  by_cases hadmits : Connection.Admits ctx env c.auth event
  · rw [Connection.added_of_log (Connection.handleEvent_log hadmits), Connection.acceptedMeansBroadcast_admitted,
      and_iff_right hadmits]
  · obtain ⟨fx, hlog, haside, _⟩ := (Connection.handleEvent_refused hadmits).log
    rw [Connection.added_of_log hlog]
    refine iff_of_true (acceptedMeansBroadcast_of_local (fun e he => (haside e he).local)) ?_
    rintro ⟨hadmits', _⟩
    exact hadmits hadmits'

/-- Storage takes the note, the publisher is gone before the `OK`, nobody hears of it. -/
theorem lostAcknowledgement_unheard :
    ¬AcceptedMeansBroadcast
      ((Connection.accept (Sample.serverCtx (fun _ => .error "")) (Sample.serverEnv 0) :
          Connection Sample.negentropy).added
        ((Connection.accept (Sample.serverCtx (fun _ => .error "")) (Sample.serverEnv 0)).handleEvent
          (Sample.serverCtx (fun _ => .error "")) (Sample.serverEnv 0) Sample.genuine).left) := by
  rw [Connection.added_of_log (Connection.handleEvent_log (by decide +kernel)),
    Connection.acceptedMeansBroadcast_admitted]
  decide +kernel

/-! ## Whole runs -/

namespace Connection

variable {ctx : ConnectionContext} {c : Connection N}

/-- The event of a wakeup that reaches storage. -/
def reaching (ctx : ConnectionContext) (c : Connection N) (w : Wakeup × Env) : Option Event :=
  (submitted ctx c w).filter (fun event => Admits ctx w.2 c.auth event)

/-- What a wakeup adds: the effects of the event that reaches storage, or local ones. -/
theorem step_effects (ctx : ConnectionContext) (c : Connection N) (w : Wakeup × Env) :
    ∃ fx, (c.step ctx w).effects = c.effects ++ fx ∧
    ((∃ event, reaching ctx c w = some event ∧ fx = admittedEffects w.2 event 0) ∨
      (reaching ctx c w = none ∧ ∀ e ∈ fx, e.Local)) := by
  cases hsubmitted : submitted ctx c w with
  | none =>
      obtain ⟨d, hd, hstep⟩ := step_local hsubmitted
      obtain ⟨fx, hlog, hlocal, _⟩ := hd.log
      refine ⟨fx, ?_, Or.inr ⟨?_, hlocal⟩⟩
      · rw [hstep]
        exact effects_of_log hlog
      · rw [reaching, hsubmitted]
        rfl
  | some event =>
      -- `d` is `c` past the authentication gate and the rate limiter
      obtain ⟨d, ⟨hlog, hturn, _⟩, hauth, hattempts, hstep⟩ := step_submitted hsubmitted
      rw [hstep]
      by_cases hadmits : Admits ctx w.2 c.auth event
      · refine ⟨admittedEffects w.2 event 0, ?_, Or.inl ⟨event, ?_, rfl⟩⟩
        · apply effects_of_log
          show (settled _).log = _
          rw [settled_log, handleEvent_log (hauth.symm ▸ hadmits), hlog, hattempts]
        · rw [reaching, hsubmitted, Option.filter_some, if_pos (by simpa using hadmits)]
      · obtain ⟨fx, hfx, haside, _⟩ := (handleEvent_refused (c := d) (hauth.symm ▸ hadmits)).log
        refine ⟨fx, ?_, Or.inr ⟨?_, fun e he => (haside e he).local⟩⟩
        · apply effects_of_log
          show (settled _).log = _
          rw [settled_log, hfx, hlog]
        · rw [reaching, hsubmitted, Option.filter_some, if_neg (by simpa using hadmits)]

end Connection

/-- **Accepted means broadcast, along a run.** The broadcast carries exactly the events storage took, after every
    wakeup, exactly when no wakeup's acknowledgement of a taken event is refused. -/
theorem run_broadcast_iff (ctx : ConnectionContext) (first : Env) (schedule : List (Wakeup × Env)) :
    Always (fun past => AcceptedMeansBroadcast (Connection.run ctx first past : Connection N).effects) schedule ↔
      EachStep (fun past w => ∀ event, Connection.reaching ctx (Connection.run ctx first past : Connection N) w =
        some event → ¬(acknowledged (w.2.saveEvent event) = true ∧ w.2.refuses 0 = true)) schedule := by
  refine always_iff_eachStep (I := fun _ => True) (fun _ => trivial) ?_ ?_
  · apply acceptedMeansBroadcast_of_local
    intro e he
    obtain ⟨entry, hentry, rfl⟩ := List.mem_map.mp he
    exact (Connection.accept_aside entry hentry).local
  · intro past w _ hpast
    rw [Connection.run_append_singleton]
    obtain ⟨fx, heffects, hcase⟩ := Connection.step_effects ctx (Connection.run ctx first past) w
    rw [heffects, acceptedMeansBroadcast_append hpast]
    rcases hcase with ⟨event, hreaching, rfl⟩ | ⟨hnone, hlocal⟩
    · rw [Connection.acceptedMeansBroadcast_admitted, hreaching]
      constructor
      · intro h event' hevent'
        cases hevent'
        exact h
      · intro h
        exact h event rfl
    · refine iff_of_true (acceptedMeansBroadcast_of_local hlocal) ?_
      intro event hevent
      rw [hnone] at hevent
      cases hevent

end Nula.Server
