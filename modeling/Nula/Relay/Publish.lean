import Nula.Relay.Link
import Nula.Relay.Outbox

/-!
# `Relay.Publish` — every publish gets its own answer

The map of waiting publishes is keyed by event id, so a second publish of an event that still waits takes the
place of the first, whose caller then hears nothing. A deadline that overflows unwinds the task, and with it
every slot that waits. `publish_answered_iff` says that these are the only ways to lose a reply.
-/

namespace Nula.Relay

open Std

/-! ## Answers -/

variable (ctx : StaticCtx)

/-- In turn `t` of the schedule the actor reads this frame. -/
def ReadAt (past : List (Wakeup × Env)) (t : Nat) (message : RelayMessage) : Prop :=
  ∃ event socket, past[t]? = some event ∧
    (Actor.run ctx (past.take t)).reads ctx event.1 = some (socket, message)

/-- The publish of turn `n` may be answered like this in turn `t`: by the relay's `OK`, read after it was sent;
    by the sweep, once its own deadline has passed; or at once, when it was never sent. -/
inductive Justified (past : List (Wakeup × Env)) (n : Nat) (event : Event) (options : PublishOptions)
    (env : Env) : Nat → Except Error Unit → Prop where
  | accepted {t : Nat} {message : String} (ht : n < t) (h : ReadAt ctx past t (.ok event.id true message)) :
      Justified past n event options env t (.ok ())
  | rejected {t : Nat} {message : String} (ht : n < t) (h : ReadAt ctx past t (.ok event.id false message)) :
      Justified past n event options env t (.error (.publishRejected event.id message))
  | timedOut {t : Nat} {later : Wakeup × Env} (h : past[t]? = some later)
      (hdue : env.now.val + (Actor.publishTimeout ctx options).val ≤ later.2.sweptAt.val) :
      Justified past n event options env t
        (.error (.publishTimeout event.id (Actor.publishTimeout ctx options)))
  | refused {err : Error} (h : Actor.Refusal ctx env (Actor.run ctx (past.take n)) event err) :
      Justified past n event options env n (.error err)

/-- The publish of turn `n` has one justified answer, or none yet and waits for it. -/
def Served (past : List (Wakeup × Env)) (o : Outbox) (n : Nat) (event : Event) (options : PublishOptions)
    (env : Env) : Prop :=
  match repliesTo n o.replies with
  | [] => ∃ p, o.pending[event.id]? = some p ∧ p.reply = n
  | [(t, result)] => Justified ctx past n event options env t result
  | _ => False

/-- Every publish of the schedule is served, as long as the actor runs. -/
def AllServed (past : List (Wakeup × Env)) : Prop :=
  (Actor.run ctx past).status ≠ .terminated → ∀ n event options env,
    past[n]? = some (.command (.publish event options), env) →
    Served ctx past (Actor.run ctx past).outbox n event options env

/-- The wakeup loses no reply slot. A publish finds the task running, and if it is accepted, no other one of its
    event waits and its deadline is in range; any other arm works out a deadline beyond the range only while
    nothing waits. -/
def LosesNone (a : Actor) (event : Wakeup × Env) : Prop :=
  match event.1 with
  | .command (.publish e options) => a.panicked = false ∧ (a.accepts ctx event.2 e →
      e.id ∉ a.state.pendingPublishes ∧ event.2.now.checkedAdd (Actor.publishTimeout ctx options) ≠ none)
  | _ => a.attends event → a.Overflows ctx event → ∀ id, id ∉ a.state.pendingPublishes

/-! ## What waits was published -/

/-- Every waiting publish is the publish of its slot's turn, as yet unanswered, and no slot of a turn to come is
    signalled. -/
structure Booked (past : List (Wakeup × Env)) (o : Outbox) : Prop where
  entry : ∀ (id : EventId) p, o.pending[id]? = some p → ∃ event options env,
    past[p.reply]? = some (.command (.publish event options), env) ∧ event.id = id ∧
    p.timeout = Actor.publishTimeout ctx options ∧ p.deadline.val = env.now.val + p.timeout.val ∧
    repliesTo p.reply o.replies = []
  fresh : ∀ slot, past.length ≤ slot → repliesTo slot o.replies = []

variable {ctx} {past : List (Wakeup × Env)} {o : Outbox} {n : Nat} {event : Event}
  {options : PublishOptions} {env : Env}

theorem ReadAt.mono {t : Nat} {message : RelayMessage} {more : List (Wakeup × Env)}
    (h : ReadAt ctx past t message) : ReadAt ctx (past ++ more) t message := by
  obtain ⟨event, socket, hevent, hread⟩ := h
  exact ⟨event, socket, getElem?_append_of_some hevent, by rwa [take_append_of_some hevent]⟩

theorem Justified.mono {t : Nat} {result : Except Error Unit} {more : List (Wakeup × Env)}
    (hn : past[n]? = some (.command (.publish event options), env))
    (h : Justified ctx past n event options env t result) :
    Justified ctx (past ++ more) n event options env t result := by
  cases h with
  | accepted ht h => exact .accepted ht h.mono
  | rejected ht h => exact .rejected ht h.mono
  | timedOut h hdue => exact .timedOut (getElem?_append_of_some h) hdue
  | refused h => exact .refused (by rwa [take_append_of_some hn])

/-- A publish that is served and not answered waits in the map. -/
theorem Served.waits (h : Served ctx past o n event options env) (hempty : repliesTo n o.replies = []) :
    ∃ p, o.pending[event.id]? = some p ∧ p.reply = n := by
  rwa [Served, hempty] at h

/-- A publish that is not in the map has its answer. -/
theorem Served.not_silent (h : Served ctx past o n event options env) (hempty : o.pending = ∅) :
    repliesTo n o.replies ≠ [] := by
  intro hsilent
  obtain ⟨p, hp, _⟩ := h.waits hsilent
  rw [hempty] at hp
  simp at hp

/-- A justified answer, or a place in the map, carries over to an outbox that keeps the slot as it is. -/
theorem Served.mono {o' : Outbox} {more : List (Wakeup × Env)}
    (hn : past[n]? = some (.command (.publish event options), env))
    (h : Served ctx past o n event options env)
    (hreplies : repliesTo n o'.replies = repliesTo n o.replies)
    (hpending : ∀ p, o.pending[event.id]? = some p → p.reply = n → o'.pending[event.id]? = some p) :
    Served ctx (past ++ more) o' n event options env := by
  rw [Served] at h ⊢
  rw [hreplies]
  split at h
  · obtain ⟨p, hp, hslot⟩ := h
    exact ⟨p, hpending p hp hslot, hslot⟩
  · exact h.mono hn
  · exact h

namespace Booked

theorem lt (h : Booked ctx past o) {id : EventId} {p : PendingPublish} (hp : o.pending[id]? = some p) :
    p.reply < past.length := by
  obtain ⟨_, _, _, hpast, _⟩ := h.entry id p hp
  exact (List.getElem?_eq_some_iff.mp hpast).1

/-- What waits under an id is of that event's publish. -/
theorem owns (h : Booked ctx past o) {id : EventId} {p : PendingPublish} (hp : o.pending[id]? = some p) :
    o.Owns p.reply id := by
  intro k q hq hslot
  obtain ⟨_, _, _, hpast, hid, _⟩ := h.entry id p hp
  obtain ⟨_, _, _, hpast', hk, _⟩ := h.entry k q hq
  rw [hslot, hpast] at hpast'
  cases hpast'
  exact hk.symm.trans hid

theorem vacant (h : Booked ctx past o) {slot : Nat} (hslot : repliesTo slot o.replies ≠ []) :
    o.Vacant slot := by
  rintro k p hp rfl
  obtain ⟨_, _, _, _, _, _, _, hnone⟩ := h.entry k p hp
  exact hslot hnone

theorem vacant_of_le (h : Booked ctx past o) {slot : Nat} (hslot : past.length ≤ slot) : o.Vacant slot := by
  rintro k p hp rfl
  exact Nat.lt_irrefl _ ((h.lt hp).trans_le hslot)

/-- The sweep leaves the books in order: it takes out what it answers. -/
theorem expire (h : Booked ctx past o) (ids : List EventId) : Booked ctx past (o.expire ids) where
  entry id p hp := by
    have hbefore := Outbox.pending_expire hp
    obtain ⟨event, options, env, hpast, hid, htimeout, hdeadline, hnone⟩ := h.entry id p hbefore
    refine ⟨event, options, env, hpast, hid, htimeout, hdeadline, ?_⟩
    rcases Outbox.expire_waiting ids hbefore rfl (h.owns hbefore) with
      ⟨_, hsame⟩ | ⟨_, hvacant, _⟩
    · rw [hsame, hnone]
    · exact absurd rfl (hvacant id p hp)
  fresh slot hslot := by
    rw [Outbox.expire_vacant ids (h.vacant_of_le hslot), h.fresh slot hslot]

/-- A settlement leaves the slots of what still waits alone. -/
theorem settle (h : Booked ctx past o) (id : EventId) (f : PendingPublish → Except Error Unit) :
    Booked ctx past (o.settle id f) where
  entry k p hp := by
    obtain ⟨hbefore, hne⟩ := Outbox.pending_settle hp
    obtain ⟨event, options, env, hpast, hid, htimeout, hdeadline, hnone⟩ := h.entry k p hbefore
    refine ⟨event, options, env, hpast, hid, htimeout, hdeadline, ?_⟩
    rcases Outbox.settle_slot (o := o) p.reply id f with ⟨q, hq, hslot, _⟩ | ⟨_, hsame⟩
    · exact absurd (h.owns hbefore id q hq hslot).symm hne
    · rw [hsame, hnone]
  fresh slot hslot := by
    rcases Outbox.settle_slot (o := o) slot id f with ⟨q, hq, hqslot, _⟩ | ⟨_, hsame⟩
    · exact absurd hqslot (h.vacant_of_le hslot id q hq)
    · rw [hsame, h.fresh slot hslot]

theorem mono (h : Booked ctx past o) (more : List (Wakeup × Env)) : Booked ctx (past ++ more) o where
  entry id p hp := by
    obtain ⟨event, options, env, hpast, hrest⟩ := h.entry id p hp
    exact ⟨event, options, env, getElem?_append_of_some hpast, hrest⟩
  fresh slot hslot := h.fresh slot (by
    rw [List.length_append] at hslot
    omega)

theorem unwound (h : Booked ctx past o) : Booked ctx past { o with pending := ∅ } where
  entry id p hp := by
    have hp' : (∅ : HashMap EventId PendingPublish)[id]? = some p := hp
    simp at hp'
  fresh := h.fresh

/-- A reply to the newest turn. -/
theorem reply (h : Booked ctx past o) (e : Wakeup × Env) (result : Except Error Unit) :
    Booked ctx (past ++ [e]) (o.reply past.length result) where
  entry id p hp := by
    obtain ⟨event, options, env, hpast, hid, htimeout, hdeadline, hnone⟩ := h.entry id p hp
    refine ⟨event, options, env, getElem?_append_of_some hpast, hid, htimeout, hdeadline, ?_⟩
    rw [Outbox.repliesTo_reply, hnone, if_neg (h.lt hp).ne']
    rfl
  fresh slot hslot := by
    rw [List.length_append, List.length_singleton] at hslot
    rw [Outbox.repliesTo_reply, h.fresh slot (by omega), if_neg (by omega)]
    rfl

end Booked

/-- An `OK` answers the publish that waits under its id and leaves the others as they were. Two cases, as the publish
    has been answered or waits; in the second the frame may be for it, or for another. -/
theorem Served.acknowledged {more : List (Wakeup × Env)} {id : EventId} {accepted : Bool} {message : String}
    (hserved : Served ctx past o n event options env) (h : Booked ctx past o)
    (hn : past[n]? = some (.command (.publish event options), env)) (hlt : n < o.turn)
    (hread : ReadAt ctx (past ++ more) o.turn (.ok id accepted message)) :
    Served ctx (past ++ more) (o.settle id (fun _ =>
      if accepted then .ok () else .error (.publishRejected id message))) n event options env := by
  let f : PendingPublish → Except Error Unit := fun _ =>
    if accepted then .ok () else .error (.publishRejected id message)
  by_cases hempty : repliesTo n o.replies = []
  · obtain ⟨p, hp, hslot⟩ := hserved.waits hempty
    rcases Outbox.settle_slot (o := o) n id f with ⟨q, hq, hqslot, hreplies⟩ | ⟨hother, hsame⟩
    · -- the frame answers this publish: its slot is in one place only
      have hid : id = event.id := by
        have hown := h.owns hp
        rw [hslot] at hown
        exact hown id q hq hqslot
      subst hid
      rw [Served, hreplies, hempty]
      show Justified _ _ _ _ _ _ o.turn (if accepted then .ok () else .error (.publishRejected event.id message))
      cases accepted with
      | true => exact .accepted hlt hread
      | false => exact .rejected hlt hread
    · -- the frame answers another one
      refine hserved.mono hn hsame (fun p' hp' hslot' => Outbox.pending_settle_of_ne hp' ?_)
      rintro rfl
      exact hother p' hp' hslot'
  · -- the publish has its answer, and waits nowhere
    rcases Outbox.settle_slot (o := o) n id f with ⟨q, hq, hqslot, _⟩ | ⟨_, hsame⟩
    · exact absurd hqslot (h.vacant hempty id q hq)
    · refine hserved.mono hn hsame (fun p hp hslot => ?_)
      exact absurd hslot (h.vacant hempty event.id p hp)

/-! ## One step -/

namespace Actor

theorem turn_run (ctx : StaticCtx) (past : List (Wakeup × Env)) : (run ctx past).turn = past.length := by
  induction past using List.reverseRecOn with
  | nil => rfl
  | append_singleton past event ih => rw [run_append, turn_step, ih, List.length_append]; rfl

/-- What an arm leaves in the map was published, by it or before. -/
theorem OutboxStep.booked {w : Wakeup} {o' : Outbox} (hstep : OutboxStep ctx env (run ctx past) w o')
    (h : Booked ctx past (run ctx past).outbox) : Booked ctx (past ++ [(w, env)]) o' := by
  have hturn := turn_run ctx past
  cases hstep with
  | quiet => exact h.mono _
  | answered =>
      rw [hturn]
      exact h.reply _ _
  | refused =>
      rw [hturn]
      exact h.reply _ _
  | acknowledged => exact (h.settle _ _).mono _
  | accepted hacc hdeadline =>
      rename_i event options deadline
      rw [hturn]
      refine ⟨?_, (h.mono _).fresh⟩
      intro id p hp
      have hp' : ((run ctx past).outbox.pending.insert event.id _)[id]? = some p := hp
      rw [ExtTreeMap.getElem?_insert] at hp'
      split at hp'
      · rename_i hid
        cases hp'
        exact ⟨event, options, env, by simp, Std.compare_eq_iff_eq.mp hid, rfl, val_of_checkedAdd hdeadline,
          h.fresh _ le_rfl⟩
      · exact (h.mono _).entry id p hp'

/-- An arm serves the publish it accepts or refuses. -/
theorem OutboxStep.served_new {o' : Outbox}
    (hstep : OutboxStep ctx env (run ctx past) (.command (.publish event options)) o')
    (h : Booked ctx past (run ctx past).outbox) :
    Served ctx (past ++ [(.command (.publish event options), env)]) o' past.length event options env := by
  have hturn := turn_run ctx past
  have hnone := h.fresh past.length le_rfl
  rw [Served]
  cases hstep with
  | quiet hw => exact absurd rfl (hw event options)
  | answered hw => exact absurd rfl (hw event options)
  | acknowledged hread => cases hread
  | refused hrefused =>
      rw [hturn, Outbox.repliesTo_reply, hnone, if_pos rfl]
      show Justified _ _ _ _ _ _ (run ctx past).turn _
      rw [hturn]
      exact .refused (by rwa [List.take_append_of_le_length le_rfl, List.take_length])
  | accepted =>
      show match repliesTo past.length (run ctx past).outbox.replies with
        | [] => _
        | [(t, result)] => _
        | _ => _
      rw [hnone]
      exact ⟨_, ExtTreeMap.getElem?_insert_self, hturn⟩

/-- An arm goes on serving the publishes of earlier turns, unless it accepts one over another. One case for each thing
    an arm can do: a reply goes into the slot of its own turn, a publish that is accepted writes over nobody, and an
    `OK` is `Served.acknowledged`. -/
theorem OutboxStep.served_old {w : Wakeup} {o' : Outbox} {later : Env}
    (hstep : OutboxStep ctx later (run ctx past) w o') (h : Booked ctx past (run ctx past).outbox)
    (hc : LosesNone ctx (run ctx past) (w, later))
    (hn : past[n]? = some (.command (.publish event options), env))
    (hserved : Served ctx past (run ctx past).outbox n event options env) :
    Served ctx (past ++ [(w, later)]) o' n event options env := by
  have hturn := turn_run ctx past
  have hlt : n < past.length := (List.getElem?_eq_some_iff.mp hn).1
  have hreply : ∀ result, repliesTo n ((run ctx past).outbox.reply (run ctx past).turn result).replies =
      repliesTo n (run ctx past).outbox.replies := by
    intro result
    rw [Outbox.repliesTo_reply, hturn, if_neg hlt.ne', List.append_nil]
  cases hstep with
  | quiet => exact hserved.mono hn rfl (fun p hp _ => hp)
  | answered => exact hserved.mono hn (hreply _) (fun p hp _ => hp)
  | refused => exact hserved.mono hn (hreply _) (fun p hp _ => hp)
  | accepted hacc hdeadline =>
      rename_i e opts deadline
      refine hserved.mono hn rfl (fun p hp _ => ?_)
      show ((run ctx past).outbox.pending.insert e.id _)[event.id]? = some p
      rw [ExtTreeMap.getElem?_insert, if_neg, hp]
      intro hid
      have hfree : (run ctx past).outbox.pending[e.id]? = none := ExtTreeMap.getElem?_eq_none (hc.2 hacc).1
      rw [Std.compare_eq_iff_eq.mp hid, hp] at hfree
      cases hfree
  | acknowledged hread =>
      rename_i s id accepted message
      have hread' : ReadAt ctx (past ++ [(w, later)]) (run ctx past).turn (.ok id accepted message) := by
        refine ⟨(w, later), s, ?_, ?_⟩
        · rw [hturn, List.getElem?_concat_length]
        · rw [hturn, List.take_append_of_le_length le_rfl, List.take_length]
          exact hread
      have hlater : n < (run ctx past).turn := hturn.symm ▸ hlt
      exact hserved.acknowledged h hn hlater hread'

end Actor

/-- The sweep times out only what is due. A publish that waits is left alone or timed out, and then its deadline has
    passed; one that is answered has its slot vacant. -/
theorem Served.expire {later : Wakeup × Env} {ids : List EventId} (h : Served ctx past o n event options env)
    (hb : Booked ctx past o) (hn : past[n]? = some (.command (.publish event options), env))
    (hlater : past[o.turn]? = some later)
    (hdue : ∀ id ∈ ids, ∀ p, o.pending[id]? = some p → p.deadline ≤ later.2.sweptAt) :
    Served ctx past (o.expire ids) n event options env := by
  by_cases hempty : repliesTo n o.replies = []
  · obtain ⟨p, hp, hslot⟩ := h.waits hempty
    have hown := hb.owns hp
    rw [hslot] at hown
    rw [Served]
    rcases Outbox.expire_waiting ids hp hslot hown with ⟨hkept, hsame⟩ | ⟨hmem, _, hreplies⟩
    · rw [hsame, hempty]
      exact ⟨p, hkept, hslot⟩
    · obtain ⟨event', options', env', hpast, hid, htimeout, hdeadline, _⟩ := hb.entry event.id p hp
      rw [hslot, hn] at hpast
      cases hpast
      rw [hreplies, hempty]
      have hpassed : p.deadline.val ≤ later.2.sweptAt.val := hdue event.id hmem p hp
      rw [hdeadline, htimeout] at hpassed
      show Justified ctx past n event options env o.turn (.error (.publishTimeout event.id p.timeout))
      rw [htimeout]
      exact .timedOut hlater hpassed
  · have hsame := Outbox.expire_vacant ids (hb.vacant hempty)
    rw [Served] at h ⊢
    rw [hsame]
    split at h
    · rename_i hnil
      exact absurd hnil hempty
    · exact h
    · exact h

/-! ## Runs -/

theorem Booked.turn {m : Nat} (h : Booked ctx past o) : Booked ctx past { o with turn := m } :=
  ⟨h.entry, h.fresh⟩

namespace Actor

variable {a : Actor}

theorem outbox_terminate (a : Actor) : a.terminate.outbox = a.outbox := by
  rw [terminate, outbox_emit _ _ rfl]
  exact outbox_setStatus a .terminated

theorem status_terminate (a : Actor) : a.terminate.status = .terminated := by
  show (a.setStatus .terminated).status = .terminated
  rw [setStatus]
  split
  · assumption
  · rfl

/-- **The publish side of one step.** The loop ends, or an arm runs and the sweep follows. -/
theorem outbox_step (ctx : StaticCtx) {event : Wakeup × Env} (h : a.serves ctx event) :
    (leavesLoop event.1 = true ∧ (a.step ctx event).status = .terminated ∧
      (a.step ctx event).outbox = { a.outbox with turn := a.turn + 1 }) ∨
    (leavesLoop event.1 = false ∧ ∃ arm, OutboxStep ctx event.2 a event.1 arm ∧ ∃ ids,
      (∀ id ∈ ids, ∀ p, arm.pending[id]? = some p → p.deadline ≤ event.2.sweptAt) ∧
      (a.step ctx event).outbox = { arm.expire ids with turn := a.turn + 1 }) := by
  rw [step_of_serves ctx h]
  cases hleaves : leavesLoop event.1 with
  | true =>
      rw [wake_of_leaves ctx event.2 hleaves]
      exact Or.inl ⟨rfl, status_terminate a, congrArg (fun o => { o with turn := a.turn + 1 })
        (outbox_terminate a)⟩
  | false =>
      rw [wake_of_serves ctx h hleaves]
      refine Or.inr ⟨rfl, _, outboxStep_handle ctx event.2 a event.1 h.2, _, ?_,
        congrArg (fun o => { o with turn := a.turn + 1 }) (outbox_expirePendingPublishes event.2 _)⟩
      intro id hid p hp
      obtain ⟨q, hq, hdue⟩ := (mem_timedOut event.2).mp hid
      have hq' : (a.handle ctx event.2 event.1).outbox.pending[id]? = some q := hq
      rw [hp] at hq'
      cases hq'
      exact hdue

/-- A panic drops whatever waits, and signals nothing. -/
theorem outbox_step_of_overflows (ctx : StaticCtx) {event : Wakeup × Env} (h : a.attends event)
    (hover : a.Overflows ctx event) :
    (a.step ctx event).outbox = { a.outbox with turn := a.turn + 1, pending := ∅ } := by
  rw [step_of_overflows ctx h hover]
  exact congrArg (fun o : Outbox => { o with turn := a.turn + 1, pending := ∅ })
    (outbox_handle_of_overflows ctx event.2 a event.1 hover)

/-- A wakeup that is passed over leaves the outbox. -/
theorem outbox_step_of_not_attends (ctx : StaticCtx) {event : Wakeup × Env} (h : ¬ a.attends event) :
    (a.step ctx event).outbox = { a.outbox with turn := a.turn + 1 } := by
  rw [step_of_not_attends ctx h]
  rfl

/-- **The books are in order in every run**, by induction: a step inserts the publish of its own turn, or takes out
    what it answers. -/
theorem booked_run (ctx : StaticCtx) (past : List (Wakeup × Env)) :
    Booked ctx past (run ctx past).outbox := by
  refine (Always.invariant (I := fun past => Booked ctx past (run ctx past).outbox) ?_ ?_ past).last
  · constructor
    · intro id p hp
      have hp' : (∅ : HashMap EventId PendingPublish)[id]? = some p := hp
      simp at hp'
    · intro slot _
      rfl
  · intro past event h
    rw [run_append]
    by_cases hs : (run ctx past).serves ctx event
    · rcases outbox_step ctx hs with ⟨_, _, hbox⟩ | ⟨_, arm, harm, ids, _, hbox⟩
      · rw [hbox]
        exact (h.mono _).turn
      · rw [hbox]
        exact ((harm.booked h).expire ids).turn
    · rcases step_of_not_serves ctx hs with ⟨hattends, hover, _⟩ | ⟨hpassed, _⟩
      · rw [outbox_step_of_overflows ctx hattends hover]
        exact (h.mono _).unwound.turn
      · rw [outbox_step_of_not_attends ctx hpassed]
        exact (h.mono _).turn

theorem OutboxStep.turn {ctx : StaticCtx} {env : Env} {w : Wakeup} {o : Outbox}
    (h : OutboxStep ctx env a w o) : o.turn = a.turn := by
  cases h with
  | quiet => rfl
  | answered => rfl
  | refused => rfl
  | accepted => rfl
  | acknowledged => exact Outbox.turn_settle _ _ _

/-- The task takes up a publish as soon as it comes. -/
theorem attends_publish {e : Event} {opts : PublishOptions} {env : Env} (h : a.status ≠ .terminated)
    (hruns : a.panicked = false) : a.attends (.command (.publish e opts), env) := ⟨h, hruns, rfl⟩

theorem status_expirePendingPublishes (env : Env) (a : Actor) :
    (a.expirePendingPublishes env).status = a.status := by
  have hfold : ∀ (ids : List EventId) (b : Actor), (ids.foldl expireOne b).status = b.status := by
    intro ids
    induction ids with
    | nil => exact fun b => rfl
    | cons id ids ih =>
        intro b
        rw [List.foldl_cons, ih, expireOne, settle]
        split <;> rfl
  exact hfold _ a

theorem status_handlePublish (ctx : StaticCtx) (env : Env) (a : Actor) (e : Event) (opts : PublishOptions) :
    (a.handlePublish ctx env e opts).status = a.status := by
  have hsend : (a.sendIfLive env (.event e)).2.status = a.status := by
    rw [sendIfLive]
    split
    · rfl
    · rw [send]
      split <;> rfl
  rw [handlePublish]
  split
  · rfl
  · split
    · rfl
    · cases hs : a.sendIfLive env (.event e) with
      | mk result b =>
          rw [hs] at hsend
          cases result with
          | error err => exact hsend
          | ok u =>
              dsimp only
              split
              · exact hsend
              · exact hsend

/-- A publish, served or not, does not end the loop. -/
theorem status_step_publish (ctx : StaticCtx) {e : Event} {opts : PublishOptions} {env : Env} :
    (a.step ctx (.command (.publish e opts), env)).status = a.status := by
  rw [step]
  split
  · rfl
  · show (a.wake ctx env (.command (.publish e opts))).status = a.status
    rw [wake_of_stays ctx env rfl]
    split
    · exact status_handlePublish ctx env a e opts
    · exact (status_expirePendingPublishes env _).trans (status_handlePublish ctx env a e opts)

/-- A publish accepted over a waiting one leaves it without an answer and without a place to wait. -/
theorem overlap_unserved {ctx : StaticCtx} {env : Env} {e : Event} {opts : PublishOptions}
    {p : PendingPublish} {arm : Outbox} (h : Booked ctx past (run ctx past).outbox)
    (hacc : (run ctx past).accepts ctx env e) (hp : (run ctx past).outbox.pending[e.id]? = some p)
    (harm : OutboxStep ctx env (run ctx past) (.command (.publish e opts)) arm) :
    arm.Vacant p.reply ∧ repliesTo p.reply arm.replies = [] := by
  have hturn := turn_run ctx past
  obtain ⟨_, _, _, _, _, _, _, hnone⟩ := h.entry e.id p hp
  cases harm with
  | quiet hw => exact absurd rfl (hw e opts)
  | answered hw => exact absurd rfl (hw e opts)
  | acknowledged hread => cases hread
  | refused hrefused => exact absurd hacc hrefused.not_accepts
  | accepted =>
      refine ⟨?_, hnone⟩
      intro k q hq hslot
      have hq' : ((run ctx past).outbox.pending.insert e.id _)[k]? = some q := hq
      rw [ExtTreeMap.getElem?_insert] at hq'
      split at hq'
      · cases hq'
        have hslot' : (run ctx past).turn = p.reply := hslot
        rw [hturn] at hslot'
        exact absurd (h.lt hp) (by omega)
      · rename_i hne
        apply hne
        rw [h.owns hp k q hq' hslot]
        exact Std.compare_self

/-- What is no publish loses a slot only by a panic while something waits. -/
theorem losesNone_other (ctx : StaticCtx) {event : Wakeup × Env}
    (hw : ∀ e opts, event.1 ≠ .command (.publish e opts)) : LosesNone ctx a event ↔
      (a.attends event → a.Overflows ctx event → ∀ id, id ∉ a.state.pendingPublishes) := by
  unfold LosesNone
  split
  · rename_i e opts h
    exact absurd h (hw e opts)
  · rfl

/-- Whoever goes on serving every publish has accepted none over another. A publish that is written over is in no
    entry any more, and nobody has answered it. -/
theorem losesNone_of_served {w : Wakeup} {env : Env} {arm : Outbox} {ids : List EventId}
    (hs : (run ctx past).serves ctx (w, env)) (harm : OutboxStep ctx env (run ctx past) w arm)
    (hserved : ((run ctx past).step ctx (w, env)).status ≠ .terminated → ∀ n event options env',
      (past ++ [(w, env)])[n]? = some (.command (.publish event options), env') →
        Served ctx (past ++ [(w, env)]) (arm.expire ids) n event options env') :
    LosesNone ctx (run ctx past) (w, env) := by
  have hbooked := booked_run ctx past
  unfold LosesNone
  split
  · rename_i e opts hw
    have hw' : w = .command (.publish e opts) := hw
    subst hw'
    refine ⟨hs.1.2.1, fun hacc => ⟨fun hmem => ?_, fun hover => hs.2 ⟨hacc, hover⟩⟩⟩
    have hmem' : e.id ∈ (run ctx past).outbox.pending := hmem
    obtain ⟨p, hp⟩ : ∃ p, (run ctx past).outbox.pending[e.id]? = some p :=
      Option.isSome_iff_exists.mp (by simpa using hmem')
    -- the publish that waited is in nobody's entry any more, and has no answer
    obtain ⟨hvacant, hnone⟩ := overlap_unserved hbooked hacc hp harm
    obtain ⟨event, options, env', hn, hid, _⟩ := hbooked.entry e.id p hp
    have hup : ((run ctx past).step ctx (.command (.publish e opts), env)).status ≠ .terminated := by
      rw [status_step_publish]
      exact hs.up
    have hold := hserved hup p.reply event options env' (getElem?_append_of_some hn)
    have hsilent : repliesTo p.reply (arm.expire ids).replies = [] := by
      rw [Outbox.expire_vacant _ hvacant, hnone]
    rw [Served] at hold
    simp only [hsilent] at hold
    obtain ⟨q, hq, hslot⟩ := hold
    exact hvacant _ q (Outbox.pending_expire hq) hslot
  · exact fun _ hover => absurd hover hs.2

/-- A wakeup that is served keeps every publish served exactly when it accepts none over another. A step is the arm
    and the sweep behind it: the first is `OutboxStep.served_old` or a new publish, the second `Served.expire`. -/
theorem allServed_of_serves (ctx : StaticCtx) {later : Wakeup × Env} (h : AllServed ctx past)
    (hs : (run ctx past).serves ctx later) :
    AllServed ctx (past ++ [later]) ↔ LosesNone ctx (run ctx past) later := by
  have hbooked := booked_run ctx past
  have hpast : (past ++ [later])[(run ctx past).turn]? = some later := by
    rw [turn_run]
    exact List.getElem?_concat_length
  rw [AllServed, run_append]
  rcases outbox_step ctx hs with ⟨hleaves, hstatus, _⟩ | ⟨_, arm, harm, ids, hdue, hbox⟩
  · refine iff_of_true (fun hc => absurd hstatus hc) ((losesNone_other ctx ?_).mpr ?_)
    · intro e opts hw
      rw [hw] at hleaves
      cases hleaves
    · exact fun _ hover => absurd hover hs.2
  · obtain ⟨w, env⟩ := later
    constructor
    · intro hP
      apply losesNone_of_served hs harm
      intro hup n event options env' hn
      have hserved := hP hup n event options env' hn
      rwa [hbox] at hserved
    · intro hc _ n event options env' hn
      rw [hbox]
      -- the arm keeps serving, and the sweep after it keeps that
      have hserved : Served ctx (past ++ [(w, env)]) arm n event options env' := by
        rcases getElem?_append_singleton hn with hold | ⟨rfl, hnew⟩
        · exact harm.served_old hbooked hc hold (h hs.up n event options env' hold)
        · cases hnew
          exact harm.served_new hbooked
      exact hserved.expire (harm.booked hbooked) hn (by rw [harm.turn]; exact hpast) hdue

/-- A panic keeps every publish served exactly when none waits, and it is none itself. The slots are dropped as the
    task unwinds, so what waits is lost, and the publish of this turn with it. -/
theorem allServed_of_overflows (ctx : StaticCtx) {later : Wakeup × Env} (h : AllServed ctx past)
    (hattends : (run ctx past).attends later) (hover : (run ctx past).Overflows ctx later) :
    AllServed ctx (past ++ [later]) ↔ LosesNone ctx (run ctx past) later := by
  have hbooked := booked_run ctx past
  have hbox := outbox_step_of_overflows ctx hattends hover
  by_cases hpublish : ∃ e opts, later.1 = .command (.publish e opts)
  · -- its own slot is lost
    obtain ⟨w, env⟩ := later
    obtain ⟨e, opts, hw⟩ := hpublish
    have hw' : w = .command (.publish e opts) := hw
    subst hw'
    refine iff_of_false (fun hP => ?_) (fun hc => (hc.2 hover.1).2 hover.2)
    have hup : (run ctx (past ++ [(.command (.publish e opts), env)])).status ≠ .terminated := by
      rw [run_append, status_step_publish]
      exact hattends.1
    have hserved := hP hup past.length e opts env List.getElem?_concat_length
    rw [run_append, hbox] at hserved
    exact hserved.not_silent rfl (hbooked.fresh past.length le_rfl)
  · simp only [not_exists] at hpublish
    rw [losesNone_other ctx hpublish, AllServed, run_append, hbox,
      status_step_of_overflows hattends hover hpublish]
    constructor
    · intro hP _ _ id hmem
      have hmem' : id ∈ (run ctx past).outbox.pending := hmem
      obtain ⟨p, hp⟩ : ∃ p, (run ctx past).outbox.pending[id]? = some p :=
        Option.isSome_iff_exists.mp (by simpa using hmem')
      -- the publish that waited is lost with the map
      obtain ⟨event, options, env, hn, _, _, _, hnone⟩ := hbooked.entry id p hp
      exact (hP (by decide) p.reply event options env (getElem?_append_of_some hn)).not_silent rfl hnone
    · intro hc _ n event options env hn
      rcases getElem?_append_singleton hn with hold | ⟨_, hnew⟩
      · refine (h hattends.1 n event options env hold).mono hold rfl (fun p hp _ => ?_)
        have hmem : event.id ∈ (run ctx past).outbox.pending := by
          rw [← ExtTreeMap.isSome_getElem?_iff_mem, hp]
          rfl
        exact absurd hmem (hc hattends hover event.id)
      · exact absurd (congrArg Prod.fst hnew).symm (hpublish event options)

/-- A wakeup that is passed over keeps every publish served, unless it is a publish to a task that is gone. The status
    stays and so does the outbox; only a publish is owed an answer that nobody will give. -/
theorem allServed_of_not_attends (ctx : StaticCtx) {later : Wakeup × Env} (h : AllServed ctx past)
    (hpassed : ¬ (run ctx past).attends later) :
    AllServed ctx (past ++ [later]) ↔
      ((run ctx past).status ≠ .terminated → LosesNone ctx (run ctx past) later) := by
  have hbooked := booked_run ctx past
  have hstatus : (run ctx (past ++ [later])).status = (run ctx past).status := by
    rw [run_append, step_of_not_attends ctx hpassed]
  rw [AllServed, hstatus, run_append, outbox_step_of_not_attends ctx hpassed]
  refine forall_congr' (fun hup => ?_)
  by_cases hpublish : ∃ e opts, later.1 = .command (.publish e opts)
  · obtain ⟨w, env⟩ := later
    obtain ⟨e, opts, hw⟩ := hpublish
    have hw' : w = .command (.publish e opts) := hw
    subst hw'
    -- a publish is passed over only after a panic
    have hgone : (run ctx past).panicked = true := by
      by_contra hruns
      exact hpassed (attends_publish hup (by simpa using hruns))
    refine iff_of_false (fun hP => ?_) (fun hc => ?_)
    · have hempty : (run ctx past).outbox.pending = ∅ := by
        show (run ctx past).state.pendingPublishes = ∅
        rw [← unwound_run ctx past hgone]
        rfl
      exact (hP past.length e opts env List.getElem?_concat_length).not_silent hempty
        (hbooked.fresh past.length le_rfl)
    · rw [hc.1] at hgone
      cases hgone
  · simp only [not_exists] at hpublish
    refine iff_of_true (fun n event options env hn => ?_)
      ((losesNone_other ctx hpublish).mpr (fun hattends => absurd hattends hpassed))
    rcases getElem?_append_singleton hn with hold | ⟨_, hnew⟩
    · exact (h hup n event options env hold).mono hold rfl (fun p hp _ => hp)
    · exact absurd (congrArg Prod.fst hnew).symm (hpublish event options)

/-- **One step.** It goes on serving every publish exactly when it loses no reply slot. -/
theorem allServed_step_iff (ctx : StaticCtx) (h : AllServed ctx past) (later : Wakeup × Env) :
    AllServed ctx (past ++ [later]) ↔
      ((run ctx past).status ≠ .terminated → LosesNone ctx (run ctx past) later) := by
  by_cases hserves : (run ctx past).serves ctx later
  · rw [allServed_of_serves ctx h hserves]
    exact ⟨fun hc _ => hc, fun hc => hc hserves.up⟩
  · rcases step_of_not_serves ctx hserves with ⟨hattends, hover, _⟩ | ⟨hpassed, _⟩
    · rw [allServed_of_overflows ctx h hattends hover]
      exact ⟨fun hc _ => hc, fun hc => hc hattends.1⟩
    · exact allServed_of_not_attends ctx h hpassed

end Actor

/-- **Every publish gets its own answer.** While the actor runs, every publish has one justified answer or waits
    for it in the map, exactly when none is accepted while another of the same event waits, no deadline leaves
    the range of the clock while a publish needs its slot, and none is sent to a task that a panic has ended.

    A slot is in one place: `Booked` says that what waits in the map is the publish of the slot's own turn, as
    yet unanswered. One step then keeps every publish served exactly when it meets the condition, whether it is
    served (`allServed_of_serves`), unwinds the task (`allServed_of_overflows`) or is passed over. -/
theorem publish_answered_iff (ctx : StaticCtx) (schedule : List (Wakeup × Env)) :
    Always (AllServed ctx) schedule ↔
    EachStep (fun past event => (Actor.run ctx past).status ≠ .terminated →
      LosesNone ctx (Actor.run ctx past) event) schedule := by
  apply always_iff_eachStep (I := fun _ => True)
  · exact fun _ => trivial
  · intro _ n event options env hn
    rw [List.getElem?_nil] at hn
    cases hn
  · intro past later _ h
    exact Actor.allServed_step_iff ctx h later

/-- Two tasks publish one note on a live socket. -/
def overlappingPublishes : List (Wakeup × Env) :=
  [(.command .connect, Sample.calm),
    (.command (.publish (Sample.event 1 Sample.alice 5 1 []) ⟨none⟩), Sample.calm),
    (.command (.publish (Sample.event 1 Sample.alice 5 1 []) ⟨none⟩), Sample.calm)]

/-- The first of them is neither answered nor waits any longer. -/
theorem overlappingPublishes_unserved :
    ¬ Always (AllServed Sample.actorCtx) overlappingPublishes := by
  intro h
  have hserved := h.last (by decide +kernel) 1 (Sample.event 1 Sample.alice 5 1 []) ⟨none⟩ Sample.calm rfl
  have hsilent : repliesTo 1 (Actor.run Sample.actorCtx overlappingPublishes).outbox.replies = [] := by
    decide +kernel
  rw [Served, hsilent] at hserved
  obtain ⟨p, hp, hslot⟩ := hserved
  have hpending : (Actor.run Sample.actorCtx overlappingPublishes).outbox.pending[
      (Sample.event 1 Sample.alice 5 1 []).id]? = some ⟨2, 60000000000, 60000000000⟩ := by
    decide +kernel
  rw [hpending] at hp
  cases hp
  cases hslot

end Nula.Relay
