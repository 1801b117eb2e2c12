import Nula.Relay.Lasting
import Nula.Relay.Publish

/-!
# `Relay.Granted` — the handle and its entry

A handle is handed out where a subscription command is answered `Ok` in the slot of its turn. No slot of a turn to
come is signalled (`Outbox.Dated`), so that answer is the command's own, and the command has registered the entry
that carries the slot (`holds_of_grant`). From then on the subscription lasts until a wakeup cuts it off
(`Actor.Cuts`), and an entry that is gone does not come back.
-/

namespace Nula.Relay

open Std

/-! ## Slots to come -/

namespace Outbox

variable {o : Outbox} {n : Nat}

/-- What waits, and what is signalled, has a slot below `n`. -/
structure Dated (n : Nat) (o : Outbox) : Prop where
  waiting : ∀ (id : EventId) p, o.pending[id]? = some p → p.reply < n
  fresh : ∀ slot, n ≤ slot → repliesTo slot o.replies = []

namespace Dated

theorem mono {m : Nat} (h : o.Dated n) (hm : n ≤ m) : o.Dated m where
  waiting id p hp := (h.waiting id p hp).trans_le hm
  fresh slot hslot := h.fresh slot (hm.trans hslot)

theorem reply (h : o.Dated n) {slot : Nat} (hslot : slot < n) (result : Except Error Unit) :
    (o.reply slot result).Dated n where
  waiting := h.waiting
  fresh other hother := by
    rw [repliesTo_reply, h.fresh other hother, if_neg (by omega)]
    rfl

theorem insert (h : o.Dated n) {p : PendingPublish} (hp : p.reply < n) (id : EventId) : (o.insert id p).Dated n where
  waiting k q hq := by
    rcases HashMap.of_insert (show (o.pending.insert id p)[k]? = some q from hq) with hold | ⟨rfl, rfl⟩
    · exact h.waiting k q hold
    · exact hp
  fresh := h.fresh

theorem settle (h : o.Dated n) (id : EventId) (result : PendingPublish → Except Error Unit) :
    (o.settle id result).Dated n where
  waiting k p hp := h.waiting k p (pending_settle hp).1
  fresh slot hslot := by
    rcases settle_slot (o := o) slot id result with ⟨p, hp, rfl, _⟩ | ⟨_, hsame⟩
    · exact absurd (h.waiting id p hp) (Nat.not_lt.mpr hslot)
    · rw [hsame, h.fresh slot hslot]

theorem expire (h : o.Dated n) (ids : List EventId) : (o.expire ids).Dated n := by
  rw [Outbox.expire]
  induction ids generalizing o with
  | nil => exact h
  | cons id ids ih => exact ih (h.settle id _)

/-- A map that is dropped leaves the answers there are. -/
theorem unwound (h : o.Dated n) : ({ o with pending := ∅ } : Outbox).Dated n where
  waiting id p hp := by
    have hp' : (∅ : HashMap EventId PendingPublish)[id]? = some p := hp
    simp at hp'
  fresh := h.fresh

theorem turn {m : Nat} (h : o.Dated n) : ({ o with turn := m } : Outbox).Dated n := ⟨h.waiting, h.fresh⟩

/-- Nobody waits in a slot to come. -/
theorem vacant (h : o.Dated n) : o.Vacant n := fun id p hp => (h.waiting id p hp).ne

end Dated

end Outbox

namespace Actor

variable {ctx : StaticCtx} {a : Actor} {id : SubscriptionId} {slot : Nat} {event : Wakeup × Env}

/-- An arm signals the slot of its turn, and those that wait. -/
theorem OutboxStep.dated {env : Env} {w : Wakeup} {arm : Outbox} (hstep : OutboxStep ctx env a w arm)
    (h : a.outbox.Dated a.turn) : arm.Dated (a.turn + 1) := by
  have hnext := h.mono (Nat.le_succ a.turn)
  cases hstep with
  | quiet => exact hnext
  | answered => exact hnext.reply (Nat.lt_succ_self _) _
  | refused => exact hnext.reply (Nat.lt_succ_self _) _
  | accepted => exact hnext.insert (Nat.lt_succ_self _) _
  | acknowledged => exact hnext.settle _ _

/-- **One step** answers or books slots of this turn and before. -/
theorem dated_step (h : a.outbox.Dated a.turn) (event : Wakeup × Env) :
    (a.step ctx event).outbox.Dated (a.step ctx event).turn := by
  have hnext := h.mono (Nat.le_succ a.turn)
  by_cases hserves : a.serves ctx event
  · rcases outbox_step ctx hserves with ⟨_, _, hbox⟩ | ⟨_, arm, harm, ids, _, hbox⟩
    · rw [hbox]
      exact hnext.turn
    · rw [hbox]
      exact ((harm.dated h).expire ids).turn
  · rcases step_of_not_serves ctx hserves with ⟨hattends, hover, _⟩ | ⟨hpassed, _⟩
    · rw [outbox_step_of_overflows ctx hattends hover]
      exact hnext.unwound.turn
    · rw [outbox_step_of_not_attends ctx hpassed]
      exact hnext.turn

theorem dated_new : new.outbox.Dated new.turn where
  waiting id p hp := by
    have hp' : (∅ : HashMap EventId PendingPublish)[id]? = some p := hp
    simp at hp'
  fresh _ _ := rfl

/-! ## The answer to a subscription -/

/-- What was answered `Ok` has such an answer in the log. -/
theorem mem_repliesTo_of_answeredOk (h : a.answeredOk slot = true) :
    ∃ turn, (turn, Except.ok ()) ∈ repliesTo slot a.outbox.replies := by
  obtain ⟨⟨turn, o⟩, hmem, ho⟩ := List.any_eq_true.mp h
  cases o with
  | reply s result =>
      cases result with
      | error err => cases ho
      | ok u =>
          refine ⟨turn, List.mem_filterMap.mpr ⟨(turn, .reply s (.ok u)), ?_, ?_⟩⟩
          · exact List.mem_filter.mpr ⟨hmem, rfl⟩
          · exact if_pos (beq_iff_eq.mp ho)
  | _ => cases ho

/-- A subscription that would be refused before it reaches the map is answered with an error. -/
theorem handleSubscribe_blocked (env : Env) (h : a.blocked ctx id = true) (filters : List Filter)
    (options : SubscribeOptions) :
    ∃ err, a.handleSubscribe ctx env id filters options = a.answer (.error err) := by
  rw [handleSubscribe]
  split
  · exact ⟨_, rfl⟩
  · rename_i hfree
    refine ⟨.tooManySubscriptions ctx.options.limits.maxSubscriptions, if_pos ?_⟩
    rw [blocked, Bool.or_eq_true, decide_eq_true_eq] at h
    exact h.resolve_left hfree

/-- **A subscription that is answered `Ok`** is in the map, in the slot of its turn. The slot of a turn is vacant
    until that turn, so an `Ok` in it can only be the answer of this call, and an id that is blocked is answered with
    the error. -/
theorem holds_of_answeredOk (h : a.outbox.Dated a.turn) {filters : List Filter} {options : SubscribeOptions}
    {env : Env}
    (hok : (a.step ctx (.command (.subscribe id filters options), env)).answeredOk a.turn = true) :
    (a.step ctx (.command (.subscribe id filters options), env)).Holds id a.turn := by
  obtain ⟨turn, hreply⟩ := mem_repliesTo_of_answeredOk hok
  by_cases hserves : a.serves ctx (.command (.subscribe id filters options), env)
  · cases hblocked : a.blocked ctx id with
    | true =>
        -- the only answer in this slot is the error
        exfalso
        obtain ⟨err, hanswer⟩ := handleSubscribe_blocked env hblocked filters options
        have hreplies : (a.step ctx (.command (.subscribe id filters options), env)).outbox.replies =
            ((a.outbox.reply a.turn (.error err)).expire ((a.answer (.error err)).timedOut env)).replies := by
          rw [step_of_serves ctx hserves, wake_of_serves ctx hserves rfl]
          show ((a.handleSubscribe ctx env id filters options).expirePendingPublishes env).outbox.replies = _
          rw [hanswer, outbox_expirePendingPublishes, outbox_answer]
        have hvacant : (a.outbox.reply a.turn (.error err)).Vacant a.turn := h.vacant
        rw [hreplies, Outbox.expire_vacant _ hvacant, Outbox.repliesTo_reply, h.fresh _ le_rfl, if_pos rfl] at hreply
        cases List.mem_singleton.mp hreply
    | false =>
        have hmap : (a.step ctx (.command (.subscribe id filters options), env)).state.subscriptions =
            a.state.subscriptions.insert id ⟨filters, options, a.turn, false⟩ := by
          refine (congrArg Wire.subscriptions (wire_step ctx a _ hserves)).trans ?_
          simp only [wireAfter, hblocked, Bool.false_eq_true, if_false]
          exact subscriptions_sendIfLive _ _ _
        refine ⟨⟨filters, options, a.turn, false⟩, ?_, rfl⟩
        rw [hmap, Option.mem_def]
        exact ExtTreeMap.getElem?_insert_self
  · exfalso
    rcases step_of_not_serves ctx hserves with ⟨_, hover, _⟩ | ⟨hpassed, _⟩
    · exact hover
    · rw [outbox_step_of_not_attends ctx hpassed] at hreply
      rw [show repliesTo a.turn a.outbox.replies = [] from h.fresh _ le_rfl] at hreply
      cases hreply

/-- A handle that is handed out is that of the entry its command registered. -/
theorem holds_of_grant {s : System} (h : s.actor.outbox.Dated s.actor.turn) {filters : List Filter}
    {options : SubscribeOptions} {env : Env} {handle : Handle}
    (hgrant : s.grant ctx (.subscribe id filters options) env = some handle) :
    (s.actor.step ctx (.command (.subscribe id filters options), env)).Holds id handle.slot := by
  rw [System.grant] at hgrant
  dsimp only [Command.opens] at hgrant
  split at hgrant
  · rename_i hok
    cases hgrant
    exact holds_of_answeredOk h hok
  · cases hgrant

/-! ## Until it is cut off -/

/-- An entry that is gone does not come back under its slot. -/
theorem Holds.of_step (hslot : slot < a.turn) (h : (a.step ctx event).Holds id slot) : a.Holds id slot := by
  obtain ⟨entry, hentry, hsink⟩ := h
  rcases entry_of_step hentry with hold | ⟨hnew, _⟩
  · exact ⟨entry, hold, hsink⟩
  · rw [hsink] at hnew
    exact absurd hslot (by omega)

/-- The actor serves a wakeup that takes the subscription of this slot out of the map while it is open. -/
def Cuts (ctx : StaticCtx) (a : Actor) (id : SubscriptionId) (slot : Nat) (event : Wakeup × Env) : Prop :=
  slot < a.turn ∧ a.serves ctx event ∧ a.takes ctx event.1 = some id ∧ ¬ a.Over id slot

/-- A subscription that is cut off is gone. -/
theorem Cuts.not_holds (h : a.Cuts ctx id slot event) : ¬ (a.step ctx event).Holds id slot := by
  intro hholds
  obtain ⟨hslot, hserves, htakes, hopen⟩ := h
  exact hopen ((lasts_step_iff hslot (Or.inl (hholds.of_step hslot)) event).mp (Or.inl hholds) hserves htakes)

/-- One that is not cut off lasts. -/
theorem Lasts.step (hslot : slot < a.turn) (h : a.Lasts id slot) (hcut : ¬ a.Cuts ctx id slot event) :
    (a.step ctx event).Lasts id slot := by
  refine (lasts_step_iff hslot h event).mpr (fun hserves htakes => ?_)
  by_contra hopen
  exact hcut ⟨hslot, hserves, htakes, hopen⟩

end Actor

end Nula.Relay
