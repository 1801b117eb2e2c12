import Nula.Sdk.Calls

/-!
# `Sdk.Listed` — what the registry of a client says

A record names relays that are to carry its subscription. `Accurate`: each of them has answered the call that wrote
the record with a handle, and has the subscription until the relay closes it or the connection is gone.

The pool drops every handle before the client writes the record, so a record is accurate only as long as the actors
have not come to the close signals of its own call, and `Client::subscribe_to` and the router name relays that have
refused as well. `accurate_iff` is the exact condition, in terms of what relays have answered and of the wakeups their
actors have served.
-/

namespace Nula.Sdk

open Std
open Relay (StaticCtx System)

/-- The relays that a record names whatever they answer: those its caller chose, and those the router asked. -/
def Subscribing.promised (call : Subscribing) : List RelayUrl :=
  match call.selection with
  | .capable _ => []
  | .chosen urls _ => urls
  | .routed relays _ => relays

namespace InnerClient

section

variable (urls : UrlCrate) (ctx : RelayUrl → StaticCtx) {D : Type}

/-- The relay has answered the call of the record, and the subscription lasts there. -/
def Carries (c : InnerClient D) (id : SubscriptionId) (record : SubscriptionRecord) (url : RelayUrl) : Prop :=
  ∃ slot ∈ record.slots[url]?, (c.actor url).Lasts id slot

/-- Every relay that a record names carries its subscription. -/
def Accurate (c : InnerClient D) : Prop :=
  ∀ id record, c.subscriptions[id]? = some record → ∀ url ∈ record.relays, c.Carries id record url

/-- The actor of the relay does not come to a wakeup that takes the subscription of this slot out of its map: a close
    signal for the id, the `EOSE` of a one-shot subscription, a `NEG-ERR`. -/
def Passes (c : InnerClient D) (url : RelayUrl) (id : SubscriptionId) (slot : Nat) (a : Action D) : Prop :=
  ∀ action, a = .relay url action → ∀ event ∈ (c.link url).system.wakes action,
    ¬ (c.actor url).Cuts (ctx url) id slot event

/-- It has come to none in the course of the actions. -/
def Uncut (start : InnerClient D) (past : List (Action D)) (url : RelayUrl) (id : SubscriptionId) (slot : Nat) : Prop :=
  EachStep (fun before a => (start.run urls ctx before).Passes ctx url id slot a) past

/-- When a record is written, every relay that is named whatever it answers has answered `Ok`, and the actors of the
    relays that did have not cut the subscription off, unless it is over by now. No actor cuts off a subscription that
    a record names its relay for. -/
def Keeps (start : InnerClient D) (past : List (Action D)) : Action D → Prop
  | .store k => ∀ call ∈ (start.run urls ctx past).calls[k]?, call.storing = true →
      (∀ url ∈ call.promised, url ∈ call.output.success) ∧
      ∀ url slot, call.slots[url]? = some slot → start.Uncut urls ctx past url call.id slot ∨
        ((start.run urls ctx past).actor url).Over call.id slot
  | .relay url action => ∀ id record, (start.run urls ctx past).subscriptions[id]? = some record →
      url ∈ record.relays → ∀ slot ∈ record.slots[url]?,
        (start.run urls ctx past).Passes ctx url id slot (.relay url action)
  | _ => True

end

variable {urls : UrlCrate} {ctx : RelayUrl → StaticCtx} {D : Type} {c c' start : InnerClient D}
  {past : List (Action D)}

theorem run_append_singleton (c : InnerClient D) (past : List (Action D)) (a : Action D) :
    c.run urls ctx (past ++ [a]) = (c.run urls ctx past).step urls ctx a := by
  rw [run, List.foldl_append]
  rfl

/-! ## The slots of a call -/

/-- A subscription is uncut by one action more exactly if it was, and the action does not cut it. -/
theorem uncut_append {url : RelayUrl} {id : SubscriptionId} {slot : Nat} {a : Action D} :
    start.Uncut urls ctx (past ++ [a]) url id slot ↔
      start.Uncut urls ctx past url id slot ∧ (start.run urls ctx past).Passes ctx url id slot a :=
  eachStep_append_singleton

/-- What a slot tells: a subscription that was cut off is gone, and one that was not lasts. -/
structure Told (start : InnerClient D) (urls : UrlCrate) (ctx : RelayUrl → StaticCtx) (past : List (Action D))
    (url : RelayUrl) (id : SubscriptionId) (slot : Nat) : Prop where
  gone : ¬ start.Uncut urls ctx past url id slot → ¬ ((start.run urls ctx past).actor url).Holds id slot
  lasts : start.Uncut urls ctx past url id slot → ((start.run urls ctx past).actor url).Lasts id slot

/-- **The subscription of a slot lasts** exactly when it has not been cut off, or is over. -/
theorem Told.lasts_iff {url : RelayUrl} {id : SubscriptionId} {slot : Nat} (h : start.Told urls ctx past url id slot) :
    ((start.run urls ctx past).actor url).Lasts id slot ↔
      start.Uncut urls ctx past url id slot ∨ ((start.run urls ctx past).actor url).Over id slot := by
  constructor
  · rintro (hholds | hover)
    · refine Or.inl ?_
      by_contra hcut
      exact h.gone hcut hholds
    · exact Or.inr hover
  · rintro (huncut | hover)
    · exact h.lasts huncut
    · exact Or.inr hover

/-- **One action more**: the slot's subscription lasts exactly if it was told so. Either the relay sleeps, and nothing
    changes for the slot, or it serves one wakeup, which cuts the subscription off or lets it last. -/
theorem Told.step {url : RelayUrl} {id : SubscriptionId} {slot : Nat} (h : start.Told urls ctx past url id slot)
    (hslot : slot < ((start.run urls ctx past).actor url).turn) (a : Action D) :
    start.Told urls ctx (past ++ [a]) url id slot := by
  have hturn := turn_step urls ctx (start.run urls ctx past) a
  rcases hturn.actor_cases url with ⟨hsame, hsleeps⟩ | ⟨action, event, rfl, hwakes, hserved⟩
  · have hpasses : (start.run urls ctx past).Passes ctx url id slot a := by
      intro action ha event hevent
      rw [hsleeps action ha] at hevent
      cases hevent
    constructor
    · intro hcut
      rw [run_append_singleton, hsame]
      exact h.gone (fun huncut => hcut (uncut_append.mpr ⟨huncut, hpasses⟩))
    · intro huncut
      rw [run_append_singleton, hsame]
      exact h.lasts (uncut_append.mp huncut).1
  · constructor
    · intro hcut hholds
      rw [run_append_singleton, hserved] at hholds
      by_cases hbefore : start.Uncut urls ctx past url id slot
      · -- it was cut off just now
        refine hcut (uncut_append.mpr ⟨hbefore, fun action' ha event' hevent' hcuts => ?_⟩)
        cases ha
        rw [hwakes] at hevent'
        cases hevent'
        exact hcuts.not_holds hholds
      · exact h.gone hbefore (hholds.of_step hslot)
    · intro huncut
      obtain ⟨hbefore, hpasses⟩ := uncut_append.mp huncut
      rw [run_append_singleton, hserved]
      exact (h.lasts hbefore).step hslot (hpasses action rfl event hwakes)

/-- What holds along every run of a client. -/
structure Traced (start : InnerClient D) (urls : UrlCrate) (ctx : RelayUrl → StaticCtx) (past : List (Action D)) :
    Prop where
  aligned : (start.run urls ctx past).Aligned
  fresh : (start.run urls ctx past).Fresh
  counted : (start.run urls ctx past).Counted
  dated : (start.run urls ctx past).Dated
  ahead : ∀ url slot, ((start.run urls ctx past).actor url).turn ≤ slot → ∀ id, start.Uncut urls ctx past url id slot
  told : ∀ call ∈ (start.run urls ctx past).calls, ∀ url slot, call.Mentions url slot →
    start.Told urls ctx past url call.id slot

/-- **Everything is traced in every run**: queues, slots, tallies and what the records name, by induction. The step of
    the last part uses that the others hold: a call learns of a slot as the subscription enters the map. -/
theorem traced_run (urls : UrlCrate) (ctx : RelayUrl → StaticCtx) (pool : Pool.RelayPool)
    (admitPolicy : Option Gossip.AdmitPolicy) (gossip : Option (Gossip.Inner D)) (past : List (Action D)) :
    (new pool admitPolicy gossip).Traced urls ctx past := by
  refine (Always.invariant (I := fun past => (new pool admitPolicy gossip).Traced urls ctx past) ?_
    (fun past a h => ?_) past).last
  · refine ⟨aligned_new pool admitPolicy gossip, fresh_new pool admitPolicy gossip, ?_,
      dated_new pool admitPolicy gossip, fun _ _ _ _ => eachStep_nil, ?_⟩
    · intro call hcall
      cases hcall
    · intro call hcall
      cases hcall
  · have hrun : (new pool admitPolicy gossip).run urls ctx (past ++ [a]) =
        ((new pool admitPolicy gossip).run urls ctx past).step urls ctx a := run_append_singleton _ past a
    have hahead : ∀ url slot, (((new pool admitPolicy gossip).run urls ctx past).actor url).turn ≤ slot → ∀ id,
        (new pool admitPolicy gossip).Uncut urls ctx (past ++ [a]) url id slot := by
      intro url slot hslot id
      refine uncut_append.mpr ⟨h.ahead url slot hslot id, fun action _ event _ hcuts => ?_⟩
      exact absurd hcuts.1 (Nat.not_lt.mpr hslot)
    refine ⟨?_, ?_, ?_, ?_, ?_, ?_⟩
    · rw [hrun]
      exact h.aligned.step a
    · rw [hrun]
      exact h.fresh.step a
    · rw [hrun]
      exact h.counted.step a
    · rw [hrun]
      exact h.dated.step h.aligned h.fresh a
    · intro url slot hslot
      rw [hrun] at hslot
      exact hahead url slot ((turn_le_step a url).trans hslot)
    · intro call hcall url slot hmention
      rw [hrun] at hcall
      rcases mentions_step hcall hmention with ⟨old, hold, hid, hknown⟩ | hanswers
      · rw [← hid]
        exact (h.told old hold url slot hknown).step (h.dated.calls old hold url slot hknown) a
      · -- the subscription is in the map, and no wakeup can have cut it off before
        obtain ⟨rfl, _, hholds⟩ := hanswers.spec urls h.aligned h.fresh
        refine ⟨fun hcut => absurd (hahead url _ le_rfl call.id) hcut, fun _ => ?_⟩
        rw [hrun]
        exact Or.inl hholds

/-! ## Exact conditions -/

/-- Where its actor has not moved a relay carries what it carried. -/
theorem Carries.of_actor {id : SubscriptionId} {record : SubscriptionRecord} {url : RelayUrl}
    (hactor : c'.actor url = c.actor url) : c'.Carries id record url ↔ c.Carries id record url := by
  unfold Carries
  rw [hactor]

/-- A record that is about to be written names the relays that are promised and those that have answered. -/
theorem mem_relays_record {call : Subscribing} (h : call.Tallied) {url : RelayUrl} :
    url ∈ call.record.relays ↔ url ∈ call.promised ∨ (call.slots[url]?).isSome = true := by
  have hnamed := h.named url
  unfold Subscribing.record at hnamed ⊢
  unfold Subscribing.promised
  cases hselection : call.selection with
  | capable filter => simpa using h.success url
  | chosen urls filter =>
      rw [hselection] at hnamed
      exact ⟨Or.inl, fun hurl => hurl.elim id hnamed⟩
  | routed relays filters =>
      rw [hselection] at hnamed
      exact ⟨Or.inl, fun hurl => hurl.elim id hnamed⟩

/-- **At the lock of the registry**: the relays a record will name carry its subscription exactly when those that are
    promised have answered, and none that has answered has cut it off. -/
theorem carries_record_iff {call : Subscribing} (h : start.Traced urls ctx past)
    (hcall : call ∈ (start.run urls ctx past).calls) :
    (∀ url ∈ call.record.relays, (start.run urls ctx past).Carries call.id call.record url) ↔
      (∀ url ∈ call.promised, url ∈ call.output.success) ∧
      ∀ url slot, call.slots[url]? = some slot → start.Uncut urls ctx past url call.id slot ∨
        ((start.run urls ctx past).actor url).Over call.id slot := by
  have htallied := h.counted call hcall
  have htold : ∀ url slot, call.slots[url]? = some slot → start.Told urls ctx past url call.id slot :=
    fun url slot hslot => h.told call hcall url slot (Or.inl hslot)
  constructor
  · intro hcarries
    refine ⟨fun url hurl => ?_, fun url slot hslot => ?_⟩
    · obtain ⟨slot, hslot, _⟩ := hcarries url ((mem_relays_record htallied).mpr (Or.inl hurl))
      rw [Subscribing.slots_record, Option.mem_def] at hslot
      exact (htallied.success url).mpr (by rw [hslot]; rfl)
    · have hnamed := (mem_relays_record htallied).mpr (Or.inr (by rw [hslot]; rfl))
      obtain ⟨slot', hslot', hlasts⟩ := hcarries url hnamed
      rw [Subscribing.slots_record, Option.mem_def, hslot] at hslot'
      cases hslot'
      exact (htold url slot hslot).lasts_iff.mp hlasts
  · rintro ⟨hpromised, hkept⟩ url hurl
    have hanswered : (call.slots[url]?).isSome = true := by
      rcases (mem_relays_record htallied).mp hurl with hname | hslot
      · exact (htallied.success url).mp (hpromised url hname)
      · exact hslot
    obtain ⟨slot, hslot⟩ := Option.isSome_iff_exists.mp hanswered
    refine ⟨slot, ?_, (htold url slot hslot).lasts_iff.mpr (hkept url slot hslot)⟩
    rw [Subscribing.slots_record]
    exact hslot

/-- **One step.** Three cases, as the action leaves the records, erases one or stores one; only in the last is the
    record new, and it is exact by the trace. -/
theorem accurate_step_iff (htraced : start.Traced urls ctx past) (h : (start.run urls ctx past).Accurate)
    (a : Action D) : ((start.run urls ctx past).step urls ctx a).Accurate ↔ start.Keeps urls ctx past a := by
  have hturn := turn_step urls ctx (start.run urls ctx past) a
  generalize (start.run urls ctx past).step urls ctx a = c' at hturn
  cases hturn with
  | quiet hquiet hpassive =>
      refine iff_of_true (fun id record hrecord url hurl => ?_) ?_
      · rw [hquiet.subscriptions] at hrecord
        exact (Carries.of_actor (hquiet.actor url)).mpr (h id record hrecord url hurl)
      · cases a with
        | store k =>
            intro call hcall hstoring
            rw [hpassive call hcall] at hstoring
            cases hstoring
        | relay url action =>
            intro id record _ _ slot _ action' ha event hevent
            cases ha
            rw [show _ = none from hpassive] at hevent
            cases hevent
        | _ => trivial
  | erased hactor hsubscriptions =>
      refine iff_of_true (fun id record hrecord url hurl => ?_) trivial
      rw [hsubscriptions] at hrecord
      exact (Carries.of_actor (hactor url)).mpr (h id record (HashMap.of_erase hrecord) url hurl)
  | @stored k call c' hcall hstoring hactor hsubscriptions =>
      have hexact := carries_record_iff htraced (List.mem_of_getElem? hcall)
      constructor
      · intro hafter call' hcall' _
        rw [hcall] at hcall'
        cases hcall'
        refine hexact.mp (fun url hurl => (Carries.of_actor (hactor url)).mp (hafter call.id call.record ?_ url hurl))
        rw [hsubscriptions]
        exact ExtTreeMap.getElem?_insert_self
      · intro hkeeps id record hrecord url hurl
        rw [hsubscriptions] at hrecord
        refine (Carries.of_actor (hactor url)).mpr ?_
        rcases HashMap.of_insert hrecord with hold | ⟨rfl, rfl⟩
        · exact h id record hold url hurl
        · exact hexact.mpr (hkeeps call hcall hstoring) url hurl
  | @served url action event c' hwakes hactor hsubscriptions =>
      have hself := (hactor url).trans (if_pos rfl)
      have hpast := fun id record hrecord slot => htraced.dated.records id record hrecord url slot
      constructor
      · intro hafter id record hrecord hurl slot hslot action' ha event' hevent' hcuts
        cases ha
        rw [hwakes] at hevent'
        cases hevent'
        obtain ⟨slot', hslot', hlasts⟩ := hafter id record (by rw [hsubscriptions]; exact hrecord) url hurl
        cases Option.some.inj (hslot.symm.trans hslot')
        obtain ⟨slot', hslot', hlasted⟩ := h id record hrecord url hurl
        cases Option.some.inj (hslot.symm.trans hslot')
        rw [hself] at hlasts
        exact hcuts.2.2.2 ((Relay.Actor.lasts_step_iff hcuts.1 hlasted event).mp hlasts hcuts.2.1 hcuts.2.2.1)
      · intro hkeeps id record hrecord u hu
        rw [hsubscriptions] at hrecord
        by_cases hurl : u = url
        · cases hurl
          obtain ⟨slot, hslot, hlasted⟩ := h id record hrecord url hu
          refine ⟨slot, hslot, ?_⟩
          rw [hself]
          exact hlasted.step (hpast id record hrecord slot hslot)
            (hkeeps id record hrecord hu slot hslot action rfl event hwakes)
        · exact (Carries.of_actor ((hactor u).trans (if_neg hurl))).mpr (h id record hrecord u hu)

end InnerClient

/-- **The registry is accurate exactly as long as** each record is written when every relay it promises has answered
    `Ok` and no relay that answered has come to a wakeup that cuts the subscription off, unless it is over, and no
    actor comes to such a wakeup while a record names its relay.

    A call learns a slot only from the answer to its own command (`mentions_step`), and the subscription of a slot
    lasts as long as no wakeup has cut it off (`Told.lasts_iff`), both by induction on the run. One step then keeps the
    registry accurate exactly when it meets the condition. -/
theorem accurate_iff (urls : UrlCrate) (ctx : RelayUrl → StaticCtx) {D : Type} (pool : Pool.RelayPool)
    (admitPolicy : Option Gossip.AdmitPolicy) (gossip : Option (Gossip.Inner D)) (actions : List (Action D)) :
    Always (fun past => ((InnerClient.new pool admitPolicy gossip).run urls ctx past).Accurate) actions ↔
      EachStep (fun past a => (InnerClient.new pool admitPolicy gossip).Keeps urls ctx past a) actions := by
  refine always_iff_eachStep (InnerClient.traced_run urls ctx pool admitPolicy gossip) ?_
    (fun past a htraced haccurate => ?_)
  · intro id record hrecord
    cases ExtTreeMap.getElem?_empty.symm.trans hrecord
  · rw [InnerClient.run_append_singleton]
    exact InnerClient.accurate_step_iff htraced haccurate a

namespace Sample

/-- A client with one relay, which is connected; it subscribes there, and the relay's actor serves what it is
    handed. -/
def subscribed : List (Action Unit) :=
  [.relay relay (.issue .connect), .relay relay (.serveCommand Nula.Sample.calm),
    .subscribeWithId (fun _ => 0) Nula.Sample.subscription Nula.Sample.everything .new,
    .send 0 relay, .relay relay (.serveCommand Nula.Sample.calm), .drop 0 relay, .advance 0, .store 0,
    .relay relay (.serveClose Nula.Sample.calm)]

/-- A pool with one relay. -/
def onePool : Pool.RelayPool := ((Pool.RelayPool.new .default).addRelay relay .default).1

/-- The client after these actions. -/
def listing (actions : List (Action Unit)) : InnerClient Unit :=
  (InnerClient.new onePool none none).run Gossip.Sample.urlCrate (fun _ => Nula.Sample.actorCtx) actions

end Sample

/-- The record still names the relay when its actor has closed the subscription. -/
theorem subscribed_closed : ¬ Always (fun past => (Sample.listing past).Accurate) Sample.subscribed := by
  intro h
  have hnamed : ((Sample.listing Sample.subscribed).subscriptions[Nula.Sample.subscription]?).any (fun record =>
      decide (Sample.relay ∈ record.relays) && (record.slots[Sample.relay]?).all (fun slot =>
        !decide (((Sample.listing Sample.subscribed).actor Sample.relay).Lasts Nula.Sample.subscription slot))) =
      true := by decide +kernel
  cases hrecord : (Sample.listing Sample.subscribed).subscriptions[Nula.Sample.subscription]? with
  | none =>
      rw [hrecord] at hnamed
      cases hnamed
  | some record =>
      rw [hrecord, Option.any_some, Bool.and_eq_true] at hnamed
      obtain ⟨slot, hslot, hlasts⟩ := h.last Nula.Sample.subscription record hrecord Sample.relay
        (of_decide_eq_true hnamed.1)
      have hgone := hnamed.2
      rw [hslot, Option.all_some, Bool.not_eq_true'] at hgone
      exact of_decide_eq_false hgone hlasts

end Nula.Sdk
