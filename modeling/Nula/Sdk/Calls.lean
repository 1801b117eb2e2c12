import Nula.Relay.Granted
import Nula.Sdk.Subscriptions

/-!
# `Sdk.Calls` — what the calls of a client know

A call that subscribes learns of each relay whether it has answered, and in which slot. `Turn` says what a step of the
client does to its actors and its registry. Every command that waits for an actor is the one its caller sent
(`Aligned`), so a slot that a call learns is the slot of an entry under the id of the call (`mentions_step`). What a
call tallies up are these slots (`Subscribing.Tallied`).
-/

namespace Nula.Sdk

open Std
open Relay (StaticCtx System)

namespace InnerClient

variable {urls : UrlCrate} {ctx : RelayUrl → StaticCtx} {D : Type} {c c' : InnerClient D}

/-- The actor of a relay. -/
def actor (c : InnerClient D) (url : RelayUrl) : Relay.Actor := (c.link url).system.actor

/-- The action writes no record and wakes no actor. -/
def Passive (c : InnerClient D) : Action D → Prop
  | .store k => ∀ call ∈ c.calls[k]?, call.storing = false
  | .relay url action => (c.link url).system.wakes action = none
  | _ => True

/-! ## What a step does -/

/-- The actors and the registry are as they were. -/
structure Quiet (c c' : InnerClient D) : Prop where
  actor : ∀ url, c'.actor url = c.actor url
  subscriptions : c'.subscriptions = c.subscriptions

namespace Quiet

theorem refl (c : InnerClient D) : Quiet c c := ⟨fun _ => rfl, rfl⟩

theorem trans {c'' : InnerClient D} (h : Quiet c c') (h' : Quiet c' c'') : Quiet c c'' :=
  ⟨fun url => (h'.actor url).trans (h.actor url), h'.subscriptions.trans h.subscriptions⟩

end Quiet

theorem link_setLink (c : InnerClient D) (url u : RelayUrl) (l : Link) :
    (c.setLink url l).link u = if u = url then l else c.link u := by
  unfold link setLink
  rw [ExtTreeMap.getD_insert]
  by_cases h : u = url
  · rw [if_pos (LawfulEqCmp.compare_eq_iff_eq.mpr h.symm), if_pos h]
  · rw [if_neg (fun heq => h (LawfulEqCmp.compare_eq_iff_eq.mp heq).symm), if_neg h]

theorem actor_setLink (c : InnerClient D) (url u : RelayUrl) (l : Link) :
    (c.setLink url l).actor u = if u = url then l.system.actor else c.actor u := by
  unfold actor
  rw [link_setLink]
  split
  · rfl
  · rfl

/-- A link whose actor does nothing. -/
theorem quiet_setLink {url : RelayUrl} {l : Link} (h : l.system.actor = c.actor url) : Quiet c (c.setLink url l) where
  actor u := by
    rw [actor_setLink]
    split
    next heq => rw [heq, h]
    next => rfl
  subscriptions := rfl

/-- A use of the relay that wakes its actor not at all. -/
theorem quiet_useLink {url : RelayUrl} {action : Relay.Action} (h : (c.link url).system.wakes action = none)
    (callers : List (Option Nat)) :
    Quiet c (c.setLink url ⟨(c.link url).system.step (ctx url) action, callers⟩) := by
  refine quiet_setLink ?_
  rw [System.actor_step, h]
  rfl

/-- Issuing a command is quiet: the actor has not taken it up. -/
theorem quiet_issue (caller : Option Nat) (cmd : Relay.Command) (url : RelayUrl) :
    Quiet c (c.issue ctx caller cmd url) := quiet_useLink rfl _

theorem quiet_subscribeWithId (rank : RelayUrl → Nat) (id : SubscriptionId) (filter : Filter)
    (options : Relay.SubscribeOptions) : Quiet c (c.subscribeWithId urls ctx rank id filter options) := by
  have hissues : ∀ (connecting : List RelayUrl) (c : InnerClient D),
      Quiet c (connecting.foldl (issue ctx none .connect) c) := by
    intro connecting
    induction connecting with
    | nil => exact Quiet.refl
    | cons url rest ih => exact fun c => (quiet_issue none .connect url).trans (ih _)
  unfold subscribeWithId
  split
  · exact ⟨fun _ => rfl, rfl⟩
  · split
    next parts _ =>
      have h := hissues (Gossip.ensureGossipRelays c.admitPolicy c.pool ((parts.iter rank).map Prod.fst)).2
        { c with pool := (Gossip.ensureGossipRelays c.admitPolicy c.pool ((parts.iter rank).map Prod.fst)).1 }
      exact ⟨h.actor, h.subscriptions⟩
    next => exact ⟨fun _ => rfl, rfl⟩
    next => exact ⟨fun _ => rfl, rfl⟩

theorem quiet_send (k : Nat) (url : RelayUrl) : Quiet c (c.send ctx k url) := by
  unfold send
  split
  · exact Quiet.refl c
  · split
    · exact (quiet_issue _ _ url).trans ⟨fun _ => rfl, rfl⟩
    · exact Quiet.refl c

theorem quiet_drop (k : Nat) (url : RelayUrl) : Quiet c (c.drop ctx k url) := by
  unfold drop
  split
  · exact Quiet.refl c
  · split
    · exact (quiet_useLink rfl _).trans ⟨fun _ => rfl, rfl⟩
    · exact Quiet.refl c

theorem quiet_advance (k : Nat) : Quiet c (c.advance k) := by
  unfold advance
  split
  · exact Quiet.refl c
  · split
    · exact ⟨fun _ => rfl, rfl⟩
    · exact Quiet.refl c

theorem quiet_cancel (k : Nat) : Quiet c (c.cancel k) := by
  unfold cancel
  split
  · exact Quiet.refl c
  · split
    · exact ⟨fun _ => rfl, rfl⟩
    · exact ⟨fun _ => rfl, rfl⟩
    · exact Quiet.refl c

theorem quiet_deliver (k : Nat) (url : RelayUrl) (result : Except (Option Relay.Error) Nat) :
    Quiet c (c.deliver k url result) := by
  unfold deliver
  split
  · exact Quiet.refl c
  · split
    · exact ⟨fun _ => rfl, rfl⟩
    · exact Quiet.refl c

/-- What a step does to the actors and the registry. -/
inductive Turn (ctx : RelayUrl → StaticCtx) (c : InnerClient D) : Action D → InnerClient D → Prop
  | quiet {a : Action D} {c' : InnerClient D} (h : Quiet c c') (hpassive : c.Passive a) : Turn ctx c a c'
  | erased {id : SubscriptionId} {c' : InnerClient D} (hactor : ∀ url, c'.actor url = c.actor url)
      (hsubscriptions : c'.subscriptions = c.subscriptions.erase id) : Turn ctx c (.unsubscribe id) c'
  | stored {k : Nat} {call : Subscribing} {c' : InnerClient D} (hcall : c.calls[k]? = some call)
      (hstoring : call.storing = true) (hactor : ∀ url, c'.actor url = c.actor url)
      (hsubscriptions : c'.subscriptions = c.subscriptions.insert call.id call.record) : Turn ctx c (.store k) c'
  | served {url : RelayUrl} {action : Relay.Action} {event : Relay.Wakeup × Relay.Env} {c' : InnerClient D}
      (hwakes : (c.link url).system.wakes action = some event)
      (hactor : ∀ u, c'.actor u = if u = url then (c.actor url).step (ctx url) event else c.actor u)
      (hsubscriptions : c'.subscriptions = c.subscriptions) : Turn ctx c (.relay url action) c'

/-- A use of a relay. -/
theorem turn_useLink {url : RelayUrl} (action : Relay.Action) (callers : List (Option Nat))
    {c' : InnerClient D} (h : Quiet (c.setLink url ⟨(c.link url).system.step (ctx url) action, callers⟩) c') :
    Turn ctx c (.relay url action) c' := by
  cases hwakes : (c.link url).system.wakes action with
  | none => exact .quiet ((quiet_useLink hwakes callers).trans h) hwakes
  | some event =>
      refine .served hwakes (fun u => ?_) h.subscriptions
      rw [h.actor, actor_setLink, System.actor_step, hwakes]
      rfl

/-- **Every action is a turn**: a record is written or removed, an actor serves a wakeup, or it is quiet. One case for
    each action. -/
theorem turn_step (urls : UrlCrate) (ctx : RelayUrl → StaticCtx) (c : InnerClient D) (a : Action D) :
    Turn ctx c a (c.step urls ctx a) := by
  cases a with
  | subscribe rank generated filter options =>
      cases generated with
      | error text => exact .quiet (Quiet.refl c) trivial
      | ok id => exact .quiet (quiet_subscribeWithId rank id filter options) trivial
  | subscribeWithId rank id filter options => exact .quiet (quiet_subscribeWithId rank id filter options) trivial
  | subscribeTo rank generated chosen filter options =>
      cases generated with
      | error text => exact .quiet (Quiet.refl c) trivial
      | ok id => exact .quiet ⟨fun _ => rfl, rfl⟩ trivial
  | unsubscribe id => exact .erased (fun _ => rfl) rfl
  | send k url => exact .quiet (quiet_send k url) trivial
  | drop k url => exact .quiet (quiet_drop k url) trivial
  | advance k => exact .quiet (quiet_advance k) trivial
  | cancel k => exact .quiet (quiet_cancel k) trivial
  | addRelay url capabilities => exact .quiet ⟨fun _ => rfl, rfl⟩ trivial
  | learn gossip => exact .quiet ⟨fun _ => rfl, rfl⟩ trivial
  | store k =>
      change Turn ctx c (.store k) (c.store k)
      unfold store
      split
      next hnone =>
        refine .quiet (Quiet.refl c) (fun call hcall => ?_)
        rw [hnone] at hcall
        cases hcall
      next call hcall =>
        split
        next hstoring => exact .stored hcall hstoring (fun _ => rfl) rfl
        next hnot =>
          refine .quiet (Quiet.refl c) (fun call' hcall' => ?_)
          rw [hcall] at hcall'
          cases hcall'
          exact Bool.eq_false_iff.mpr hnot
  | relay url action =>
      change Turn ctx c (.relay url action) (c.useRelay ctx url action)
      cases action with
      | issue cmd => exact turn_useLink (.issue cmd) _ (Quiet.refl _)
      | serveClose env => exact turn_useLink (.serveClose env) _ (Quiet.refl _)
      | serveOther wakeup env => exact turn_useLink (.serveOther wakeup env) _ (Quiet.refl _)
      | drop handle =>
          simp only [useRelay]
          split
          · exact .quiet (Quiet.refl c) rfl
          · exact turn_useLink (.drop handle) _ (Quiet.refl _)
      | lose handle =>
          simp only [useRelay]
          split
          · exact .quiet (Quiet.refl c) rfl
          · exact turn_useLink (.lose handle) _ (Quiet.refl _)
      | serveCommand env =>
          simp only [useRelay, serveCommand]
          split
          · exact turn_useLink (.serveCommand env) _ (quiet_deliver _ _ _)
          · exact turn_useLink (.serveCommand env) _ (Quiet.refl _)

/-- The actor of a relay sleeps through an action, or serves the wakeup the action has for it. -/
theorem Turn.actor_cases {a : Action D} (h : Turn ctx c a c') (url : RelayUrl) :
    (c'.actor url = c.actor url ∧ ∀ action, a = .relay url action → (c.link url).system.wakes action = none) ∨
    ∃ action event, a = .relay url action ∧ (c.link url).system.wakes action = some event ∧
      c'.actor url = (c.actor url).step (ctx url) event := by
  cases h with
  | quiet hquiet hpassive =>
      refine Or.inl ⟨hquiet.actor url, ?_⟩
      rintro action rfl
      exact hpassive
  | erased hactor _ => exact Or.inl ⟨hactor url, fun action h => by cases h⟩
  | stored _ _ hactor _ => exact Or.inl ⟨hactor url, fun action h => by cases h⟩
  | @served u action event _ hwakes hactor _ =>
      by_cases hu : url = u
      · subst hu
        exact Or.inr ⟨action, event, rfl, hwakes, (hactor url).trans (if_pos rfl)⟩
      · refine Or.inl ⟨(hactor url).trans (if_neg hu), ?_⟩
        rintro action' h
        cases h
        exact absurd rfl hu

end InnerClient

/-! ## Slots -/

namespace Subscribing

variable {call : Subscribing} {url : RelayUrl} {slot : Nat}

/-- The call knows this slot of the relay. -/
def Mentions (call : Subscribing) (url : RelayUrl) (slot : Nat) : Prop :=
  call.slots[url]? = some slot ∨ (url, .answered (.ok slot)) ∈ call.legs ∨ (url, .dropped slot) ∈ call.legs

/-- The record of a call names the slots of its answers. -/
theorem slots_record : call.record.slots = call.slots := by
  unfold record
  split
  · rfl
  · rfl
  · rfl

theorem slots_next (pool : Pool.RelayPool) : (call.next pool).slots = call.slots := by
  unfold next
  split
  · rfl
  · rfl

theorem mentions_next {pool : Pool.RelayPool} (h : (call.next pool).Mentions url slot) :
    call.slots[url]? = some slot := by
  rcases h with hslot | hleg | hleg
  · rwa [slots_next] at hslot
  · unfold next at hleg
    split at hleg
    · cases List.mem_singleton.mp hleg
    · cases hleg
  · unfold next at hleg
    split at hleg
    · cases List.mem_singleton.mp hleg
    · cases hleg

theorem id_finish (pool : Pool.RelayPool) : (call.finish pool).id = call.id := by
  have hreport : ∀ (legs : List (RelayUrl × Leg)) (call : Subscribing), (legs.foldl report call).id = call.id := by
    intro legs
    induction legs with
    | nil => exact fun _ => rfl
    | cons leg legs ih =>
        intro call
        rw [List.foldl_cons, ih, report.eq_def]
        split
        · rfl
        · rfl
        · rfl
  have hnote : ∀ call : Subscribing, call.note.id = call.id := by
    intro call
    unfold note
    split
    · rfl
    · rfl
  have hnext : ∀ call : Subscribing, (call.next pool).id = call.id := by
    intro call
    unfold next
    split
    · rfl
    · rfl
  exact (hnext _).trans ((hnote _).trans (hreport _ _))

/-- What a new call mentions its legs have brought. The legs of a new fan-out are unsent, so what it knows it has from
    its slots. -/
theorem mentions_once {pool : Pool.RelayPool} {rank : RelayUrl → Nat} {urls : HashSet RelayUrl} {filter : Filter}
    (h : (call.once pool rank urls filter).Mentions url slot) (hlegs : call.legs = []) :
    call.slots[url]? = some slot := by
  unfold once at h
  split at h
  · rcases h with hslot | hleg | hleg
    · exact hslot
    · rw [hlegs] at hleg
      cases hleg
    · rw [hlegs] at hleg
      cases hleg
  next legs hfan =>
    have hunsent : ∀ leg ∈ legs, leg.2 = .unsent := by
      unfold fanOut at hfan
      split at hfan
      · cases hfan
      · cases hqueued : Gossip.queuePublishes pool.relays (HashSet.iter urls rank) with
        | error e =>
            rw [hqueued] at hfan
            cases hfan
        | ok queued =>
            rw [hqueued] at hfan
            cases hfan
            intro leg hleg
            obtain ⟨u, -, rfl⟩ := List.mem_map.mp hleg
            rfl
    rcases h with hslot | hleg | hleg
    · exact hslot
    · cases hunsent _ hleg
    · cases hunsent _ hleg

theorem mem_legs_move {f : Leg → Leg} {u : RelayUrl} {leg : Leg} (h : (url, leg) ∈ (call.move u f).legs) :
    (url, leg) ∈ call.legs ∨ url = u ∧ ∃ old, (u, old) ∈ call.legs ∧ f old = leg := by
  obtain ⟨⟨v, old⟩, hold, heq⟩ := List.mem_map.mp h
  split at heq
  next hv =>
    cases hv
    cases heq
    exact Or.inr ⟨rfl, old, hold, rfl⟩
  next =>
    cases heq
    exact Or.inl hold

theorem mem_of_leg {leg : Leg} (h : call.leg url = some leg) : (url, leg) ∈ call.legs := by
  obtain ⟨⟨u, found⟩, hfind, rfl⟩ := Option.map_eq_some_iff.mp h
  obtain rfl : u = url := by simpa using List.find?_some hfind
  exact List.mem_of_find?_eq_some hfind

theorem mentions_move {f : Leg → Leg} {u : RelayUrl} (h : (call.move u f).Mentions url slot) :
    call.Mentions url slot ∨ url = u ∧ ∃ leg, (u, leg) ∈ call.legs ∧
      (f leg = .answered (.ok slot) ∨ f leg = .dropped slot) := by
  rcases h with hslot | hleg | hleg
  · exact Or.inl (Or.inl hslot)
  · rcases mem_legs_move hleg with hold | ⟨hurl, old, hold, hmoved⟩
    · exact Or.inl (Or.inr (Or.inl hold))
    · exact Or.inr ⟨hurl, old, hold, Or.inl hmoved⟩
  · rcases mem_legs_move hleg with hold | ⟨hurl, old, hold, hmoved⟩
    · exact Or.inl (Or.inr (Or.inr hold))
    · exact Or.inr ⟨hurl, old, hold, Or.inr hmoved⟩

/-- The slots of a fan-out are those of the handles that were dropped. -/
theorem slots_reports {legs : List (RelayUrl × Leg)} (h : (legs.foldl report call).slots[url]? = some slot) :
    call.slots[url]? = some slot ∨ (url, .dropped slot) ∈ legs := by
  induction legs generalizing call with
  | nil => exact Or.inl h
  | cons x rest ih =>
      rcases ih h with hreport | hrest
      · unfold report at hreport
        split at hreport
        next u dropped =>
          rcases HashMap.of_insert hreport with hold | ⟨rfl, rfl⟩
          · exact Or.inl hold
          · exact Or.inr List.mem_cons_self
        next => exact Or.inl hreport
        next => exact Or.inl hreport
      · exact Or.inr (List.mem_cons_of_mem x hrest)

theorem mentions_finish {pool : Pool.RelayPool} (h : (call.finish pool).Mentions url slot) :
    call.Mentions url slot := by
  have hslot := mentions_next h
  have hnote : ((call.legs.foldl report call).note).slots = (call.legs.foldl report call).slots := by
    unfold note
    split
    · rfl
    · rfl
  rw [hnote] at hslot
  rcases slots_reports hslot with hold | hleg
  · exact Or.inl hold
  · exact Or.inr (Or.inr hleg)

end Subscribing

namespace InnerClient

variable {urls : UrlCrate} {ctx : RelayUrl → StaticCtx} {D : Type} {c c' : InnerClient D}

/-- A call goes on without learning anything. -/
theorem mentions_setCall {k : Nat} {call old x : Subscribing} {url : RelayUrl} {slot : Nat}
    (hcall : call ∈ (c.setCall k x).calls) (h : call.Mentions url slot) (hold : c.calls[k]? = some old)
    (hid : x.id = old.id) (hx : x.Mentions url slot → old.Mentions url slot) :
    ∃ old ∈ c.calls, old.id = call.id ∧ old.Mentions url slot := by
  rcases List.mem_or_eq_of_mem_set hcall with hmem | rfl
  · exact ⟨call, hmem, rfl, h⟩
  · exact ⟨old, List.mem_of_getElem? hold, hid.symm, hx h⟩

theorem calls_issues (connecting : List RelayUrl) (c : InnerClient D) :
    (connecting.foldl (issue ctx none .connect) c).calls = c.calls := by
  induction connecting generalizing c with
  | nil => rfl
  | cons url rest ih => exact ih _

/-- A call that has just begun knows nothing. -/
theorem calls_subscribeWithId {rank : RelayUrl → Nat} {id : SubscriptionId} {filter : Filter}
    {options : Relay.SubscribeOptions} {call : Subscribing} {url : RelayUrl} {slot : Nat}
    (hcall : call ∈ (c.subscribeWithId urls ctx rank id filter options).calls) (h : call.Mentions url slot) :
    call ∈ c.calls := by
  have hpooled : ∀ {call : Subscribing}, call ∈ (c.subscribePooled rank id filter options).calls →
      call.Mentions url slot → call ∈ c.calls := by
    intro call hcall h
    rcases List.mem_append.mp hcall with hold | hnew
    · exact hold
    · rw [List.mem_singleton.mp hnew] at h
      have hslot := Subscribing.mentions_once h rfl
      cases ExtTreeMap.getElem?_empty.symm.trans hslot
  unfold subscribeWithId at hcall
  split at hcall
  · exact hpooled hcall h
  · split at hcall
    · rcases List.mem_append.mp hcall with hold | hnew
      · rwa [calls_issues] at hold
      · rw [List.mem_singleton.mp hnew] at h
        have hslot := Subscribing.mentions_next h
        cases ExtTreeMap.getElem?_empty.symm.trans hslot
    · exact hpooled hcall h
    · exact hpooled hcall h

/-- A handle has the number of the turn that gave it. -/
theorem slot_of_answer {s : System} {ctx : StaticCtx} {cmd : Relay.Command} {env : Relay.Env} {slot : Nat}
    (h : answer s ctx cmd env = .ok slot) : slot = s.actor.turn := by
  unfold answer at h
  split at h
  next handle hgrant =>
    cases h
    exact (System.mem_grant hgrant).2
  next => cases h

/-- **An actor takes up the command at the front** of its queue. -/
theorem actor_serveCommand {url : RelayUrl} {env : Relay.Env} {cmd : Relay.Command} {rest : List Relay.Command}
    (hcommands : (c.link url).system.commands = cmd :: rest) :
    (c.step urls ctx (.relay url (.serveCommand env))).actor url =
      (c.actor url).step (ctx url) (.command cmd, env) := by
  have hactor : (c.step urls ctx (.relay url (.serveCommand env))).actor url =
      ((c.link url).system.step (ctx url) (.serveCommand env)).actor := by
    change (c.useRelay ctx url (.serveCommand env)).actor url = _
    simp only [useRelay, serveCommand]
    split
    · rw [(quiet_deliver _ _ _).actor, actor_setLink, if_pos rfl]
    · rw [actor_setLink, if_pos rfl]
  rw [hactor, System.actor_step, System.wakes, hcommands]
  rfl

/-- In this action the actor of the relay serves a command that the call has sent, and answers it in this slot. -/
def Answers (ctx : RelayUrl → StaticCtx) (c : InnerClient D) (call : Subscribing) (url : RelayUrl) (slot : Nat)
    (a : Action D) : Prop :=
  ∃ env cmd rest k callers, a = .relay url (.serveCommand env) ∧ (c.link url).system.commands = cmd :: rest ∧
    (c.link url).callers = some k :: callers ∧ (∃ old, c.calls[k]? = some old ∧ old.id = call.id) ∧
    answer (c.link url).system (ctx url) cmd env = .ok slot

/-- A step makes a call know no slot but the one in which its relay has just answered. One case for each action: the
    answer of a relay adds to what a call knows, and the others move it at most. -/
theorem mentions_step {a : Action D} {call : Subscribing} (hcall : call ∈ (c.step urls ctx a).calls) {url : RelayUrl}
    {slot : Nat} (h : call.Mentions url slot) :
    (∃ old ∈ c.calls, old.id = call.id ∧ old.Mentions url slot) ∨ c.Answers ctx call url slot a := by
  cases a with
  | subscribe rank generated filter options =>
      cases generated with
      | error text => exact Or.inl ⟨call, hcall, rfl, h⟩
      | ok id => exact Or.inl ⟨call, calls_subscribeWithId hcall h, rfl, h⟩
  | subscribeWithId rank id filter options => exact Or.inl ⟨call, calls_subscribeWithId hcall h, rfl, h⟩
  | subscribeTo rank generated chosen filter options =>
      cases generated with
      | error text => exact Or.inl ⟨call, hcall, rfl, h⟩
      | ok id =>
          rcases List.mem_append.mp hcall with hold | hnew
          · exact Or.inl ⟨call, hold, rfl, h⟩
          · rw [List.mem_singleton.mp hnew] at h
            have hslot := Subscribing.mentions_once h rfl
            cases ExtTreeMap.getElem?_empty.symm.trans hslot
  | unsubscribe id => exact Or.inl ⟨call, hcall, rfl, h⟩
  | addRelay url capabilities => exact Or.inl ⟨call, hcall, rfl, h⟩
  | learn gossip => exact Or.inl ⟨call, hcall, rfl, h⟩
  | send k u =>
      change call ∈ (c.send ctx k u).calls at hcall
      unfold send at hcall
      split at hcall
      · exact Or.inl ⟨call, hcall, rfl, h⟩
      next old hold =>
        split at hcall
        · refine Or.inl (mentions_setCall hcall h hold rfl (fun hx => ?_))
          rcases Subscribing.mentions_move hx with hmention | ⟨-, leg, -, hbad | hbad⟩
          · exact hmention
          · cases hbad
          · cases hbad
        · exact Or.inl ⟨call, hcall, rfl, h⟩
  | drop k u =>
      change call ∈ (c.drop ctx k u).calls at hcall
      unfold drop at hcall
      split at hcall
      · exact Or.inl ⟨call, hcall, rfl, h⟩
      next old hold =>
        split at hcall
        next dropped _ _ hleg =>
          refine Or.inl (mentions_setCall hcall h hold rfl (fun hx => ?_))
          rcases Subscribing.mentions_move hx with hmention | ⟨rfl, leg, -, hbad | hslot⟩
          · exact hmention
          · cases hbad
          · cases hslot
            exact Or.inr (Or.inl (Subscribing.mem_of_leg hleg))
        next => exact Or.inl ⟨call, hcall, rfl, h⟩
  | advance k =>
      change call ∈ (c.advance k).calls at hcall
      unfold advance at hcall
      split at hcall
      · exact Or.inl ⟨call, hcall, rfl, h⟩
      next old hold =>
        split at hcall
        · exact Or.inl (mentions_setCall hcall h hold (Subscribing.id_finish _) Subscribing.mentions_finish)
        · exact Or.inl ⟨call, hcall, rfl, h⟩
  | store k =>
      change call ∈ (c.store k).calls at hcall
      unfold store at hcall
      split at hcall
      · exact Or.inl ⟨call, hcall, rfl, h⟩
      next old hold =>
        split at hcall
        · exact Or.inl (mentions_setCall hcall h hold rfl (fun hx => hx))
        · exact Or.inl ⟨call, hcall, rfl, h⟩
  | cancel k =>
      change call ∈ (c.cancel k).calls at hcall
      unfold cancel at hcall
      split at hcall
      · exact Or.inl ⟨call, hcall, rfl, h⟩
      next old hold =>
        split at hcall
        · exact Or.inl (mentions_setCall hcall h hold rfl (fun hx => hx))
        · exact Or.inl (mentions_setCall hcall h hold rfl (fun hx => hx))
        · exact Or.inl ⟨call, hcall, rfl, h⟩
  | relay u action =>
      change call ∈ (c.useRelay ctx u action).calls at hcall
      cases action with
      | issue cmd => exact Or.inl ⟨call, hcall, rfl, h⟩
      | serveClose env => exact Or.inl ⟨call, hcall, rfl, h⟩
      | serveOther wakeup env => exact Or.inl ⟨call, hcall, rfl, h⟩
      | drop handle =>
          simp only [useRelay] at hcall
          split at hcall
          · exact Or.inl ⟨call, hcall, rfl, h⟩
          · exact Or.inl ⟨call, hcall, rfl, h⟩
      | lose handle =>
          simp only [useRelay] at hcall
          split at hcall
          · exact Or.inl ⟨call, hcall, rfl, h⟩
          · exact Or.inl ⟨call, hcall, rfl, h⟩
      | serveCommand env =>
          simp only [useRelay, serveCommand] at hcall
          split at hcall
          next cmd rest k callers hcommands hcallers =>
            unfold deliver at hcall
            split at hcall
            · exact Or.inl ⟨call, hcall, rfl, h⟩
            next old hold =>
              split at hcall
              next =>
                rcases List.mem_or_eq_of_mem_set hcall with hmem | rfl
                · exact Or.inl ⟨call, hmem, rfl, h⟩
                rcases Subscribing.mentions_move h with hmention | ⟨rfl, leg, hleg, hnew⟩
                · exact Or.inl ⟨old, List.mem_of_getElem? hold, rfl, hmention⟩
                by_cases hasked : leg = .asked
                · rw [if_pos hasked] at hnew
                  rcases hnew with hanswer | hbad
                  · exact Or.inr ⟨env, cmd, rest, k, callers, rfl, hcommands, hcallers, ⟨old, hold, rfl⟩,
                      Leg.answered.inj hanswer⟩
                  · cases hbad
                · rw [if_neg hasked] at hnew
                  refine Or.inl ⟨old, List.mem_of_getElem? hold, rfl, ?_⟩
                  rcases hnew with rfl | rfl
                  · exact Or.inr (Or.inl hleg)
                  · exact Or.inr (Or.inr hleg)
              next => exact Or.inl ⟨call, hcall, rfl, h⟩
          next => exact Or.inl ⟨call, hcall, rfl, h⟩

/-! ## Commands and their callers -/

/-- A command that waits is that of the call whose future waits for its answer. -/
def Fits (calls : List Subscribing) (cmd : Relay.Command) (caller : Option Nat) : Prop :=
  ∀ k ∈ caller, ∃ call, calls[k]? = some call ∧ ∃ filters options, cmd = .subscribe call.id filters options

/-- The commands on the channel of a relay, and who waits for each. -/
def LinkFits (calls : List Subscribing) (l : Link) : Prop := List.Forall₂ (Fits calls) l.system.commands l.callers

/-- Every link has a call for each command that waits in its queue. -/
def Aligned (c : InnerClient D) : Prop := ∀ url, LinkFits c.calls (c.link url)

/-- Calls go on, and new ones come behind them. -/
def Ages (calls calls' : List Subscribing) : Prop :=
  ∀ (k : Nat) call, calls[k]? = some call → ∃ call', calls'[k]? = some call' ∧ call'.id = call.id

theorem Ages.refl (calls : List Subscribing) : Ages calls calls := fun _ call h => ⟨call, h, rfl⟩

theorem ages_begin (call : Subscribing) (c : InnerClient D) : Ages c.calls (c.begin call).calls :=
  fun _ old h => ⟨old, getElem?_append_of_some h, rfl⟩

theorem ages_setCall {k : Nat} {call x : Subscribing} (h : c.calls[k]? = some call) (hid : x.id = call.id) :
    Ages c.calls (c.setCall k x).calls := by
  intro i old hold
  change ∃ call', (c.calls.set k x)[i]? = some call' ∧ _
  rw [List.getElem?_set]
  split
  next heq =>
    subst heq
    rw [h] at hold
    cases hold
    exact ⟨x, if_pos (List.getElem?_eq_some_iff.mp h).1, hid⟩
  next => exact ⟨old, hold, rfl⟩

theorem LinkFits.mono {calls calls' : List Subscribing} {l : Link} (h : LinkFits calls l) (hages : Ages calls calls') :
    LinkFits calls' l := by
  refine List.Forall₂.imp (fun cmd caller hfits k hk => ?_) h
  obtain ⟨call, hcall, filters, options, hcmd⟩ := hfits k hk
  obtain ⟨call', hcall', hid⟩ := hages k call hcall
  exact ⟨call', hcall', filters, options, by rw [hid, hcmd]⟩

/-- A command goes to the end of the queue with its call. -/
theorem LinkFits.issue {calls : List Subscribing} {l : Link} (h : LinkFits calls l) {ctx : StaticCtx}
    {cmd : Relay.Command} {caller : Option Nat} (hfits : Fits calls cmd caller) :
    LinkFits calls ⟨l.system.step ctx (.issue cmd), l.callers ++ [caller]⟩ :=
  List.rel_append h (.cons hfits .nil)

theorem linkFits_new (calls : List Subscribing) : LinkFits calls .new := .nil

namespace Aligned

theorem ages (h : c.Aligned) (hages : Ages c.calls c'.calls) (hlinks : ∀ url, c'.link url = c.link url) :
    c'.Aligned := by
  intro url
  rw [hlinks]
  exact (h url).mono hages

theorem setLink (h : c.Aligned) {url : RelayUrl} {l : Link} (hl : LinkFits c.calls l) : (c.setLink url l).Aligned := by
  intro u
  rw [link_setLink]
  split
  · exact hl
  · exact h u

theorem setCall (h : c.Aligned) {k : Nat} {call x : Subscribing} (hcall : c.calls[k]? = some call)
    (hid : x.id = call.id) : (c.setCall k x).Aligned := h.ages (ages_setCall hcall hid) (fun _ => rfl)

theorem begin (h : c.Aligned) (call : Subscribing) : (c.begin call).Aligned :=
  h.ages (ages_begin call c) (fun _ => rfl)

theorem issue (h : c.Aligned) {cmd : Relay.Command} {caller : Option Nat} (hfits : Fits c.calls cmd caller)
    (url : RelayUrl) : (c.issue ctx caller cmd url).Aligned := h.setLink ((h url).issue hfits)

theorem subscribeWithId (h : c.Aligned) (rank : RelayUrl → Nat) (id : SubscriptionId) (filter : Filter)
    (options : Relay.SubscribeOptions) : (c.subscribeWithId urls ctx rank id filter options).Aligned := by
  have hissues : ∀ (connecting : List RelayUrl) (c : InnerClient D), c.Aligned →
      (connecting.foldl (InnerClient.issue ctx none .connect) c).Aligned := by
    intro connecting
    induction connecting with
    | nil => exact fun _ h => h
    | cons url rest ih => exact fun c h => ih _ (h.issue (fun k hk => by cases hk) url)
  unfold InnerClient.subscribeWithId
  split
  · exact h.begin _
  · split
    next parts _ =>
      refine Aligned.begin (hissues _ { c with
        pool := (Gossip.ensureGossipRelays c.admitPolicy c.pool ((parts.iter rank).map Prod.fst)).1 } h) _
    next => exact h.begin _
    next => exact h.begin _

/-- An answer that is delivered changes no queue. -/
theorem deliver (h : c.Aligned) (k : Nat) (url : RelayUrl) (result : Except (Option Relay.Error) Nat) :
    (c.deliver k url result).Aligned := by
  unfold InnerClient.deliver
  split
  · exact h
  next call hcall =>
    split
    · exact h.setCall hcall rfl
    · exact h

/-- A command that is taken up leaves its queue, with its call. -/
theorem serveCommand (h : c.Aligned) (url : RelayUrl) (env : Relay.Env) : (c.serveCommand ctx url env).Aligned := by
  have hserved : (c.setLink url
      ⟨(c.link url).system.step (ctx url) (.serveCommand env), (c.link url).callers.tail⟩).Aligned := by
    refine h.setLink ?_
    have hurl : List.Forall₂ (Fits c.calls) (c.link url).system.commands (c.link url).callers := h url
    unfold LinkFits System.step
    cases hcommands : (c.link url).system.commands with
    | nil =>
        rw [hcommands, List.forall₂_nil_left_iff] at hurl
        rw [hurl]
        dsimp only
        rw [hcommands]
        exact .nil
    | cons cmd rest =>
        rw [hcommands, List.forall₂_cons_left_iff] at hurl
        obtain ⟨caller, callers, _, hrest, hcallers⟩ := hurl
        rw [hcallers]
        exact hrest
  unfold InnerClient.serveCommand
  dsimp only
  split
  · exact hserved.deliver _ _ _
  · exact hserved

/-- What else is done with a relay takes no command off its channel. -/
theorem use (h : c.Aligned) (url : RelayUrl) {action : Relay.Action}
    (hcommands : ((c.link url).system.step (ctx url) action).commands = (c.link url).system.commands) :
    (c.setLink url { c.link url with system := (c.link url).system.step (ctx url) action }).Aligned := by
  refine h.setLink ?_
  unfold LinkFits
  rw [hcommands]
  exact h url

theorem commands_drop (s : System) (ctx : StaticCtx) (handle : Relay.Handle) :
    (s.step ctx (.drop handle)).commands = s.commands := by
  rw [System.step]
  split <;> rfl

theorem useRelay (h : c.Aligned) (url : RelayUrl) (action : Relay.Action) : (c.useRelay ctx url action).Aligned := by
  cases action with
  | issue cmd => exact h.issue (fun k hk => by cases hk) url
  | serveCommand env => exact h.serveCommand url env
  | drop handle =>
      simp only [InnerClient.useRelay]
      split
      · exact h
      · exact h.use url (commands_drop _ _ handle)
  | lose handle =>
      simp only [InnerClient.useRelay]
      split
      · exact h
      · exact h.use url rfl
  | serveClose env =>
      refine h.use url ?_
      rw [System.step]
      split
      next hcommands _ => rw [hcommands]
      next => rfl
  | serveOther wakeup env =>
      refine h.use url ?_
      rw [System.step]
      split
      next hcommands _ =>
        split
        · rfl
        · rfl
      next => rfl

/-- A leg sends its command, and waits for the answer. -/
theorem send (h : c.Aligned) (k : Nat) (url : RelayUrl) : (c.send ctx k url).Aligned := by
  unfold InnerClient.send
  split
  · exact h
  next call hcall =>
    split
    next =>
      have hissued : (c.issue ctx (some k) (.subscribe call.id call.filters call.options) url).Aligned := by
        refine h.issue (fun k' hk' => ?_) url
        cases hk'
        exact ⟨call, hcall, call.filters, call.options, rfl⟩
      exact hissued.setCall hcall rfl
    next => exact h

theorem drop (h : c.Aligned) (k : Nat) (url : RelayUrl) : (c.drop ctx k url).Aligned := by
  unfold InnerClient.drop
  split
  · exact h
  next call hcall =>
    split
    next slot _ _ _ =>
      have hdropped := h.use url (commands_drop (c.link url).system (ctx url) ⟨call.id, slot⟩)
      exact hdropped.setCall hcall rfl
    next => exact h

/-- **One action keeps the queues aligned**, one case each. -/
theorem step (h : c.Aligned) (a : Action D) : (c.step urls ctx a).Aligned := by
  cases a with
  | subscribe rank generated filter options =>
      cases generated with
      | error text => exact h
      | ok id => exact h.subscribeWithId rank id filter options
  | subscribeWithId rank id filter options => exact h.subscribeWithId rank id filter options
  | subscribeTo rank generated chosen filter options =>
      cases generated with
      | error text => exact h
      | ok id => exact h.begin _
  | unsubscribe id => exact h
  | addRelay url capabilities => exact h
  | learn gossip => exact h
  | send k url => exact h.send k url
  | drop k url => exact h.drop k url
  | relay url action => exact h.useRelay url action
  | advance k =>
      change (c.advance k).Aligned
      unfold InnerClient.advance
      split
      · exact h
      next call hcall =>
        split
        · exact h.setCall hcall (Subscribing.id_finish _)
        · exact h
  | store k =>
      change (c.store k).Aligned
      unfold InnerClient.store
      split
      · exact h
      next call hcall =>
        split
        · exact h.ages (ages_setCall hcall rfl) (fun _ => rfl)
        · exact h
  | cancel k =>
      change (c.cancel k).Aligned
      unfold InnerClient.cancel
      split
      · exact h
      next call hcall =>
        split
        · exact h.setCall hcall rfl
        · exact h.setCall hcall rfl
        · exact h

end Aligned

theorem aligned_new (pool : Pool.RelayPool) (admitPolicy : Option Gossip.AdmitPolicy)
    (gossip : Option (Gossip.Inner D)) : Aligned (new pool admitPolicy gossip) := fun _ => linkFits_new []

/-! ## Slots of the past -/

/-- An actor's turns only go up. -/
theorem turn_le_step (a : Action D) (url : RelayUrl) : (c.actor url).turn ≤ ((c.step urls ctx a).actor url).turn := by
  have hturn := turn_step urls ctx c a
  generalize c.step urls ctx a = c' at hturn
  cases hturn with
  | quiet h _ => rw [h.actor]
  | erased hactor _ => rw [hactor]
  | stored _ _ hactor _ => rw [hactor]
  | served _ hactor _ =>
      rw [hactor]
      split
      next heq =>
        rw [heq]
        exact Nat.le_succ _
      next => exact le_rfl

/-- No actor has signalled a slot of a turn to come. -/
def Fresh (c : InnerClient D) : Prop := ∀ url, (c.actor url).outbox.Dated (c.actor url).turn

theorem fresh_new (pool : Pool.RelayPool) (admitPolicy : Option Gossip.AdmitPolicy)
    (gossip : Option (Gossip.Inner D)) : Fresh (new pool admitPolicy gossip) := fun _ => Relay.Actor.dated_new

/-- **One action keeps the actors' slots in the past**, since only a served wakeup answers. -/
theorem Fresh.step (h : c.Fresh) (a : Action D) : (c.step urls ctx a).Fresh := by
  intro url
  have hturn := turn_step urls ctx c a
  generalize c.step urls ctx a = c' at hturn
  cases hturn with
  | quiet hquiet _ =>
      rw [hquiet.actor]
      exact h url
  | erased hactor _ =>
      rw [hactor]
      exact h url
  | stored _ _ hactor _ =>
      rw [hactor]
      exact h url
  | @served u _ event _ _ hactor _ =>
      rw [hactor]
      split
      next => exact Relay.Actor.dated_step (h u) event
      next => exact h url

/-- **An answer** is given in the actor's own turn, and has put the subscription of its call in the map. -/
theorem Answers.spec {call : Subscribing} {url : RelayUrl} {slot : Nat} {a : Action D}
    (h : c.Answers ctx call url slot a) (urls : UrlCrate) (haligned : c.Aligned) (hfresh : c.Fresh) :
    slot = (c.actor url).turn ∧ ((c.step urls ctx a).actor url).turn = (c.actor url).turn + 1 ∧
      ((c.step urls ctx a).actor url).Holds call.id slot := by
  obtain ⟨env, cmd, rest, k, callers, rfl, hcommands, hcallers, ⟨old, hold, hid⟩, hanswer⟩ := h
  have hfits : List.Forall₂ (Fits c.calls) (c.link url).system.commands (c.link url).callers := haligned url
  rw [hcommands, hcallers, List.forall₂_cons] at hfits
  obtain ⟨call', hcall', filters, options, rfl⟩ := hfits.1 k rfl
  obtain rfl : call' = old := Option.some.inj (hcall'.symm.trans hold)
  have hactor : (c.step urls ctx (.relay url (.serveCommand env))).actor url =
      (c.actor url).step (ctx url) (.command _, env) := actor_serveCommand hcommands
  refine ⟨slot_of_answer hanswer, by rw [hactor]; rfl, ?_⟩
  rw [hactor, ← hid]
  unfold answer at hanswer
  split at hanswer
  next handle hgrant =>
    cases hanswer
    exact Relay.Actor.holds_of_grant (hfresh url) hgrant
  next => cases hanswer

/-- Every slot that a call or a record knows is of the past. -/
structure Dated (c : InnerClient D) : Prop where
  calls : ∀ call ∈ c.calls, ∀ url slot, call.Mentions url slot → slot < (c.actor url).turn
  records : ∀ (id : SubscriptionId) record, c.subscriptions[id]? = some record → ∀ url slot,
    record.slots[url]? = some slot → slot < (c.actor url).turn

theorem dated_new (pool : Pool.RelayPool) (admitPolicy : Option Gossip.AdmitPolicy)
    (gossip : Option (Gossip.Inner D)) : Dated (new pool admitPolicy gossip) where
  calls call hcall := by cases hcall
  records id record hrecord := by cases ExtTreeMap.getElem?_empty.symm.trans hrecord

/-- **Slots that a call or a record names are of the past**: they come from an answer of the actor, which was of its
    own turn. -/
theorem Dated.step (h : c.Dated) (haligned : c.Aligned) (hfresh : c.Fresh) (a : Action D) :
    (c.step urls ctx a).Dated where
  calls call hcall url slot hmention := by
    rcases mentions_step hcall hmention with ⟨old, hold, _, hknown⟩ | hanswers
    · exact Nat.lt_of_lt_of_le (h.calls old hold url slot hknown) (turn_le_step a url)
    · obtain ⟨rfl, hturn, _⟩ := hanswers.spec urls haligned hfresh
      rw [hturn]
      exact Nat.lt_succ_self _
  records id record hrecord url slot hslot := by
    refine Nat.lt_of_lt_of_le ?_ (turn_le_step a url)
    have hturn := turn_step urls ctx c a
    generalize c.step urls ctx a = c' at hturn hrecord
    cases hturn with
    | quiet hquiet _ =>
        rw [hquiet.subscriptions] at hrecord
        exact h.records id record hrecord url slot hslot
    | erased _ hsubscriptions =>
        rw [hsubscriptions] at hrecord
        exact h.records _ record (HashMap.of_erase hrecord) url slot hslot
    | @stored _ call _ hcall _ _ hsubscriptions =>
        rw [hsubscriptions] at hrecord
        rcases HashMap.of_insert hrecord with hold | ⟨rfl, rfl⟩
        · exact h.records _ record hold url slot hslot
        · rw [Subscribing.slots_record] at hslot
          exact h.calls call (List.mem_of_getElem? hcall) url slot (Or.inl hslot)
    | served _ _ hsubscriptions =>
        rw [hsubscriptions] at hrecord
        exact h.records _ record hrecord url slot hslot

end InnerClient

/-! ## What a call tallies up -/

namespace Subscribing

variable {call : Subscribing} {url : RelayUrl}

/-- The relays that have answered are those with a slot, and the record names them; the relays of a fan-out that its
    caller chose are of its choice. -/
structure Tallied (call : Subscribing) : Prop where
  success : ∀ url, url ∈ call.output.success ↔ (call.slots[url]?).isSome = true
  chosen : ∀ urls filter, call.selection = .chosen urls filter → call.more = [] ∧ ∀ leg ∈ call.legs, leg.1 ∈ urls
  named : ∀ url, (call.slots[url]?).isSome = true → url ∈ call.record.relays

/-- A call without answers has nothing to its credit. -/
theorem tallied_of_slots_empty (hslots : call.slots = ∅) (hsuccess : call.output.success = ∅)
    (hchosen : ∀ urls filter, call.selection = .chosen urls filter → call.more = [] ∧ ∀ leg ∈ call.legs, leg.1 ∈ urls) :
    call.Tallied where
  success url := by simp [hslots, hsuccess]
  chosen := hchosen
  named url hurl := by simp [hslots] at hurl

/-- Moving a leg, or the call to another stage. -/
theorem Tallied.move (h : call.Tallied) (u : RelayUrl) (f : Leg → Leg) : (call.move u f).Tallied where
  success := h.success
  chosen urls filter hselection := by
    obtain ⟨hmore, hlegs⟩ := h.chosen urls filter hselection
    refine ⟨hmore, fun leg hleg => ?_⟩
    rcases mem_legs_move (show (leg.1, leg.2) ∈ _ from hleg) with hold | ⟨hu, old, hold, _⟩
    · exact hlegs _ hold
    · rw [hu]
      exact hlegs _ hold
  named := h.named

theorem Tallied.stage (h : call.Tallied) (stage : Stage) : ({ call with stage := stage } : Subscribing).Tallied :=
  ⟨h.success, h.chosen, h.named⟩

/-- What the answers of a fan-out add. By induction on the legs: an answer adds its relay to the successes and its
    slot, and a refusal adds to neither. -/
theorem reports_spec (legs : List (RelayUrl × Leg)) (call : Subscribing)
    (hsuccess : ∀ url, url ∈ call.output.success ↔ (call.slots[url]?).isSome = true) :
    (legs.foldl report call).selection = call.selection ∧ (legs.foldl report call).legs = call.legs ∧
    (legs.foldl report call).more = call.more ∧ (legs.foldl report call).filters = call.filters ∧
    (∀ url, url ∈ (legs.foldl report call).output.success ↔
      ((legs.foldl report call).slots[url]?).isSome = true) ∧
    ∀ url, ((legs.foldl report call).slots[url]?).isSome = true →
      (call.slots[url]?).isSome = true ∨ url ∈ legs.map Prod.fst := by
  induction legs generalizing call with
  | nil => exact ⟨rfl, rfl, rfl, rfl, hsuccess, fun _ h => Or.inl h⟩
  | cons leg legs ih =>
      have hstep : (call.report leg).selection = call.selection ∧ (call.report leg).legs = call.legs ∧
          (call.report leg).more = call.more ∧ (call.report leg).filters = call.filters ∧
          (∀ url, url ∈ (call.report leg).output.success ↔ ((call.report leg).slots[url]?).isSome = true) ∧
          ∀ url, ((call.report leg).slots[url]?).isSome = true → (call.slots[url]?).isSome = true ∨ url = leg.1 := by
        unfold report
        split
        next u slot =>
          refine ⟨rfl, rfl, rfl, rfl, fun v => ?_, fun v hv => ?_⟩
          · rw [ExtTreeMap.getElem?_insert]
            split
            next heq => simp [LawfulEqCmp.compare_eq_iff_eq.mp heq]
            next hne =>
              rw [← hsuccess v, ExtTreeSet.mem_insert]
              simp [hne]
          · rw [ExtTreeMap.getElem?_insert] at hv
            split at hv
            next heq => exact Or.inr (LawfulEqCmp.compare_eq_iff_eq.mp heq).symm
            next => exact Or.inl hv
        next => exact ⟨rfl, rfl, rfl, rfl, hsuccess, fun _ h => Or.inl h⟩
        next => exact ⟨rfl, rfl, rfl, rfl, hsuccess, fun _ h => Or.inl h⟩
      obtain ⟨hselection, hlegs, hmore, hfilters, hsuccess', hslots⟩ := hstep
      obtain ⟨hselection', hlegs', hmore', hfilters', hsuccess'', hslots'⟩ := ih (call.report leg) hsuccess'
      refine ⟨hselection'.trans hselection, hlegs'.trans hlegs, hmore'.trans hmore, hfilters'.trans hfilters,
        hsuccess'', fun url hurl => ?_⟩
      rcases hslots' url hurl with hbefore | hrest
      · rcases hslots url hbefore with hold | rfl
        · exact Or.inl hold
        · exact Or.inr List.mem_cons_self
      · exact Or.inr (List.mem_cons_of_mem _ hrest)

theorem Tallied.next (h : call.Tallied) (pool : Pool.RelayPool) : (call.next pool).Tallied := by
  unfold Subscribing.next
  split
  next hmore =>
    refine ⟨h.success, fun urls filter hselection => ?_, h.named⟩
    -- a call that its caller routed has one fan-out
    rw [(h.chosen urls filter hselection).1] at hmore
    cases hmore
  next => exact ⟨h.success, fun _ _ _ => ⟨rfl, fun _ hleg => by cases hleg⟩, h.named⟩

/-- At the end of a fan-out the relays that answered are among those it asked. What the record names is the selection,
    which the fan-out was made from, or the successes themselves. -/
theorem Tallied.finish (h : call.Tallied) (pool : Pool.RelayPool) : (call.finish pool).Tallied := by
  obtain ⟨hselection, hlegs, hmore, hfilters, hsuccess, hslots⟩ := reports_spec call.legs call h.success
  have hchosen : ∀ urls filter, (call.legs.foldl report call).selection = .chosen urls filter →
      (call.legs.foldl report call).more = [] ∧ ∀ leg ∈ (call.legs.foldl report call).legs, leg.1 ∈ urls := by
    intro urls filter hchoice
    rw [hmore, hlegs]
    exact h.chosen urls filter (hselection.symm.trans hchoice)
  refine Tallied.next ?_ pool
  unfold note
  split
  next relays filters hrouted =>
    refine ⟨hsuccess, (fun _ _ hchoice => by cases hchoice), fun url hurl => ?_⟩
    rw [hlegs]
    rcases hslots url hurl with hold | hnew
    · have hnamed := h.named url hold
      rw [record, ← hselection, hrouted] at hnamed
      exact List.mem_append_left _ hnamed
    · exact List.mem_append_right _ hnew
  next hnot =>
    refine ⟨hsuccess, hchosen, fun url hurl => ?_⟩
    unfold record
    split
    next => exact ExtTreeSet.mem_toList.mpr ((hsuccess url).mpr hurl)
    next urls filter hchoice =>
      rcases hslots url hurl with hold | hnew
      · have hnamed := h.named url hold
        rwa [record, ← hselection, hchoice] at hnamed
      · obtain ⟨leg, hleg, rfl⟩ := List.mem_map.mp hnew
        rw [← hlegs] at hleg
        exact (hchosen urls filter hchoice).2 leg hleg
    next relays filters hrouted => exact absurd hrouted (hnot relays filters)

theorem tallied_once {pool : Pool.RelayPool} {rank : RelayUrl → Nat} {asked : HashSet RelayUrl} {filter : Filter}
    (id : SubscriptionId) (options : Relay.SubscribeOptions) {selection : Selection}
    (hchosen : ∀ urls f, selection = .chosen urls f → ∀ url ∈ asked, url ∈ urls) :
    ((new id options selection).once pool rank asked filter).Tallied := by
  unfold once
  split
  next => exact tallied_of_slots_empty rfl rfl (fun _ _ _ => ⟨rfl, fun _ hleg => by cases hleg⟩)
  next legs hfan =>
    refine tallied_of_slots_empty rfl rfl (fun urls f hselection => ⟨rfl, fun leg hleg => ?_⟩)
    unfold fanOut at hfan
    split at hfan
    · cases hfan
    · cases hqueued : Gossip.queuePublishes pool.relays (HashSet.iter asked rank) with
      | error e =>
          rw [hqueued] at hfan
          cases hfan
      | ok queued =>
          rw [hqueued] at hfan
          cases hfan
          obtain ⟨u, hu, rfl⟩ := List.mem_map.mp hleg
          rw [(Gossip.queuePublishes_ok hqueued).1] at hu
          exact hchosen urls f hselection u (HashSet.mem_iter.mp hu)

end Subscribing

namespace InnerClient

variable {urls : UrlCrate} {ctx : RelayUrl → StaticCtx} {D : Type} {c : InnerClient D}

/-- A set that is collected from a list has its members. -/
theorem mem_of_mem_collected {l : List RelayUrl} {url : RelayUrl}
    (h : url ∈ l.foldl (fun set url => set.insert url) (∅ : HashSet RelayUrl)) : url ∈ l := by
  have hfold : ∀ (l : List RelayUrl) (set : HashSet RelayUrl),
      url ∈ l.foldl (fun set url => set.insert url) set → url ∈ set ∨ url ∈ l := by
    intro l
    induction l with
    | nil => exact fun _ h => Or.inl h
    | cons u l ih =>
        intro set hmem
        rcases ih _ hmem with hset | hl
        · rcases ExtTreeSet.mem_insert.mp hset with heq | hold
          · rw [LawfulEqCmp.compare_eq_iff_eq.mp heq]
            exact Or.inr List.mem_cons_self
          · exact Or.inl hold
        · exact Or.inr (List.mem_cons_of_mem u hl)
  exact (hfold l ∅ h).resolve_left ExtTreeSet.not_mem_empty

/-- Every call has tallied up its answers. -/
def Counted (c : InnerClient D) : Prop := ∀ call ∈ c.calls, call.Tallied

namespace Counted

/-- A call that goes on is counted, if it stays tallied. -/
theorem setCall (h : c.Counted) {k : Nat} {call x : Subscribing} (hcall : c.calls[k]? = some call)
    (hx : call.Tallied → x.Tallied) : (c.setCall k x).Counted := by
  intro y hy
  rcases List.mem_or_eq_of_mem_set hy with hmem | rfl
  · exact h y hmem
  · exact hx (h call (List.mem_of_getElem? hcall))

theorem begin (h : c.Counted) {call : Subscribing} (hcall : call.Tallied) : (c.begin call).Counted := by
  intro y hy
  rcases List.mem_append.mp hy with hmem | hnew
  · exact h y hmem
  · rw [List.mem_singleton.mp hnew]
    exact hcall

theorem subscribeWithId (h : c.Counted) (rank : RelayUrl → Nat) (id : SubscriptionId) (filter : Filter)
    (options : Relay.SubscribeOptions) : (c.subscribeWithId urls ctx rank id filter options).Counted := by
  have hpooled : (c.subscribePooled rank id filter options).Counted :=
    h.begin (Subscribing.tallied_once id options (fun _ _ hselection => by cases hselection))
  unfold InnerClient.subscribeWithId
  split
  · exact hpooled
  · split
    next parts _ =>
      refine Counted.begin ?_ (Subscribing.Tallied.next ?_ _)
      · intro call hcall
        rw [calls_issues] at hcall
        exact h call hcall
      · exact Subscribing.tallied_of_slots_empty rfl rfl (fun _ _ hselection => by cases hselection)
    next => exact hpooled
    next => exact hpooled

/-- **One action keeps every call counted**, one case each. -/
theorem step (h : c.Counted) (a : Action D) : (c.step urls ctx a).Counted := by
  cases a with
  | subscribe rank generated filter options =>
      cases generated with
      | error text => exact h
      | ok id => exact h.subscribeWithId rank id filter options
  | subscribeWithId rank id filter options => exact h.subscribeWithId rank id filter options
  | subscribeTo rank generated chosen filter options =>
      cases generated with
      | error text => exact h
      | ok id =>
          refine h.begin (Subscribing.tallied_once id options (fun urls f hselection url hurl => ?_))
          cases hselection
          exact mem_of_mem_collected hurl
  | unsubscribe id => exact h
  | addRelay url capabilities => exact h
  | learn gossip => exact h
  | send k url =>
      change (c.send ctx k url).Counted
      unfold InnerClient.send
      split
      · exact h
      next call hcall =>
        split
        · exact Counted.setCall (c := c.issue ctx _ _ url) h hcall (fun hx => hx.move _ _)
        · exact h
  | drop k url =>
      change (c.drop ctx k url).Counted
      unfold InnerClient.drop
      split
      · exact h
      next call hcall =>
        split
        · exact Counted.setCall (c := c.setLink url _) h hcall (fun hx => hx.move _ _)
        · exact h
  | advance k =>
      change (c.advance k).Counted
      unfold InnerClient.advance
      split
      · exact h
      next call hcall =>
        split
        · exact h.setCall hcall (fun hx => hx.finish _)
        · exact h
  | store k =>
      change (c.store k).Counted
      unfold InnerClient.store
      split
      · exact h
      next call hcall =>
        split
        · exact Counted.setCall (c := { c with subscriptions := _ }) h hcall (fun hx => hx.stage _)
        · exact h
  | cancel k =>
      change (c.cancel k).Counted
      unfold InnerClient.cancel
      split
      · exact h
      next call hcall =>
        split
        · exact h.setCall hcall (fun hx => hx.stage _)
        · exact h.setCall hcall (fun hx => hx.stage _)
        · exact h
  | relay url action =>
      change (c.useRelay ctx url action).Counted
      cases action with
      | issue cmd => exact h
      | serveClose env => exact h
      | serveOther wakeup env => exact h
      | drop handle =>
          simp only [useRelay]
          split
          · exact h
          · exact h
      | lose handle =>
          simp only [useRelay]
          split
          · exact h
          · exact h
      | serveCommand env =>
          simp only [useRelay, serveCommand]
          split
          next k _ _ _ =>
            unfold deliver
            split
            · exact h
            next call hcall =>
              split
              · exact Counted.setCall (c := c.setLink url _) h hcall (fun hx => hx.move _ _)
              · exact h
          next => exact h

end Counted

end InnerClient

end Nula.Sdk
