import Nula.Relay.Handles
import Nula.Relay.Tracked

/-!
# `Relay.Lasting` — how long a subscription lasts

A subscription is over once its relay has sent `CLOSED` or the socket of that time is gone. Until then the actor
holds it in its map, unless a wakeup takes it out on the client's own account: the close signal of a dropped handle,
or a frame that forgets it (`Actor.takes`). `lasts_step_iff` says what one step does to that.
-/

namespace Nula.Relay

open Std

/-- A `CLOSED` for this subscription. -/
def Obs.closes (id : SubscriptionId) : Obs → Bool
  | .received _ (.closed i _) => i == id
  | _ => false

namespace Actor

section

variable (a : Actor) (id : SubscriptionId) (slot : Nat)

/-- The subscription that was registered in this slot is in the map. -/
def Holds : Prop := ∃ entry ∈ a.state.subscriptions[id]?, entry.sink = slot

/-- The relay has closed it since. -/
def ClosedSince : Prop := ∃ x ∈ a.wire.frames, slot < x.1 ∧ x.2.closes id = true

/-- The socket of that time is still the live one. -/
def SameSocket : Prop := ∃ socket ∈ a.state.sink, socket < slot

/-- The relay has closed it, or the connection it was opened on is gone. -/
def Over : Prop := a.ClosedSince id slot ∨ ¬ a.SameSocket slot

/-- It is open as long as it is not over. -/
def Lasts : Prop := a.Holds id slot ∨ a.Over id slot

instance : Decidable (a.Holds id slot) :=
  inferInstanceAs (Decidable (∃ entry ∈ a.state.subscriptions[id]?, entry.sink = slot))

instance : Decidable (a.ClosedSince id slot) :=
  inferInstanceAs (Decidable (∃ x ∈ a.wire.frames, slot < x.1 ∧ x.2.closes id = true))

instance : Decidable (a.SameSocket slot) := inferInstanceAs (Decidable (∃ socket ∈ a.state.sink, socket < slot))

instance : Decidable (a.Over id slot) := inferInstanceAs (Decidable (_ ∨ ¬ _))

instance : Decidable (a.Lasts id slot) := inferInstanceAs (Decidable (_ ∨ _))

end

variable (ctx : StaticCtx)

/-- The subscription that a wakeup takes out of the map without the relay having closed it. -/
def takes (a : Actor) : Wakeup → Option SubscriptionId
  | .closeSignal id => some id
  | .inbound frame => (a.reads ctx (.inbound frame)).bind (fun read => a.forgets read.2)
  | _ => none

variable {ctx} {env : Env} {a : Actor} {id : SubscriptionId} {slot : Nat}

/-! ## The socket -/

/-- A new connection has a new sink, or none was made. -/
theorem sink_wireConnect : (a.wireConnect env).sink = a.state.sink ∨ (a.wireConnect env).sink = some a.turn := by
  unfold wireConnect
  split
  · exact Or.inr rfl
  · exact Or.inl rfl

theorem sink_sendIfLive (w : Wire) (turn : Nat) (message : ClientMessage) :
    (w.sendIfLive env turn message).sink = w.sink := by
  unfold Wire.sendIfLive
  split
  · rfl
  · unfold Wire.send
    split
    · rfl
    · rfl

/-- A wakeup keeps the socket, drops it or opens one with its own number. One case for each wakeup; only a handshake
    opens a socket. -/
theorem sink_wireAfter (ctx : StaticCtx) (env : Env) (a : Actor) (w : Wakeup) :
    (a.wireAfter ctx env w).sink = a.state.sink ∨
    (a.wireAfter ctx env w).sink = none ∨ (a.wireAfter ctx env w).sink = some a.turn := by
  cases w with
  | commandsClosed => exact Or.inr (Or.inl rfl)
  | publishTimer => exact Or.inl rfl
  | reconnectTimer => exact sink_wireConnect.imp id Or.inr
  | closeSignal i =>
      simp only [wireAfter]
      split
      · exact Or.inl (sink_sendIfLive _ _ _)
      · exact Or.inl rfl
  | inbound frame =>
      simp only [wireAfter]
      split
      · split
        · exact Or.inl rfl
        · exact Or.inl rfl
      · split
        · exact Or.inr (Or.inl rfl)
        · exact Or.inl rfl
  | command cmd =>
      cases cmd with
      | shutdown => exact Or.inr (Or.inl rfl)
      | disconnect => exact Or.inr (Or.inl rfl)
      | connect =>
          simp only [wireAfter]
          split
          · exact Or.inl rfl
          · exact sink_wireConnect.imp id Or.inr
      | subscribe i filters options =>
          simp only [wireAfter]
          split
          · exact Or.inl rfl
          · exact Or.inl (sink_sendIfLive _ _ _)
      | subscribeNeg i filter hex =>
          simp only [wireAfter]
          split
          · exact Or.inl rfl
          · split
            · exact Or.inl rfl
            · split
              · exact Or.inl rfl
              · exact Or.inl rfl
      | publish event options =>
          simp only [wireAfter]
          split
          · exact Or.inl rfl
          · exact Or.inl (sink_sendIfLive _ _ _)
      | authenticate event => exact Or.inl (sink_sendIfLive _ _ _)
      | sendMsg message => exact Or.inl (sink_sendIfLive _ _ _)

/-- **One step** leaves the socket, loses it, or has a new one of this turn. -/
theorem sink_step (ctx : StaticCtx) (a : Actor) (event : Wakeup × Env) : (a.step ctx event).state.sink = a.state.sink ∨
    (a.step ctx event).state.sink = none ∨ (a.step ctx event).state.sink = some a.turn := by
  by_cases hs : a.serves ctx event
  · have hwire := congrArg Wire.sink (wire_step ctx a event hs)
    have hsink := sink_wireAfter ctx event.2 a event.1
    rw [← hwire] at hsink
    exact hsink
  · rcases step_of_not_serves ctx hs with ⟨hattends, hover, _⟩ | ⟨_, hidle⟩
    · exact Or.inr (Or.inl (sink_step_of_overflows ctx hattends hover))
    · rw [hidle]
      exact Or.inl rfl

/-- What is over stays over. -/
theorem Over.step (h : a.Over id slot) (hslot : slot < a.turn) (event : Wakeup × Env) :
    (a.step ctx event).Over id slot := by
  rcases h with ⟨x, hx, hlater, hcloses⟩ | hlost
  · have hgrows : Wire.Grows a.turn a.wire (a.step ctx event).wire := grows_step a event
    obtain ⟨new, hframes, -⟩ := hgrows
    refine Or.inl ⟨x, ?_, hlater, hcloses⟩
    rw [hframes]
    exact List.mem_append_left new hx
  · refine Or.inr ?_
    rintro ⟨socket, hsocket, hlt⟩
    rcases sink_step ctx a event with hsame | hnone | hnew
    · rw [hsame] at hsocket
      exact hlost ⟨socket, hsocket, hlt⟩
    · rw [hnone] at hsocket
      cases hsocket
    · rw [hnew] at hsocket
      cases hsocket
      exact absurd hslot (Nat.lt_asymm hlt)

/-! ## The map -/

theorem free_of_not_blocked {i : SubscriptionId} (h : ¬ a.blocked ctx i = true) :
    a.state.subscriptions.contains i = false := by
  rw [blocked, Bool.or_eq_true, not_or] at h
  exact Bool.eq_false_iff.mpr h.1

/-- What is in the map stays there, unless the wakeup takes it out or reads a `CLOSED` for it. One case for each
    wakeup: an entry goes by a close signal, by a frame that ends it or by a command on its id. -/
theorem entry_kept (ctx : StaticCtx) (env : Env) (w : Wakeup) {entry : SubscriptionEntry}
    (h : a.state.subscriptions[id]? = some entry) :
    (a.wireAfter ctx env w).subscriptions[id]? = some entry ∨ a.takes ctx w = some id ∨
      ∃ socket text, a.reads ctx w = some (socket, .closed id text) := by
  cases w with
  | commandsClosed => exact Or.inl h
  | publishTimer => exact Or.inl h
  | reconnectTimer =>
      rw [wireAfter, subscriptions_wireConnect]
      exact Or.inl h
  | closeSignal i =>
      simp only [wireAfter]
      split
      · rw [subscriptions_sendIfLive]
        rcases HashMap.erase_kept (i := i) h with hkept | rfl
        · exact Or.inl hkept
        · exact Or.inr (Or.inl rfl)
      · exact Or.inl h
  | inbound frame =>
      simp only [wireAfter, takes]
      cases hread : a.reads ctx (.inbound frame) with
      | none =>
          dsimp only
          split
          · exact Or.inl h
          · exact Or.inl h
      | some read =>
          obtain ⟨socket, message⟩ := read
          dsimp only
          cases hends : a.ends message with
          | none => exact Or.inl h
          | some i =>
              rcases HashMap.erase_kept (i := i) h with hkept | rfl
              · exact Or.inl hkept
              · refine Or.inr ?_
                -- a `CLOSED` ends its own subscription, and every other frame that ends one forgets it
                cases message with
                | closed j text =>
                    cases hends
                    exact Or.inr ⟨socket, text, rfl⟩
                | _ => exact Or.inl hends
  | command cmd =>
      refine Or.inl ?_
      cases cmd with
      | shutdown => exact h
      | disconnect => exact h
      | connect =>
          simp only [wireAfter]
          split
          · exact h
          · rw [subscriptions_wireConnect]
            exact h
      | subscribe i filters options =>
          simp only [wireAfter]
          split
          · exact h
          next hfree =>
            rw [subscriptions_sendIfLive]
            exact HashMap.insert_kept h (free_of_not_blocked hfree)
      | subscribeNeg i filter hex =>
          simp only [wireAfter]
          split
          · exact h
          next hfree =>
            split
            · exact h
            · split
              · exact HashMap.insert_kept h (free_of_not_blocked hfree)
              · exact h
      | publish event options =>
          simp only [wireAfter]
          split
          · exact h
          · rw [subscriptions_sendIfLive]
            exact h
      | authenticate event =>
          rw [wireAfter, subscriptions_sendIfLive]
          exact h
      | sendMsg message =>
          rw [wireAfter, subscriptions_sendIfLive]
          exact h

/-- A frame that is written is no `CLOSED`. -/
theorem closes_of_mem_sendIfLive {w : Wire} {turn : Nat} {message : ClientMessage} {x : Nat × Obs}
    (hx : x ∈ (w.sendIfLive env turn message).frames) (hcloses : x.2.closes id = true) : x ∈ w.frames := by
  unfold Wire.sendIfLive at hx
  split at hx
  · exact hx
  · unfold Wire.send at hx
    split at hx
    · rcases List.mem_append.mp hx with hold | hnew
      · exact hold
      · rw [List.mem_singleton.mp hnew] at hcloses
        cases hcloses
    · exact hx

/-- A frame that is read is on record. -/
theorem mem_frames_of_reads {w : Wakeup} {socket : Nat} {message : RelayMessage}
    (h : a.reads ctx w = some (socket, message)) :
    (a.turn, .received socket message) ∈ (a.wireAfter ctx env w).frames := by
  have hmem : (a.turn, .received socket message) ∈ (a.wire.push a.turn (.received socket message)).frames :=
    List.mem_append_right _ List.mem_cons_self
  cases w with
  | inbound frame =>
      simp only [wireAfter, h]
      split
      · exact hmem
      · exact hmem
  | _ => cases h

/-- What a wakeup takes out is gone, and neither the relay nor the connection has put an end to it. The wakeups that
    take an entry out are the close signal and the frames, and neither touches the socket or writes what would end it.
     -/
theorem takes_spec (env : Env) {w : Wakeup} (h : a.takes ctx w = some id) :
    (a.wireAfter ctx env w).subscriptions[id]? = none ∧ (a.wireAfter ctx env w).sink = a.state.sink ∧
      ∀ x ∈ (a.wireAfter ctx env w).frames, x.2.closes id = true → x ∈ a.wire.frames := by
  cases w with
  | closeSignal i =>
      cases h
      simp only [wireAfter]
      split
      next hmem =>
        refine ⟨?_, sink_sendIfLive _ _ _, fun x hx hcloses =>
          closes_of_mem_sendIfLive (w := a.wire.erase id) hx hcloses⟩
        rw [subscriptions_sendIfLive]
        exact ExtTreeMap.getElem?_erase_self
      next hfree =>
        refine ⟨?_, rfl, fun x hx _ => hx⟩
        rw [ExtTreeMap.contains_eq_isSome_getElem?] at hfree
        exact Option.not_isSome_iff_eq_none.mp hfree
  | inbound frame =>
      simp only [takes] at h
      simp only [wireAfter]
      cases hread : a.reads ctx (.inbound frame) with
      | none =>
          rw [hread] at h
          cases h
      | some read =>
          obtain ⟨socket, message⟩ := read
          rw [hread] at h
          have hforgets : a.forgets message = some id := h
          have hends : a.ends message = some id := by
            cases message with
            | closed j text => cases hforgets
            | _ => exact hforgets
          simp only [hends]
          refine ⟨ExtTreeMap.getElem?_erase_self, rfl, fun x hx hcloses => ?_⟩
          rcases List.mem_append.mp hx with hold | hnew
          · exact hold
          · rw [List.mem_singleton.mp hnew] at hcloses
            cases message with
            | closed j text => cases hforgets
            | _ => cases hcloses
  | _ => cases h

/-! ## One step -/

/-- A step of an actor leaves a lasting subscription as it is exactly where it does not take it out while it is
    open. -/
theorem lasts_step_iff (hslot : slot < a.turn) (h : a.Lasts id slot) (event : Wakeup × Env) :
    (a.step ctx event).Lasts id slot ↔
      (a.serves ctx event → a.takes ctx event.1 = some id → a.Over id slot) := by
  by_cases hs : a.serves ctx event
  · have hwire := wire_step ctx a event hs
    have hmap : (a.step ctx event).state.subscriptions = (a.wireAfter ctx event.2 event.1).subscriptions :=
      congrArg Wire.subscriptions hwire
    have hsink : (a.step ctx event).state.sink = (a.wireAfter ctx event.2 event.1).sink := congrArg Wire.sink hwire
    constructor
    · intro hafter _ htakes
      obtain ⟨hgone, hsame, hframes⟩ := takes_spec event.2 htakes
      rcases hafter with ⟨entry, hentry, -⟩ | ⟨x, hx, hlater, hcloses⟩ | hlost
      · rw [hmap, hgone] at hentry
        cases hentry
      · rw [hwire] at hx
        exact Or.inl ⟨x, hframes x hx hcloses, hlater, hcloses⟩
      · refine Or.inr (fun hsocket => hlost ?_)
        unfold SameSocket
        rw [hsink, hsame]
        exact hsocket
    · intro hc
      rcases h with ⟨entry, hentry, hentrySlot⟩ | hover
      · rcases entry_kept ctx event.2 event.1 hentry with hkept | htakes | hclosed
        · rw [← hmap] at hkept
          exact Or.inl ⟨entry, hkept, hentrySlot⟩
        · exact Or.inr ((hc hs htakes).step hslot event)
        · obtain ⟨socket, text, hread⟩ := hclosed
          refine Or.inr (Or.inl ⟨(a.turn, .received socket (.closed id text)), ?_, hslot, ?_⟩)
          · rw [hwire]
            exact mem_frames_of_reads hread
          · exact beq_self_eq_true id
      · exact Or.inr (hover.step hslot event)
  · refine iff_of_true ?_ (fun hserves => absurd hserves hs)
    rcases step_of_not_serves ctx hs with ⟨hattends, hover, _⟩ | ⟨_, hidle⟩
    · refine Or.inr (Or.inr ?_)
      rintro ⟨socket, hsocket, -⟩
      rw [sink_step_of_overflows ctx hattends hover] at hsocket
      cases hsocket
    · rw [hidle]
      exact h

end Actor

/-! ## With the channels -/

namespace System

variable {ctx : StaticCtx} {s : System}

/-- The wakeup that the actor serves in an action. -/
def wakes (s : System) : Action → Option (Wakeup × Env)
  | .serveCommand env => s.commands.head?.map (fun cmd => (.command cmd, env))
  | .serveClose env =>
      match s.commands, s.closes with
      | [], handle :: _ => some (.closeSignal handle.id, env)
      | _, _ => none
  | .serveOther wakeup env =>
      match s.commands, s.closes with
      | [], [] => if wakeup.isOther then some (wakeup, env) else none
      | _, _ => none
  | _ => none

/-- The actor does what the wakeup makes it do, and nothing otherwise. One case for each action, and for each of the
    queues that it waits for. -/
theorem actor_step (action : Action) :
    (s.step ctx action).actor = (s.wakes action).elim s.actor (s.actor.step ctx) := by
  cases action with
  | issue cmd => rfl
  | lose handle => rfl
  | drop handle =>
      rw [step]
      split
      · rfl
      · rfl
  | serveCommand env =>
      unfold step wakes
      cases s.commands with
      | nil => rfl
      | cons cmd rest => rfl
  | serveClose env =>
      unfold step wakes
      cases s.commands with
      | cons cmd rest => rfl
      | nil =>
          cases s.closes with
          | nil => rfl
          | cons handle rest => rfl
  | serveOther wakeup env =>
      unfold step wakes
      cases s.commands with
      | cons cmd rest => rfl
      | nil =>
          cases s.closes with
          | cons handle rest => rfl
          | nil =>
              dsimp only
              split
              · rfl
              · rfl

end System

end Nula.Relay
