import Nula.Relay.Wire

/-!
# `Relay.Handles` — subscription handles and their close signals

A caller whose `Subscribe` or `SubscribeNeg` is answered `Ok` holds a handle (`subscription.rs`); dropping it
puts a close signal on a channel of its own. The `select!` is biased: it serves a close signal only when no
command waits, and anything else only when no close signal waits either.

The signal carries the id alone. The model keeps the whole handle in the queue, so that one can say whose
signal the actor serves, but hands the actor the id. `System.spares` says when a signal takes no other
handle's subscription with it.
-/

namespace Nula.Relay

open Std

/-- `SubscriptionHandle`; the slot is the one its command was answered in, and names its channel. -/
structure Handle where
  id : SubscriptionId
  slot : Nat
  deriving DecidableEq

/-- The subscription a command opens. -/
def Command.opens : Command → Option SubscriptionId
  | .subscribe id _ _ => some id
  | .subscribeNeg id _ _ => some id
  | _ => none

/-- The arms below commands and close signals. -/
def Wakeup.isOther : Wakeup → Bool
  | .command _ | .closeSignal _ => false
  | _ => true

/-- The slot was answered `Ok`. -/
def Actor.answeredOk (slot : Nat) (a : Actor) : Bool :=
  a.log.any (fun x => match x.2 with
    | .reply s (.ok _) => s == slot
    | _ => false)

/-- The actor, its two channels, and the handles: those held, and all that were ever handed out. -/
structure System where
  actor : Actor
  commands : List Command
  closes : List Handle
  held : List Handle
  granted : List Handle

/-- What can happen next: a caller sends a command, drops a handle or loses it without dropping it (a call
    cancelled before its answer); or the actor serves its next wakeup. -/
inductive Action where
  | issue (cmd : Command)
  | drop (handle : Handle)
  | lose (handle : Handle)
  | serveCommand (env : Env)
  | serveClose (env : Env)
  | serveOther (wakeup : Wakeup) (env : Env)

namespace System

/-- A client without handles, and its actor. -/
def new : System := ⟨.new, [], [], [], []⟩

variable (ctx : StaticCtx)

/-- The handle that serving `cmd` gives its caller. -/
def grant (s : System) (cmd : Command) (env : Env) : Option Handle :=
  match cmd.opens with
  | none => none
  | some id =>
      if (s.actor.step ctx (.command cmd, env)).answeredOk s.actor.turn then some ⟨id, s.actor.turn⟩
      else none

/-- One action of the client, or of the actor on what it is handed. -/
def step (s : System) : Action → System
  | .issue cmd => { s with commands := s.commands ++ [cmd] }
  | .drop handle =>
      if handle ∈ s.held then { s with held := s.held.erase handle, closes := s.closes ++ [handle] } else s
  | .lose handle => { s with held := s.held.erase handle }
  | .serveCommand env =>
      match s.commands with
      | [] => s
      | cmd :: rest => { s with
          actor := s.actor.step ctx (.command cmd, env)
          commands := rest
          held := s.held ++ (s.grant ctx cmd env).toList
          granted := s.granted ++ (s.grant ctx cmd env).toList }
  -- the queues are served in this order, as the `select!` is biased
  | .serveClose env =>
      match s.commands, s.closes with
      | [], handle :: rest =>
          { s with actor := s.actor.step ctx (.closeSignal handle.id, env), closes := rest }
      | _, _ => s
  | .serveOther wakeup env =>
      match s.commands, s.closes with
      | [], [] => if wakeup.isOther then { s with actor := s.actor.step ctx (wakeup, env) } else s
      | _, _ => s

def run (actions : List Action) : System := actions.foldl (step ctx) new

/-- The entry was registered after the handle was handed out, by a call that got a handle itself. -/
def Later (s : System) (handle : Handle) (entry : SubscriptionEntry) : Prop :=
  handle.slot < entry.sink ∧ ⟨handle.id, entry.sink⟩ ∈ s.granted

/-- The close signal of `handle` would hit a later subscription. -/
def Stray (s : System) (handle : Handle) : Prop :=
  ∃ entry ∈ s.actor.state.subscriptions[handle.id]?, s.Later handle entry

/-- A close signal that is served removes no later subscription. -/
def Spares (s : System) : Action → Prop
  | .serveClose env => ∀ handle ∈ s.closes.head?,
      ∀ entry ∈ s.actor.state.subscriptions[handle.id]?,
      (s.step ctx (.serveClose env)).actor.state.subscriptions[handle.id]? = none →
      ¬ s.Later handle entry
  | _ => True

/-- No handle is dropped while a later subscription of its id is live, and no handle is handed out while a
    close signal for its id waits. -/
def Careful (s : System) : Action → Prop
  | .drop handle => handle ∈ s.held → ¬ s.Stray handle
  | .serveCommand env => ∀ cmd ∈ s.commands.head?, ∀ granted ∈ s.grant ctx cmd env,
      ∀ handle ∈ s.closes, handle.id ≠ granted.id
  | _ => True

instance (s : System) (handle : Handle) (entry : SubscriptionEntry) : Decidable (s.Later handle entry) :=
  inferInstanceAs (Decidable (_ ∧ _))

instance (s : System) (handle : Handle) : Decidable (s.Stray handle) :=
  inferInstanceAs (Decidable (∃ entry ∈ s.actor.state.subscriptions[handle.id]?, s.Later handle entry))

instance (s : System) (action : Action) : Decidable (Spares ctx s action) := by
  cases action <;> unfold Spares <;> infer_instance

instance (s : System) (action : Action) : Decidable (Careful ctx s action) := by
  cases action <;> unfold Careful <;> infer_instance

end System

/-! ## Entries come from commands -/

namespace Actor

variable {ctx : StaticCtx} {env : Env} {a : Actor}

/-- A frame leaves the subscriptions as they are. -/
theorem subscriptions_sendIfLive (w : Wire) (turn : Nat) (message : ClientMessage) :
    (w.sendIfLive env turn message).subscriptions = w.subscriptions := by
  rw [Wire.sendIfLive]
  cases w.sink with
  | none => rfl
  | some socket =>
      show (if env.refuses message = none then w.push turn (.sent socket message) else w).subscriptions = _
      split <;> rfl

theorem subscriptions_wireConnect : (a.wireConnect env).subscriptions = a.state.subscriptions := by
  rw [wireConnect]
  cases env.handshake <;> rfl

/-- **The subscription map after a wakeup** is what it was, less one entry, or with one entry that its command
    registered. -/
theorem subscriptions_wireAfter (w : Wakeup) :
    (a.wireAfter ctx env w).subscriptions = a.state.subscriptions ∨
    (∃ id, (a.wireAfter ctx env w).subscriptions = a.state.subscriptions.erase id) ∨
    ∃ id entry, a.blocked ctx id = false ∧ entry.sink = a.turn ∧
      (∃ cmd, w = .command cmd ∧ cmd.opens = some id) ∧
      (a.wireAfter ctx env w).subscriptions = a.state.subscriptions.insert id entry := by
  cases w with
  | commandsClosed => exact Or.inl rfl
  | publishTimer => exact Or.inl rfl
  | reconnectTimer => exact Or.inl subscriptions_wireConnect
  | closeSignal id =>
      rw [wireAfter]
      split
      · exact Or.inr (Or.inl ⟨id, subscriptions_sendIfLive _ _ _⟩)
      · exact Or.inl rfl
  | inbound frame =>
      simp only [wireAfter]
      cases a.reads ctx (.inbound frame) with
      | none =>
          dsimp only
          split
          · exact Or.inl rfl
          · exact Or.inl rfl
      | some read =>
          obtain ⟨socket, message⟩ := read
          cases hends : a.ends message with
          | none => exact Or.inl (by simp only [hends]; rfl)
          | some id => exact Or.inr (Or.inl ⟨id, by simp only [hends]; rfl⟩)
  | command cmd =>
      cases cmd with
      | shutdown => exact Or.inl rfl
      | disconnect => exact Or.inl rfl
      | connect =>
          rw [wireAfter]
          split
          · exact Or.inl rfl
          · exact Or.inl subscriptions_wireConnect
      | subscribe id filters options =>
          rw [wireAfter]
          split
          · exact Or.inl rfl
          · rename_i hfree
            refine Or.inr (Or.inr ⟨id, ⟨filters, options, a.turn, false⟩, ?_⟩)
            exact ⟨by simpa using hfree, rfl, ⟨_, rfl, rfl⟩, subscriptions_sendIfLive _ _ _⟩
      | subscribeNeg id filter hex =>
          rw [wireAfter]
          split
          · exact Or.inl rfl
          · rename_i hfree
            split
            · exact Or.inl rfl
            · split
              · refine Or.inr (Or.inr ⟨id, ⟨[filter], .new, a.turn, true⟩, ?_⟩)
                exact ⟨by simpa using hfree, rfl, ⟨_, rfl, rfl⟩, rfl⟩
              · exact Or.inl rfl
      | publish event options =>
          rw [wireAfter]
          split
          · exact Or.inl rfl
          · exact Or.inl (subscriptions_sendIfLive _ _ _)
      | authenticate event => exact Or.inl (subscriptions_sendIfLive _ _ _)
      | sendMsg message => exact Or.inl (subscriptions_sendIfLive _ _ _)

/-- An entry of the map after a wakeup was there before, or the wakeup registered it. -/
theorem entry_of_wireAfter {w : Wakeup} {id : SubscriptionId} {entry : SubscriptionEntry}
    (h : (a.wireAfter ctx env w).subscriptions[id]? = some entry) :
    a.state.subscriptions[id]? = some entry ∨
      entry.sink = a.turn ∧ ∃ cmd, w = .command cmd ∧ cmd.opens = some id := by
  rcases subscriptions_wireAfter (a := a) w with
    hsame | ⟨i, herased⟩ | ⟨i, fresh, _, hsink, hopens, hgrown⟩
  · rw [hsame] at h
    exact Or.inl h
  · rw [herased] at h
    exact Or.inl (HashMap.of_erase h)
  · rw [hgrown] at h
    rcases HashMap.of_insert h with hold | ⟨rfl, rfl⟩
    · exact Or.inl hold
    · exact Or.inr ⟨hsink, hopens⟩

/-- **Where an entry comes from**: it was there before the step, or the step was handed the command that opens it. -/
theorem entry_of_step {event : Wakeup × Env} {id : SubscriptionId} {entry : SubscriptionEntry}
    (h : (a.step ctx event).state.subscriptions[id]? = some entry) :
    a.state.subscriptions[id]? = some entry ∨
      entry.sink = a.turn ∧ ∃ cmd, event.1 = .command cmd ∧ cmd.opens = some id := by
  by_cases hs : a.serves ctx event
  · have h' : (a.step ctx event).wire.subscriptions[id]? = some entry := h
    rw [wire_step ctx a event hs] at h'
    exact entry_of_wireAfter h'
  · rcases step_of_not_serves ctx hs with ⟨hattends, hover, _⟩ | ⟨_, hidle⟩
    · rw [subscriptions_step_of_overflows ctx hattends hover] at h
      simp at h
    · rw [hidle] at h
      exact Or.inl h

end Actor

/-! ## Runs of the system -/

namespace System

variable {ctx : StaticCtx} {s : System}

/-- Handles were handed out in earlier turns. -/
structure Orderly (s : System) : Prop where
  below : Wire.Below s.actor.turn s.actor.wire
  granted : ∀ handle ∈ s.granted, handle.slot < s.actor.turn

/-- No close signal in the queue would hit a later subscription. -/
def Aimed (s : System) : Prop := ∀ handle ∈ s.closes, ¬ s.Stray handle

/-- A handle is granted for the command that opens its subscription, in its turn. -/
theorem mem_grant {cmd : Command} {env : Env} {handle : Handle}
    (h : s.grant ctx cmd env = some handle) : cmd.opens = some handle.id ∧ handle.slot = s.actor.turn := by
  rw [grant] at h
  split at h
  · cases h
  · rename_i id hid
    split at h
    · cases h
      exact ⟨hid, rfl⟩
    · cases h

/-- Serving a wakeup that opens nothing makes no signal stray. -/
theorem Stray.of_step {handle : Handle} {event : Wakeup × Env} {s' : System}
    (h : s'.Stray handle) (hactor : s'.actor = s.actor.step ctx event) (hgranted : s'.granted = s.granted)
    (hevent : ∀ cmd, event.1 = .command cmd → cmd.opens = none) : s.Stray handle := by
  obtain ⟨entry, hentry, hslot, hmem⟩ := h
  rw [hactor] at hentry
  rw [hgranted] at hmem
  rcases Actor.entry_of_step hentry with hold | ⟨_, cmd, hcmd, hopens⟩
  · exact ⟨entry, hold, hslot, hmem⟩
  · rw [hevent cmd hcmd] at hopens
    cases hopens

theorem orderly_new : Orderly new where
  below := Actor.below_new
  granted := by
    intro handle h
    cases h

/-- An actor that serves a wakeup leaves the handles in order. -/
theorem Orderly.served {event : Wakeup × Env} {s' : System} (h : Orderly s)
    (hactor : s'.actor = s.actor.step ctx event) (hgranted : s'.granted = s.granted) : Orderly s' where
  below := by
    rw [hactor]
    exact Actor.below_step h.below event
  granted := by
    intro handle hmem
    rw [hgranted] at hmem
    rw [hactor]
    exact Nat.lt_succ_of_lt (h.granted handle hmem)

/-- **One action keeps the order**: the handles that are held were granted, and each has its own turn. One case for
    each action; only a command that is served hands a handle out, and its turn is a new one. -/
theorem Orderly.step (h : Orderly s) (action : Action) : Orderly (s.step ctx action) := by
  cases action with
  | issue cmd => exact ⟨h.below, h.granted⟩
  | lose handle => exact ⟨h.below, h.granted⟩
  | drop handle =>
      rw [System.step]
      split
      · exact ⟨h.below, h.granted⟩
      · exact h
  | serveCommand env =>
      rw [System.step]
      split
      · exact h
      · rename_i cmd rest _
        refine ⟨Actor.below_step h.below _, ?_⟩
        intro handle hmem
        rcases List.mem_append.mp hmem with hmem | hmem
        · exact Nat.lt_succ_of_lt (h.granted handle hmem)
        · have := (mem_grant (Option.mem_toList.mp hmem)).2
          rw [this]
          exact Nat.lt_succ_self _
  | serveClose env =>
      rw [System.step]
      split
      · exact h.served rfl rfl
      · exact h
  | serveOther wakeup env =>
      rw [System.step]
      split
      · split
        · exact h.served rfl rfl
        · exact h
      · exact h

/-- **One step.** A careful step makes no signal stray. A handle that is dropped must be the current one of its id,
    and one handed out must not meet a signal that waits. -/
theorem Aimed.step (ho : Orderly s) (h : Aimed s) {action : Action} (hc : Careful ctx s action) :
    Aimed (s.step ctx action) := by
  cases action with
  | issue cmd => exact h
  | lose handle => exact h
  | drop handle =>
      rw [System.step]
      split
      · rename_i hheld
        intro other hmem
        rcases List.mem_append.mp hmem with hmem | hmem
        · exact h other hmem
        · rw [List.mem_singleton.mp hmem]
          exact hc hheld
      · exact h
  | serveCommand env =>
      rw [System.step]
      split
      · exact h
      · rename_i cmd rest hcommands
        rintro handle hmem ⟨entry, hentry, hslot, hgranted⟩
        rcases List.mem_append.mp hgranted with hgranted | hgranted
        · -- handed out before, so the entry was there before
          rcases Actor.entry_of_step hentry with hold | ⟨hsink, _⟩
          · exact h handle hmem ⟨entry, hold, hslot, hgranted⟩
          · have := ho.granted _ hgranted
            rw [hsink] at this
            exact Nat.lt_irrefl _ this
        · -- handed out just now, while a signal for the id waits
          have hgrant := Option.mem_toList.mp hgranted
          exact hc cmd (by rw [hcommands]; rfl) _ hgrant handle hmem rfl
  | serveClose env =>
      rw [System.step]
      split
      · rename_i handle rest hcommands hcloses
        intro other hmem hstray
        refine h other (by rw [hcloses]; exact List.mem_cons_of_mem _ hmem) ?_
        exact hstray.of_step rfl rfl (by simp)
      · exact h
  | serveOther wakeup env =>
      rw [System.step]
      split
      · split
        · rename_i hcloses _
          intro handle hmem
          have hmem' : handle ∈ s.closes := hmem
          rw [hcloses] at hmem'
          cases hmem'
        · exact h
      · exact h

theorem run_append (actions : List Action) (action : Action) :
    run ctx (actions ++ [action]) = (run ctx actions).step ctx action := by
  rw [run, run, List.foldl_append]
  rfl

theorem orderly_run (ctx : StaticCtx) (actions : List Action) : Orderly (run ctx actions) := by
  refine (Always.invariant (I := fun past => Orderly (run ctx past)) orderly_new ?_ actions).last
  intro past action h
  rw [run_append]
  exact h.step action

end System

/-- **A dropped handle takes only its own subscription with it**, in every run in which no handle is dropped
    while a later subscription of its id is live, and none is handed out while a close signal for its id
    waits.

    By induction on the run every waiting close signal is `Aimed` at no later subscription than the handle's own; a
    careful action keeps it so, and serving the signal then spares the others. -/
theorem close_spares (ctx : StaticCtx) (actions : List Action)
    (h : EachStep (fun past action => System.Careful ctx (System.run ctx past) action) actions) :
    EachStep (fun past action => System.Spares ctx (System.run ctx past) action) actions := by
  have haimed : Always (fun past => System.Aimed (System.run ctx past)) actions := by
    refine Always.of_eachStep (P := fun past => System.Aimed (System.run ctx past))
      (System.orderly_run ctx) ?_ ?_ h
    · intro handle hmem
      cases hmem
    · intro past action ho hP hc
      rw [System.run_append]
      exact hP.step ho hc
  intro k action hk
  cases action with
  | serveClose env =>
      intro handle hhead entry hentry _ hlater
      exact haimed k handle (List.mem_of_mem_head? hhead) ⟨entry, hentry, hlater⟩
  | issue cmd => trivial
  | drop handle => trivial
  | lose handle => trivial
  | serveCommand env => trivial
  | serveOther wakeup env => trivial

/-- A caller subscribes and drops the handle. -/
def briefSubscription : List Action :=
  [.issue .connect, .serveCommand Sample.calm,
    .issue (.subscribe Sample.subscription [Sample.everything] .new), .serveCommand Sample.calm,
    .drop ⟨Sample.subscription, 1⟩, .serveClose Sample.calm]

/-- A subscription that is opened, dropped and closed meets the conditions. -/
theorem close_spares_briefSubscription :
    EachStep (fun past action => System.Careful Sample.actorCtx (System.run Sample.actorCtx past) action)
      briefSubscription ∧
    EachStep (fun past action => System.Spares Sample.actorCtx (System.run Sample.actorCtx past) action)
      briefSubscription := by
  have h : EachStep (fun past action =>
      System.Careful Sample.actorCtx (System.run Sample.actorCtx past) action) briefSubscription := by
    decide +kernel
  exact ⟨h, close_spares Sample.actorCtx briefSubscription h⟩

/-- The relay closes a subscription, its caller subscribes again under the same id, and then drops the handle
    of the first one. -/
def reopenedSubscription : List Action :=
  [.issue .connect, .serveCommand Sample.calm,
    .issue (.subscribe Sample.subscription [Sample.everything] .new), .serveCommand Sample.calm,
    .serveOther (.inbound (some (.ok (.text "[\"CLOSED\",\"a\",\"\"]")))) Sample.calm,
    .issue (.subscribe Sample.subscription [Sample.everything] .new), .serveCommand Sample.calm,
    .drop ⟨Sample.subscription, 1⟩, .serveClose Sample.calm]

/-- The signal of the first handle removes the second subscription. -/
theorem reopenedSubscription_removed :
    ¬ EachStep (fun past action => System.Spares Sample.actorCtx (System.run Sample.actorCtx past) action)
      reopenedSubscription := by
  decide +kernel

end Nula.Relay
