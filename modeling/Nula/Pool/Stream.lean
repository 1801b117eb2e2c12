import Nula.Core.Nips
import Nula.Lib.Lru
import Nula.Relay.Actor
import Nula.Storage.Canonical

/-!
# `Pool.Stream` — the cross-relay event stream

The driver behind `RelayPool::stream_events` (`pool/stream.rs`): one task owns the subscription handles of
several relays, merges their items, drops the events whose id is in an LRU cache, saves the others where the
pool is told to, and sends them to the consumer.

A handle is the list of the items it yields before it ends: what the actor of its relay put on its channel
(`Worker.ofActor`), where an `EVENT` frame of an open subscription goes as it is
(`Relay.Actor.items_handleTextFrame`). A schedule is a list of wakeups of the `select!`;
which handle is ready first is part of it, so every interleaving is a schedule. The LRU cache comes from a
crate and is a parameter.
-/

namespace Nula.Relay.Actor

open Std

/-- The items put on the channel of a handle, oldest first. -/
def items (sink : Nat) (a : Actor) : List SubscriptionItem :=
  a.log.filterMap (fun entry =>
    match entry.2 with
    | .item channel item => if channel = sink then some item else none
    | _ => none)

theorem items_emit_item (sink : Nat) (item : SubscriptionItem) (a : Actor) :
    (a.emit (.item sink item)).items sink = a.items sink ++ [item] := by
  rw [items, emit, List.filterMap_append, List.filterMap_cons]
  simp only [if_true]
  rfl

theorem items_emit_received (sink socket : Nat) (message : RelayMessage) (a : Actor) :
    (a.emit (.received socket message)).items sink = a.items sink := by
  rw [items, emit, List.filterMap_append]
  exact List.append_nil _

/-- **No check on the way.** The event of an `EVENT` frame goes to the handle of its subscription, whatever its
    id and signature. -/
theorem items_handleTextFrame {ctx : StaticCtx} {socket : Nat} {text : String} {a : Actor}
    {id : SubscriptionId} {event : Event} {entry : SubscriptionEntry}
    (hsize : text.utf8ByteSize ≤ ctx.options.limits.maxMessageBytes)
    (hparse : ctx.parse text = some (.event id event)) (hentry : a.state.subscriptions[id]? = some entry) :
    (a.handleTextFrame ctx socket text).items entry.sink = a.items entry.sink ++ [.event event] := by
  rw [handleTextFrame, if_neg (Nat.not_lt.mpr hsize), hparse]
  show ((a.emit (.received socket (.event id event))).forward id (.event event)).items entry.sink = _
  rw [forward, show (a.emit _).state.subscriptions[id]? = some entry from hentry]
  show ((a.emit _).emit _).items entry.sink = _
  rw [items_emit_item, items_emit_received]

end Nula.Relay.Actor

namespace Nula.Pool

open Std

/-! ## Errors and options (`error.rs`, `pool/options.rs`) -/

/-- The one error the driver sends. -/
inductive StreamError where
  | subscriptionClosed (subscriptionId : SubscriptionId) (message : String)
  deriving DecidableEq

/-- `Display` of `Error::SubscriptionClosed`. -/
def StreamError.text : StreamError → String
  | .subscriptionClosed subscriptionId message =>
      "subscription " ++ subscriptionId.text ++ " closed by relay: " ++ message

/-- The arguments of `driver` that do not change. -/
structure StreamOptions where
  /-- `dedup_cache_size`. -/
  dedupCapacity : ℕ+
  /-- `auto_save_events`: whether there is a database. -/
  autoSave : Bool
  timeout : Option Relay.Duration

theorem dedupCapacity_pos : 0 < 100000 := by decide

/-- `RelayPoolOptions::default` and no timeout. -/
def StreamOptions.default : StreamOptions := ⟨⟨100000, dedupCapacity_pos⟩, true, none⟩

/-! ## What goes in and out -/

/-- A `SubscriptionHandle` with the relay and the subscription it was opened on. -/
structure Worker where
  url : RelayUrl
  subscriptionId : SubscriptionId
  /-- What the handle has yet to yield. -/
  items : List Relay.SubscriptionItem
  deriving DecidableEq

/-- The handle of a subscription of this actor. -/
def Worker.ofActor (url : RelayUrl) (subscriptionId : SubscriptionId) (sink : Nat) (a : Relay.Actor) : Worker :=
  ⟨url, subscriptionId, a.items sink⟩

/-- An item with its origin. -/
structure Arrival where
  url : RelayUrl
  subscriptionId : SubscriptionId
  item : Relay.SubscriptionItem
  deriving DecidableEq

/-- The event an item brings. -/
def Arrival.event : Arrival → Option Event
  | ⟨_, _, .event event⟩ => some event
  | _ => none

/-- The arms of the `select!`. -/
inductive Wakeup where
  | receiverClosed
  | deadline
  /-- This worker is the next that is ready. -/
  | next (worker : Nat)

/-- What the outside does during one wakeup. -/
structure Env where
  /-- Whether the receiver still takes an item. -/
  accepts : Bool
  saveEvent : Event → Except String SaveEventStatus

/-- One thing the outside can see. -/
inductive Effect where
  | received (arrival : Arrival)
  | saved (event : Event) (result : Except String SaveEventStatus)
  | sent (url : RelayUrl) (result : Except StreamError Event)

/-- `workers.next()` when worker `i` is ready. -/
def poll (i : Nat) (workers : List Worker) : Option (Arrival × List Worker) :=
  match workers[i]? with
  | some ⟨url, subscriptionId, item :: items⟩ =>
      some (⟨url, subscriptionId, item⟩, workers.set i ⟨url, subscriptionId, items⟩)
  | _ => none

/-! ## The driver -/

/-- The driver between two wakeups. -/
structure Driver (lru : Lru EventId) where
  seen : lru.State
  workers : List Worker
  isOpen : Bool
  log : List Effect

namespace Driver

variable {lru : Lru EventId}

/-- Log what was done. -/
def emit (e : Effect) (d : Driver lru) : Driver lru := { d with log := d.log ++ [e] }

/-- The consumer is gone. -/
def close (d : Driver lru) : Driver lru := { d with isOpen := false }

variable (options : StreamOptions) (env : Env)

/-- `tx.send(..).await.is_ok()`. -/
def send (url : RelayUrl) (result : Except StreamError Event) (d : Driver lru) : Bool × Driver lru :=
  if env.accepts then (true, d.emit (.sent url result)) else (false, d)

/-- `forward`; the outcome of the save is dropped. -/
def forward (arrival : Arrival) (d : Driver lru) : Bool × Driver lru :=
  match arrival.item with
  | .event event =>
      -- the id is all that is looked at, and it is recorded before anything else happens
      let put := lru.put d.seen event.id
      let d := { d with seen := put.2 }
      if put.1 then (true, d)
      else
        let d := if options.autoSave then d.emit (.saved event (env.saveEvent event)) else d
        d.send env arrival.url (.ok event)
  | .closed message =>
      d.send env arrival.url (.error (.subscriptionClosed arrival.subscriptionId message))
  | _ => (true, d)

/-- The loop ends where `forward` says so. -/
def settled : Bool × Driver lru → Driver lru
  | (true, d) => d
  | (false, d) => d.close

/-- One pass through the loop of `driver`. -/
def wake (d : Driver lru) : Wakeup → Driver lru
  | .receiverClosed => d.close
  | .deadline => if options.timeout.isSome then d.close else d
  | .next i =>
      match poll i d.workers with
      | none => if d.workers.all (fun worker => worker.items.isEmpty) then d.close else d
      | some (arrival, workers) =>
          settled ((({ d with workers }).emit (.received arrival)).forward options env arrival)

/-- A driver that left its loop stays out. -/
def step (d : Driver lru) (w : Wakeup × Env) : Driver lru := if d.isOpen then d.wake options w.2 w.1 else d

/-- A driver with an empty cache. -/
def start (workers : List Worker) : Driver lru := ⟨lru.new options.dedupCapacity, workers, true, []⟩

def run (workers : List Worker) (schedule : List (Wakeup × Env)) : Driver lru :=
  schedule.foldl (step options) (start options workers)

/-! ## What a wakeup does

A wakeup is known by the event it takes from the handles (`delivery`), and what becomes of that event by
whether its id is in the cache (`fresh`). -/

/-- The item a wakeup takes from the handles. -/
def arriving (d : Driver lru) (w : Wakeup × Env) : Option Arrival :=
  match w.1 with
  | .next i => if d.isOpen then (poll i d.workers).map Prod.fst else none
  | _ => none

/-- The event a wakeup takes from the handles. -/
def delivery (d : Driver lru) (w : Wakeup × Env) : Option Event := (d.arriving w).bind Arrival.event

/-- The same, unless its id is in the cache. -/
def fresh (d : Driver lru) (w : Wakeup × Env) : Option Event :=
  (d.delivery w).filter (fun event => event.id ∉ lru.recent d.seen)

end Driver

namespace Effect

/-- The event of an item read. -/
def taken : Effect → Option Event
  | received arrival => arrival.event
  | _ => none

/-- The event of a storage call. -/
def stored : Effect → Option Event
  | saved event _ => some event
  | _ => none

/-- The event of an item sent. -/
def delivered : Effect → Option Event
  | sent _ (.ok event) => some event
  | _ => none

end Effect

namespace Driver

/-- The events read from the handles, in order. -/
def takenEvents (d : Driver lru) : List Event := d.log.filterMap Effect.taken

/-- The events passed to `save_event`, in order. -/
def storedEvents (d : Driver lru) : List Event := d.log.filterMap Effect.stored

/-- The events sent to the consumer, in order. -/
def deliveredEvents (d : Driver lru) : List Event := d.log.filterMap Effect.delivered

/-- What the driver does with an item it read. -/
def outcome (options : StreamOptions) (env : Env) (d : Driver lru) : Arrival → List Effect
  | ⟨url, _, .event event⟩ =>
      if event.id ∈ lru.recent d.seen then []
      else
        (if options.autoSave then [.saved event (env.saveEvent event)] else []) ++
          if env.accepts then [.sent url (.ok event)] else []
  | ⟨url, subscriptionId, .closed message⟩ =>
      if env.accepts then [.sent url (.error (.subscriptionClosed subscriptionId message))] else []
  | _ => []

variable (options : StreamOptions) (env : Env)

/-- What is sent is logged, if the consumer takes it. -/
theorem send_log (d : Driver lru) (url : RelayUrl) (result : Except StreamError Event) :
    (d.send env url result).2.log = d.log ++ if env.accepts then [.sent url result] else [] := by
  rw [send]
  split
  · rfl
  · exact (List.append_nil _).symm

/-- Sending leaves the cache, the workers and the options of the stream as they are. -/
theorem send_kept (d : Driver lru) (url : RelayUrl) (result : Except StreamError Event) :
    (d.send env url result).2.seen = d.seen ∧ (d.send env url result).2.workers = d.workers ∧
      (d.send env url result).2.isOpen = d.isOpen ∧ (d.send env url result).1 = env.accepts := by
  rw [send]
  split
  · rename_i h
    exact ⟨rfl, rfl, rfl, h.symm⟩
  · rename_i h
    exact ⟨rfl, rfl, rfl, (Bool.eq_false_iff.mpr h).symm⟩

theorem forward_log (d : Driver lru) (arrival : Arrival) :
    (d.forward options env arrival).2.log = d.log ++ d.outcome options env arrival := by
  obtain ⟨url, subscriptionId, item⟩ := arrival
  cases item with
  | event event =>
      simp only [forward, outcome, lru.put_hit, decide_eq_true_eq]
      split
      · exact (List.append_nil _).symm
      · rw [send_log, ← List.append_assoc]
        congr 1
        split
        · rfl
        · exact (List.append_nil _).symm
  | closed message => exact send_log env d _ _
  | endOfStoredEvents => exact (List.append_nil _).symm
  | negMsg message => exact (List.append_nil _).symm
  | negErr message => exact (List.append_nil _).symm

/-- An event that arrives is remembered before anything else is asked of it. -/
theorem forward_seen (d : Driver lru) (arrival : Arrival) :
    (d.forward options env arrival).2.seen =
    arrival.event.elim d.seen (fun event => (lru.put d.seen event.id).2) := by
  obtain ⟨url, subscriptionId, item⟩ := arrival
  cases item with
  | event event =>
      simp only [forward, Arrival.event, Option.elim_some]
      split
      · rfl
      · rw [(send_kept env _ _ _).1]
        split <;> rfl
  | closed message => exact (send_kept env d _ _).1
  | endOfStoredEvents => rfl
  | negMsg message => rfl
  | negErr message => rfl

/-- The driver goes on while the receiver takes what it sends. -/
theorem forward_open (h : env.accepts = true) (d : Driver lru) (arrival : Arrival) :
    (d.forward options env arrival).1 = true ∧
    (d.forward options env arrival).2.workers = d.workers ∧
    (d.forward options env arrival).2.isOpen = d.isOpen := by
  obtain ⟨url, subscriptionId, item⟩ := arrival
  cases item with
  | event event =>
      simp only [forward]
      split
      · exact ⟨rfl, rfl, rfl⟩
      · obtain ⟨_, hworkers, hopen, hgo⟩ := send_kept env (if options.autoSave then
          ({ d with seen := (lru.put d.seen event.id).2 }).emit (.saved event (env.saveEvent event))
          else { d with seen := (lru.put d.seen event.id).2 }) url (.ok event)
        refine ⟨hgo.trans h, hworkers.trans ?_, hopen.trans ?_⟩
        · split <;> rfl
        · split <;> rfl
  | closed message =>
      obtain ⟨_, hworkers, hopen, hgo⟩ := send_kept env d url (.error (.subscriptionClosed subscriptionId message))
      exact ⟨hgo.trans h, hworkers, hopen⟩
  | endOfStoredEvents => exact ⟨rfl, rfl, rfl⟩
  | negMsg message => exact ⟨rfl, rfl, rfl⟩
  | negErr message => exact ⟨rfl, rfl, rfl⟩

/-- Whether the driver goes on does not change what it has done. -/
theorem settled_log (r : Bool × Driver lru) : (settled r).log = r.2.log := by
  obtain ⟨go, d⟩ := r
  cases go <;> rfl

theorem settled_seen (r : Bool × Driver lru) : (settled r).seen = r.2.seen := by
  obtain ⟨go, d⟩ := r
  cases go <;> rfl

/-- A wakeup that reads nothing leaves the log and the cache alone. -/
theorem step_idle {d : Driver lru} {w : Wakeup × Env} (h : d.arriving w = none) :
    (d.step options w).log = d.log ∧ (d.step options w).seen = d.seen := by
  obtain ⟨wakeup, env⟩ := w
  rw [step]
  split
  case isTrue hopen =>
    cases wakeup with
    | receiverClosed => exact ⟨rfl, rfl⟩
    | deadline =>
        simp only [wake]
        split <;> exact ⟨rfl, rfl⟩
    | next i =>
        simp only [arriving, if_pos hopen, Option.map_eq_none_iff] at h
        simp only [wake, h]
        split <;> exact ⟨rfl, rfl⟩
  case isFalse => exact ⟨rfl, rfl⟩

/-- A wakeup that reads an item forwards it. -/
theorem step_arriving {d : Driver lru} {w : Wakeup × Env} {arrival : Arrival} (h : d.arriving w = some arrival) :
    ∃ workers, d.step options w =
      settled ((({ d with workers }).emit (.received arrival)).forward options w.2 arrival) := by
  obtain ⟨wakeup, env⟩ := w
  cases wakeup with
  | receiverClosed => cases h
  | deadline => cases h
  | next i =>
      simp only [arriving, Option.ite_none_right_eq_some, Option.map_eq_some_iff] at h
      obtain ⟨hopen, ⟨arrival', workers⟩, hpoll, rfl⟩ := h
      refine ⟨workers, ?_⟩
      rw [step, if_pos hopen]
      simp only [wake, hpoll]

/-- **What one wakeup does**: it takes up an arrival, if there is one, and does with it what its outcome says. -/
theorem step_log (d : Driver lru) (w : Wakeup × Env) : (d.step options w).log =
    d.log ++ (d.arriving w).elim [] (fun arrival => .received arrival :: d.outcome options w.2 arrival) := by
  cases h : d.arriving w with
  | none => exact (step_idle options h).1.trans (List.append_nil _).symm
  | some arrival =>
      obtain ⟨workers, hstep⟩ := step_arriving options h
      rw [hstep, settled_log, forward_log]
      show (d.log ++ [_]) ++ _ = _
      rw [List.append_assoc]
      rfl

/-- What one wakeup remembers: the id of what was delivered to it. -/
theorem step_seen (d : Driver lru) (w : Wakeup × Env) : (d.step options w).seen =
    (d.delivery w).elim d.seen (fun event => (lru.put d.seen event.id).2) := by
  cases h : d.arriving w with
  | none =>
      rw [delivery, h]
      exact (step_idle options h).2
  | some arrival =>
      obtain ⟨workers, hstep⟩ := step_arriving options h
      rw [hstep, settled_seen, forward_seen, delivery, h]
      rfl

/-! ## What a wakeup adds -/

variable {options env}

/-- The events of an outcome: what is fresh is saved and sent. -/
theorem outcome_events (d : Driver lru) (arrival : Arrival) :
    (d.outcome options env arrival).filterMap Effect.taken = [] ∧
      (d.outcome options env arrival).filterMap Effect.stored =
        (if options.autoSave then (arrival.event.filter (fun e => e.id ∉ lru.recent d.seen)).toList else []) ∧
      (d.outcome options env arrival).filterMap Effect.delivered =
        if env.accepts then (arrival.event.filter (fun e => e.id ∉ lru.recent d.seen)).toList else [] := by
  obtain ⟨url, subscriptionId, item⟩ := arrival
  cases item with
  | event event =>
      by_cases hseen : event.id ∈ lru.recent d.seen
      · simp [outcome, Arrival.event, hseen]
      · cases hsave : options.autoSave <;> cases haccepts : env.accepts <;>
          simp [outcome, Arrival.event, hseen, hsave, haccepts, List.filterMap_cons, Option.filter_some,
            Effect.taken, Effect.stored, Effect.delivered]
  | closed message =>
      cases haccepts : env.accepts <;>
        simp [outcome, Arrival.event, haccepts, Effect.taken, Effect.stored, Effect.delivered]
  | endOfStoredEvents => simp [outcome, Arrival.event]
  | negMsg message => simp [outcome, Arrival.event]
  | negErr message => simp [outcome, Arrival.event]

/-- An event is fresh when it is delivered and its id is not among the recent ones. -/
theorem fresh_eq_some_iff {d : Driver lru} {w : Wakeup × Env} {event : Event} :
    d.fresh w = some event ↔ d.delivery w = some event ∧ event.id ∉ lru.recent d.seen := by
  rw [fresh, Option.filter_eq_some_iff, decide_eq_true_iff]

theorem takenEvents_step (d : Driver lru) (w : Wakeup × Env) :
    (d.step options w).takenEvents = d.takenEvents ++ (d.delivery w).toList := by
  rw [takenEvents, step_log, List.filterMap_append, delivery]
  congr 1
  cases h : d.arriving w with
  | none => rfl
  | some arrival =>
      show List.filterMap Effect.taken (.received arrival :: _) = arrival.event.toList
      rw [List.filterMap_cons, (outcome_events d arrival).1,
        show (Effect.received arrival).taken = arrival.event from rfl]
      cases arrival.event <;> rfl

/-- What one wakeup stores: a fresh event, where auto-save is on. -/
theorem storedEvents_step (d : Driver lru) (w : Wakeup × Env) : (d.step options w).storedEvents =
    d.storedEvents ++ if options.autoSave then (d.fresh w).toList else [] := by
  rw [storedEvents, step_log, List.filterMap_append, fresh, delivery]
  congr 1
  cases h : d.arriving w with
  | none => cases options.autoSave <;> rfl
  | some arrival => exact (outcome_events d arrival).2.1

/-- What one wakeup delivers: a fresh event, if the consumer takes it. -/
theorem deliveredEvents_step (d : Driver lru) (w : Wakeup × Env) : (d.step options w).deliveredEvents =
    d.deliveredEvents ++ if w.2.accepts then (d.fresh w).toList else [] := by
  rw [deliveredEvents, step_log, List.filterMap_append, fresh, delivery]
  congr 1
  cases h : d.arriving w with
  | none => cases w.2.accepts <;> rfl
  | some arrival => exact (outcome_events d arrival).2.2

/-! ## Whole runs -/

theorem run_append_singleton (workers : List Worker) (past : List (Wakeup × Env)) (w : Wakeup × Env) :
    (run options workers (past ++ [w]) : Driver lru) = (run options workers past).step options w := by
  rw [run, run, List.foldl_append]
  rfl

/-- The cache holds what was put into it: the ids of the events read. -/
theorem seen_run (workers : List Worker) (schedule : List (Wakeup × Env)) :
    (run options workers schedule : Driver lru).seen = lru.puts (lru.new options.dedupCapacity)
      ((run options workers schedule : Driver lru).takenEvents.map Event.id) := by
  -- from the end: each event read is one more `put`
  induction schedule using List.reverseRecOn with
  | nil => rfl
  | append_singleton past w ih =>
      rw [run_append_singleton, step_seen, takenEvents_step, ih]
      cases h : (run options workers past : Driver lru).delivery w with
      | none =>
          show _ = lru.puts _ ((_ ++ []).map _)
          rw [List.append_nil]
          rfl
      | some event =>
          rw [Option.toList_some, List.map_append, List.map_singleton, Lru.puts_append_singleton]
          rfl

/-- **Recent ids.** An id is in the cache exactly when it is one of the last distinct ones read, as many as
    fit. -/
theorem recent_run (workers : List Worker) (schedule : List (Wakeup × Env)) :
    lru.recent (run options workers schedule : Driver lru).seen =
      (Lru.latest ((run options workers schedule : Driver lru).takenEvents.map Event.id)).take
        options.dedupCapacity := by
  rw [seen_run, Lru.recent_puts]

/-- Nothing is sent that was not read. -/
theorem delivered_subset_taken (workers : List Worker) (schedule : List (Wakeup × Env)) :
    (run options workers schedule : Driver lru).deliveredEvents ⊆
      (run options workers schedule : Driver lru).takenEvents := by
  induction schedule using List.reverseRecOn with
  | nil => exact List.nil_subset _
  | append_singleton past w ih =>
      rw [run_append_singleton, takenEvents_step, deliveredEvents_step]
      intro event hevent
      rcases List.mem_append.mp hevent with hold | hnew
      · exact List.mem_append_left _ (ih hold)
      · apply List.mem_append_right
        rw [List.mem_ite_nil_right] at hnew
        exact Option.mem_toList.mpr (fresh_eq_some_iff.mp (Option.mem_toList.mp hnew.2)).1

end Driver

end Nula.Pool
