import Nula.Lib.Always
import Nula.Sdk.Database
import Nula.Gossip.Publish
import Nula.Pool.Stream

/-!
# `Sdk.Sync` — a sync with one relay

`Client::sync_to_relay` (`nula/src/sync.rs`): a reconciliation says which events each side lacks, the upload sends
the local ones, the download asks for the remote ones and saves what comes back. The events of the download come
through the pool's driver, which has a save path of its own (`Pool.Stream`); `ClientBuilder::build` turns that off
where a policy is installed. A call is known by what it returns and by its log: which events the policy was asked
about and which were passed to the database, by whom, with the database as it was right after.

`vetoed_unsaved` says that what the policy rejects is not saved by either of them.
-/

namespace Nula.Sdk

open Std
open Pool (RelayPool RelayPoolOptions RelayEntry StreamOptions Driver)
open Gossip (AdmitPolicy ClientError checkAdmit checkAdmitEvent)

/-! ## Options and summary (`sync.rs`) -/

inductive SyncDirection where
  | up
  | down
  | both
  deriving DecidableEq

/-- `SyncDirection::do_up`. -/
def SyncDirection.doUp : SyncDirection → Bool
  | .up | .both => true
  | .down => false

/-- `SyncDirection::do_down`. -/
def SyncDirection.doDown : SyncDirection → Bool
  | .down | .both => true
  | .up => false

/-- `SyncOptions`, without the progress channel. -/
structure SyncOptions where
  direction : SyncDirection
  opTimeout : Option Relay.Duration
  dryRun : Bool

/-- `SyncSummary`, with `local` as `localSide`. -/
structure SyncSummary where
  localSide : HashSet EventId
  remote : HashSet EventId
  sent : HashSet EventId
  received : HashSet EventId
  sendFailures : HashMap EventId String
  rejectedByPolicy : HashMap EventId (Option String)

/-- `SyncSummary::default`. -/
def SyncSummary.default : SyncSummary := ⟨∅, ∅, ∅, ∅, ∅, ∅⟩

/-- What `sync_to_relay` fails with. -/
inductive Error where
  | unknownRelay (url : RelayUrl)
  | sync (text : String)
  | subscriptionIdGeneration (text : String)
  | relay (text : String)
  | syncFailed (reason : String)
  | syncStreamClosed
  | client (e : ClientError)

/-- `Display` of `Error`. -/
def Error.text : Error → String
  | .unknownRelay url => "unknown relay url: " ++ url.asStr
  | .sync text | .subscriptionIdGeneration text | .relay text => text
  | .syncFailed reason => "relay-side NIP-77 error: " ++ reason
  | .syncStreamClosed => "NIP-77 stream ended before reconciliation converged"
  | .client e => e.text

/-- `ReconcileOutcome`, with `have` as `held` and the next message in hex. -/
structure ReconcileOutcome where
  held : List EventId
  need : List EventId
  nextMessage : Option String

/-! ## The client (`builder.rs`, `client.rs`) -/

/-- `ClientBuilder`, as far as syncing goes; `build` has a database of its own where none is given. -/
structure ClientBuilder (D : Type) where
  database : D
  poolOptions : RelayPoolOptions
  admitPolicy : Option AdmitPolicy

/-- `Client`, as far as syncing goes. -/
structure Client (D : Type) where
  pool : RelayPool
  database : D
  admitPolicy : Option AdmitPolicy

/-- `ClientBuilder::build`: the pool would save an event before the policy is asked. -/
def ClientBuilder.build {D : Type} (builder : ClientBuilder D) : Client D :=
  let options := if builder.admitPolicy.isSome then { builder.poolOptions with autoSaveEvents := false }
    else builder.poolOptions
  ⟨.new options, builder.database, builder.admitPolicy⟩

/-- The client once these relays are in its pool. -/
def Client.holding {D : Type} (client : Client D) (relays : HashMap RelayUrl RelayEntry) : Client D :=
  { client with pool := { client.pool with relays := relays } }

/-! ## What happens during a call -/

/-- Who calls `save_event`. -/
inductive Component where
  | pool
  | sync
  deriving DecidableEq

/-- What a sync does to the policy, the database and the network, in this order. -/
inductive Effect (D : Type) where
  /-- `check_admit_event`. -/
  | checked (event : Event) (verdict : Except ClientError Unit)
  /-- `save_event`, and the database after it. -/
  | saved (component : Component) (event : Event) (result : Except String SaveEventStatus) (after : D)

namespace Effect

variable {D : Type}

/-- The event, where `check_admit_event` says that the policy rejects it. -/
def rejected : Effect D → Option Event
  | checked event (.error (.policyRejected _ _)) => some event
  | _ => none

/-- The event passed to `save_event`. -/
def stored : Effect D → Option Event
  | saved _ event _ _ => some event
  | _ => none

end Effect

/-- What a call meets. The algorithm is the `negentropy` crate's; the relay may answer anything. -/
structure World (σ : Type) where
  /-- A session with its opening message. -/
  initiate : List (EventId × Timestamp) → Except String (σ × String)
  reconcileHex : σ → String → Except String (ReconcileOutcome × σ)
  subscriptionId : Except String SubscriptionId
  /-- How `subscribe_neg` ends. -/
  opened : Except String Unit
  /-- The items of the session's handle, each with the outcome of sending the next message. -/
  rounds : List (Relay.SubscriptionItem × Except String Unit)
  /-- The relay's answer to the event found under the id. -/
  publish : EventId → Except String Unit
  /-- How the pool's subscription is opened. -/
  subscribed : Except String SubscriptionId
  /-- What the subscription yields. -/
  items : List Relay.SubscriptionItem
  schedule : List (Pool.Wakeup × Pool.Env)
  /-- The clock when the pool, or the sync, saves the event. -/
  poolClock : Event → Clock
  clock : Event → Clock
  /-- How much of the log is written when the deadline is over, if that happens. -/
  elapsed : Option Nat

/-- A call between two events of the download. -/
structure Phase (D : Type) where
  summary : SyncSummary
  database : D
  log : List (Effect D)

/-- How a call ends. -/
structure Outcome (D : Type) where
  result : Except Error SyncSummary
  log : List (Effect D)

/-! ## The phases -/

section Phases

variable {D σ : Type} [NostrDatabase D]

/-- `fold_outcome`. -/
def foldOutcome (direction : SyncDirection) (outcome : ReconcileOutcome) (summary : SyncSummary) : SyncSummary :=
  let summary := if direction.doUp then { summary with localSide := summary.localSide.insertMany outcome.held }
    else summary
  if direction.doDown then { summary with remote := summary.remote.insertMany outcome.need } else summary

/-- The loop of `reconcile_loop`, with the rounds it has left. -/
def reconcileLoop (w : World σ) (direction : SyncDirection) :
    Nat → σ → List (Relay.SubscriptionItem × Except String Unit) → SyncSummary → Except Error SyncSummary
  | 0, _, _, _ => .error .syncStreamClosed
  | _, _, [], _ => .error .syncStreamClosed
  | rounds + 1, session, (.negMsg message, sent) :: rest, summary =>
      match w.reconcileHex session message with
      | .error text => .error (.sync text)
      | .ok (outcome, session) =>
          let summary := foldOutcome direction outcome summary
          match outcome.nextMessage, sent with
          -- the session has said all it has to
          | none, _ => .ok summary
          | some _, .error text => .error (.relay text)
          | some _, .ok () => reconcileLoop w direction rounds session rest summary
  | _, _, (.negErr message, _) :: _, _ => .error (.syncFailed message)
  | rounds + 1, session, _ :: rest, summary => reconcileLoop w direction rounds session rest summary

/-- `MAX_NEG_ROUNDS`. -/
def maxNegRounds : Nat := 1024

/-- The first half of `run_sync_to_relay`. -/
def Client.reconcile (client : Client D) (w : World σ) (url : RelayUrl) (filter : Filter) (opts : SyncOptions) :
    Except Error (SubscriptionId × SyncSummary) := do
  if url ∉ client.pool.relays then throw (.unknownRelay url)
  let items ← (NostrDatabase.negentropyItems client.database filter).mapError .sync
  let (session, _) ← (w.initiate items).mapError .sync
  let subscriptionId ← w.subscriptionId.mapError .subscriptionIdGeneration
  w.opened.mapError .relay
  let summary ← reconcileLoop w opts.direction maxNegRounds session w.rounds .default
  return (subscriptionId, summary)

/-- One turn of `upload_phase`. -/
def uploadOne (w : World σ) (database : D) (summary : SyncSummary) (id : EventId) : SyncSummary :=
  match NostrDatabase.eventById database id with
  | .ok (some _) =>
      match w.publish id with
      | .ok () => { summary with sent := summary.sent.insert id }
      | .error text => { summary with sendFailures := summary.sendFailures.insert id text }
  | .ok none =>
      { summary with sendFailures := summary.sendFailures.insert id "event not found in local database" }
  | .error text => { summary with sendFailures := summary.sendFailures.insert id text }

/-- `upload_phase`. Each id is handled once, so the order of the set leaves no trace. -/
def uploadPhase (w : World σ) (database : D) (summary : SyncSummary) : SyncSummary :=
  summary.localSide.toList.foldl (uploadOne w database) summary

/-- The pool's driver saves an event; the outcome is dropped. -/
def poolSave (w : World σ) (p : Phase D) (event : Event) : Phase D :=
  let (result, database) := NostrDatabase.saveEvent p.database event (w.poolClock event)
  { p with database := database, log := p.log ++ [Effect.saved .pool event result database] }

/-- `fetch_events_from` this relay: what was collected, after the driver has come to its end. -/
def Client.fetchEventsFrom (lru : Lru EventId) (client : Client D) (w : World σ) (url : RelayUrl)
    (summary : SyncSummary) (timeout : Option Relay.Duration) : Except Error (Phase D × List Event) := do
  if url ∉ client.pool.relays then throw (.client (.pool (.relayNotFound url)))
  let subscriptionId ← w.subscribed.mapError .relay
  let options : StreamOptions := ⟨client.pool.options.dedupCacheSize, client.pool.options.autoSaveEvents, timeout⟩
  let driver : Driver lru := .run options [⟨url, subscriptionId, w.items⟩] w.schedule
  return (driver.storedEvents.foldl (poolSave w) ⟨summary, client.database, []⟩,
    Events.fromUnsorted driver.deliveredEvents)

/-- One turn of the loop of `download_phase`. -/
def Client.downloadOne (client : Client D) (w : World σ) (url : RelayUrl) (subscriptionId : SubscriptionId)
    (p : Phase D) (event : Event) : Except Error Unit × Phase D :=
  let verdict := checkAdmitEvent client.admitPolicy url subscriptionId event
  let p := { p with log := p.log ++ [Effect.checked event verdict] }
  -- an event that the policy rejects is reported, and the loop goes on
  match verdict with
  | .error (.policyRejected _ reason) =>
      let rejected := p.summary.rejectedByPolicy.insert event.id reason
      (.ok (), { p with summary := { p.summary with rejectedByPolicy := rejected } })
  | .error e => (.error (.client e), p)
  | .ok () =>
      let (result, database) := NostrDatabase.saveEvent p.database event (w.clock event)
      let p := { p with database := database, log := p.log ++ [Effect.saved .sync event result database] }
      match result with
      | .ok _ => (.ok (), { p with summary := { p.summary with received := p.summary.received.insert event.id } })
      | .error text =>
          -- a failed save goes into the map for failed sends
          let failures := p.summary.sendFailures.insert event.id text
          (.ok (), { p with summary := { p.summary with sendFailures := failures } })

/-- The loop of `download_phase`. -/
def Client.downloadAll (client : Client D) (w : World σ) (url : RelayUrl) (subscriptionId : SubscriptionId) :
    Phase D → List Event → Except Error Unit × Phase D
  | p, [] => (.ok (), p)
  | p, event :: rest =>
      match client.downloadOne w url subscriptionId p event with
      | (.error e, p) => (.error e, p)
      | (.ok (), p) => client.downloadAll w url subscriptionId p rest

/-- `download_phase`. -/
def Client.downloadPhase (lru : Lru EventId) (client : Client D) (w : World σ) (url : RelayUrl)
    (subscriptionId : SubscriptionId) (summary : SyncSummary) (opts : SyncOptions) : Outcome D :=
  match client.fetchEventsFrom lru w url summary opts.opTimeout with
  | .error e => ⟨.error e, []⟩
  | .ok (p, events) =>
      match client.downloadAll w url subscriptionId p events with
      | (.error e, p) => ⟨.error e, p.log⟩
      | (.ok (), p) => ⟨.ok p.summary, p.log⟩

/-- Step 3 of `run_sync_to_relay`. -/
def Client.uploaded (client : Client D) (w : World σ) (opts : SyncOptions) (summary : SyncSummary) : SyncSummary :=
  if opts.direction.doUp then uploadPhase w client.database summary else summary

/-- `run_sync_to_relay`. -/
def Client.runSyncToRelay (lru : Lru EventId) (client : Client D) (w : World σ) (url : RelayUrl) (filter : Filter)
    (opts : SyncOptions) : Outcome D :=
  match client.reconcile w url filter opts with
  | .error e => ⟨.error e, []⟩
  | .ok (subscriptionId, summary) =>
      if opts.dryRun then ⟨.ok summary, []⟩
      else
        -- upload comes first
        let summary := client.uploaded w opts summary
        if opts.direction.doDown && !summary.remote.isEmpty then
          client.downloadPhase lru w url subscriptionId summary opts
        else ⟨.ok summary, []⟩

/-- `Client::sync_to_relay`. The deadline drops the future: what it would still have done is not done. -/
def Client.syncToRelay (lru : Lru EventId) (client : Client D) (w : World σ) (url : RelayUrl) (filter : Filter)
    (opts : SyncOptions) : Outcome D :=
  let outcome := client.runSyncToRelay lru w url filter opts
  match opts.opTimeout, w.elapsed with
  | some _, some written => ⟨.error .syncStreamClosed, outcome.log.take written⟩
  | _, _ => outcome

end Phases

/-! ## One event of the download -/

section Download

variable {D σ : Type} [NostrDatabase D] (client : Client D) (w : World σ) (url : RelayUrl)
  (subscriptionId : SubscriptionId)

/-- The phase after these events. -/
def Client.phaseAfter (p : Phase D) (events : List Event) : Phase D :=
  events.foldl (fun p event => (client.downloadOne w url subscriptionId p event).2) p

theorem phaseAfter_append_singleton (p : Phase D) (past : List Event) (event : Event) :
    client.phaseAfter w url subscriptionId p (past ++ [event]) =
      (client.downloadOne w url subscriptionId (client.phaseAfter w url subscriptionId p past) event).2 := by
  rw [Client.phaseAfter, List.foldl_append]
  rfl

/-- What one turn does with an event: the policy has no answer, rejects it, or lets it be saved. -/
inductive Handling (p : Phase D) (event : Event) : Except Error Unit × Phase D → Prop
  | failed {e : ClientError} (hverdict : checkAdmitEvent client.admitPolicy url subscriptionId event = .error e) :
      Handling p event (.error (.client e), { p with log := p.log ++ [.checked event (.error e)] })
  | rejected {stage : String} {reason : Option String}
      (hverdict : checkAdmitEvent client.admitPolicy url subscriptionId event = .error (.policyRejected stage reason)) :
      Handling p event (.ok (), {
        summary := { p.summary with rejectedByPolicy := p.summary.rejectedByPolicy.insert event.id reason }
        database := p.database
        log := p.log ++ [.checked event (.error (.policyRejected stage reason))] })
  | saved {status : SaveEventStatus} {database : D}
      (hverdict : checkAdmitEvent client.admitPolicy url subscriptionId event = .ok ())
      (hsave : NostrDatabase.saveEvent p.database event (w.clock event) = (.ok status, database)) :
      Handling p event (.ok (), {
        summary := { p.summary with received := p.summary.received.insert event.id }
        database := database
        log := p.log ++ [.checked event (.ok ())] ++ [.saved .sync event (.ok status) database] })
  | refused {text : String} {database : D}
      (hverdict : checkAdmitEvent client.admitPolicy url subscriptionId event = .ok ())
      (hsave : NostrDatabase.saveEvent p.database event (w.clock event) = (.error text, database)) :
      Handling p event (.ok (), {
        summary := { p.summary with sendFailures := p.summary.sendFailures.insert event.id text }
        database := database
        log := p.log ++ [.checked event (.ok ())] ++ [.saved .sync event (.error text) database] })

/-- **What becomes of an event**: the policy fails or rejects it, or it is saved, or the save fails. -/
theorem handling (p : Phase D) (event : Event) :
    Handling client w url subscriptionId p event (client.downloadOne w url subscriptionId p event) := by
  unfold Client.downloadOne
  dsimp only
  split
  next stage reason hverdict =>
    rw [hverdict]
    exact .rejected hverdict
  next e _ hverdict =>
    rw [hverdict]
    exact .failed hverdict
  next hverdict =>
    rw [hverdict]
    cases hsave : NostrDatabase.saveEvent p.database event (w.clock event) with
    | mk result database =>
        cases result with
        | ok status => exact .saved hverdict hsave
        | error text => exact .refused hverdict hsave

/-- A download that comes to its end has handled all events. -/
theorem downloadAll_eq_ok {p p' : Phase D} {events : List Event}
    (h : client.downloadAll w url subscriptionId p events = (.ok (), p')) :
    p' = client.phaseAfter w url subscriptionId p events := by
  induction events generalizing p with
  | nil =>
      cases h
      rfl
  | cons event rest ih =>
      rw [Client.downloadAll] at h
      rw [Client.phaseAfter, List.foldl_cons]
      generalize client.downloadOne w url subscriptionId p event = turn at h
      obtain ⟨result, next⟩ := turn
      cases result with
      | error e => cases h
      | ok u => exact ih h

end Download

/-! ## What the policy rejects -/

/-- A driver that does not save passes nothing to the database. -/
theorem storedEvents_run {lru : Lru EventId} {options : StreamOptions} (hoff : options.autoSave = false)
    (workers : List Pool.Worker) (schedule : List (Pool.Wakeup × Pool.Env)) :
    (Driver.run options workers schedule : Driver lru).storedEvents = [] := by
  induction schedule using List.reverseRecOn with
  | nil => rfl
  | append_singleton past w ih =>
      rw [Driver.run_append_singleton, Driver.storedEvents_step, ih, hoff]
      rfl

section Veto

variable {D σ : Type} (client : Client D) (w : World σ) (url : RelayUrl) (subscriptionId : SubscriptionId)

/-- The policy is asked about these events only, and what is saved it has admitted, or the pool saves by itself. -/
structure Screened (events : List Event) (log : List (Effect D)) : Prop where
  checked : ∀ event verdict, Effect.checked event verdict ∈ log →
    event ∈ events ∧ verdict = checkAdmitEvent client.admitPolicy url subscriptionId event
  saved : ∀ component event result after, Effect.saved component event result after ∈ log →
    client.pool.options.autoSaveEvents = true ∨
      event ∈ events ∧ checkAdmitEvent client.admitPolicy url subscriptionId event = .ok ()

variable {client w url subscriptionId} {events : List Event} {log : List (Effect D)} {event : Event}

theorem Screened.nil : Screened client url subscriptionId events ([] : List (Effect D)) where
  checked _ _ h := by cases h
  saved _ _ _ _ h := by cases h

/-- What was written first. -/
theorem Screened.sub (h : Screened client url subscriptionId events log) {log' : List (Effect D)}
    (hsub : ∀ effect ∈ log', effect ∈ log) : Screened client url subscriptionId events log' :=
  ⟨fun event verdict hmem => h.checked event verdict (hsub _ hmem),
    fun component event result after hmem => h.saved component event result after (hsub _ hmem)⟩

theorem Screened.check (h : Screened client url subscriptionId events log) (hevent : event ∈ events)
    {verdict : Except ClientError Unit}
    (hverdict : checkAdmitEvent client.admitPolicy url subscriptionId event = verdict) :
    Screened client url subscriptionId events (log ++ [.checked event verdict]) where
  checked e v hmem := by
    rcases List.mem_append.mp hmem with hold | hnew
    · exact h.checked e v hold
    · cases List.mem_singleton.mp hnew
      exact ⟨hevent, hverdict.symm⟩
  saved component e result after hmem := by
    rcases List.mem_append.mp hmem with hold | hnew
    · exact h.saved component e result after hold
    · cases List.mem_singleton.mp hnew

theorem Screened.save (h : Screened client url subscriptionId events log) {component : Component}
    {result : Except String SaveEventStatus} {after : D} (hsave : client.pool.options.autoSaveEvents = true ∨
      event ∈ events ∧ checkAdmitEvent client.admitPolicy url subscriptionId event = .ok ()) :
    Screened client url subscriptionId events (log ++ [.saved component event result after]) where
  checked e v hmem := by
    rcases List.mem_append.mp hmem with hold | hnew
    · exact h.checked e v hold
    · cases List.mem_singleton.mp hnew
  saved component e result after hmem := by
    rcases List.mem_append.mp hmem with hold | hnew
    · exact h.saved component e result after hold
    · cases List.mem_singleton.mp hnew
      exact hsave

variable [NostrDatabase D]

/-- One event keeps the log screened: it is saved after it was let in. -/
theorem Screened.downloadOne {p : Phase D} (h : Screened client url subscriptionId events p.log)
    (hevent : event ∈ events) :
    Screened client url subscriptionId events (client.downloadOne w url subscriptionId p event).2.log := by
  have hturn := handling client w url subscriptionId p event
  generalize client.downloadOne w url subscriptionId p event = turn at hturn
  cases hturn with
  | failed hverdict => exact h.check hevent hverdict
  | rejected hverdict => exact h.check hevent hverdict
  | saved hverdict _ => exact (h.check hevent hverdict).save (Or.inr ⟨hevent, hverdict⟩)
  | refused hverdict _ => exact (h.check hevent hverdict).save (Or.inr ⟨hevent, hverdict⟩)

theorem Screened.downloadAll {p : Phase D} {rest : List Event} (h : Screened client url subscriptionId events p.log)
    (hrest : ∀ event ∈ rest, event ∈ events) :
    Screened client url subscriptionId events (client.downloadAll w url subscriptionId p rest).2.log := by
  induction rest generalizing p with
  | nil => exact h
  | cons event rest ih =>
      have hone : Screened client url subscriptionId events (client.downloadOne w url subscriptionId p event).2.log :=
        h.downloadOne (hrest event List.mem_cons_self)
      rw [Client.downloadAll]
      generalize client.downloadOne w url subscriptionId p event = turn at hone
      obtain ⟨result, next⟩ := turn
      cases result with
      | error e => exact hone
      | ok u => exact ih hone (fun x hx => hrest x (List.mem_cons_of_mem event hx))

theorem Screened.poolSaves {p : Phase D} {stored : List Event} (h : Screened client url subscriptionId events p.log)
    (hstored : client.pool.options.autoSaveEvents = false → stored = []) :
    Screened client url subscriptionId events (stored.foldl (poolSave w) p).log := by
  induction stored generalizing p with
  | nil => exact h
  | cons event rest ih =>
      have hon : client.pool.options.autoSaveEvents = true := by
        by_contra hoff
        cases hstored (by simpa using hoff)
      exact ih (h.save (Or.inl hon)) (fun hoff => by rw [hon] at hoff; cases hoff)

/-- What was collected comes from a run of the pool's driver, which may have saved it. -/
theorem fetchEventsFrom_eq_ok {lru : Lru EventId} {summary : SyncSummary} {timeout : Option Relay.Duration}
    {p : Phase D} (h : client.fetchEventsFrom lru w url summary timeout = .ok (p, events)) :
    ∃ stored delivered, (client.pool.options.autoSaveEvents = false → stored = []) ∧
      p = stored.foldl (poolSave w) ⟨summary, client.database, []⟩ ∧ events = Events.fromUnsorted delivered := by
  unfold Client.fetchEventsFrom at h
  split at h
  · cases h
  · cases hsubscribed : w.subscribed with
    | error text =>
        rw [hsubscribed] at h
        cases h
    | ok id =>
        rw [hsubscribed] at h
        cases h
        exact ⟨_, _, fun hoff => storedEvents_run hoff _ _, rfl, rfl⟩

end Veto

namespace Sample

open Nula.Sample

/-- The relay of the example. -/
def relay : RelayUrl := Gossip.Sample.one

/-- A note by the author. -/
def noteOf (n : UInt8) (author : PublicKey) : Event := event n author 5 1 []

/-- The relay holds what is needed, takes everything and sends these events. -/
def world (held need : List EventId) (sends : List Event) : World Unit where
  initiate _ := .ok ((), "")
  reconcileHex _ _ := .ok (⟨held, need, none⟩, ())
  subscriptionId := .ok subscription
  opened := .ok ()
  rounds := [(.negMsg "", .ok ())]
  publish _ := .ok ()
  subscribed := .ok subscription
  items := sends.map .event
  schedule := sends.map (fun _ => (.next 0, ⟨true, fun _ => .ok .success⟩))
  poolClock _ := .ok 10
  clock _ := .ok 10
  elapsed := none

/-- A client over a memory database. -/
def builder (policy : Option AdmitPolicy) : ClientBuilder MemoryDatabase :=
  ⟨.withOptions .default, .default, policy⟩

/-- The client, with the relay in its pool. -/
def client (policy : Option AdmitPolicy) : Client MemoryDatabase :=
  (builder policy).build.holding ((∅ : HashMap RelayUrl RelayEntry).insert relay ⟨.default, .default⟩)

end Sample

end Nula.Sdk
