import Nula.Lib.Always
import Nula.Gossip.WarmUp
import Nula.Pool.Stream
import Nula.Pool.Registry

/-!
# `Gossip.Refresh` — how often a list is fetched

`Gossip::refresh` as tasks that run from one await point to the next. A call reads the clock, waits for the read
lock and checks there how long ago the list was fetched, waits for the write lock and records its time, and only
then contacts the relays. Between the two locks other calls run, and none of them sees that this one has passed:
`debounced_iff` says that the recorded times are apart as long as each call, when it records, would pass again.
-/

namespace Nula.Gossip

open Std Pool

/-- `Error`, as far as `refresh` raises it. -/
inductive Error where
  | pool (e : PoolError)
  | noDiscoveryRelays
  | notFound (user : PublicKey) (listKind : ListKind)

/-- `Debug` of a `ListKind`. -/
def ListKind.debug : ListKind → String
  | .nip65 => "Nip65"
  | .nip17 => "Nip17"

/-- `Display` of `Error`. -/
def Error.text : Error → String
  | .pool e => e.text
  | .noDiscoveryRelays => "no discovery relays available for gossip refresh"
  | .notFound user listKind => "no NIP-" ++ listKind.debug ++ " event was returned for user " ++ user.toHex

/-! ## The times of the last fetches (`routes.rs`) -/

namespace UserRoutes

/-- `UserRoutes::list_fetched_at`. -/
def listFetchedAt (routes : UserRoutes) : ListKind → Option Timestamp
  | .nip65 => routes.nip65FetchedAt
  | .nip17 => routes.nip17FetchedAt

/-- The assignment of `refresh`. -/
def setFetchedAt (routes : UserRoutes) (now : Timestamp) : ListKind → UserRoutes
  | .nip65 => { routes with nip65FetchedAt := some now }
  | .nip17 => { routes with nip17FetchedAt := some now }

end UserRoutes

namespace Inner

variable {D : Type}

/-- What `refresh` reads under the read lock. -/
def fetchedAt (inner : Inner D) (user : PublicKey) (kind : ListKind) : Option Timestamp :=
  inner.routes[user]?.bind (fun routes => routes.listFetchedAt kind)

/-- `allowed_to_fetch`; the difference saturates. -/
def allowedToFetch (inner : Inner D) (user : PublicKey) (kind : ListKind) (now : Option Timestamp) : Bool :=
  match inner.fetchedAt user kind, now with
  | some prev, some now => inner.options.minFetchInterval ≤ now.toNat - prev.toNat
  | _, _ => true

/-- What `refresh` does under the write lock. -/
def bumpFetchedAt (inner : Inner D) (user : PublicKey) (kind : ListKind) (now : Timestamp) : Inner D :=
  { inner with routes := inner.routes.insert user ((inner.routes.getD user .default).setFetchedAt now kind) }

theorem fetchedAt_eq_getD (inner : Inner D) (user : PublicKey) (kind : ListKind) :
    inner.fetchedAt user kind = (inner.routes.getD user .default).listFetchedAt kind := by
  rw [fetchedAt, ExtTreeMap.getD_eq_getD_getElem?]
  cases inner.routes[user]? with
  | none => cases kind <;> rfl
  | some routes => rfl

/-- A bump sets one time, of one user and one list. -/
theorem fetchedAt_bumpFetchedAt (inner : Inner D) (user u : PublicKey) (kind k : ListKind) (now : Timestamp) :
    (inner.bumpFetchedAt user kind now).fetchedAt u k =
      if user = u ∧ kind = k then some now else inner.fetchedAt u k := by
  rw [fetchedAt_eq_getD, fetchedAt_eq_getD, bumpFetchedAt, ExtTreeMap.getD_insert]
  by_cases hu : user = u
  · subst hu
    rw [if_pos (compare_self)]
    cases kind <;> cases k <;> simp [UserRoutes.setFetchedAt, UserRoutes.listFetchedAt]
  · rw [if_neg (fun h => hu (LawfulEqCmp.compare_eq_iff_eq.mp h)), if_neg (fun h => hu h.1)]

end Inner

/-! ## What a relay list or a hint does to them -/

section Process

variable (urls : UrlCrate) {allowed : AllowedRelays} {e : Event} {entry : UserRoutes}

theorem harvestRelayHints_fetchedAt (kind : ListKind) :
    (harvestRelayHints urls allowed e entry).listFetchedAt kind = entry.listFetchedAt kind := by
  refine Buckets.foldl_keeps (P := fun entry' : UserRoutes => entry'.listFetchedAt kind = entry.listFetchedAt kind)
    ?_ e.tags.items rfl
  intro entry' tag h
  unfold harvestTag
  repeat' split
  all_goals exact h

theorem applyEventToEntry_fetchedAt (kind : ListKind) :
    (applyEventToEntry urls allowed e entry).listFetchedAt kind = entry.listFetchedAt kind := by
  unfold applyEventToEntry
  repeat' split
  all_goals first
    | rfl
    | exact harvestRelayHints_fetchedAt urls kind

theorem countSource_fetchedAt (source : Option RelayUrl) (kind : ListKind) :
    (countSource urls allowed entry source).listFetchedAt kind = entry.listFetchedAt kind := by
  unfold countSource
  repeat' split
  all_goals rfl

/-- Processing an event is no fetch. -/
theorem Inner.process_fetchedAt {D : Type} [NostrDatabase D] (inner : Inner D) (source : Option RelayUrl)
    (now : Timestamp) (user : PublicKey) (kind : ListKind) :
    (inner.process urls e source now).fetchedAt user kind = inner.fetchedAt user kind := by
  rw [fetchedAt_eq_getD, fetchedAt_eq_getD, Inner.process_routes, Inner.observe, ExtTreeMap.getD_insert]
  split
  next huser =>
    obtain rfl : e.pubkey = user := LawfulEqCmp.compare_eq_iff_eq.mp huser
    rw [countSource_fetchedAt, applyEventToEntry_fetchedAt]
  next => rfl

end Process

/-! ## The answer of the relays -/

/-- One turn of the loop of `pull_newest`. -/
def takeNewer (user : PublicKey) (kind : ListKind) (newest : Option Event)
    (item : RelayUrl × Except StreamError Event) : Option Event :=
  match item.2 with
  | .error _ => newest
  | .ok event =>
      if event.kind ≠ kind.eventKind ∨ event.pubkey ≠ user then newest
      else if newerThan event.createdAt (newest.map Event.createdAt) then some event
      else newest

/-- `pull_newest`, from what the pool's stream yields. -/
def pullNewest (user : PublicKey) (kind : ListKind)
    (stream : Except PoolError (List (RelayUrl × Except StreamError Event))) : Except Error (Option Event) :=
  match stream with
  | .error e => .error (.pool e)
  | .ok items => .ok (items.foldl (takeNewer user kind) none)

/-! ## The tasks -/

/-- Where a call is suspended. -/
inductive Await where
  /-- Before the read lock. -/
  | reading (now : Option Timestamp)
  /-- Before the write lock. -/
  | writing (now : Timestamp)
  /-- In `pull_newest`. -/
  | pulling
  /-- Before `process`. -/
  | ingesting (event : Event)
  | returned (result : Except Error Unit)
  /-- The future was dropped. -/
  | dropped

/-- A call of `refresh`. -/
structure Task where
  user : PublicKey
  kind : ListKind
  discovery : List RelayUrl
  point : Await

/-- A call that contacted the relays, with the time it recorded. -/
structure Fetch where
  user : PublicKey
  kind : ListKind
  discovery : List RelayUrl
  now : Option Timestamp
  deriving DecidableEq

/-- The router, its tasks, and what they fetched. -/
structure State (D : Type) where
  inner : Inner D
  tasks : List Task
  /-- The calls that reached `pull_newest`, in this order. -/
  fetches : List Fetch

/-- What can happen next: a call, or a task that goes on from the point where it waits. -/
inductive Action where
  /-- A call that read the clock, where it works. -/
  | refresh (user : PublicKey) (kind : ListKind) (discovery : List RelayUrl) (now : Option Timestamp)
  /-- Task `n` gets the read lock. -/
  | read (n : Nat)
  /-- Task `n` gets the write lock. -/
  | write (n : Nat)
  /-- The stream of task `n` ended, or could not be opened. -/
  | pulled (n : Nat) (stream : Except PoolError (List (RelayUrl × Except StreamError Event)))
  | ingest (n : Nat) (now : Timestamp)
  /-- The caller of task `n` gives up. -/
  | drop (n : Nat)
  /-- `Gossip::process` by anyone else. -/
  | process (event : Event) (sourceRelay : Option RelayUrl) (now : Timestamp)

namespace State

variable {D : Type}

def start (inner : Inner D) : State D := ⟨inner, [], []⟩

/-- Task `n` goes on to the next await point. -/
def move (s : State D) (n : Nat) (point : Await) : State D :=
  { s with tasks := s.tasks.modify n (fun task => { task with point := point }) }

/-- Task `n` calls `pull_newest`. -/
def pull (s : State D) (n : Nat) (task : Task) (now : Option Timestamp) : State D :=
  { s.move n .pulling with fetches := s.fetches ++ [⟨task.user, task.kind, task.discovery, now⟩] }

/-- The check under the read lock. -/
def read (s : State D) (n : Nat) (task : Task) (now : Option Timestamp) : State D :=
  if s.inner.allowedToFetch task.user task.kind now then
    match now with
    | some now => s.move n (.writing now)
    | none => s.pull n task none
  else s.move n (.returned (.ok ()))

/-- The bookkeeping under the write lock. -/
def write (s : State D) (n : Nat) (task : Task) (now : Timestamp) : State D :=
  { s with inner := s.inner.bumpFetchedAt task.user task.kind now }.pull n task (some now)

/-- What `pull_newest` brought. -/
def pulled (s : State D) (n : Nat) (task : Task) (result : Except Error (Option Event)) : State D :=
  match result with
  | .error e => s.move n (.returned (.error e))
  | .ok none => s.move n (.returned (.error (.notFound task.user task.kind)))
  | .ok (some event) => s.move n (.ingesting event)

/-- Task `n` runs to its next await point, if it is at one of these. -/
def resume (s : State D) (n : Nat) (go : Task → Await → State D) : State D :=
  match s.tasks[n]? with
  | some task => go task task.point
  | none => s

end State

section Runs

variable {D : Type} [NostrDatabase D] (urls : UrlCrate)

/-- One action; an action for a task that does not wait at that point is none. -/
def step (s : State D) : Action → State D
  | .refresh user kind discovery now =>
      { s with tasks := s.tasks ++ [⟨user, kind, discovery,
        -- without a relay to ask the call returns at once
        if discovery.isEmpty then .returned (.error .noDiscoveryRelays) else .reading now⟩] }
  | .read n => s.resume n fun
      | task, .reading now => s.read n task now
      | _, _ => s
  | .write n => s.resume n fun
      | task, .writing now => s.write n task now
      | _, _ => s
  | .pulled n stream => s.resume n fun
      | task, .pulling => s.pulled n task (pullNewest task.user task.kind stream)
      | _, _ => s
  | .ingest n now => s.resume n fun
      | _, .ingesting event => { s with inner := s.inner.process urls event none now }.move n (.returned (.ok ()))
      | _, _ => s
  | .drop n => s.resume n fun
      -- a task that has returned cannot be dropped
      | _, .returned _ => s
      | _, _ => s.move n .dropped
  | .process event sourceRelay now => { s with inner := s.inner.process urls event sourceRelay now }

def run (inner : Inner D) (actions : List Action) : State D := actions.foldl (step urls) (State.start inner)

theorem run_append_singleton (inner : Inner D) (actions : List Action) (a : Action) :
    run urls inner (actions ++ [a]) = step urls (run urls inner actions) a := by
  rw [run, List.foldl_append]
  rfl

end Runs

/-! ## What one step can do -/

section Quiet

variable {D : Type} {a : Action} {s : State D}

/-- The step of `a` records no fetch; only a check that passes lets a task go on to record one. -/
structure Quiet (a : Action) (s s' : State D) : Prop where
  options : s'.inner.options = s.inner.options
  fetchedAt : ∀ user kind, s'.inner.fetchedAt user kind = s.inner.fetchedAt user kind
  fetches : s'.fetches = s.fetches
  reading : ∀ task ∈ s'.tasks, task.point = .reading none →
    task ∈ s.tasks ∨ ∃ user kind discovery, a = .refresh user kind discovery none
  writing : ∀ task ∈ s'.tasks, ∀ now, task.point = .writing now →
    task ∈ s.tasks ∨ s.inner.allowedToFetch task.user task.kind (some now) = true

/-- Moving a task on changes the point where it waits, and nothing else. -/
theorem mem_move {n : Nat} {point : Await} {task : Task} (h : task ∈ (s.move n point).tasks) :
    task ∈ s.tasks ∨ ∃ old, s.tasks[n]? = some old ∧ task = { old with point := point } := by
  obtain ⟨i, hi⟩ := List.mem_iff_getElem?.mp h
  rw [State.move, List.getElem?_modify, Option.map_eq_map, Option.map_eq_some_iff] at hi
  obtain ⟨old, hold, rfl⟩ := hi
  split
  next hn => exact Or.inr ⟨old, hn ▸ hold, rfl⟩
  next => exact Or.inl (List.mem_of_getElem? hold)

theorem Quiet.refl : Quiet a s s where
  options := rfl
  fetchedAt _ _ := rfl
  fetches := rfl
  reading _ h _ := Or.inl h
  writing _ h _ _ := Or.inl h

/-- A task that goes on to neither lock. -/
theorem Quiet.move {n : Nat} {point : Await} (hreading : point ≠ .reading none)
    (hwriting : ∀ now, point ≠ .writing now) : Quiet a s (s.move n point) where
  options := rfl
  fetchedAt _ _ := rfl
  fetches := rfl
  reading task h hpoint := by
    rcases mem_move h with hold | ⟨old, -, rfl⟩
    · exact Or.inl hold
    · exact absurd hpoint hreading
  writing task h now hpoint := by
    rcases mem_move h with hold | ⟨old, -, rfl⟩
    · exact Or.inl hold
    · exact absurd hpoint (hwriting now)

/-- The task that records its time in this step, with the time. -/
def State.recording (s : State D) : Action → Option (Task × Timestamp)
  | .write n => s.tasks[n]?.bind fun task =>
      match task.point with
      | .writing now => some (task, now)
      | _ => none
  | _ => none

/-- What a write records: the time that the task read when it was allowed to fetch. -/
theorem recording_eq_some_iff {n : Nat} {task : Task} {now : Timestamp} :
    s.recording (.write n) = some (task, now) ↔ s.tasks[n]? = some task ∧ task.point = .writing now := by
  rw [State.recording, Option.bind_eq_some_iff]
  constructor
  · rintro ⟨t, ht, hw⟩
    split at hw
    next hpoint =>
      cases hw
      exact ⟨ht, hpoint⟩
    next => cases hw
  · rintro ⟨htask, hpoint⟩
    exact ⟨task, htask, by rw [hpoint]⟩

/-- A task that passes the check goes on to the write lock. -/
theorem Quiet.passed {n : Nat} {task : Task} {now : Timestamp} (htask : s.tasks[n]? = some task)
    (hallowed : s.inner.allowedToFetch task.user task.kind (some now) = true) :
    Quiet a s (s.move n (.writing now)) where
  options := rfl
  fetchedAt _ _ := rfl
  fetches := rfl
  reading t h hpoint := by
    rcases mem_move h with hold | ⟨old, -, rfl⟩
    · exact Or.inl hold
    · cases hpoint
  writing t h now' hpoint := by
    rcases mem_move h with hold | ⟨old, hold, rfl⟩
    · exact Or.inl hold
    · obtain rfl := Option.some.inj (htask.symm.trans hold)
      cases hpoint
      exact Or.inr hallowed

/-- An event is processed. -/
theorem Quiet.process {s' : State D} {inner : Inner D} (h : Quiet a s s')
    (hoptions : inner.options = s'.inner.options)
    (hfetchedAt : ∀ user kind, inner.fetchedAt user kind = s'.inner.fetchedAt user kind) :
    Quiet a s { s' with inner := inner } where
  options := hoptions.trans h.options
  fetchedAt user kind := (hfetchedAt user kind).trans (h.fetchedAt user kind)
  fetches := h.fetches
  reading := h.reading
  writing := h.writing

theorem Quiet.pulled (n : Nat) (task : Task) (result : Except Error (Option Event)) :
    Quiet a s (s.pulled n task result) := by
  unfold State.pulled
  split <;> exact Quiet.move (fun h => by cases h) (fun now h => by cases h)

/-- What a step does: nothing to the times, a fetch without a clock, or the bookkeeping of one task. -/
inductive Turn (a : Action) (s : State D) : State D → Prop
  | quiet {s' : State D} (h : Quiet a s s') : Turn a s s'
  | unclocked {n : Nat} {task : Task} (htask : s.tasks[n]? = some task) (hpoint : task.point = .reading none) :
      Turn a s (s.pull n task none)
  | wrote {n : Nat} {task : Task} {now : Timestamp} (hrecording : s.recording a = some (task, now)) :
      Turn a s (s.write n task now)

/-- A call goes on from where it is, or there is no such call. -/
theorem Turn.resume {n : Nat} {go : Task → Await → State D}
    (h : ∀ task, s.tasks[n]? = some task → Turn a s (go task task.point)) : Turn a s (s.resume n go) := by
  unfold State.resume
  split
  next task htask => exact h task htask
  next => exact .quiet .refl

/-- A task that reads the last fetch is turned away, or goes on to write the new one; without a clock it fetches at
    once. -/
theorem Turn.read {n : Nat} {task : Task} {now : Option Timestamp} (htask : s.tasks[n]? = some task)
    (hpoint : task.point = .reading now) : Turn a s (s.read n task now) := by
  unfold State.read
  split
  next hallowed =>
    cases now with
    | some now => exact .quiet (.passed htask hallowed)
    | none => exact .unclocked htask hpoint
  next => exact .quiet (.move (fun h => by cases h) (fun now h => by cases h))

end Quiet

section Runs

variable {D : Type} [NostrDatabase D] (urls : UrlCrate)

/-- **Every action is a turn**: it is quiet, a fetch without a clock, or a write. One case for each action. The call
    that resumes a task does nothing unless the task stands where the action says. -/
theorem step_turn (a : Action) (s : State D) : Turn a s (step urls s a) := by
  cases a with
  | refresh user kind discovery now =>
      refine .quiet ⟨rfl, fun _ _ => rfl, rfl, fun task h hpoint => ?_, fun task h now' hpoint => ?_⟩
      · rcases List.mem_append.mp h with hold | hnew
        · exact Or.inl hold
        · obtain rfl := List.mem_singleton.mp hnew
          split at hpoint
          · cases hpoint
          · cases hpoint
            exact Or.inr ⟨user, kind, discovery, rfl⟩
      · rcases List.mem_append.mp h with hold | hnew
        · exact Or.inl hold
        · obtain rfl := List.mem_singleton.mp hnew
          split at hpoint <;> cases hpoint
  | read n =>
      rw [step]
      refine .resume (fun task htask => ?_)
      split
      next now hpoint => exact .read htask hpoint
      next => exact .quiet .refl
  | write n =>
      rw [step]
      refine .resume (fun task htask => ?_)
      split
      next now hpoint => exact .wrote (recording_eq_some_iff.mpr ⟨htask, hpoint⟩)
      next => exact .quiet .refl
  | pulled n stream =>
      rw [step]
      refine .resume (fun task htask => ?_)
      split
      next => exact .quiet (.pulled n _ _)
      next => exact .quiet .refl
  | ingest n now =>
      rw [step]
      refine .resume (fun task htask => ?_)
      split
      next event hpoint =>
        have hmove : Quiet (.ingest n now) s (s.move n (.returned (.ok ()))) :=
          .move (fun h => by cases h) (fun now h => by cases h)
        exact .quiet (hmove.process (Inner.process_options none now)
          (Inner.process_fetchedAt urls s.inner none now))
      next => exact .quiet .refl
  | drop n =>
      rw [step]
      refine .resume (fun task htask => ?_)
      split
      next => exact .quiet .refl
      next => exact .quiet (.move (fun h => by cases h) (fun now h => by cases h))
  | process event sourceRelay now =>
      exact .quiet (Quiet.refl.process (Inner.process_options sourceRelay now)
        (Inner.process_fetchedAt urls s.inner sourceRelay now))

end Runs

/-! ## What the times know of the fetches -/

section Ledger

variable {D : Type} {a : Action} {s s' : State D}

/-- The two fetches recorded times that are `d` seconds apart. -/
def Fetch.Apart (d : Nat) (x y : Fetch) : Prop :=
  ∃ t u, x.now = some t ∧ y.now = some u ∧ (t.toNat + d ≤ u.toNat ∨ u.toNat + d ≤ t.toNat)

/-- Any two of the fetches of one list of one user are `d` seconds apart. -/
def Spaced (d : Nat) (fetches : List Fetch) : Prop :=
  fetches.Pairwise (fun x y => x.user = y.user → x.kind = y.kind → x.Apart d y)

/-- No two fetches of one list come closer than the interval. -/
def State.Debounced (s : State D) : Prop := Spaced s.inner.options.minFetchInterval s.fetches

/-- A task that records its time finds the check still passing. -/
def State.StillAllowed (s : State D) (a : Action) : Prop :=
  ∀ w ∈ s.recording a, s.inner.allowedToFetch w.1.user w.1.kind (some w.2) = true

/-- A task that records its time puts it over no later one. -/
def State.Forward (s : State D) (a : Action) : Prop :=
  ∀ w ∈ s.recording a, ∀ prev ∈ s.inner.fetchedAt w.1.user w.1.kind, prev ≤ w.2

instance : Decidable (s.StillAllowed a) := inferInstanceAs (Decidable (∀ w ∈ s.recording a, _))
instance : Decidable (s.Forward a) := inferInstanceAs (Decidable (∀ w ∈ s.recording a, _))

/-- No task got past a clock that does not work. -/
def State.Clocked (s : State D) : Prop := ∀ task ∈ s.tasks, task.point ≠ .reading none

/-- Every fetch recorded a time, and that of its list is no earlier one. -/
def State.Bounded (s : State D) : Prop :=
  ∀ f ∈ s.fetches, ∃ t m, f.now = some t ∧ s.inner.fetchedAt f.user f.kind = some m ∧
    (t.toNat ≤ m.toNat ∨ s.inner.options.minFetchInterval = 0)

/-- A task that passed the check would pass again, or the time of its list is that of a fetch. -/
def State.Grounded (s : State D) : Prop :=
  ∀ task ∈ s.tasks, ∀ now, task.point = .writing now →
    s.inner.allowedToFetch task.user task.kind (some now) = true ∨
      ∃ f ∈ s.fetches, f.user = task.user ∧ f.kind = task.kind ∧ f.now = s.inner.fetchedAt task.user task.kind

/-- A fetch is allowed when there was none before, or the interval is over. -/
theorem allowedToFetch_iff {inner : Inner D} {user : PublicKey} {kind : ListKind} {now : Timestamp} :
    inner.allowedToFetch user kind (some now) = true ↔
      ∀ prev, inner.fetchedAt user kind = some prev →
        inner.options.minFetchInterval ≤ now.toNat - prev.toNat := by
  unfold Inner.allowedToFetch
  cases inner.fetchedAt user kind with
  | none => simp
  | some prev => simp

/-- What fetches nothing leaves open what is allowed. -/
theorem Quiet.allowedToFetch (h : Quiet a s s') (user : PublicKey) (kind : ListKind) (now : Option Timestamp) :
    s'.inner.allowedToFetch user kind now = s.inner.allowedToFetch user kind now := by
  unfold Inner.allowedToFetch
  rw [h.fetchedAt, h.options]

theorem Quiet.debounced (h : Quiet a s s') : s'.Debounced ↔ s.Debounced := by
  rw [State.Debounced, State.Debounced, h.fetches, h.options]

theorem Quiet.bounded (h : Quiet a s s') (hs : s.Bounded) : s'.Bounded := by
  intro f hf
  rw [h.fetchedAt, h.options]
  rw [h.fetches] at hf
  exact hs f hf

theorem Quiet.grounded (h : Quiet a s s') (hs : s.Grounded) : s'.Grounded := by
  intro task htask now hpoint
  rw [h.allowedToFetch, h.fetchedAt, h.fetches]
  rcases h.writing task htask now hpoint with hold | hallowed
  · exact hs task hold now hpoint
  · exact Or.inl hallowed

theorem write_tasks {n : Nat} {task t : Task} {now : Timestamp} {p : Await}
    (h : t ∈ (s.write n task now).tasks) (hpoint : t.point = p) (hp : p ≠ .pulling) : t ∈ s.tasks := by
  rcases mem_move h with hold | ⟨old, -, rfl⟩
  · exact hold
  · exact absurd hpoint.symm hp

/-- The time of the list is now that of the task. -/
theorem write_fetchedAt {n : Nat} {task : Task} {now : Timestamp} (user : PublicKey) (kind : ListKind) :
    (s.write n task now).inner.fetchedAt user kind =
      if task.user = user ∧ task.kind = kind then some now else s.inner.fetchedAt user kind :=
  Inner.fetchedAt_bumpFetchedAt s.inner task.user user task.kind kind now

/-- Where the clock works, every time that is read is a reading. -/
theorem Turn.clocked (h : Turn a s s') (ha : ∀ user kind discovery, a ≠ .refresh user kind discovery none)
    (hs : s.Clocked) : s'.Clocked := by
  intro task htask hpoint
  cases h with
  | quiet h =>
      rcases h.reading task htask hpoint with hold | ⟨user, kind, discovery, rfl⟩
      · exact hs task hold hpoint
      · exact ha user kind discovery rfl
  | unclocked hother hreading => exact hs _ (List.mem_of_getElem? hother) hreading
  | wrote _ => exact hs task (write_tasks htask hpoint (fun h => by cases h)) hpoint

/-- Every turn keeps the record grounded: what it writes was read by a task that is allowed to fetch. -/
theorem Turn.grounded (h : Turn a s s') (hs : s.Grounded) : s'.Grounded := by
  cases h with
  | quiet h => exact h.grounded hs
  | @unclocked n task htask hpoint =>
      intro t ht now hwriting
      rcases mem_move ht with hold | ⟨old, -, rfl⟩
      · rcases hs t hold now hwriting with hallowed | ⟨f, hf, hsame⟩
        · exact Or.inl hallowed
        · exact Or.inr ⟨f, List.mem_append_left _ hf, hsame⟩
      · cases hwriting
  | @wrote n task now _ =>
      intro t ht now' hwriting
      have hold := write_tasks ht hwriting (fun h => by cases h)
      rw [allowedToFetch_iff, write_fetchedAt]
      by_cases hsame : task.user = t.user ∧ task.kind = t.kind
      · rw [if_pos hsame]
        exact Or.inr ⟨⟨task.user, task.kind, task.discovery, some now⟩,
          List.mem_append_right _ (List.mem_singleton_self _), hsame.1, hsame.2, rfl⟩
      · rw [if_neg hsame]
        rcases hs t hold now' hwriting with hallowed | ⟨f, hf, hother⟩
        · exact Or.inl (allowedToFetch_iff.mp hallowed)
        · exact Or.inr ⟨f, List.mem_append_left _ hf, hother⟩

/-- One more fetch: it must be apart from those of the same list. -/
theorem write_debounced {n : Nat} {task : Task} {now : Timestamp} (hs : s.Debounced) :
    (s.write n task now).Debounced ↔ ∀ f ∈ s.fetches, f.user = task.user → f.kind = task.kind →
      f.Apart s.inner.options.minFetchInterval ⟨task.user, task.kind, task.discovery, some now⟩ := by
  unfold State.Debounced Spaced State.write State.pull
  rw [List.pairwise_append]
  constructor
  · intro h f hf
    exact h.2.2 f hf _ (List.mem_singleton_self _)
  · intro h
    refine ⟨hs, List.pairwise_singleton _ _, fun f hf g hg => ?_⟩
    obtain rfl := List.mem_singleton.mp hg
    exact h f hf

/-- A task that would still pass records a time apart from the others, and the greatest. -/
theorem Turn.debounced (h : Turn a s s') (hclocked : s.Clocked) (hbounded : s.Bounded) (hs : s.Debounced)
    (hallowed : s.StillAllowed a) : s'.Debounced ∧ s'.Bounded := by
  cases h with
  | quiet h => exact ⟨h.debounced.mpr hs, h.bounded hbounded⟩
  | unclocked hother hreading => exact absurd hreading (hclocked _ (List.mem_of_getElem? hother))
  | @wrote n task now hrecording =>
      have hstill : s.inner.allowedToFetch task.user task.kind (some now) = true := hallowed _ hrecording
      have hpass := allowedToFetch_iff.mp hstill
      constructor
      · refine (write_debounced hs).mpr (fun f hf huser hkind => ?_)
        obtain ⟨t, m, ht, hm, hle⟩ := hbounded f hf
        rw [huser, hkind] at hm
        have hgap := hpass m hm
        exact ⟨t, now, ht, rfl, by omega⟩
      · intro f hf
        rw [write_fetchedAt]
        rcases List.mem_append.mp hf with hold | hnew
        · obtain ⟨t, m, ht, hm, hle⟩ := hbounded f hold
          by_cases hsame : task.user = f.user ∧ task.kind = f.kind
          · rw [← hsame.1, ← hsame.2] at hm
            have hgap := hpass m hm
            rw [if_pos hsame]
            refine ⟨t, now, ht, rfl, ?_⟩
            change t.toNat ≤ now.toNat ∨ s.inner.options.minFetchInterval = 0
            omega
          · rw [if_neg hsame]
            exact ⟨t, m, ht, hm, hle⟩
        · obtain rfl := List.mem_singleton.mp hnew
          exact ⟨now, now, rfl, if_pos ⟨rfl, rfl⟩, Or.inl le_rfl⟩

/-- A task that records a time apart from the others, and the greatest, would still pass. -/
theorem State.Grounded.stillAllowed {n : Nat} {task : Task} {now : Timestamp} (h : s.Grounded)
    (htask : s.tasks[n]? = some task) (hpoint : task.point = .writing now)
    (hforward : ∀ prev, s.inner.fetchedAt task.user task.kind = some prev → prev ≤ now) (hs : s.Debounced)
    (hs' : (s.write n task now).Debounced) : s.inner.allowedToFetch task.user task.kind (some now) = true := by
  rcases h task (List.mem_of_getElem? htask) now hpoint with hallowed | ⟨f, hf, huser, hkind, hlatest⟩
  · exact hallowed
  · refine allowedToFetch_iff.mpr (fun prev hprev => ?_)
    obtain ⟨t, u, ht, hu, hapart⟩ := (write_debounced hs).mp hs' f hf huser hkind
    obtain rfl : t = prev := Option.some.inj (ht.symm.trans (hlatest.trans hprev))
    obtain rfl : now = u := Option.some.inj hu
    have hle : t.toNat ≤ now.toNat := hforward t hprev
    omega

end Ledger

/-! ## Runs -/

section Always

variable {D : Type} [NostrDatabase D] (urls : UrlCrate) (inner : Inner D)

/-- The clock works when a call of `refresh` reads it. -/
def Action.clockWorks : Action → Bool
  | .refresh _ _ _ now => now.isSome
  | _ => true

/-- Every time on record is one of a fetch, in every run. -/
theorem grounded_run (actions : List Action) : (run urls inner actions).Grounded := by
  induction actions using List.reverseRecOn with
  | nil => exact fun task h => by cases h
  | append_singleton actions a ih =>
      rw [run_append_singleton]
      exact (step_turn urls a _).grounded ih

/-- Where the clock works all along, every fetch has a time. -/
theorem clocked_run (actions : List Action) (h : ∀ a ∈ actions, a.clockWorks = true) :
    (run urls inner actions).Clocked := by
  induction actions using List.reverseRecOn with
  | nil => exact fun task h => by cases h
  | append_singleton actions a ih =>
      rw [List.forall_mem_append, List.forall_mem_singleton] at h
      rw [run_append_singleton]
      refine (step_turn urls a _).clocked (fun user kind discovery ha => ?_) (ih h.1)
      rw [ha] at h
      cases h.2

theorem options_run (actions : List Action) : (run urls inner actions).inner.options = inner.options := by
  induction actions using List.reverseRecOn with
  | nil => rfl
  | append_singleton actions a ih =>
      rw [run_append_singleton, ← ih]
      generalize run urls inner actions = s
      have h := step_turn urls a s
      generalize step urls s a = s' at h
      cases h with
      | quiet h => exact h.options
      | unclocked _ _ => rfl
      | wrote _ => rfl

/-- The fetches are apart exactly if the run is debounced. -/
theorem spaced_iff (actions : List Action) :
    Spaced inner.options.minFetchInterval (run urls inner actions).fetches ↔ (run urls inner actions).Debounced := by
  rw [State.Debounced, options_run]

/-- Where each task would pass again, the runs with a working clock are debounced, and each time bounds those of
    its fetches. -/
theorem debounced_of_stillAllowed (actions : List Action)
    (h : EachStep (fun past => (run urls inner past).StillAllowed) actions) :
    Always (fun past => (∀ a ∈ past, a.clockWorks = true) →
      (run urls inner past).Debounced ∧ (run urls inner past).Bounded) actions := by
  refine Always.of_eachStep (I := fun _ => True) (fun _ => trivial) ?_ ?_ h
  · exact fun _ => ⟨List.Pairwise.nil, fun f hf => by cases hf⟩
  · intro past a _ hpast hallowed hclock
    have hclock' := (List.forall_mem_append.mp hclock).1
    obtain ⟨hdebounced, hbounded⟩ := hpast hclock'
    rw [run_append_singleton]
    exact (step_turn urls a _).debounced (clocked_run urls inner past hclock') hbounded hdebounced hallowed

/-- **How far apart the fetches are.** With a working clock any two fetches of one list record times
    `min_fetch_interval` apart, in every run where each task that records its time would at that moment pass the
    check again; and where no task records a time over a later one, in no other run.

    A fetch is counted where its time is written. If the check would still pass there, the new time is apart from
    the last, which is the latest on record; so debouncing is an invariant (`debounced_of_stillAllowed`), and where
    times only go forward a write that the check would refuse breaks it. -/
theorem debounced_iff (actions : List Action) (hclock : ∀ a ∈ actions, a.clockWorks = true) :
    (EachStep (fun past => (run urls inner past).StillAllowed) actions →
      Always (fun past => Spaced inner.options.minFetchInterval (run urls inner past).fetches) actions) ∧
    (EachStep (fun past => (run urls inner past).Forward) actions →
      (Always (fun past => Spaced inner.options.minFetchInterval (run urls inner past).fetches) actions ↔
        EachStep (fun past => (run urls inner past).StillAllowed) actions)) := by
  have henough : EachStep (fun past => (run urls inner past).StillAllowed) actions →
      Always (fun past => Spaced inner.options.minFetchInterval (run urls inner past).fetches) actions := by
    intro h k
    have hclock' : ∀ a ∈ actions.take k, a.clockWorks = true := fun a ha => hclock a (List.mem_of_mem_take ha)
    exact (spaced_iff urls inner _).mpr (debounced_of_stillAllowed urls inner actions h k hclock').1
  refine ⟨henough, fun hforward => ⟨fun h k a ha => ?_, henough⟩⟩
  cases a with
  | write n =>
      rintro ⟨task, now⟩ hrecording
      obtain ⟨htask, hpoint⟩ := recording_eq_some_iff.mp hrecording
      have hbefore := (spaced_iff urls inner _).mp (h k)
      have hafter := (spaced_iff urls inner _).mp (h (k + 1))
      have hwrite : step urls (run urls inner (actions.take k)) (.write n) =
          (run urls inner (actions.take k)).write n task now := by
        rw [step, State.resume, htask]
        simp only [hpoint]
      rw [List.take_add_one, ha, Option.toList_some, run_append_singleton, hwrite] at hafter
      exact (grounded_run urls inner _).stillAllowed htask hpoint (hforward k _ ha (task, now) hrecording) hbefore
        hafter
  | _ => exact fun w hw => by cases hw

namespace Sample

open Nula.Sample

/-- A router that has fetched nothing. -/
def router : Inner MemoryStore := Inner.new .default (MemoryStore.new .default)

/-- A call for alice's relay list. -/
def fetch (now : Timestamp) : Action := .refresh alice .nip65 [one] (some now)

/-- Two calls half a minute apart. -/
def inTurn : List Action := [fetch 100, .read 0, .write 0, fetch 130, .read 1, .write 1]

/-- Two calls that check before either records its time. -/
def together : List Action := [fetch 100, fetch 100, .read 0, .read 1, .write 0, .write 1]

end Sample

theorem debounced_inTurn :
    Always (fun past => Spaced 30 (run Sample.urlCrate Sample.router past).fetches) Sample.inTurn ∧
      (run Sample.urlCrate Sample.router Sample.inTurn).fetches.length = 2 :=
  ⟨(debounced_iff Sample.urlCrate Sample.router Sample.inTurn (by decide)).1 (by decide +kernel), by decide +kernel⟩

/-- Of two calls that run at once both contact the relays. -/
theorem fetched_twice :
    (∀ a ∈ Sample.together, a.clockWorks = true) ∧ ¬ Always (fun past => Spaced Sample.router.options.minFetchInterval
      (run Sample.urlCrate Sample.router past).fetches) Sample.together := by
  refine ⟨by decide, fun h => ?_⟩
  have hfetches : (run Sample.urlCrate Sample.router Sample.together).fetches =
      [⟨Nula.Sample.alice, .nip65, [Sample.one], some 100⟩, ⟨Nula.Sample.alice, .nip65, [Sample.one], some 100⟩] := by
    decide +kernel
  have hspaced := h.last
  rw [hfetches] at hspaced
  obtain ⟨t, u, ht, hu, hapart⟩ := List.rel_of_pairwise_cons hspaced List.mem_cons_self rfl rfl
  cases ht
  cases hu
  revert hapart
  decide

end Always

end Nula.Gossip
