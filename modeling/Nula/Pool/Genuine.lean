import Nula.Lib.Always
import Nula.Pool.Stream

/-!
# `Pool.Genuine` — a genuine event reaches the consumer, unless its id was taken

The driver drops an event for its id alone, before anyone has verified it. So while the receiver stays and no
deadline is set, a genuine event is sent when it first arrives exactly when its id is not among the last ids
that arrived before it, whatever events those ids came with (`genuine_sent_iff`).

The interleaving is a parameter: `merge` says what a sequence of ready workers yields, and knows nothing of the
driver.
-/

namespace Nula.Pool

/-- The workers left and the events read once these workers were ready one after the other. -/
def pull (m : List Worker × List Event) (i : Nat) : List Worker × List Event :=
  match poll i m.1 with
  | none => m
  | some (arrival, workers) => (workers, m.2 ++ arrival.event.toList)

/-- What the merged streams yield, one pick after the other. -/
def merge (workers : List Worker) (picks : List Nat) : List Worker × List Event :=
  picks.foldl pull (workers, [])

/-- The event of the next item, if it has one. -/
def nextEvent (i : Nat) (workers : List Worker) : Option Event :=
  (poll i workers).bind (fun next => next.1.event)

theorem merge_append_singleton (workers : List Worker) (picks : List Nat) (i : Nat) :
    merge workers (picks ++ [i]) = pull (merge workers picks) i := by
  rw [merge, merge, List.foldl_append]
  rfl

/-- A pull yields the next event of its worker, if it has one. -/
theorem pull_events (m : List Worker × List Event) (i : Nat) :
    (pull m i).2 = m.2 ++ (nextEvent i m.1).toList := by
  rw [pull, nextEvent]
  cases h : poll i m.1 with
  | none => exact (List.append_nil _).symm
  | some next => rfl

/-- Nothing is left to poll once every worker has ended. -/
theorem poll_eq_none {workers : List Worker} (h : workers.all (fun worker => worker.items.isEmpty) = true)
    (i : Nat) : poll i workers = none := by
  rw [poll]
  split
  · rename_i hget
    have := List.all_eq_true.mp h _ (List.mem_of_getElem? hget)
    cases this
  · rfl

/-- A worker that was ready, and what storage answered then. -/
abbrev Pick := Nat × (Event → Except String SaveEventStatus)

namespace Driver

variable {lru : Lru EventId}

/-- A run under a receiver that stays, without a deadline. -/
def keptOpen (options : StreamOptions) (workers : List Worker) (picks : List Pick) : Driver lru :=
  run options workers (picks.map (fun pick => (.next pick.1, ⟨true, pick.2⟩)))

variable {options : StreamOptions} {workers : List Worker}

theorem keptOpen_append_singleton (past : List Pick) (pick : Pick) :
    (keptOpen options workers (past ++ [pick]) : Driver lru) =
      (keptOpen options workers past).step options (.next pick.1, ⟨true, pick.2⟩) := by
  rw [keptOpen, keptOpen, List.map_append, List.map_singleton, run_append_singleton]

/-- The driver follows the interleaving: it is open until every worker has ended. -/
structure Follows (d : Driver lru) (m : List Worker × List Event) : Prop where
  workers : d.workers = m.1
  taken : d.takenEvents = m.2
  going : d.isOpen = true ∨ d.workers.all (fun worker => worker.items.isEmpty) = true

/-- A driver that follows the merge takes up what the merge yields. -/
theorem Follows.delivery {d : Driver lru} {m : List Worker × List Event} (h : Follows d m) (pick : Pick) :
    d.delivery (.next pick.1, ⟨true, pick.2⟩) = nextEvent pick.1 m.1 := by
  rw [Driver.delivery, arriving, nextEvent, ← h.workers]
  rcases h.going with hopen | hended
  · simp only [if_pos hopen]
    cases poll pick.1 d.workers <;> rfl
  · simp only [poll_eq_none hended, Option.map_none, ite_self]
    rfl

/-- **It goes on following it**: whatever it does with an event, its workers have moved on as the merge's have. Two
    cases, as the worker that is picked has an item or not; with an item left, the loop cannot have ended. -/
theorem Follows.step {d : Driver lru} {m : List Worker × List Event} (h : Follows d m) (pick : Pick) :
    Follows (d.step options (.next pick.1, ⟨true, pick.2⟩)) (pull m pick.1) := by
  have htaken : (d.step options (.next pick.1, ⟨true, pick.2⟩)).takenEvents = (pull m pick.1).2 := by
    rw [takenEvents_step, h.delivery, h.taken, pull_events]
  cases hpoll : poll pick.1 d.workers with
  | none =>
      -- nothing is read; the loop may find out that every worker has ended
      have hpull : pull m pick.1 = m := by
        rw [pull, ← h.workers, hpoll]
      rw [hpull] at htaken ⊢
      by_cases hopen : d.isOpen = true
      · rw [Driver.step, if_pos hopen] at htaken ⊢
        simp only [wake, hpoll] at htaken ⊢
        split
        · rename_i hended
          exact ⟨h.workers, h.taken, Or.inr hended⟩
        · exact h
      · rw [Driver.step, if_neg hopen]
        exact h
  | some next =>
      obtain ⟨arrival, left⟩ := next
      -- a worker with an item left keeps the loop going
      have hopen : d.isOpen = true := by
        rcases h.going with hopen | hended
        · exact hopen
        · rw [poll_eq_none hended] at hpoll
          cases hpoll
      have hpull : (pull m pick.1).1 = left := by
        rw [pull, ← h.workers, hpoll]
      obtain ⟨hgo, hworkers, hstill⟩ := forward_open options ⟨true, pick.2⟩ rfl
        (({ d with workers := left }).emit (.received arrival)) arrival
      have hstep : d.step options (.next pick.1, ⟨true, pick.2⟩) =
          ((({ d with workers := left }).emit (.received arrival)).forward options ⟨true, pick.2⟩ arrival).2 := by
        rw [Driver.step, if_pos hopen]
        simp only [wake, hpoll]
        rw [← Prod.eta (forward _ _ _ _), hgo]
        rfl
      exact ⟨by rw [hstep, hworkers, hpull]; rfl, htaken, Or.inl (by rw [hstep, hstill]; exact hopen)⟩

theorem follows_keptOpen (lru : Lru EventId) (options : StreamOptions) (workers : List Worker)
    (picks : List Pick) :
    Follows (keptOpen options workers picks : Driver lru) (merge workers (picks.map Prod.fst)) := by
  induction picks using List.reverseRecOn with
  | nil => exact ⟨rfl, rfl, Or.inl rfl⟩
  | append_singleton past pick ih =>
      rw [keptOpen_append_singleton, List.map_append, List.map_singleton, merge_append_singleton]
      exact ih.step pick

/-- Of what it reads the driver sends the events that are not in the cache. -/
theorem deliveredEvents_keptOpen (past : List Pick) (pick : Pick) (event : Event) :
    event ∈ (keptOpen options workers (past ++ [pick]) : Driver lru).deliveredEvents ↔
      event ∈ (keptOpen options workers past : Driver lru).deliveredEvents ∨
        nextEvent pick.1 (merge workers (past.map Prod.fst)).1 = some event ∧
          event.id ∉ (Lru.latest ((merge workers (past.map Prod.fst)).2.map Event.id)).take
            options.dedupCapacity := by
  have hfollows := follows_keptOpen lru options workers past
  rw [keptOpen_append_singleton, deliveredEvents_step, if_pos rfl, List.mem_append, Option.mem_toList,
    fresh_eq_some_iff, hfollows.delivery, keptOpen, recent_run, ← keptOpen, hfollows.taken]

end Driver

theorem mem_merge_append_singleton {workers : List Worker} {past : List Pick} {pick : Pick} {event : Event} :
    event ∈ (merge workers ((past ++ [pick]).map Prod.fst)).2 ↔
      event ∈ (merge workers (past.map Prod.fst)).2 ∨
        nextEvent pick.1 (merge workers (past.map Prod.fst)).1 = some event := by
  rw [List.map_append, List.map_singleton, merge_append_singleton, pull_events, List.mem_append,
    Option.mem_toList]

/-- Every genuine event read so far has been sent as it is. -/
def GenuineSent (crypto : Crypto) (lru : Lru EventId) (options : StreamOptions) (workers : List Worker)
    (past : List Pick) : Prop :=
  ∀ event ∈ (merge workers (past.map Prod.fst)).2, event.verify crypto = .ok () →
    event ∈ (Driver.keptOpen options workers past : Driver lru).deliveredEvents

/-- The id of a genuine event that arrives for the first time is not among the last ones that arrived. -/
def IdUntaken (crypto : Crypto) (options : StreamOptions) (workers : List Worker) (past : List Pick)
    (pick : Pick) : Prop :=
  ∀ event, nextEvent pick.1 (merge workers (past.map Prod.fst)).1 = some event → event.verify crypto = .ok () →
    event ∉ (merge workers (past.map Prod.fst)).2 →
      event.id ∉ (Lru.latest ((merge workers (past.map Prod.fst)).2.map Event.id)).take options.dedupCapacity

/-- **A genuine event is sent, unless its id was taken.** After every step of an interleaving, each genuine
    event read so far has been sent, exactly when each of them first arrived with an id that was not among the
    last `dedupCapacity` distinct ids read before it.

    The driver follows the merge of its streams (`follows_keptOpen`). An event that is new to the merge is sent in
    this step or never, so the step condition is that its id is fresh. -/
theorem genuine_sent_iff (crypto : Crypto) (lru : Lru EventId) (options : StreamOptions) (workers : List Worker)
    (picks : List Pick) :
    Always (GenuineSent crypto lru options workers) picks ↔
      EachStep (IdUntaken crypto options workers) picks := by
  refine always_iff_eachStep (I := fun _ => True) (fun _ => trivial) ?_ ?_
  · intro event hevent
    cases hevent
  · intro past pick _ hpast
    have hread : (Driver.keptOpen options workers past : Driver lru).deliveredEvents ⊆
        (merge workers (past.map Prod.fst)).2 := by
      rw [← (Driver.follows_keptOpen lru options workers past).taken]
      exact Driver.delivered_subset_taken workers _
    constructor
    · -- an event that is new has not been sent yet, so it is sent now
      intro hafter event hnext hgenuine hnew
      have hsent := hafter event (mem_merge_append_singleton.mpr (Or.inr hnext)) hgenuine
      rcases (Driver.deliveredEvents_keptOpen past pick event).mp hsent with hold | ⟨_, huntaken⟩
      · exact absurd (hread hold) hnew
      · exact huntaken
    · intro huntaken event hevent hgenuine
      apply (Driver.deliveredEvents_keptOpen past pick event).mpr
      by_cases hold : event ∈ (merge workers (past.map Prod.fst)).2
      · -- read before, and by assumption sent then
        exact Or.inl (hpast event hold hgenuine)
      · have hnext := (mem_merge_append_singleton.mp hevent).resolve_left hold
        exact Or.inr ⟨hnext, huntaken event hnext hgenuine hold⟩

/-- A relay's frame with `Sample.genuine` or a copy of it. -/
def eventText (content : String) : String := "[\"EVENT\",\"a\"," ++ Sample.noteText content ++ "]"

/-- The default options; the two frames are understood. -/
def noteCtx : Relay.StaticCtx where
  options := .default
  parse text :=
    if text = eventText "genuine" then some (.event Sample.subscription Sample.genuine)
    else if text = eventText "forged" then some (.event Sample.subscription Sample.forged)
    else none

/-- The actor of a relay that answers a subscription with such a frame. -/
def relayAnswering (content : String) : Relay.Actor :=
  .run noteCtx
    [(.command .connect, Sample.calm),
      (.command (.subscribe Sample.subscription [Sample.everything] .new), Sample.calm),
      (.inbound (some (.ok (.text (eventText content)))), Sample.calm)]

/-- Two relays under one subscription; the first sends the copy, the second the note itself. -/
def forgedFirst : List Worker :=
  [.ofActor ⟨⟨"wss://one.example/"⟩⟩ Sample.subscription 1 (relayAnswering "forged"),
    .ofActor ⟨⟨"wss://two.example/"⟩⟩ Sample.subscription 1 (relayAnswering "genuine")]

/-- The consumer gets the copy, and never the note. -/
theorem forgedFirst_suppresses :
    ¬Always (GenuineSent Sample.crypto .ofList .default forgedFirst)
      [(0, fun _ => .ok .success), (1, fun _ => .ok .success)] := by
  intro h
  have hsent := h.last Sample.genuine (by decide +kernel) (by decide +kernel)
  revert hsent
  decide +kernel

end Nula.Pool
