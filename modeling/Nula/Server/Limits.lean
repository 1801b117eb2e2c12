import Nula.Server.Broadcast
import Nula.Server.Replies
import Nula.Storage.Reads

/-!
# `Server.Limits` — how much one read can ask of storage

`max_filter_limit` is documented as a clamp on every `REQ` and NIP-77 filter. `handle_req` applies it behind the
query policy (`apply_filter_limits`); `handle_neg_open` calls the policy too and goes on to storage without it.
So reads stay within the limit exactly as long as the filter of every `NEG-OPEN` already does, as the policy
leaves it (`reads_within_iff`).

How many events come back is storage's part. Both backends keep to a filter's limit, except that the in-memory
store answers a lookup of one coordinate with its event even where the limit is 0 (`HonoursLimits`).
-/

namespace Nula

/-- The limit is present and at most `m`. -/
def Filter.Within (m : Nat) (filter : Filter) : Prop := ∃ limit, filter.limit = some limit ∧ limit ≤ m

namespace Server

open Std

variable {N : Negentropy}

/-- The filter an effect hands to `query` or `negentropy_items`. -/
def Effect.read : Effect → Option Filter
  | .queried filter => some filter
  | .listed filter => some filter
  | _ => none

/-- The subscription and the event of an `EVENT` frame. -/
def eventFrame : RelayMessage → Option (SubscriptionId × Event)
  | .event id event => some (id, event)
  | _ => none

/-- Storage answers with no more than the limit asks for; one coordinate is always answered. -/
structure Env.HonoursLimits (env : Env) : Prop where
  query : ∀ n filter limit events, filter.limit = some limit → env.query n filter = .ok events →
    events.length ≤ max limit 1
  negentropyItems : ∀ filter limit items, filter.limit = some limit → env.negentropyItems filter = .ok items →
    items.length ≤ max limit 1

/-! ## The backends -/

/-- A query answers with as many events at most as its limit, and one where the limit is zero. -/
theorem length_materialise {f : Filter} {limit : Nat} (h : f.limit = some limit) (events : List Event) :
    (MemoryStore.materialise f events).length ≤ max limit 1 := by
  rw [MemoryStore.materialise, List.length_map, h, takeLimit, List.length_take]
  omega

/-- The in-memory store honours limits, whatever it holds. -/
theorem memory_honours (s : MemoryStore) {f : Filter} {limit : Nat} (h : f.limit = some limit) :
    (s.queryOwned f).length ≤ max limit 1 ∧ (s.negentropyItems f).length ≤ max limit 1 := by
  have hkeys : (s.queryKeys f).length ≤ max limit 1 := by
    unfold MemoryStore.queryKeys
    split
    · exact length_materialise h _
    · split
      · exact length_materialise h _
      · exact Nat.zero_le _
    · split
      · exact length_materialise h _
      · exact Nat.zero_le _
    · split
      · split
        · exact le_max_right _ _
        · exact Nat.zero_le _
      · exact Nat.zero_le _
  have hquery : (s.queryOwned f).length ≤ max limit 1 := (List.length_filterMap_le _ _).trans hkeys
  refine ⟨hquery, ?_⟩
  rwa [MemoryStore.negentropyItems, List.length_map]

/-- Every redb store that was filled through its interface honours limits. -/
theorem redb_honours (pc : Postcard) (o : RedbDatabaseOptions) (ops : List StoreOp) {f : Filter} {limit : Nat}
    (h : f.limit = some limit) : ∃ t events items, Redb.run pc o ops = .ok t ∧
      Redb.databaseQuery pc t f = .ok events ∧ events.length ≤ max limit 1 ∧
      Redb.negentropyItems pc t f = .ok items ∧ items.length ≤ max limit 1 := by
  obtain ⟨t, hrun, hrep⟩ := Redb.run_rep pc o ops
  obtain ⟨found, hquery, _⟩ := hrep.query f
  obtain ⟨found', hquery', _, hitems, _⟩ := hrep.reads f
  obtain rfl : found' = takeLimit f.limit found := Except.ok.inj (hquery'.symm.trans hquery)
  have hlength : (takeLimit f.limit found).length ≤ max limit 1 := by
    rw [h, takeLimit, List.length_take]
    omega
  refine ⟨t, Events.fromUnsorted (takeLimit f.limit found), (takeLimit f.limit found).map Event.negentropyItem, hrun,
    by rw [Redb.databaseQuery, hquery]; rfl, ?_, hitems, by rwa [List.length_map]⟩
  rw [Events.fromUnsorted, List.length_insertionSort]
  exact (Events.dedupIds_sublist _ _).length_le.trans hlength

/-- A filter within a positive maximum is answered within it. -/
theorem Env.HonoursLimits.query_le {env : Env} (h : env.HonoursLimits) {m n : Nat} {f : Filter}
    {events : List Event} (hm : 0 < m) (hf : f.Within m) (hquery : env.query n f = .ok events) :
    events.length ≤ m := by
  obtain ⟨limit, hlimit, hle⟩ := hf
  have hlength := h.query n f limit events hlimit hquery
  omega

/-- A session is begun over as many items at most as its clamped filter allows. -/
theorem Env.HonoursLimits.items_le {env : Env} (h : env.HonoursLimits) {m : Nat} {f : Filter}
    {items : List (EventId × Timestamp)} (hm : 0 < m) (hf : f.Within m)
    (hitems : env.negentropyItems f = .ok items) : items.length ≤ m := by
  obtain ⟨limit, hlimit, hle⟩ := hf
  have hlength := h.negentropyItems f limit items hlimit hitems
  omega

namespace Connection

variable {c c' c'' : Connection N} {ctx : ConnectionContext} {env : Env} {m : Nat}

/-! ## The clamp -/

/-- What `apply_filter_limits` leaves has a limit, and it is at most the maximum. -/
theorem within_applyFilterLimits (filter : Filter) (default : Option Nat) :
    (applyFilterLimits filter default (some m)).Within m := by
  unfold applyFilterLimits Filter.Within
  dsimp only
  refine ⟨_, rfl, ?_⟩
  cases (if filter.limit = none then default else filter.limit) with
  | none => exact le_rfl
  | some limit => exact min_le_right limit m

/-- Every admitted filter of a `REQ` is clamped, and there are as many as there were. -/
theorem admitFilters_within (hmax : ctx.maxFilterLimit = some m) {n : Nat} {filters admitted : List Filter}
    (h : admitFilters ctx env n filters = .ok admitted) :
    admitted.length = filters.length ∧ ∀ f ∈ admitted, f.Within m := by
  induction filters generalizing n admitted with
  | nil =>
      cases h
      exact ⟨rfl, fun f hf => absurd hf List.not_mem_nil⟩
  | cons filter filters ih =>
      rw [admitFilters] at h
      split at h
      · cases h
      · cases hrest : admitFilters ctx env (n + 1) filters with
        | error refusal =>
            rw [hrest] at h
            cases h
        | ok rest =>
            rw [hrest] at h
            cases h
            obtain ⟨hlength, hwithin⟩ := ih hrest
            refine ⟨congrArg (· + 1) hlength, ?_⟩
            intro f hf
            rcases List.mem_cons.mp hf with rfl | hf
            · rw [hmax]
              exact within_applyFilterLimits _ _
            · exact hwithin f hf

/-! ## How many events go out -/

/-- From `c` to `c'` at most `k` `EVENT` frames were written. -/
def SendsAtMost (k : Nat) (c c' : Connection N) : Prop :=
  ∃ ms, Writes c c' ms ∧ (ms.filterMap eventFrame).length ≤ k

namespace SendsAtMost

variable {k k' : Nat}

theorem same (hturn : c'.turn = c.turn) (hlog : c'.log = c.log) : SendsAtMost 0 c c' :=
  ⟨[], .same hturn hlog, le_rfl⟩

theorem trans (h : SendsAtMost k c c') (h' : SendsAtMost k' c' c'') : SendsAtMost (k + k') c c'' := by
  obtain ⟨ms, hwrites, hk⟩ := h
  obtain ⟨ms', hwrites', hk'⟩ := h'
  refine ⟨ms ++ ms', hwrites.trans hwrites', ?_⟩
  rw [List.filterMap_append, List.length_append]
  omega

theorem mono (h : SendsAtMost k c c') (hk : k ≤ k') : SendsAtMost k' c c' := by
  obtain ⟨ms, hwrites, hlength⟩ := h
  exact ⟨ms, hwrites, hlength.trans hk⟩

theorem bind {f : Flow N} {g : Connection N → Flow N} (hf : SendsAtMost k c f.left)
    (hg : ∀ d, SendsAtMost k' d (g d).left) : SendsAtMost (k + k') c (Flow.left (f >>= g)) := by
  cases f with
  | error d => exact mono hf (Nat.le_add_right k k')
  | ok d => exact trans hf (hg d)

/-- A frame that is no `EVENT`. -/
theorem send {message : RelayMessage} (h : eventFrame message = none) :
    SendsAtMost 0 c (c.send env message).left := by
  rcases send_cases env message c with ⟨_, d, hsend, hwrites, _⟩ | ⟨_, d, hsend, hwrites⟩
  · rw [hsend]
    refine ⟨_, hwrites, ?_⟩
    rw [List.filterMap_cons_none h]
    exact le_rfl
  · rw [hsend]
    exact ⟨_, hwrites, le_rfl⟩

theorem sendAll (ms : List RelayMessage) : SendsAtMost ms.length c (c.sendAll env ms).left := by
  rcases sendAll_cases env ms c with ⟨_, d, hsend, hwrites, _⟩ | ⟨j, _, _, _, d, hsend, hwrites⟩
  · rw [hsend]
    exact ⟨_, hwrites, List.length_filterMap_le _ _⟩
  · rw [hsend]
    refine ⟨_, hwrites, (List.length_filterMap_le _ _).trans ?_⟩
    rw [List.length_take]
    exact min_le_right j ms.length

end SendsAtMost

/-- Where no query is answered with more than `m` events, so many filters send at most so many times `m`. -/
theorem streamStored_sendsAtMost {id : SubscriptionId} {all filters : List Filter} {n : Nat}
    (h : ∀ f ∈ filters, ∀ k events, env.query k f = .ok events → events.length ≤ m) :
    SendsAtMost (filters.length * m) c (c.streamStored env id all n filters).left := by
  induction filters generalizing n c with
  | nil =>
      rw [List.length_nil, Nat.zero_mul]
      have heose : SendsAtMost 0 c (c.send env (.endOfStoredEvents id)).left := .send rfl
      show SendsAtMost (0 + 0) c (Flow.left (c.send env (.endOfStoredEvents id) >>= fun c =>
        .ok { c with subscriptions := c.subscriptions.insert id all }))
      exact SendsAtMost.bind heose (fun d => .same rfl rfl)
  | cons filter filters ih =>
      rw [streamStored, List.length_cons, Nat.succ_mul, Nat.add_comm]
      have hquery : SendsAtMost 0 c (c.emit (.queried filter)) := ⟨[], .emit, le_rfl⟩
      refine (hquery.trans ?_).mono (Nat.zero_add _).le
      cases hevents : env.query n filter with
      | error text => exact (SendsAtMost.send rfl).mono (Nat.zero_le _)
      | ok events =>
          apply SendsAtMost.bind
          · refine (SendsAtMost.sendAll _).mono ?_
            rw [List.length_map]
            exact h filter List.mem_cons_self n events hevents
          · intro d
            exact ih (fun f hf => h f (List.mem_cons_of_mem _ hf))

/-- **A `REQ` sends at most the sum of its admitted limits**, as each query stays within its own. -/
theorem handleReq_sendsAtMost {id : SubscriptionId} {filters : List Filter} (hstored : ctx.sendRandomEvents = none)
    (h : ∀ admitted, admitFilters ctx env 0 filters = .ok admitted → admitted.length = filters.length ∧
      ∀ f ∈ admitted, ∀ k events, env.query k f = .ok events → events.length ≤ m) :
    SendsAtMost (filters.length * m) c (c.handleReq ctx env id filters).left := by
  have hclosed : ∀ why, SendsAtMost (filters.length * m) c (c.send env (.closed id why)).left := fun why =>
    (SendsAtMost.send rfl).mono (Nat.zero_le _)
  rw [handleReq, hstored]
  split
  · exact hclosed _
  split
  · exact hclosed _
  dsimp only
  split
  · exact hclosed _
  split
  · exact hclosed _
  · rename_i admitted hadmitted
    obtain ⟨hlength, hqueries⟩ := h admitted hadmitted
    rw [← hlength]
    exact streamStored_sendsAtMost hqueries

theorem Adds.writes {P : Effect → Prop} (h : Adds P c c') : ∃ ms, Writes c c' ms := by
  obtain ⟨fx, hlog, _⟩ := h.log
  exact ⟨_, h.turn, fx, hlog, rfl⟩

/-- A `REQ` whose first stored event the sink takes writes an `EVENT`. By induction on the filters: the first event is
    one of this filter's answer, or of a later one's if that is empty. -/
theorem streamStored_streams {id : SubscriptionId} {all filters : List Filter} {n : Nat}
    (h : Streams env c.attempts (queryAnswers env n filters)) :
    ∃ ms, Writes c (c.streamStored env id all n filters).left ms ∧ ms.filterMap eventFrame ≠ [] := by
  induction filters generalizing n c with
  | nil =>
      obtain ⟨pre, post, hanswers, hne, _⟩ := h
      rw [queryAnswers] at hanswers
      have hpre : pre = [] := by
        cases pre with
        | nil => rfl
        | cons events pre => cases hanswers
      rw [hpre] at hne
      exact absurd rfl hne
  | cons filter filters ih =>
      obtain ⟨pre, post, hanswers, hne, haccepts⟩ := h
      rw [queryAnswers] at hanswers
      cases pre with
      | nil => exact absurd rfl hne
      | cons events pre =>
          rw [List.map_cons, List.cons_append, List.cons.injEq] at hanswers
          obtain ⟨hquery, hrest⟩ := hanswers
          rw [streamStored, hquery]
          have hqueried : Writes c (c.emit (.queried filter)) [] := .emit
          cases events with
          | nil =>
              -- nothing for this filter: the first event is a later one's
              rw [List.flatten_cons, List.nil_append] at hne
              have hstreams : Streams env (c.emit (.queried filter)).attempts (queryAnswers env (n + 1) filters) :=
                ⟨pre, post, hrest, hne, haccepts⟩
              obtain ⟨ms, hwrites, hevents⟩ := ih hstreams
              exact ⟨ms, hqueried.trans hwrites, hevents⟩
          | cons event events =>
              dsimp only
              rw [List.map_cons, sendAll, List.foldlM_cons, bind_assoc]
              rcases send_cases env (.event id event) (c.emit (.queried filter)) with
                ⟨_, d, hsend, hwrites, _⟩ | ⟨hrefuses, _⟩
              · rw [hsend]
                have hrest : Adds (fun _ => True) d (Flow.left (d.sendAll env (events.map (.event id)) >>= fun c =>
                    c.streamStored env id all (n + 1) filters)) :=
                  .bind (AllFrames.sendAll (fun _ => ⟨trivial, trivial⟩) _)
                    (fun _ _ => streamStored_adds (fun _ => ⟨trivial, trivial⟩) (fun _ _ => trivial))
                obtain ⟨ms, hmore⟩ := hrest.writes
                exact ⟨RelayMessage.event id event :: ms, hqueried.trans (hwrites.trans hmore), List.cons_ne_nil _ _⟩
              · rw [show env.refuses (c.emit (.queried filter)).attempts = false from haccepts] at hrefuses
                cases hrefuses

/-! ## Wakeups -/

/-- The stored events a wakeup sends. -/
def eventsAdded (c c' : Connection N) : List (SubscriptionId × Event) :=
  ((c.added c').filterMap Effect.message).filterMap eventFrame

theorem Writes.eventsAdded {ms : List RelayMessage} (h : Writes c c' ms) :
    c.eventsAdded c' = ms.filterMap eventFrame := by
  obtain ⟨fx, hlog, rfl⟩ := h.log
  rw [Connection.eventsAdded, added_of_log hlog]

/-- What a wakeup hands to storage: the clamped filters of a `REQ`, the filter of a `NEG-OPEN`. Only a `REQ` and a
    `NEG-OPEN` read from storage, and each query is one of theirs. -/
theorem step_reads (hmax : ctx.maxFilterLimit = some m) (c : Connection N) (w : Wakeup × Env) :
    ∀ e ∈ c.added (c.step ctx w),
      (∀ f, e = .queried f → f.Within m) ∧ ∀ f, e = .listed f → listedFilter ctx c w = some f := by
  have hnoread : ∀ e : Effect, e.read = none →
      (∀ f, e = .queried f → f.Within m) ∧ ∀ f, e = .listed f → listedFilter ctx c w = some f := by
    intro e hread
    refine ⟨fun f hf => ?_, fun f hf => ?_⟩
    · rw [hf] at hread
      cases hread
    · rw [hf] at hread
      cases hread
  have hstep : ∃ d, Adds (fun e =>
      (∀ f, e = .queried f → f.Within m) ∧ ∀ f, e = .listed f → listedFilter ctx c w = some f) c d ∧
        c.step ctx w = { d with turn := c.turn + 1 } := by
    apply step_adds
    · exact fun frame => ⟨hnoread _ rfl, hnoread _ rfl⟩
    · exact fun event _ _ => ⟨fun _ => hnoread _ rfl, hnoread _ rfl⟩
    · intro id filters admitted _ hadmitted f hf
      refine ⟨fun f' hf' => ?_, fun f' hf' => ?_⟩
      · rw [← Effect.queried.inj hf']
        exact (admitFilters_within hmax hadmitted).2 f hf
      · cases hf'
    · exact fun id filter _ => hnoread _ rfl
    · intro f hlisted
      refine ⟨fun f' hf' => ?_, fun f' hf' => ?_⟩
      · cases hf'
      · rw [← Effect.listed.inj hf']
        exact hlisted
  obtain ⟨d, hadds, hstep⟩ := hstep
  obtain ⟨fx, hlog, hreads, _⟩ := hadds.log
  rw [hstep, added_of_log (show ({ d with turn := c.turn + 1 } : Connection N).log = _ from hlog)]
  exact hreads

/-- Past its gates a `NEG-OPEN` asks storage before anything else. -/
theorem handleNegOpen_listed {id : SubscriptionId} {filter f : Filter} {hex : String}
    (h : negOpenFilter ctx env c id filter = some f) :
    Adds (fun _ => True) (c.emit (.listed f)) (c.handleNegOpen ctx env id filter hex).left := by
  unfold negOpenFilter at h
  split at h
  · cases h
  rename_i hgates
  rw [Bool.or_eq_true, not_or, Option.not_isSome_iff_eq_none] at hgates
  obtain ⟨hshort, hnew⟩ := hgates
  split at h
  · cases h
  rename_i hadmitted
  cases h
  have hpush : ∀ {d : Connection N} {message : RelayMessage}, Adds (fun _ => True) d (d.send env message).left :=
    .push trivial trivial
  rw [handleNegOpen, hshort, if_neg hnew, hadmitted]
  dsimp only
  split
  · exact hpush
  split
  · exact hpush
  split
  · exact hpush
  · exact .from_same hpush rfl rfl rfl

/-- The filter of a `NEG-OPEN` past the gates does reach storage. -/
theorem listed_mem_added {w : Wakeup × Env} {f : Filter} (h : listedFilter ctx c w = some f) :
    .listed f ∈ c.added (c.step ctx w) := by
  unfold listedFilter at h
  split at h
  · rename_i id filter hex hreceived
    split at h
    · rename_i hpasses
      rw [step_received hreceived, handleMessage_passes (c := { c with attempts := 0 }) hpasses]
      -- `d` is `c` past the authentication gate and the rate limiter
      generalize hd : ({ c with
        attempts := 0
        rate := (c.rate.check ctx.rateLimit w.2 (.negOpen id filter hex)).2 } : Connection N) = d
      have hnegOpen : negOpenFilter ctx w.2 d id filter = some f := by
        rw [← hd]
        exact h
      have hlisted : Adds (fun _ => True) (d.emit (.listed f)) (d.handleNegOpen ctx w.2 id filter hex).left :=
        handleNegOpen_listed hnegOpen
      obtain ⟨fx, hlog, _⟩ := hlisted.log
      have hadded : (settled (d.dispatch ctx w.2 (.negOpen id filter hex))).log =
          c.log ++ (.listed f :: fx).map (c.turn, ·) := by
        rw [settled_log]
        refine hlog.trans ?_
        rw [← hd]
        exact List.append_assoc _ _ _
      rw [added_of_log (show ({ settled (d.dispatch ctx w.2 (.negOpen id filter hex)) with
        turn := c.turn + 1 } : Connection N).log = _ from hadded)]
      exact List.mem_cons_self
    · cases h
  · cases h

end Connection

/-- Reads of one wakeup stay within the maximum: every filter handed to storage, the stored events a `REQ` sends,
    and the items a reconciliation session is built from. -/
structure ReadsWithin (ctx : ConnectionContext) (m : Nat) (c : Connection N) (w : Wakeup × Env) : Prop where
  filters : ∀ e ∈ c.added (c.step ctx w), ∀ f, e.read = some f → f.Within m
  events : ∀ id filters, Connection.received ctx c w.1 = some (.req id filters) → ctx.sendRandomEvents = none →
    (c.eventsAdded (c.step ctx w)).length ≤ filters.length * m
  items : ∀ f items, .listed f ∈ c.added (c.step ctx w) → w.2.negentropyItems f = .ok items → items.length ≤ m

/-- What keeps the reads of a wakeup within the maximum: the filter of a `NEG-OPEN` is within it as the policy
    leaves it; and with the maximum 0, storage has nothing to answer with. -/
structure Restrained (ctx : ConnectionContext) (m : Nat) (c : Connection N) (w : Wakeup × Env) : Prop where
  negOpen : ∀ f, Connection.listedFilter ctx c w = some f → f.Within m
  noEvents : m = 0 → ∀ id filters, Connection.received ctx c w.1 = some (.req id filters) →
    ctx.sendRandomEvents = none → ¬Connection.Sends ctx w.2 c id filters
  noItems : m = 0 → ∀ f items, Connection.listedFilter ctx c w = some f → w.2.negentropyItems f = .ok items →
    items = []

namespace Connection

variable {c : Connection N} {ctx : ConnectionContext} {m : Nat} {w : Wakeup × Env}

/-- A `REQ` past the gates of `handle_req` streams what storage has. -/
theorem handleReq_admitted {env : Env} {d : Connection N} {id : SubscriptionId} {filters : List Filter}
    (haway : turnedAway ctx env d id filters = false) (hstored : ctx.sendRandomEvents = none) :
    ∃ admitted, admitFilters ctx env 0 filters = .ok admitted ∧
      d.handleReq ctx env id filters = d.streamStored env id admitted 0 admitted := by
  simp only [turnedAway, Bool.or_eq_false_iff, Option.isSome_eq_false_iff, Option.isNone_iff_eq_none, hstored,
    Option.isNone_none, Bool.true_and, decide_eq_false_iff_not] at haway
  obtain ⟨⟨hshort, hfew⟩, hnonempty, hadmitted⟩ := haway
  cases hgate : admitFilters ctx env 0 filters with
  | error refusal =>
      rw [hgate] at hadmitted
      cases hadmitted
  | ok admitted =>
      refine ⟨admitted, rfl, ?_⟩
      rw [handleReq, hshort, hfew, hstored]
      dsimp only
      rw [if_neg hnonempty, hgate]

/-- A `REQ` that sends a stored event adds one. -/
theorem eventsAdded_of_sends {id : SubscriptionId} {filters : List Filter}
    (hreceived : received ctx c w.1 = some (.req id filters)) (hstored : ctx.sendRandomEvents = none)
    (hsends : Sends ctx w.2 c id filters) : c.eventsAdded (c.step ctx w) ≠ [] := by
  obtain ⟨hpasses, haway, hstreams⟩ := hsends
  rw [step_received hreceived, handleMessage_passes (c := { c with attempts := 0 }) hpasses]
  generalize hd : ({ c with
    attempts := 0
    rate := (c.rate.check ctx.rateLimit w.2 (.req id filters)).2 } : Connection N) = d
  have haway' : turnedAway ctx w.2 d id filters = false := by
    rw [← hd]
    exact haway
  obtain ⟨admitted, hadmitted, hstream⟩ := handleReq_admitted haway' hstored
  rw [answers, hstored, hadmitted] at hstreams
  have hanswers : Streams w.2 d.attempts (queryAnswers w.2 0 admitted) := by
    rw [← hd]
    exact hstreams
  obtain ⟨ms, hwrites, hevents⟩ := streamStored_streams hanswers
  rw [show d.dispatch ctx w.2 (.req id filters) = d.handleReq ctx w.2 id filters from rfl, hstream]
  have hadded : Writes c (settled (d.streamStored w.2 id admitted 0 admitted)) ms :=
    .from_same hwrites.settled (by rw [← hd]) (by rw [← hd])
  show c.eventsAdded (settled (d.streamStored w.2 id admitted 0 admitted)) ≠ []
  rw [hadded.eventsAdded]
  exact hevents

/-- A `REQ` writes at most as many events as its filters are answered with. -/
theorem step_sendsAtMost {k : Nat} {id : SubscriptionId} {filters : List Filter}
    (hreceived : received ctx c w.1 = some (.req id filters)) (hstored : ctx.sendRandomEvents = none)
    (h : ∀ admitted, admitFilters ctx w.2 0 filters = .ok admitted → admitted.length = filters.length ∧
      ∀ f ∈ admitted, ∀ n events, w.2.query n f = .ok events → events.length ≤ k) :
    (c.eventsAdded (c.step ctx w)).length ≤ filters.length * k := by
  have hsends : SendsAtMost (filters.length * k) c
      (settled (({ c with attempts := 0 } : Connection N).handleMessage ctx w.2 (.req id filters))) := by
    cases hpasses : passes ctx w.2 c (.req id filters) with
    | false =>
        obtain ⟨rate, refusal, ⟨why, rfl⟩, hstopped⟩ :=
          handleMessage_stopped (c := { c with attempts := 0 }) hpasses
        rw [hstopped]
        obtain ⟨ms, hwrites, hlength⟩ : SendsAtMost 0 ({ c with attempts := 0, rate := rate } : Connection N)
            (Flow.left (({ c with attempts := 0, rate := rate } : Connection N).send w.2 (.closed id why))) :=
          .send rfl
        exact ⟨ms, .from_same hwrites rfl rfl, hlength.trans (Nat.zero_le _)⟩
    | true =>
        rw [handleMessage_passes (c := { c with attempts := 0 }) hpasses]
        obtain ⟨ms, hwrites, hlength⟩ : SendsAtMost (filters.length * k) ({ c with
            attempts := 0
            rate := (c.rate.check ctx.rateLimit w.2 (.req id filters)).2 } : Connection N)
            (Flow.left (handleReq ctx w.2 id filters _)) := handleReq_sendsAtMost hstored h
        exact ⟨ms, .from_same hwrites.settled rfl rfl, hlength⟩
  obtain ⟨ms, hwrites, hlength⟩ := hsends
  rw [step_received hreceived]
  show (c.eventsAdded (settled _)).length ≤ _
  rw [hwrites.eventsAdded]
  exact hlength

/-- A reply that streams nothing has no `EVENT` frame. -/
theorem Reply.eventFrames_nil {id : SubscriptionId} {C F S : Prop} {ms : List RelayMessage}
    (h : Reply id C F S ms) (hnone : ¬S) : ms.filterMap eventFrame = [] := by
  have hempty : ∀ {events : List Event}, (events ≠ [] → S) → events = [] := fun hstreams =>
    not_not.mp (fun hne => hnone (hstreams hne))
  cases h with
  | opened events hstreams => rw [hempty hstreams]; rfl
  | refused events why hstreams hnot hfails => rw [hempty hstreams]; rfl
  | cut events hstreams hnot => rw [hempty hstreams]; rfl

/-- One wakeup reads within the maximum exactly when it is restrained. Each conjunct is about one kind of read; a
    `NEG-OPEN` is the one that nothing clamps. -/
theorem step_readsWithin_iff (hmax : ctx.maxFilterLimit = some m) (hstorage : w.2.HonoursLimits) :
    ReadsWithin ctx m c w ↔ Restrained ctx m c w := by
  constructor
  · intro hreads
    refine ⟨?_, ?_, ?_⟩
    · intro f hlisted
      exact hreads.filters _ (listed_mem_added hlisted) f rfl
    · intro hm id filters hreceived hstored hsends
      have hlength := hreads.events id filters hreceived hstored
      rw [hm, Nat.mul_zero, Nat.le_zero] at hlength
      exact eventsAdded_of_sends hreceived hstored hsends (List.eq_nil_of_length_eq_zero hlength)
    · intro hm f items hlisted hitems
      have hlength := hreads.items f items (listed_mem_added hlisted) hitems
      rw [hm, Nat.le_zero] at hlength
      exact List.eq_nil_of_length_eq_zero hlength
  · intro hrestrained
    refine ⟨?_, ?_, ?_⟩
    · intro e he f hread
      obtain ⟨hqueried, hlisted⟩ := step_reads hmax c w e he
      cases e with
      | queried filter => exact hqueried f (congrArg Effect.queried (Option.some.inj hread))
      | listed filter => exact hrestrained.negOpen f (hlisted f (congrArg Effect.listed (Option.some.inj hread)))
      | _ => cases hread
    · intro id filters hreceived hstored
      rcases Nat.eq_zero_or_pos m with hm | hm
      · obtain ⟨ms, ⟨d, hwrites, hstep⟩, hreply⟩ := step_req hreceived
        rw [hstep]
        show (c.eventsAdded d).length ≤ _
        rw [hwrites.eventsAdded, hreply.eventFrames_nil (hrestrained.noEvents hm id filters hreceived hstored)]
        exact Nat.zero_le _
      · apply step_sendsAtMost hreceived hstored
        intro admitted hadmitted
        obtain ⟨hlength, hwithin⟩ := admitFilters_within hmax hadmitted
        exact ⟨hlength, fun f hf n events hquery => hstorage.query_le hm (hwithin f hf) hquery⟩
    · intro f items hadded hitems
      have hlisted := (step_reads hmax c w _ hadded).2 f rfl
      rcases Nat.eq_zero_or_pos m with hm | hm
      · rw [hrestrained.noItems hm f items hlisted hitems]
        exact Nat.zero_le _
      · exact hstorage.items_le hm (hrestrained.negOpen f hlisted) hitems

end Connection

/-- **Limits bound every read.** Along a run over a storage that honours limits, every wakeup reads within the
    maximum exactly when every wakeup is restrained.

    It is a matter of each wakeup (`step_readsWithin_iff`): a `REQ` and a `COUNT` read through the clamp, a
    `NEG-OPEN` reads its filter as it came. -/
theorem reads_within_iff {ctx : ConnectionContext} {m : Nat} (hmax : ctx.maxFilterLimit = some m) (first : Env)
    (schedule : List (Wakeup × Env)) (hstorage : ∀ w ∈ schedule, w.2.HonoursLimits) :
    EachStep (fun past w => ReadsWithin ctx m (Connection.run ctx first past : Connection N) w) schedule ↔
      EachStep (fun past w => Restrained ctx m (Connection.run ctx first past : Connection N) w) schedule := by
  constructor
  · intro h k w hw
    exact (Connection.step_readsWithin_iff hmax (hstorage w (List.mem_of_getElem? hw))).mp (h k w hw)
  · intro h k w hw
    exact (Connection.step_readsWithin_iff hmax (hstorage w (List.mem_of_getElem? hw))).mpr (h k w hw)

end Server

end Nula

namespace Nula.Sample

open Server

/-- At most five events. -/
def five : Filter := { everything with limit := some 5 }

/-- A `NEG-OPEN` for everything and for five events; any other text is a `REQ` for everything. -/
def readRequest (text : String) : Except String ClientMessage :=
  if text = "[\"NEG-OPEN\",\"a\",\x7b\x7d,\"61\"]" then .ok (.negOpen subscription everything "61")
  else if text = "[\"NEG-OPEN\",\"a\",\x7b\"limit\":5\x7d,\"61\"]" then .ok (.negOpen subscription five "61")
  else .ok (.req subscription [everything])

/-- `max_filter_limit = Some(10)`. -/
def clampedCtx : ConnectionContext := { serverCtx readRequest with maxFilterLimit := some 10 }

/-- A session over everything. -/
def negOpenFrame : Wakeup := .inbound (some (.ok (.text "[\"NEG-OPEN\",\"a\",\x7b\x7d,\"61\"]")))

/-- A request for everything. -/
def reqEverything : Wakeup := .inbound (some (.ok (.text "[\"REQ\",\"a\",\x7b\x7d]")))

/-- A session over five events. -/
def negOpenFive : Wakeup := .inbound (some (.ok (.text "[\"NEG-OPEN\",\"a\",\x7b\"limit\":5\x7d,\"61\"]")))

theorem serverEnv_honoursLimits (n : Nat) : (serverEnv n).HonoursLimits := by
  constructor
  · intro n filter limit events _ hquery
    cases hquery
    exact Nat.zero_le _
  · intro filter limit items _ hitems
    cases hitems
    exact Nat.zero_le _

end Nula.Sample

namespace Nula.Server

open Nula.Sample

/-- The filter of a `NEG-OPEN` without a limit reaches storage as it is. -/
theorem negOpenFrame_unclamped : ¬EachStep (fun past w => ReadsWithin clampedCtx 10
    (Connection.run clampedCtx (serverEnv 8) past : Connection negentropy) w) [(negOpenFrame, serverEnv 8)] := by
  intro h
  have hlisted : Connection.listedFilter clampedCtx
      (Connection.run clampedCtx (serverEnv 8) [] : Connection negentropy) (negOpenFrame, serverEnv 8) =
        some everything := by
    rfl
  obtain ⟨limit, hlimit, _⟩ := (h 0 _ rfl).filters _ (Connection.listed_mem_added hlisted) everything rfl
  cases hlimit

/-- A `REQ` for everything, then a `NEG-OPEN` for five events. -/
theorem reads_within_five : EachStep (fun past w => ReadsWithin clampedCtx 10
    (Connection.run clampedCtx (serverEnv 8) past : Connection negentropy) w)
      [(reqEverything, serverEnv 8), (negOpenFive, serverEnv 8)] := by
  apply (reads_within_iff rfl (serverEnv 8) _ ?_).mpr
  · rw [show [(reqEverything, serverEnv 8), (negOpenFive, serverEnv 8)] =
      ([] ++ [(reqEverything, serverEnv 8)]) ++ [(negOpenFive, serverEnv 8)] from rfl,
      eachStep_append_singleton, eachStep_append_singleton]
    refine ⟨⟨eachStep_nil, ?_⟩, ?_⟩
    · refine ⟨fun f hlisted => ?_, fun h => absurd h (by decide), fun h => absurd h (by decide)⟩
      cases (show none = some f from hlisted)
    · refine ⟨fun f hlisted => ?_, fun h => absurd h (by decide), fun h => absurd h (by decide)⟩
      have hfive : Connection.listedFilter clampedCtx
          (Connection.run clampedCtx (serverEnv 8) [(reqEverything, serverEnv 8)] : Connection negentropy)
            (negOpenFive, serverEnv 8) = some five := by
        decide +kernel
      cases hfive.symm.trans hlisted
      exact ⟨5, rfl, by decide⟩
  · intro w hw
    rcases List.mem_pair.mp hw with rfl | rfl
    · exact serverEnv_honoursLimits 8
    · exact serverEnv_honoursLimits 8

end Nula.Server
