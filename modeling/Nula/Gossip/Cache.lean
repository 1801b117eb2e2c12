import Nula.Gossip.Routes
import Nula.Lib.Latest
import Nula.Storage.Memory.Store

/-!
# `Gossip.Cache` — the lists a router holds after a history

Every event is offered to the router in the order it arrives, and a list replaces the one held only if it is
strictly newer. So what is held for a user is the latest of the well-formed lists processed for it
(`processAll_cells`); events of other kinds, hints and counts do not touch it.
-/

namespace Nula.Gossip

open Std

/-- `MemoryDatabase`. -/
instance : NostrDatabase MemoryStore where
  saveEvent store event now := (store.saveEvent event now).2
  query store filter := .ok (store.queryOwned filter)

variable (urls : UrlCrate)

/-! ## Histories -/

/-- The arguments of one `process` call. -/
structure Received where
  event : Event
  sourceRelay : Option RelayUrl
  now : Timestamp

/-- A sequence of `process` calls. -/
def Inner.processAll {D : Type} [NostrDatabase D] (inner : Inner D) (calls : List Received) : Inner D :=
  calls.foldl (fun inner call => inner.process urls call.event call.sourceRelay call.now) inner

/-- What the event says the user's relay list is, if it is one. -/
def relayListOf (user : PublicKey) (e : Event) : Option (Timestamp × RelayList) :=
  if e.pubkey = user then (RelayList.fromEvent urls e).toOption.map (fun list => (e.createdAt, list)) else none

/-- What the event says the user's DM relays are, if it is such a list. -/
def dmListOf (user : PublicKey) (e : Event) : Option (Timestamp × List RelayUrl) :=
  if e.pubkey = user then (parseDmRelaysEvent urls e).toOption.map (fun relays => (e.createdAt, relays)) else none

/-- The well-formed relay lists of a user, oldest call first. -/
def relayLists (user : PublicKey) (events : List Event) : List (Timestamp × RelayList) :=
  events.filterMap (relayListOf urls user)

/-- The well-formed DM lists of a user, oldest call first. -/
def dmLists (user : PublicKey) (events : List Event) : List (Timestamp × List RelayUrl) :=
  events.filterMap (dmListOf urls user)

/-- When a list was created. -/
def listedAt {α : Type} (x : Timestamp × α) : Nat := x.1.toNat

/-- What a user's routes hold after the events. -/
structure CellsOf (allowed : AllowedRelays) (user : PublicKey) (events : List Event) (entry : UserRoutes) : Prop where
  nip65 : entry.nip65 = (Latest.latest listedAt (relayLists urls user events)).map Prod.snd
  nip65EventAt : entry.nip65EventAt = (Latest.latest listedAt (relayLists urls user events)).map Prod.fst
  nip17 : entry.nip17 = ((Latest.latest listedAt (dmLists urls user events)).map Prod.snd).elim []
    (fun relays => relays.filter (allowed.isAllowed urls))
  nip17EventAt : entry.nip17EventAt = (Latest.latest listedAt (dmLists urls user events)).map Prod.fst

/-! ## One event -/

section Step

variable {urls} {allowed : AllowedRelays} {user : PublicKey} {events : List Event} {e : Event} {entry : UserRoutes}

/-- An offer is taken when it is newer than what the cell holds. -/
theorem offer_eq {α : Type} (cell : Option (Timestamp × α)) (t : Timestamp) (v : α) :
    Latest.offer listedAt cell (t, v) = if newerThan t (cell.map Prod.fst) then some (t, v) else cell := by
  cases cell with
  | none => rfl
  | some x =>
      have hlt : listedAt x < listedAt (t, v) ↔ newerThan t ((some x).map Prod.fst) = true := by
        simp [listedAt, newerThan, UInt64.lt_iff_toNat_lt]
      rw [Latest.offer_some]
      by_cases h : listedAt x < listedAt (t, v)
      · rw [if_pos h, if_pos (hlt.mp h)]
      · rw [if_neg h, if_neg (fun h' => h (hlt.mpr h'))]

/-- Only relay lists are offered as relay lists. -/
theorem relayListOf_eq_none (h : e.kind ≠ Kind.relayList) : relayListOf urls user e = none := by
  simp [relayListOf, RelayList.fromEvent, h, Except.toOption]

/-- Only lists of message relays are offered as such. -/
theorem dmListOf_eq_none (h : e.kind ≠ Kind.dmRelays) : dmListOf urls user e = none := by
  simp [dmListOf, parseDmRelaysEvent, h, Except.toOption]

/-- What parses is offered to its author's cell. -/
theorem relayListOf_eq_some {list : RelayList} (h : RelayList.fromEvent urls e = .ok list) :
    relayListOf urls e.pubkey e = some (e.createdAt, list) := by
  simp [relayListOf, h, Except.toOption]

theorem dmListOf_eq_some {relays : List RelayUrl} (h : parseDmRelaysEvent urls e = .ok relays) :
    dmListOf urls e.pubkey e = some (e.createdAt, relays) := by
  simp [dmListOf, h, Except.toOption]

/-- What a user's cell is offered is theirs, and a relay list. -/
theorem relayListOf_some {x : Timestamp × RelayList} (h : relayListOf urls user e = some x) :
    e.pubkey = user ∧ e.kind = Kind.relayList := by
  refine ⟨?_, ?_⟩
  · by_contra hne
    rw [relayListOf, if_neg hne] at h
    cases h
  · by_contra hkind
    rw [relayListOf_eq_none hkind] at h
    cases h

/-- What a user's cell is offered is theirs, and a list of message relays. -/
theorem dmListOf_some {x : Timestamp × List RelayUrl} (h : dmListOf urls user e = some x) :
    e.pubkey = user ∧ e.kind = Kind.dmRelays := by
  refine ⟨?_, ?_⟩
  · by_contra hne
    rw [dmListOf, if_neg hne] at h
    cases h
  · by_contra hkind
    rw [dmListOf_eq_none hkind] at h
    cases h

theorem relayListOf_fst {x : Timestamp × RelayList} (h : relayListOf urls user e = some x) : x.1 = e.createdAt := by
  unfold relayListOf at h
  split at h
  · obtain ⟨list, _, rfl⟩ := Option.map_eq_some_iff.mp h
    rfl
  · cases h

theorem dmListOf_fst {x : Timestamp × List RelayUrl} (h : dmListOf urls user e = some x) : x.1 = e.createdAt := by
  unfold dmListOf at h
  split at h
  · obtain ⟨relays, _, rfl⟩ := Option.map_eq_some_iff.mp h
    rfl
  · cases h

/-- An event that is no list of the kind read adds none. -/
theorem filterMap_skip {α : Type} {f : Event → Option α} (h : f e = none) :
    (events ++ [e]).filterMap f = events.filterMap f := by
  rw [List.filterMap_append, List.filterMap_cons_none h, List.filterMap_nil, List.append_nil]

/-- A list of the kind read replaces the one held if that is older. -/
theorem latest_offered {α : Type} {f : Event → Option (Timestamp × α)} {v : α} (h : f e = some (e.createdAt, v)) :
    Latest.latest listedAt ((events ++ [e]).filterMap f) =
      if newerThan e.createdAt ((Latest.latest listedAt (events.filterMap f)).map Prod.fst) then
        some (e.createdAt, v)
      else Latest.latest listedAt (events.filterMap f) := by
  rw [List.filterMap_append, List.filterMap_cons_some h, List.filterMap_nil, Latest.latest_append_singleton,
    offer_eq]

/-- The routes hold the same lists. -/
structure SameLists (a b : UserRoutes) : Prop where
  nip65 : a.nip65 = b.nip65
  nip65EventAt : a.nip65EventAt = b.nip65EventAt
  nip17 : a.nip17 = b.nip17
  nip17EventAt : a.nip17EventAt = b.nip17EventAt

/-- Cells speak of the lists only, so an entry with the same lists has the same ones. -/
theorem CellsOf.congr (h : CellsOf urls allowed user events entry) {entry' : UserRoutes}
    (hsame : SameLists entry' entry) : CellsOf urls allowed user events entry' :=
  ⟨hsame.nip65.trans h.nip65, hsame.nip65EventAt.trans h.nip65EventAt, hsame.nip17.trans h.nip17,
    hsame.nip17EventAt.trans h.nip17EventAt⟩

/-- Hints are not lists. -/
theorem harvestRelayHints_lists : SameLists (harvestRelayHints urls allowed e entry) entry := by
  refine Buckets.foldl_keeps (P := fun entry' : UserRoutes => SameLists entry' entry) ?_ e.tags.items
    ⟨rfl, rfl, rfl, rfl⟩
  intro entry' tag h
  unfold harvestTag
  repeat' split
  all_goals exact ⟨h.nip65, h.nip65EventAt, h.nip17, h.nip17EventAt⟩

/-- Counts are not lists. -/
theorem countSource_lists (source : Option RelayUrl) : SameLists (countSource urls allowed entry source) entry := by
  unfold countSource
  repeat' split
  all_goals exact ⟨rfl, rfl, rfl, rfl⟩

/-- An event that is no well-formed list of the user leaves both lists. -/
theorem CellsOf.neither (h : CellsOf urls allowed user events entry) (h65 : relayListOf urls user e = none)
    (h17 : dmListOf urls user e = none) : CellsOf urls allowed user (events ++ [e]) entry := by
  have hrelay : relayLists urls user (events ++ [e]) = relayLists urls user events := filterMap_skip h65
  have hdm : dmLists urls user (events ++ [e]) = dmLists urls user events := filterMap_skip h17
  constructor
  · rw [hrelay, h.nip65]
  · rw [hrelay, h.nip65EventAt]
  · rw [hdm, h.nip17]
  · rw [hdm, h.nip17EventAt]

/-- An event of another user is in none of this user's lists. -/
theorem CellsOf.other (h : CellsOf urls allowed user events entry) (he : e.pubkey ≠ user) :
    CellsOf urls allowed user (events ++ [e]) entry :=
  h.neither (by rw [relayListOf, if_neg he]) (by rw [dmListOf, if_neg he])

/-- A relay list is offered. -/
theorem CellsOf.relayList (h : CellsOf urls allowed e.pubkey events entry) (hkind : e.kind = Kind.relayList)
    {list : RelayList} (hlist : RelayList.fromEvent urls e = .ok list) :
    CellsOf urls allowed e.pubkey (events ++ [e])
      (if newerThan e.createdAt entry.nip65EventAt then
        { entry with nip65 := some list, nip65EventAt := some e.createdAt }
      else entry) := by
  have hdm : dmLists urls e.pubkey (events ++ [e]) = dmLists urls e.pubkey events :=
    filterMap_skip (dmListOf_eq_none (by rw [hkind]; decide))
  have hrelay : Latest.latest listedAt (relayLists urls e.pubkey (events ++ [e])) =
      if newerThan e.createdAt entry.nip65EventAt then some (e.createdAt, list)
      else Latest.latest listedAt (relayLists urls e.pubkey events) := by
    rw [h.nip65EventAt]
    exact latest_offered (relayListOf_eq_some hlist)
  split
  · rename_i hnew
    rw [if_pos hnew] at hrelay
    constructor
    · rw [hrelay, Option.map_some]
    · rw [hrelay, Option.map_some]
    · rw [hdm, h.nip17]
    · rw [hdm, h.nip17EventAt]
  · rename_i hold
    rw [if_neg hold] at hrelay
    constructor
    · rw [hrelay, h.nip65]
    · rw [hrelay, h.nip65EventAt]
    · rw [hdm, h.nip17]
    · rw [hdm, h.nip17EventAt]

/-- A DM list is offered. -/
theorem CellsOf.dmList (h : CellsOf urls allowed e.pubkey events entry) (hkind : e.kind = Kind.dmRelays)
    {relays : List RelayUrl} (hlist : parseDmRelaysEvent urls e = .ok relays) :
    CellsOf urls allowed e.pubkey (events ++ [e])
      (if newerThan e.createdAt entry.nip17EventAt then
        { entry with nip17 := relays.filter (allowed.isAllowed urls), nip17EventAt := some e.createdAt }
      else entry) := by
  have hrelay : relayLists urls e.pubkey (events ++ [e]) = relayLists urls e.pubkey events :=
    filterMap_skip (relayListOf_eq_none (by rw [hkind]; decide))
  have hdm : Latest.latest listedAt (dmLists urls e.pubkey (events ++ [e])) =
      if newerThan e.createdAt entry.nip17EventAt then some (e.createdAt, relays)
      else Latest.latest listedAt (dmLists urls e.pubkey events) := by
    rw [h.nip17EventAt]
    exact latest_offered (dmListOf_eq_some hlist)
  split
  · rename_i hnew
    rw [if_pos hnew] at hdm
    constructor
    · rw [hrelay, h.nip65]
    · rw [hrelay, h.nip65EventAt]
    · rw [hdm, Option.map_some, Option.elim_some]
    · rw [hdm, Option.map_some]
  · rename_i hold
    rw [if_neg hold] at hdm
    constructor
    · rw [hrelay, h.nip65]
    · rw [hrelay, h.nip65EventAt]
    · rw [hdm, h.nip17]
    · rw [hdm, h.nip17EventAt]

/-- **One event is one offer.** -/
theorem CellsOf.apply (h : CellsOf urls allowed e.pubkey events entry) :
    CellsOf urls allowed e.pubkey (events ++ [e]) (applyEventToEntry urls allowed e entry) := by
  unfold applyEventToEntry
  split
  · rename_i hkind
    have hdm : dmListOf urls e.pubkey e = none := dmListOf_eq_none (by rw [hkind]; decide)
    split
    · rename_i error herror
      exact h.neither (by simp [relayListOf, herror, Except.toOption]) hdm
    · rename_i list hlist
      exact h.relayList hkind hlist
  · rename_i hkind
    have hrelay : relayListOf urls e.pubkey e = none := relayListOf_eq_none hkind
    split
    · rename_i hkind
      split
      · rename_i error herror
        exact h.neither hrelay (by simp [dmListOf, herror, Except.toOption])
      · rename_i relays hlist
        exact h.dmList hkind hlist
    · rename_i hkind
      exact (h.neither hrelay (dmListOf_eq_none hkind)).congr harvestRelayHints_lists

/-! ## Histories -/

variable {D : Type} {inner : Inner D}

/-- What the router holds for every user after the events. -/
def Cells (urls : UrlCrate) (events : List Event) (inner : Inner D) : Prop :=
  ∀ user, CellsOf urls inner.options.allowed user events (inner.routes.getD user .default)

theorem Cells.new (options : GossipOptions) (db : D) : Cells urls [] (Inner.new options db) := by
  intro user
  rw [Inner.new, ExtTreeMap.getD_empty]
  exact ⟨rfl, rfl, rfl, rfl⟩

variable [NostrDatabase D]

theorem Inner.process_options (source : Option RelayUrl) (now : Timestamp) :
    (inner.process urls e source now).options = inner.options := by
  unfold Inner.process Inner.observe
  split <;> rfl

/-- Whether an event is stored or not, it is observed. -/
theorem Inner.process_routes (source : Option RelayUrl) (now : Timestamp) :
    (inner.process urls e source now).routes = (inner.observe urls e source).routes := by
  unfold Inner.process
  split <;> rfl

/-- **One event more**: the cells hold the newest of all events that were processed, the next included. Its author's
    entry takes it, and every other keeps its lists. -/
theorem Cells.process (h : Cells urls events inner) (source : Option RelayUrl) (now : Timestamp) :
    Cells urls (events ++ [e]) (inner.process urls e source now) := by
  intro user
  rw [Inner.process_options, Inner.process_routes, Inner.observe, ExtTreeMap.getD_insert]
  by_cases he : e.pubkey = user
  · subst he
    rw [if_pos Std.compare_self]
    exact ((h e.pubkey).apply).congr (countSource_lists source)
  · rw [if_neg (fun hcmp => he (LawfulEqCmp.eq_of_compare hcmp))]
    exact (h user).other he

/-- **After any history a router holds for each user the latest well-formed lists.** -/
theorem Cells.processAll (calls : List Received) (h : Cells urls events inner) :
    Cells urls (events ++ calls.map Received.event) (inner.processAll urls calls) := by
  induction calls generalizing inner events with
  | nil =>
      rw [List.map_nil, List.append_nil]
      exact h
  | cons call calls ih =>
      have := ih (h.process (e := call.event) call.sourceRelay call.now)
      rw [List.append_assoc, List.singleton_append] at this
      exact this

theorem Inner.processAll_options (calls : List Received) (inner : Inner D) :
    (inner.processAll urls calls).options = inner.options :=
  Buckets.foldl_keeps (P := fun inner' : Inner D => inner'.options = inner.options)
    (fun _ call h => (process_options call.sourceRelay call.now).trans h) calls rfl

end Step

end Nula.Gossip
