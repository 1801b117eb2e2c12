import Nula.Storage.Ledger
import Nula.Storage.Redb.Keys
import Nula.Storage.Redb.Codec

/-!
# `Storage.Redb.Store` — the redb backend

A translation of `redb/store.rs`. A table is a finite map from byte keys, iterated in byte order. A write
transaction is a function on the seven tables; dropping it without a commit is returning the old tables.
What can fail on stored data (encoding and decoding) is in `Except`; failures of the engine, the file
system and the task pool are not modelled.
-/

namespace Nula

open Std

/-- `RedbDatabaseOptions`, less the file path and the cache size. -/
structure RedbDatabaseOptions where
  processNip09 : Bool
  processNip62 : Bool

/-- A table of records. -/
abbrev BytesTable := BTreeMap Bytes Bytes

/-- A table of keys alone. -/
abbrev IndexTable := BTreeMap Bytes Unit

/-- A table of timestamps. -/
abbrev StampTable := BTreeMap Bytes UInt64

/-- The seven tables. -/
structure Tables where
  /-- event id to version byte and postcard. -/
  events : BytesTable
  byCreatedAt : IndexTable
  byAuthorTs : IndexTable
  byKindAuthorTs : IndexTable
  /-- coordinate key to event id. -/
  byCoordinate : BytesTable
  deletedIds : StampTable
  deletedCoordinates : StampTable

namespace Redb

/-- `addressable_identifier`. -/
def addressableIdentifier (event : Event) : Option String :=
  if !event.kind.isAddressable then none else some (event.tags.identifier.getD "")

/-- `pick_loser_id`. -/
def pickLoserId (incumbentTs : Timestamp) (incumbentId : EventId) (challenger : Event) : EventId :=
  match compare incumbentTs challenger.createdAt with
  | .gt => challenger.id
  | .lt => incumbentId
  | .eq => if (compare incumbentId challenger.id).isLE then challenger.id else incumbentId

/-- `table.range(prefix..upper_bound(prefix))`, the keys in order. -/
def range (table : IndexTable) (p : Bytes) : List Bytes :=
  table.keys.filter (fun k => decide (Keys.InRange p k))

/-! ## Candidates -/

/-- The id part of the keys with the right length, newest first. -/
def idsFrom (start : Nat) (keys : List Bytes) : List Bytes :=
  ((keys.filter (fun key => key.length = start + Keys.idLen)).map (fun key => key.drop start)).reverse

/-- `scan_author`. -/
def scanAuthor (table : IndexTable) (pubkey : PublicKey) : List Bytes :=
  idsFrom (Keys.pubkeyLen + Keys.tsLen) (range table (Keys.authorPrefix pubkey))

/-- `scan_kind_author`. -/
def scanKindAuthor (table : IndexTable) (kind : Kind) (pubkey : PublicKey) : List Bytes :=
  idsFrom (Keys.kindLen + Keys.pubkeyLen + Keys.tsLen) (range table (Keys.kindAuthorPrefix kind pubkey))

/-- `(v.len() == 1).then(|| v[0])`. -/
def single {α : Type} (v : Option (List α)) : Option α :=
  v.bind (fun l => match l with
    | [a] => some a
    | _ => none)

/-- The index paths of `candidate_ids`: the most selective index for the filter. -/
def indexIds (t : Tables) (filter : Filter) : List Bytes :=
  match single filter.authors, single filter.kinds with
  | some author, some kind => scanKindAuthor t.byKindAuthorTs kind author
  | some author, none => scanAuthor t.byAuthorTs author
  -- full scan of the time index
  | none, _ => idsFrom Keys.tsLen t.byCreatedAt.keys

/-- `candidate_ids`: explicit ids are honoured directly. -/
def candidateIds (t : Tables) (filter : Filter) : List Bytes :=
  match filter.ids with
  | some ids => if ids.isEmpty then indexIds t filter else ids.map EventId.bytes
  | none => indexIds t filter

section Transactions

variable (pc : Postcard)

/-- Results that depend on stored data. -/
abbrev Result (pc : Postcard) (α : Type) := Except (RedbError pc.Err) α

/-! ## Reads -/

/-- `Store::check_id`. -/
def checkId (t : Tables) (id : EventId) : DatabaseEventStatus :=
  if t.events.contains id.bytes then .saved
  else if t.deletedIds.contains id.bytes then .deleted
  else .notExistent

/-- `Store::event_by_id`. -/
def eventById (t : Tables) (id : EventId) : Result pc (Option Event) :=
  match t.events[id.bytes]? with
  | none => .ok none
  | some bytes => do
      let event ← Codec.decode pc bytes
      return some event

/-- The loop of the three read paths: stop at the limit, skip dangling ids, match on the projection. -/
def collect {β : Type} (emit : EventView → Bytes → Result pc β) (t : Tables) (filter : Filter) :
    List Bytes → List β → Result pc (List β)
  | [], out => .ok out
  | id :: rest, out =>
      if filter.limit.any (fun limit => limit ≤ out.length) then .ok out
      -- an id that nobody holds is skipped, and takes no place
      else match t.events[id]? with
        | none => collect emit t filter rest out
        | some bytes => do
            let view ← Codec.decodeMatchView pc bytes
            if filter.matchEvent view .default then
              let item ← emit view bytes
              collect emit t filter rest (out ++ [item])
            else collect emit t filter rest out

/-- `Store::query`. -/
def query (t : Tables) (filter : Filter) : Result pc (List Event) :=
  collect pc (fun _ bytes => Codec.decode pc bytes) t filter (candidateIds t filter) []

/-- `Store::count`. -/
def count (t : Tables) (filter : Filter) : Result pc Nat := do
  let hits ← collect pc (fun _ _ => .ok ()) t filter (candidateIds t filter) []
  return hits.length

/-- `Store::negentropy_items`. -/
def negentropyItems (t : Tables) (filter : Filter) : Result pc (List (EventId × Timestamp)) :=
  collect pc (fun view _ => .ok (view.id, view.createdAt)) t filter (candidateIds t filter) []

/-- `RedbDatabase::query`: the answer of the store, deduplicated and sorted. -/
def databaseQuery (t : Tables) (filter : Filter) : Result pc (List Event) := do
  let events ← query pc t filter
  return Events.fromUnsorted events

/-! ## Index maintenance -/

/-- `Store::insert_event_inner`. -/
def insertEventInner (t : Tables) (event : Event) : Result pc Tables := do
  let encoded ← Codec.encode pc event
  return { t with
    events := t.events.insert event.id.bytes encoded
    byCreatedAt := t.byCreatedAt.insert (Keys.byCreatedAt event.createdAt event.id) ()
    byAuthorTs := t.byAuthorTs.insert (Keys.byAuthorTs event.pubkey event.createdAt event.id) ()
    byKindAuthorTs := t.byKindAuthorTs.insert
      (Keys.byKindAuthorTs event.kind event.pubkey event.createdAt event.id) ()
    byCoordinate := match addressableIdentifier event with
      | some identifier => t.byCoordinate.insert
          (Keys.byCoordinate event.kind event.pubkey identifier) event.id.bytes
      | none => t.byCoordinate }

/-- `Store::remove_event_inner`. -/
def removeEventInner (t : Tables) (id : Bytes) : Result pc Tables :=
  match t.events[id]? with
  | none => .ok t
  | some bytes => do
      let event ← Codec.decode pc bytes
      return { t with
        events := t.events.erase id
        byCreatedAt := t.byCreatedAt.erase (Keys.byCreatedAt event.createdAt event.id)
        byAuthorTs := t.byAuthorTs.erase (Keys.byAuthorTs event.pubkey event.createdAt event.id)
        byKindAuthorTs := t.byKindAuthorTs.erase
          (Keys.byKindAuthorTs event.kind event.pubkey event.createdAt event.id)
        byCoordinate := match addressableIdentifier event with
          | none => t.byCoordinate
          | some identifier =>
              let coordKey := Keys.byCoordinate event.kind event.pubkey identifier
              -- a newer event under the coordinate would have claimed it
              if (t.byCoordinate[coordKey]?).any (fun value => value = id) then
                t.byCoordinate.erase coordKey
              else t.byCoordinate }

/-! ## The write rules -/

/-- One entry of the scan in `resolve_replaceable`. -/
def newestStep (newest : Option (Timestamp × EventId)) (key : Bytes) : Option (Timestamp × EventId) :=
  if h : key.length = Keys.kindLen + Keys.pubkeyLen + Keys.tsLen + Keys.idLen then
    let prefixLen := Keys.kindLen + Keys.pubkeyLen
    let ts : Timestamp := UInt64.ofNat (ofBe ((key.drop prefixLen).take Keys.tsLen))
    let id : EventId := ⟨key.drop (Keys.kindLen + Keys.pubkeyLen + Keys.tsLen), by
      rw [List.length_drop, h]
      rfl⟩
    match newest with
    | none => some (ts, id)
    -- of two with the same time the first stays
    | some (curTs, _) => if curTs < ts then some (ts, id) else newest
  else newest

/-- `Store::resolve_replaceable`. -/
def resolveReplaceable (t : Tables) (event : Event) : Option EventId :=
  ((range t.byKindAuthorTs (Keys.kindAuthorPrefix event.kind event.pubkey)).foldl newestStep none).map
    (fun (curTs, curId) => pickLoserId curTs curId event)

/-- `Store::resolve_addressable`. -/
def resolveAddressable (t : Tables) (event : Event) : Result pc (Option EventId) :=
  match addressableIdentifier event with
  | none => .ok none
  | some identifier =>
      match t.byCoordinate[Keys.byCoordinate event.kind event.pubkey identifier]? with
      | none => .ok none
      | some value =>
          if h : value.length = Keys.idLen then
            -- a coordinate without its record is no rival
            match t.events[value]? with
            | none => .ok none
            | some bytes => do
                let existingCreatedAt ← Codec.decodeCreatedAt pc bytes
                return some (pickLoserId existingCreatedAt ⟨value, h⟩ event)
          else .ok none

/-- One `e` target of `apply_deletion`: what to remove and what to tombstone. -/
def collectTarget (t : Tables) (event : Event) (acc : HashSet Bytes × HashSet Bytes) (id : EventId) :
    Result pc (HashSet Bytes × HashSet Bytes) :=
  match t.events[id.bytes]? with
  -- tombstone in case the event arrives later
  | none => .ok (acc.1, acc.2.insert id.bytes)
  | some bytes => do
      let existing ← Codec.decode pc bytes
      if existing.pubkey = event.pubkey then return (acc.1.insert id.bytes, acc.2.insert id.bytes)
      else return acc

/-- The removal part of an `a` target: the event at the coordinate, unless it is newer. -/
def removeIncumbent (event : Event) (t : Tables) (coordKey : Bytes) : Result pc Tables :=
  match (t.byCoordinate[coordKey]?).filter (fun value => value.length = Keys.idLen) with
  | none => .ok t
  | some idArr => match t.events[idArr]? with
    | none => .ok t
    | some bytes => do
        let ts ← Codec.decodeCreatedAt pc bytes
        if ts ≤ event.createdAt then removeEventInner pc t idArr else .ok t

/-- One `a` target of `apply_deletion`. -/
def deleteCoordinate (event : Event) (t : Tables) (coord : Coordinate) : Result pc Tables :=
  if coord.author ≠ event.pubkey then .ok t
  else do
    let coordKey := Keys.byCoordinate coord.kind coord.author coord.identifier
    let t ← removeIncumbent pc event t coordKey
    -- the stamp never goes back
    let bump := match t.deletedCoordinates[coordKey]? with
      | none => true
      | some p => decide (p < event.createdAt)
    return if bump then
        { t with deletedCoordinates := t.deletedCoordinates.insert coordKey event.createdAt }
      else t

/-- `Store::apply_deletion`. The two sets are iterated in key order; any order gives the same tables,
    since the removals are of different ids and the tombstones get one value. -/
def applyDeletion (t : Tables) (event : Event) : Result pc Tables :=
  match DeletionRequest.fromEvent event with
  | .error _ => .ok t
  | .ok request => do
      let (toRemove, toTombstone) ← request.eventIds.foldlM (collectTarget pc t event) (∅, ∅)
      let t ← toRemove.toList.foldlM (removeEventInner pc) t
      let t := { t with
        deletedIds := toTombstone.toList.foldl
          (fun table key => table.insert key event.createdAt) t.deletedIds }
      request.coordinates.foldlM (deleteCoordinate pc event) t

/-- Step 6 of `save_with`: the id that loses the event's slot. -/
def resolve (t : Tables) (event : Event) : Result pc (Option EventId) :=
  if event.kind.isReplaceable then .ok (resolveReplaceable t event)
  else if event.kind.isAddressable then resolveAddressable pc t event
  else .ok none

/-- Step 7 of `save_with`. -/
def processDeletion (o : RedbDatabaseOptions) (t : Tables) (event : Event) : Result pc Tables :=
  if o.processNip09 && event.kind = Kind.eventDeletion then applyDeletion pc t event else .ok t

/-- Steps 7 and 8 of `save_with`. -/
def store (o : RedbDatabaseOptions) (t : Tables) (event : Event) : Result pc Tables := do
  let t ← processDeletion pc o t event
  insertEventInner pc t event

/-- `Store::save_with`. -/
def saveWith (o : RedbDatabaseOptions) (t : Tables) (event : Event) (now : Timestamp) :
    Result pc (SaveEventStatus × Tables) :=
  if event.kind.isEphemeral then .ok (.rejected .ephemeral, t)
  else if event.deadOnArrival now then .ok (.rejected .expired, t)
  else if t.deletedIds.contains event.id.bytes then .ok (.rejected .deleted, t)
  else if (addressableIdentifier event).any (fun identifier =>
      (t.deletedCoordinates[Keys.byCoordinate event.kind event.pubkey identifier]?).any
        (fun deletedAt => event.createdAt ≤ deletedAt)) then
    .ok (.rejected .deleted, t)
  else if t.events.contains event.id.bytes then .ok (.rejected .duplicate, t)
  else do
    match ← resolve pc t event with
    | some loserId =>
        -- it is the newcomer that loses, and nothing is written
        if loserId = event.id then return (.rejected .replaced, t)
        else
          let t ← removeEventInner pc t loserId.bytes
          let t ← store pc o t event
          return (.success, t)
    | none =>
        let t ← store pc o t event
        return (.success, t)

/-- `Store::save_event`: only a success commits. -/
def saveEvent (o : RedbDatabaseOptions) (t : Tables) (event : Event) (now : Timestamp) :
    Result pc (SaveEventStatus × Tables) := do
  let (outcome, written) ← saveWith pc o t event now
  return (outcome, if outcome = .success then written else t)

/-- The scan of `delete_matching`; it does not look at the limit. -/
def matchingIds (t : Tables) (filter : Filter) : List Bytes → Result pc (List Bytes)
  | [] => .ok []
  | id :: rest =>
      match t.events[id]? with
      | none => matchingIds t filter rest
      | some bytes => do
          let view ← Codec.decodeMatchView pc bytes
          let ids ← matchingIds t filter rest
          return if filter.matchEvent view .default then id :: ids else ids

/-- `Store::delete_matching`. -/
def deleteMatching (t : Tables) (filter : Filter) : Result pc Tables := do
  let toRemove ← matchingIds pc t filter (candidateIds t filter)
  toRemove.foldlM (removeEventInner pc) t

/-- `Store::wipe`: `retain(|_, _| false)` on every table. -/
def wipe (t : Tables) : Tables where
  events := t.events.filter (fun _ _ => false)
  byCreatedAt := t.byCreatedAt.filter (fun _ _ => false)
  byAuthorTs := t.byAuthorTs.filter (fun _ _ => false)
  byKindAuthorTs := t.byKindAuthorTs.filter (fun _ _ => false)
  byCoordinate := t.byCoordinate.filter (fun _ _ => false)
  deletedIds := t.deletedIds.filter (fun _ _ => false)
  deletedCoordinates := t.deletedCoordinates.filter (fun _ _ => false)

/-- A fresh database: every table created, none filled. -/
def empty : Tables := ⟨∅, ∅, ∅, ∅, ∅, ∅, ∅⟩

/-! ## Runs -/

def step (o : RedbDatabaseOptions) (t : Tables) : StoreOp → Result pc Tables
  | .saveEvent event now => do
      let (_, t) ← saveEvent pc o t event now
      return t
  | .deleteMatching filter => deleteMatching pc t filter
  | .wipe => .ok (wipe t)

/-- The tables after a sequence of writes. -/
def run (o : RedbDatabaseOptions) (ops : List StoreOp) : Result pc Tables :=
  ops.foldlM (step pc o) empty

end Transactions

end Redb

end Nula
