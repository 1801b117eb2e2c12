import Nula.Storage.Ledger

/-!
# `Storage.Memory.Store` — the in-memory backend

A translation of `memory/store.rs` and the planner of `memory/query.rs`. Every index of the Rust struct
is a field, every mutation is a function from store to store, and an iterator is the list it yields.

`Arc<Event>` is the event itself. The eviction loop carries the number of live events as fuel: on a
store whose indexes agree each turn removes one event, so the loop always ends within the cap
(`Storage.Memory.Coherence`).
-/

namespace Nula

open Std

/-- The inner state of `MemoryDatabase`. -/
structure MemoryStore where
  options : MemoryDatabaseOptions
  byId : HashMap EventId Event
  byTime : BTreeMap EventKey Event
  byAuthor : HashMap PublicKey (BTreeSet EventKey)
  byKindAuthor : HashMap (Kind × PublicKey) (BTreeSet EventKey)
  byCoordinate : HashMap CoordKey Event
  deletedIds : HashSet EventId
  deletedCoordinates : HashMap CoordKey Timestamp
  vanishedAuthors : HashSet PublicKey

/-- `pick_loser`: the id to drop; ties on created-at go to the smaller id. -/
def pickLoser (incumbent challenger : Event) : EventId :=
  match compare incumbent.createdAt challenger.createdAt with
  | .gt => challenger.id
  | .lt => incumbent.id
  | .eq => if (compare incumbent.id challenger.id).isLE then challenger.id else incumbent.id

/-! ## The query planner (`memory/query.rs`) -/

/-- `QueryPattern`: which index a query goes through. -/
inductive QueryPattern where
  | author (pk : PublicKey)
  | kindAuthor (kind : Kind) (pk : PublicKey)
  | coordinate (kind : Kind) (author : PublicKey) (identifier : String)
  | generic
  deriving DecidableEq

/-- `single_letter_d`. -/
def singleLetterD : SingleLetterTag := .lowercase .D

/-- `QueryPattern::from`. -/
def QueryPattern.fromFilter (filter : Filter) : QueryPattern :=
  -- specific ids, or a free-text search: never refined
  if filter.ids.any (fun v => !v.isEmpty) then .generic
  else if filter.search.isSome then .generic
  else
    let authorsLen := filter.authors.elim 0 List.length
    let kindsLen := filter.kinds.elim 0 List.length
    let firstAuthor := filter.authors.bind List.head?
    let firstKind := filter.kinds.bind List.head?
    -- the `d` selector, when it has exactly one value
    let identifier := (filter.genericTags.get singleLetterD).bind
      (fun values => if values.length = 1 then values.head? else none)
    let otherTags := filter.genericTags.len -
      (if filter.genericTags.containsKey singleLetterD then 1 else 0)
    match authorsLen, kindsLen, firstAuthor, firstKind, identifier with
    | 1, 1, some pk, some kind, some d =>
        if kind.isAddressable && otherTags = 0 then .coordinate kind pk d else .generic
    | 1, 1, some pk, some kind, none => if otherTags = 0 then .kindAuthor kind pk else .generic
    | 1, 0, some pk, none, none => if otherTags = 0 then .author pk else .generic
    | _, _, _, _, _ => .generic

namespace MemoryStore

/-- `MemoryStore::new`. -/
def new (options : MemoryDatabaseOptions) : MemoryStore := ⟨options, ∅, ∅, ∅, ∅, ∅, ∅, ∅, ∅⟩

/-! ## Reads -/

def checkId (s : MemoryStore) (id : EventId) : DatabaseEventStatus :=
  if s.byId.contains id then .saved
  else if s.deletedIds.contains id then .deleted
  else .notExistent

def eventById (s : MemoryStore) (id : EventId) : Option Event := s.byId[id]?

/-- `keys.iter().filter_map(|k| self.by_id.get(&k.id))`. -/
def resolveKeys (s : MemoryStore) (keys : BTreeSet EventKey) : List Event :=
  keys.toList.filterMap (fun k => s.byId[k.id]?)

/-- The `materialise` closure: match, cut at the limit, project to keys. -/
def materialise (filter : Filter) (events : List Event) : List EventKey :=
  (takeLimit filter.limit (events.filter (fun e => filter.matchEvent e .default))).map
    EventKey.fromEvent

/-- `MemoryStore::query_keys`. -/
def queryKeys (s : MemoryStore) (filter : Filter) : List EventKey :=
  match QueryPattern.fromFilter filter with
  | .generic => materialise filter (s.byTime.toList.map Prod.snd)
  | .author pk => match s.byAuthor[pk]? with
    | some keys => materialise filter (s.resolveKeys keys)
    | none => []
  | .kindAuthor kind pk => match s.byKindAuthor[(kind, pk)]? with
    | some keys => materialise filter (s.resolveKeys keys)
    | none => []
  | .coordinate kind author identifier => match s.byCoordinate[(kind, author, identifier)]? with
    -- a single hit, returned whatever the limit is
    | some e => if filter.matchEvent e .default then [EventKey.fromEvent e] else []
    | none => []

/-- `MemoryStore::query_owned`. -/
def queryOwned (s : MemoryStore) (filter : Filter) : List Event :=
  (s.queryKeys filter).filterMap (fun k => s.byId[k.id]?)

/-- `MemoryStore::count`. -/
def count (s : MemoryStore) (filter : Filter) : Nat := (s.queryKeys filter).length

/-- `NostrDatabase::negentropy_items`, the default over `query`. -/
def negentropyItems (s : MemoryStore) (filter : Filter) : List (EventId × Timestamp) :=
  (s.queryOwned filter).map (fun e => (e.id, e.createdAt))

/-! ## Index maintenance -/

/-- `map.entry(k).or_default().insert(key)`. -/
def insertKey {κ : Type} [Ord κ] [TransOrd κ] (m : HashMap κ (BTreeSet EventKey)) (k : κ) (key : EventKey) :
    HashMap κ (BTreeSet EventKey) :=
  m.insert k ((m.getD k ∅).insert key)

/-- Remove a key from a bucket, and the bucket once it is empty. -/
def removeKey {κ : Type} [Ord κ] [TransOrd κ] (m : HashMap κ (BTreeSet EventKey)) (k : κ) (key : EventKey) :
    HashMap κ (BTreeSet EventKey) :=
  match m[k]? with
  | none => m
  | some set =>
      let set := set.erase key
      if set.isEmpty then m.erase k else m.insert k set

/-- `MemoryStore::insert_event`. -/
def insertEvent (s : MemoryStore) (event : Event) : MemoryStore :=
  let key := EventKey.fromEvent event
  { s with
    byCoordinate := match addressableCoord event with
      | some coord => s.byCoordinate.insert coord event
      | none => s.byCoordinate
    byId := s.byId.insert event.id event
    byAuthor := insertKey s.byAuthor event.pubkey key
    byKindAuthor := insertKey s.byKindAuthor (event.kind, event.pubkey) key
    byTime := s.byTime.insert key event }

/-- `MemoryStore::remove_event_by_id`. -/
def removeEventById (s : MemoryStore) (id : EventId) : MemoryStore :=
  match s.byId[id]? with
  | none => s
  | some event =>
      let key := EventKey.fromEvent event
      { s with
        byId := s.byId.erase id
        byTime := s.byTime.erase key
        byAuthor := removeKey s.byAuthor event.pubkey key
        byKindAuthor := removeKey s.byKindAuthor (event.kind, event.pubkey) key
        byCoordinate := match addressableCoord event with
          | none => s.byCoordinate
          | some coord =>
              -- the coordinate may be another event's by now
              if (s.byCoordinate[coord]?).any (fun winner => winner.id = id) then
                s.byCoordinate.erase coord
              else s.byCoordinate }

/-! ## The write rules -/

/-- `MemoryStore::resolve_replaceable`. -/
def resolveReplaceable (s : MemoryStore) (event : Event) : Option EventId := do
  let keys ← s.byKindAuthor[(event.kind, event.pubkey)]?
  let key ← keys.toList.head?
  let incumbent ← s.byId[key.id]?
  return pickLoser incumbent event

/-- `MemoryStore::resolve_addressable`. -/
def resolveAddressable (s : MemoryStore) (event : Event) : Option EventId := do
  let coord ← addressableCoord event
  let incumbent ← s.byCoordinate[coord]?
  return pickLoser incumbent event

/-- One `e` target of `apply_deletion`. -/
def deleteId (request : Event) (s : MemoryStore) (id : EventId) : MemoryStore :=
  match s.byId[id]? with
  | some target =>
      if target.pubkey = request.pubkey then
        let s := s.removeEventById id
        { s with deletedIds := s.deletedIds.insert id }
      else s
  -- the author is not known: tombstone anyway
  | none => { s with deletedIds := s.deletedIds.insert id }

/-- One `a` target of `apply_deletion`. -/
def deleteCoordinate (request : Event) (s : MemoryStore) (coord : Coordinate) : MemoryStore :=
  if coord.author ≠ request.pubkey then s
  else
    let key : CoordKey := (coord.kind, coord.author, coord.identifier)
    let s := match s.byCoordinate[key]? with
      | some incumbent =>
          if incumbent.createdAt ≤ request.createdAt then s.removeEventById incumbent.id else s
      | none => s
    -- `entry(key).or_insert(created_at)`, then raise the stamp
    let stamp := s.deletedCoordinates.getD key request.createdAt
    let stamp := if stamp < request.createdAt then request.createdAt else stamp
    { s with deletedCoordinates := s.deletedCoordinates.insert key stamp }

/-- `MemoryStore::apply_deletion`. -/
def applyDeletion (s : MemoryStore) (event : Event) : MemoryStore :=
  match DeletionRequest.fromEvent event with
  | .error _ => s
  | .ok request =>
      let s := request.eventIds.foldl (deleteId event) s
      request.coordinates.foldl (deleteCoordinate event) s

/-- `MemoryStore::apply_vanish`. -/
def applyVanish (s : MemoryStore) (author : PublicKey) : MemoryStore :=
  let s := { s with vanishedAuthors := s.vanishedAuthors.insert author }
  let ids := ((s.byAuthor[author]?).map (fun set => set.toList.map EventKey.id)).getD []
  ids.foldl removeEventById s

/-- The `while` loop of `enforce_capacity`. -/
def evictLoop (max : Nat) : Nat → MemoryStore → MemoryStore
  | 0,        s => s
  | fuel + 1, s =>
      if s.byId.size ≤ max then s
      else match s.byTime.toList.getLast? with
        | none => s
        | some (key, _) => evictLoop max fuel (s.removeEventById key.id)

/-- `MemoryStore::enforce_capacity`. -/
def enforceCapacity (s : MemoryStore) : MemoryStore :=
  match s.options.maxEvents with
  | none => s
  | some max => evictLoop max s.byId.size s

/-- Steps 8 to 11 of `save_event`: the event is in. -/
def store (s : MemoryStore) (event : Event) : MemoryStore :=
  let s := if s.options.processNip09 && event.kind = Kind.eventDeletion then s.applyDeletion event else s
  let s := if s.options.processNip62 && event.kind = Kind.requestToVanish then
      s.applyVanish event.pubkey
    else s
  (s.insertEvent event).enforceCapacity

/-- Step 7 of `save_event`: the id that loses the event's slot, if the slot is taken. -/
def resolve (s : MemoryStore) (event : Event) : Option EventId :=
  match event.kind.isReplaceable, s.resolveReplaceable event with
  | true, some loserId => some loserId
  | _, _ => if event.kind.isAddressable then s.resolveAddressable event else none

/-- `MemoryStore::save_event`. -/
def saveEvent (s : MemoryStore) (event : Event) (now : Timestamp) : SaveEventStatus × MemoryStore :=
  if s.options.processNip62 && s.vanishedAuthors.contains event.pubkey then (.rejected .vanished, s)
  else if event.kind.isEphemeral then (.rejected .ephemeral, s)
  else if event.deadOnArrival now then (.rejected .expired, s)
  else if s.deletedIds.contains event.id then (.rejected .deleted, s)
  -- an addressable event must be newer than the deletion of its coordinate
  else if (addressableCoord event).any (fun coord =>
      (s.deletedCoordinates[coord]?).any (fun deletedAt => event.createdAt ≤ deletedAt)) then
    (.rejected .deleted, s)
  else if s.byId.contains event.id then (.rejected .duplicate, s)
  else match s.resolve event with
    | some loserId =>
        -- it is the newcomer that loses
        if loserId = event.id then (.rejected .replaced, s)
        else (.success, (s.removeEventById loserId).store event)
    | none => (.success, s.store event)

/-- `MemoryStore::delete_matching`. -/
def deleteMatching (s : MemoryStore) (filter : Filter) : MemoryStore :=
  ((s.queryKeys filter).map EventKey.id).foldl removeEventById s

/-- `MemoryStore::wipe`. -/
def wipe (s : MemoryStore) : MemoryStore := new s.options

end MemoryStore

/-! ## Runs -/

namespace MemoryStore

def step (s : MemoryStore) : StoreOp → MemoryStore
  | .saveEvent event now => (s.saveEvent event now).2
  | .deleteMatching filter => s.deleteMatching filter
  | .wipe => s.wipe

/-- The store after a sequence of writes. -/
def run (options : MemoryDatabaseOptions) (ops : List StoreOp) : MemoryStore :=
  ops.foldl step (new options)

end MemoryStore

end Nula
