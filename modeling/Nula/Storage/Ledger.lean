import Nula.Storage.Canonical

/-!
# `Storage.Ledger` — the abstract store both backends refine

What a store *is*, with every index forgotten: the live events by id, the ids and coordinates that
deletion requests have tombstoned, and the authors that vanished. A write is a single decision
(`refusal`, the first rule that rejects the event) followed by a single update (`accept`), each said
declaratively: an accepted event drops its rivals, takes out what it deletes, enters, and the oldest
events make room.

The backends are proved to compute these functions (`Storage.Memory.Refine`, `Storage.Redb.Refine`), so
a property of ledgers is a property of both.
-/

namespace Nula

open Std

/-! ## Options (`memory/options.rs`) -/

/-- `MemoryDatabaseOptions`. -/
structure MemoryDatabaseOptions where
  maxEvents : Option ℕ+
  processNip09 : Bool
  processNip62 : Bool

/-- `MemoryDatabaseOptions::default`. -/
def MemoryDatabaseOptions.default : MemoryDatabaseOptions := ⟨none, true, true⟩

/-- A write to a store. -/
inductive StoreOp where
  | saveEvent (event : Event) (now : Timestamp)
  | deleteMatching (filter : Filter)
  | wipe

/-! ## Slots

A replaceable event competes for its kind and author, an addressable one for its coordinate. The two
ranges of kinds are disjoint, so one key type serves both. -/

/-- The key an event competes for, `none` when any number of its like may be stored. -/
def slot (e : Event) : Option CoordKey :=
  if e.kind.isReplaceable then some (e.kind, e.pubkey, "") else addressableCoord e

/-- Two events compete for the same slot. -/
def rivals (x e : Event) : Bool := (slot e).isSome && decide (slot x = slot e)

theorem rivals_iff {x e : Event} : rivals x e = true ↔ ∃ k, slot x = some k ∧ slot e = some k := by
  rw [rivals, Bool.and_eq_true, decide_eq_true_eq, Option.isSome_iff_exists]
  constructor
  · rintro ⟨⟨k, hk⟩, h⟩
    exact ⟨k, h.trans hk, hk⟩
  · rintro ⟨k, hx, he⟩
    exact ⟨⟨k, he⟩, hx.trans he.symm⟩

theorem rivals_comm {x y : Event} (h : rivals x y = true) : rivals y x = true := by
  rw [rivals_iff] at h ⊢
  obtain ⟨k, hx, hy⟩ := h
  exact ⟨k, hy, hx⟩

theorem rivals_trans {x y z : Event} (h : rivals x y = true) (h' : rivals y z = true) :
    rivals x z = true := by
  rw [rivals_iff] at h h' ⊢
  obtain ⟨k, hx, hy⟩ := h
  obtain ⟨k', hy', hz⟩ := h'
  obtain rfl : k = k' := Option.some.inj (hy.symm.trans hy')
  exact ⟨k, hx, hz⟩

/-- The coordinate of an addressable event is its slot. -/
theorem slot_of_addressableCoord {e : Event} {c : CoordKey} (h : addressableCoord e = some c) :
    slot e = some c := by
  unfold slot
  split
  · rename_i hr
    rw [addressableCoord, Kind.not_addressable_of_replaceable hr] at h
    simp at h
  · exact h

theorem addressableCoord_kind {e : Event} {c : CoordKey} (h : addressableCoord e = some c) :
    e.kind.isAddressable = true ∧ c.1 = e.kind ∧ c.2.1 = e.pubkey := by
  unfold addressableCoord at h
  split at h
  · rename_i ha
    have := Option.some.inj h
    exact ⟨ha, by rw [← this], by rw [← this]⟩
  · cases h

/-- The rivals of a replaceable event are the events of its kind and author. -/
theorem rivals_of_replaceable {x e : Event} (he : e.kind.isReplaceable = true) :
    rivals x e = true ↔ x.kind = e.kind ∧ x.pubkey = e.pubkey := by
  have hs : slot e = some (e.kind, e.pubkey, "") := by rw [slot, if_pos he]
  rw [rivals_iff, hs]
  constructor
  · rintro ⟨k, hx, hk⟩
    obtain rfl := Option.some.inj hk
    unfold slot at hx
    split at hx
    · simp only [Option.some.injEq, Prod.mk.injEq] at hx
      exact ⟨hx.1, hx.2.1⟩
    · obtain ⟨_, hk, ha⟩ := addressableCoord_kind hx
      exact ⟨hk.symm, ha.symm⟩
  · rintro ⟨hk, ha⟩
    exact ⟨_, by rw [slot, if_pos (hk ▸ he), hk, ha], rfl⟩

/-- The rivals of an addressable event are the events at its coordinate. -/
theorem rivals_of_addressable {x e : Event} {c : CoordKey} (he : addressableCoord e = some c) :
    rivals x e = true ↔ addressableCoord x = some c := by
  rw [rivals_iff, slot_of_addressableCoord he]
  constructor
  · rintro ⟨k, hx, hk⟩
    obtain rfl := Option.some.inj hk
    unfold slot at hx
    split at hx
    · rename_i hr
      obtain rfl := Option.some.inj hx
      obtain ⟨ha, hk, _⟩ := addressableCoord_kind he
      have := Kind.not_addressable_of_replaceable hr
      simp only at hk
      rw [hk, ha] at this
      cases this
    · exact hx
  · intro hx
    exact ⟨c, slot_of_addressableCoord hx, rfl⟩

/-- Rivals have one author. -/
theorem rivals_pubkey {x e : Event} (h : rivals x e = true) : x.pubkey = e.pubkey := by
  have hauthor : ∀ {y : Event} {k : CoordKey}, slot y = some k → k.2.1 = y.pubkey := by
    intro y k hk
    unfold slot at hk
    split at hk
    · rw [← Option.some.inj hk]
    · exact (addressableCoord_kind hk).2.2
  obtain ⟨k, hx, he⟩ := rivals_iff.mp h
  rw [← hauthor hx, hauthor he]

theorem rivals_of_regular {x e : Event} (hr : e.kind.isReplaceable = false)
    (ha : e.kind.isAddressable = false) : rivals x e = false := by
  have : slot e = none := by simp [slot, hr, addressableCoord, ha]
  simp [rivals, this]

/-- Where live events sit under their ids, it is enough to look there for rivals. -/
theorem unrivalled {live : LiveMap} (h : live.Keyed) {e : Event}
    (hno : ∀ x : Event, live[x.id]? = some x → rivals x e ≠ true) :
    ∀ (k : EventId) (x : Event), live[k]? = some x → rivals x e = false := by
  intro k x hx
  rw [← h k x hx] at hx
  exact Bool.eq_false_iff.mpr (hno x hx)

/-- Newest wins, ties go to the smaller id: the loser is the event that comes later on the wire. -/
theorem loser_eq {x e : Event} (hne : x.id ≠ e.id) :
    (match compare x.createdAt e.createdAt with
      | .gt => e.id
      | .lt => x.id
      | .eq => if (compare x.id e.id).isLE then e.id else x.id)
      = if x.precedes e then e.id else x.id := by
  cases hts : compare x.createdAt e.createdAt with
  | gt =>
      have hlt : e.createdAt < x.createdAt := Std.compare_eq_lt.mp (OrientedCmp.gt_iff_lt.mp hts)
      rw [if_pos (Event.precedes_iff.mpr (Or.inl hlt))]
  | lt =>
      have hlt : x.createdAt < e.createdAt := Std.compare_eq_lt.mp hts
      have hnp : ¬ x.precedes e := by
        intro hp
        rcases Event.precedes_iff.mp hp with h | ⟨h, _⟩
        · exact absurd h (by grind)
        · exact absurd hlt (by rw [h]; grind)
      rw [if_neg hnp]
  | eq =>
      have heq : x.createdAt = e.createdAt := Std.compare_eq_iff_eq.mp hts
      cases hid : compare x.id e.id with
      | lt => simp [Event.precedes_iff, heq, hid]
      | eq => exact absurd (Std.compare_eq_iff_eq.mp hid) hne
      | gt => simp [Event.precedes_iff, heq, hid]

/-! ## The ledger -/

/-- What a store knows: the events it holds, and the tombstones. -/
@[ext] structure Ledger where
  live : LiveMap
  deletedIds : HashSet EventId
  deletedCoordinates : HashMap CoordKey Timestamp
  vanishedAuthors : HashSet PublicKey

/-- Raise the stamp of a coordinate to at least `ts`. -/
def bumpStamp (m : HashMap CoordKey Timestamp) (key : CoordKey) (ts : Timestamp) :
    HashMap CoordKey Timestamp :=
  match m[key]? with
  | none => m.insert key ts
  | some stamp => if stamp < ts then m.insert key ts else m

/-- The key of a coordinate. -/
def Coordinate.key (c : Coordinate) : CoordKey := (c.kind, c.author, c.identifier)

/-- The stored events a request takes out: its author's own, named by id, or at a named coordinate and
    not newer than the request. -/
def DeletionRequest.deletes (r : DeletionRequest) (request x : Event) : Bool :=
  decide (x.pubkey = request.pubkey) &&
    (decide (x.id ∈ r.eventIds) ||
      (r.coordinates.any (fun c => addressableCoord x = some c.key) &&
        decide (x.createdAt ≤ request.createdAt)))

namespace Ledger

/-- Nothing. -/
def empty : Ledger := ⟨∅, ∅, ∅, ∅⟩

/-- Keep the live events satisfying `p`; everything else stays. -/
def keep (L : Ledger) (p : Event → Bool) : Ledger := { L with live := L.live.filter (fun _ x => p x) }

/-- The event's coordinate was deleted by a request at least as new as the event. -/
def stamped (L : Ledger) (e : Event) : Bool :=
  match addressableCoord e with
  | none => false
  | some coord => match L.deletedCoordinates[coord]? with
    | none => false
    | some deletedAt => decide (e.createdAt ≤ deletedAt)

/-- A live rival comes before the event. -/
def beaten (L : Ledger) (e : Event) : Bool :=
  (listing L.live).any (fun x => rivals x e && decide (x.precedes e))

/-- The first rule that rejects the event. -/
def refusal (o : MemoryDatabaseOptions) (L : Ledger) (e : Event) (now : Timestamp) :
    Option RejectedReason :=
  if o.processNip62 && L.vanishedAuthors.contains e.pubkey then some .vanished
  else if e.kind.isEphemeral then some .ephemeral
  else if e.deadOnArrival now then some .expired
  else if L.deletedIds.contains e.id then some .deleted
  else if L.stamped e then some .deleted
  else if L.live.contains e.id then some .duplicate
  else if L.beaten e then some .replaced
  else none

/-- A request tombstones an id it owns, or one nobody holds. -/
def tombstones (L : Ledger) (request : Event) (id : EventId) : Bool :=
  match L.live[id]? with
  | none => true
  | some x => decide (x.pubkey = request.pubkey)

/-- The effect of a deletion request; a malformed one has none. -/
def applyDeletion (L : Ledger) (request : Event) : Ledger :=
  match DeletionRequest.fromEvent request with
  | .error _ => L
  | .ok r =>
      { L with
        live := L.live.filter (fun _ x => !r.deletes request x)
        deletedIds := (r.eventIds.filter (L.tombstones request)).foldl ExtTreeSet.insert L.deletedIds
        deletedCoordinates :=
          (r.coordinates.filter (fun c => c.author = request.pubkey)).foldl
            (fun m c => bumpStamp m c.key request.createdAt) L.deletedCoordinates }

/-- A vanish request purges its author. -/
def applyVanish (L : Ledger) (author : PublicKey) : Ledger :=
  { L.keep (fun x => decide (x.pubkey ≠ author)) with
    vanishedAuthors := L.vanishedAuthors.insert author }

/-- Drop the last live event in wire order until at most `max` are left. -/
def evict (max : Nat) : Nat → LiveMap → LiveMap
  | 0,        live => live
  | fuel + 1, live =>
      if live.size ≤ max then live
      else match (listing live).getLast? with
        | none => live
        | some e => evict max fuel (live.erase e.id)

/-- Evict down to the capacity, if there is one. -/
def enforceCapacity (o : MemoryDatabaseOptions) (L : Ledger) : Ledger :=
  match o.maxEvents with
  | none => L
  | some max => { L with live := evict max L.live.size L.live }

/-- Everything an accepted event does before it enters. -/
def prepare (o : MemoryDatabaseOptions) (L : Ledger) (e : Event) : Ledger :=
  let L := L.keep (fun x => !rivals x e)
  let L := if o.processNip09 && e.kind = Kind.eventDeletion then L.applyDeletion e else L
  if o.processNip62 && e.kind = Kind.requestToVanish then L.applyVanish e.pubkey else L

/-- Enter the event. -/
def enter (L : Ledger) (e : Event) : Ledger := { L with live := L.live.insert e.id e }

/-- Store an event no rule rejects. -/
def accept (o : MemoryDatabaseOptions) (L : Ledger) (e : Event) : Ledger :=
  ((L.prepare o e).enter e).enforceCapacity o

/-- Refuse, or accept and make room. -/
def saveEvent (o : MemoryDatabaseOptions) (L : Ledger) (e : Event) (now : Timestamp) :
    SaveEventStatus × Ledger :=
  match L.refusal o e now with
  | some reason => (.rejected reason, L)
  | none => (.success, L.accept o e)

/-! ## Verdicts -/

/-- What no rule rejects. The rules are peeled off one at a time, in the order of the source. -/
theorem refusal_eq_none_iff {o : MemoryDatabaseOptions} {L : Ledger} {e : Event}
    {now : Timestamp} : L.refusal o e now = none ↔
    (o.processNip62 && L.vanishedAuthors.contains e.pubkey) = false ∧ e.kind.isEphemeral = false ∧
      e.deadOnArrival now = false ∧ L.deletedIds.contains e.id = false ∧ L.stamped e = false ∧
      L.live.contains e.id = false ∧ L.beaten e = false := by
  unfold refusal
  constructor
  · intro h
    split at h
    · cases h
    rename_i h1
    split at h
    · cases h
    rename_i h2
    split at h
    · cases h
    rename_i h3
    split at h
    · cases h
    rename_i h4
    split at h
    · cases h
    rename_i h5
    split at h
    · cases h
    rename_i h6
    split at h
    · cases h
    rename_i h7
    simp only [Bool.eq_false_iff, ne_eq]
    exact ⟨h1, h2, h3, h4, h5, h6, h7⟩
  · rintro ⟨h1, h2, h3, h4, h5, h6, h7⟩
    simp [h1, h2, h3, h4, h5, h6, h7]

/-- The id of an accepted event was free. -/
theorem live_of_refusal_none {o : MemoryDatabaseOptions} {L : Ledger} {e : Event} {now : Timestamp}
    (h : L.refusal o e now = none) : L.live[e.id]? = none := by
  obtain ⟨_, _, _, _, _, hfresh, _⟩ := refusal_eq_none_iff.mp h
  exact ExtTreeMap.getElem?_eq_none_of_contains_eq_false hfresh

/-- A save is a rejection that changes nothing, or it stores the event. -/
theorem saveEvent_cases (o : MemoryDatabaseOptions) (L : Ledger) (e : Event) (now : Timestamp) :
    (∃ reason, L.refusal o e now = some reason ∧ L.saveEvent o e now = (.rejected reason, L)) ∨
      (L.refusal o e now = none ∧ L.saveEvent o e now = (.success, L.accept o e)) := by
  unfold saveEvent
  cases hr : L.refusal o e now with
  | some reason => exact Or.inl ⟨reason, rfl, rfl⟩
  | none => exact Or.inr ⟨rfl, rfl⟩

/-! ## What each update touches -/

section Frames

variable (o : MemoryDatabaseOptions) (L : Ledger) (e : Event)

@[simp] theorem keep_deletedIds (p : Event → Bool) : (L.keep p).deletedIds = L.deletedIds := rfl
@[simp] theorem keep_deletedCoordinates (p : Event → Bool) :
    (L.keep p).deletedCoordinates = L.deletedCoordinates := rfl
@[simp] theorem keep_vanishedAuthors (p : Event → Bool) :
    (L.keep p).vanishedAuthors = L.vanishedAuthors := rfl

theorem keep_live {p : Event → Bool} {id : EventId} {x : Event} :
    (L.keep p).live[id]? = some x ↔ L.live[id]? = some x ∧ p x = true := by
  simp only [keep, ExtTreeMap.getElem?_filter', Option.filter_eq_some_iff]

@[simp] theorem enforceCapacity_deletedIds : (L.enforceCapacity o).deletedIds = L.deletedIds := by
  unfold enforceCapacity; split <;> rfl
@[simp] theorem enforceCapacity_deletedCoordinates :
    (L.enforceCapacity o).deletedCoordinates = L.deletedCoordinates := by
  unfold enforceCapacity; split <;> rfl
@[simp] theorem enforceCapacity_vanishedAuthors :
    (L.enforceCapacity o).vanishedAuthors = L.vanishedAuthors := by
  unfold enforceCapacity; split <;> rfl

@[simp] theorem enter_deletedIds : (L.enter e).deletedIds = L.deletedIds := rfl
@[simp] theorem enter_deletedCoordinates :
    (L.enter e).deletedCoordinates = L.deletedCoordinates := rfl
@[simp] theorem enter_vanishedAuthors : (L.enter e).vanishedAuthors = L.vanishedAuthors := rfl

theorem enter_live {id : EventId} {x : Event} :
    (L.enter e).live[id]? = some x ↔ (id = e.id ∧ x = e) ∨ (id ≠ e.id ∧ L.live[id]? = some x) := by
  rw [enter, ExtTreeMap.getElem?_insert]
  by_cases h : id = e.id
  · subst h
    simp only [Std.compare_self, if_true, Option.some.injEq, true_and, ne_eq, not_true_eq_false,
      false_and, or_false]
    exact eq_comm
  · simp [h, Ne.symm h]

@[simp] theorem applyDeletion_vanishedAuthors :
    (L.applyDeletion e).vanishedAuthors = L.vanishedAuthors := by
  unfold applyDeletion; split <;> rfl

end Frames

/-! ## Deletion, target by target

The backends handle the ids of a request first and then its coordinates one after the other; the
declarative `applyDeletion` is the composition. -/

/-- The id targets of a request. -/
def deleteIds (request : Event) (ids : List EventId) (L : Ledger) : Ledger :=
  { L with
    live := L.live.filter (fun _ x => !(decide (x.pubkey = request.pubkey) && decide (x.id ∈ ids)))
    deletedIds := (ids.filter (L.tombstones request)).foldl ExtTreeSet.insert L.deletedIds }

theorem contains_foldl_insert (ids : List EventId) (d : HashSet EventId) (id : EventId) :
    (ids.foldl ExtTreeSet.insert d).contains id = true ↔ d.contains id = true ∨ id ∈ ids := by
  induction ids generalizing d with
  | nil => simp
  | cons a ids ih =>
      rw [List.foldl_cons, ih, ExtTreeSet.contains_insert]
      simp only [Bool.or_eq_true, beq_iff_eq, Std.compare_eq_iff_eq, List.mem_cons]
      constructor
      · rintro ((rfl | hd) | hi)
        · exact Or.inr (Or.inl rfl)
        · exact Or.inl hd
        · exact Or.inr (Or.inr hi)
      · rintro (hd | rfl | hi)
        · exact Or.inl (Or.inr hd)
        · exact Or.inl (Or.inl rfl)
        · exact Or.inr hi

/-- What a request may tombstone does not change while its own targets are removed. -/
theorem tombstones_deleteIds (L : Ledger) (request : Event) (ids : List EventId) :
    (L.deleteIds request ids).tombstones request = L.tombstones request := by
  funext id
  simp only [tombstones, deleteIds, ExtTreeMap.getElem?_filter']
  cases hx : L.live[id]? with
  | none => rfl
  | some x =>
      by_cases hown : x.pubkey = request.pubkey
      · by_cases hid : x.id ∈ ids <;> simp [Option.filter, hown, hid]
      · simp [Option.filter, hown]

theorem deleteIds_nil (L : Ledger) (request : Event) : L.deleteIds request [] = L := by
  ext1
  · exact LiveMap.filter_eq_self (fun _ _ _ => by simp)
  all_goals rfl

/-- **Ids are deleted one by one**: whether an event is the author's does not depend on which were deleted before. -/
theorem deleteIds_cons (L : Ledger) (request : Event) (id : EventId) (ids : List EventId) :
    (L.deleteIds request [id]).deleteIds request ids = L.deleteIds request (id :: ids) := by
  have ht := tombstones_deleteIds L request [id]
  ext1
  · simp only [deleteIds, LiveMap.filter_filter, List.mem_cons, List.not_mem_nil, or_false]
    refine LiveMap.filter_congr (fun k x _ => ?_)
    by_cases hown : x.pubkey = request.pubkey <;> simp [hown]
  · show (ids.filter ((L.deleteIds request [id]).tombstones request)).foldl ExtTreeSet.insert
        (([id].filter (L.tombstones request)).foldl ExtTreeSet.insert L.deletedIds)
      = ((id :: ids).filter (L.tombstones request)).foldl ExtTreeSet.insert L.deletedIds
    rw [ht]
    by_cases hid : L.tombstones request id = true
    · simp [hid]
    · simp [hid]
  all_goals rfl

/-- The event is at the coordinate and not newer than the request. -/
def covers (request : Event) (c : Coordinate) (x : Event) : Bool :=
  decide (addressableCoord x = some c.key) && decide (x.createdAt ≤ request.createdAt)

/-- One coordinate target of a request. -/
def deleteCoordinate (request : Event) (L : Ledger) (c : Coordinate) : Ledger :=
  if c.author = request.pubkey then
    { L with
      live := L.live.filter (fun _ x => !covers request c x)
      deletedCoordinates := bumpStamp L.deletedCoordinates c.key request.createdAt }
  else L

theorem foldl_deleteCoordinate (request : Event) (cs : List Coordinate) (L : Ledger) :
    cs.foldl (deleteCoordinate request) L =
      { L with
        live := L.live.filter (fun _ x =>
          !cs.any (fun c => decide (c.author = request.pubkey) && covers request c x))
        deletedCoordinates := (cs.filter (fun c => c.author = request.pubkey)).foldl
          (fun m c => bumpStamp m c.key request.createdAt) L.deletedCoordinates } := by
  induction cs generalizing L with
  | nil =>
      have hall : L.live.filter (fun _ _ => true) = L.live := LiveMap.filter_eq_self (fun _ _ _ => rfl)
      ext1 <;> simp [hall]
  | cons c cs ih =>
      rw [List.foldl_cons, ih, deleteCoordinate]
      by_cases hc : c.author = request.pubkey
      · simp only [hc, if_true, LiveMap.filter_filter, decide_true, List.filter_cons_of_pos, List.foldl_cons,
          List.any_cons, Bool.true_and, Bool.not_or]
      · simp only [hc, if_false, decide_false, Bool.false_eq_true, not_false_eq_true,
          List.filter_cons_of_neg, List.any_cons, Bool.false_and, Bool.false_or]

/-- A coordinate carries its author, so only the requester's own events are covered. -/
theorem deletes_eq (r : DeletionRequest) (request x : Event) :
    r.deletes request x = (decide (x.pubkey = request.pubkey) && decide (x.id ∈ r.eventIds) ||
      r.coordinates.any (fun c => decide (c.author = request.pubkey) && covers request c x)) := by
  have hauthor : ∀ c : Coordinate, addressableCoord x = some c.key → c.author = x.pubkey := by
    intro c hc
    unfold addressableCoord at hc
    split at hc
    · have := Option.some.inj hc
      exact (congrArg (fun k : CoordKey => k.2.1) this).symm
    · cases hc
  rw [Bool.eq_iff_iff]
  simp only [DeletionRequest.deletes, covers, Bool.and_eq_true, Bool.or_eq_true, decide_eq_true_eq,
    List.any_eq_true]
  constructor
  · rintro ⟨hown, hid | ⟨⟨c, hc, hx⟩, hts⟩⟩
    · exact Or.inl ⟨hown, hid⟩
    · exact Or.inr ⟨c, hc, (hauthor c hx).trans hown, hx, hts⟩
  · rintro (⟨hown, hid⟩ | ⟨c, hc, hca, hx, hts⟩)
    · exact ⟨hown, Or.inl hid⟩
    · exact ⟨(hauthor c hx).symm.trans hca, Or.inr ⟨⟨c, hc, hx⟩, hts⟩⟩

/-- A deletion is its ids, and then its coordinates. -/
theorem applyDeletion_eq {L : Ledger} {request : Event} {r : DeletionRequest}
    (h : DeletionRequest.fromEvent request = .ok r) :
    L.applyDeletion request
      = r.coordinates.foldl (deleteCoordinate request) (L.deleteIds request r.eventIds) := by
  rw [foldl_deleteCoordinate, applyDeletion, h]
  simp only [deleteIds, LiveMap.filter_filter, deletes_eq, Bool.not_or]

/-! ## Well-formed ledgers -/

/-- Every live event of `L'` is live in `L`. -/
def Below (L' L : Ledger) : Prop := ∀ (id : EventId) (x : Event), L'.live[id]? = some x → L.live[id]? = some x

theorem Below.refl (L : Ledger) : Below L L := fun _ _ h => h

theorem Below.trans {L₁ L₂ L₃ : Ledger} (h : Below L₁ L₂) (h' : Below L₂ L₃) : Below L₁ L₃ :=
  fun id x hx => h' id x (h id x hx)

theorem keep_below (L : Ledger) (p : Event → Bool) : Below (L.keep p) L :=
  fun _ _ h => ((keep_live L).mp h).1

theorem deleteIds_below (L : Ledger) (d : Event) (ids : List EventId) : Below (L.deleteIds d ids) L :=
  fun _ _ h => ((keep_live L).mp h).1

theorem deleteCoordinate_below (L : Ledger) (d : Event) (c : Coordinate) :
    Below (L.deleteCoordinate d c) L := by
  unfold deleteCoordinate
  split
  · exact fun _ _ h => ((keep_live L).mp h).1
  · exact Below.refl L

theorem applyDeletion_below (L : Ledger) (d : Event) : Below (L.applyDeletion d) L := by
  unfold applyDeletion
  split
  · exact Below.refl L
  · exact fun id x h => ((keep_live L).mp h).1

theorem applyVanish_below (L : Ledger) (a : PublicKey) : Below (L.applyVanish a) L :=
  keep_below L _

theorem prepare_below (o : MemoryDatabaseOptions) (L : Ledger) (e : Event) : Below (L.prepare o e) L := by
  have h₁ : Below (L.keep (fun x => !rivals x e)) L := keep_below L _
  unfold prepare
  split <;> split
  · exact ((applyVanish_below _ _).trans (applyDeletion_below _ _)).trans h₁
  · exact (applyDeletion_below _ _).trans h₁
  · exact (applyVanish_below _ _).trans h₁
  · exact h₁

/-- The preparation removes every rival. -/
theorem prepare_not_rivals {o : MemoryDatabaseOptions} {L : Ledger} {e : Event} {id : EventId}
    {x : Event} (h : (L.prepare o e).live[id]? = some x) : rivals x e = false := by
  have hkeep : Below (L.prepare o e) (L.keep (fun x => !rivals x e)) := by
    unfold prepare
    split <;> split
    · exact (applyVanish_below _ _).trans (applyDeletion_below _ _)
    · exact applyDeletion_below _ _
    · exact applyVanish_below _ _
    · exact Below.refl _
  simpa using ((keep_live L).mp (hkeep id x h)).2

theorem evict_below (max fuel : Nat) (live : LiveMap) (id : EventId) (x : Event)
    (h : (evict max fuel live)[id]? = some x) : live[id]? = some x := by
  induction fuel generalizing live with
  | zero => exact h
  | succ fuel ih =>
      rw [evict] at h
      split at h
      · exact h
      · split at h
        · exact h
        · have := ih _ h
          rw [ExtTreeMap.getElem?_erase] at this
          split at this
          · cases this
          · exact this

theorem enforceCapacity_below (o : MemoryDatabaseOptions) (L : Ledger) :
    Below (L.enforceCapacity o) L := by
  intro id x h
  unfold enforceCapacity at h
  split at h
  · exact h
  · exact evict_below _ _ _ id x h

/-- Events sit under their ids, and no two of them compete. -/
structure WF (L : Ledger) : Prop where
  keyed : L.live.Keyed
  unique : ∀ x y : Event, L.live[x.id]? = some x → L.live[y.id]? = some y → rivals x y = true → x = y

/-- Only a live rival can beat an event. -/
theorem beaten_iff {L : Ledger} (hk : L.live.Keyed) {e : Event} : L.beaten e = true ↔
    ∃ x : Event, L.live[x.id]? = some x ∧ rivals x e = true ∧ x.precedes e := by
  simp only [beaten, List.any_eq_true, hk.mem_listing, Bool.and_eq_true, decide_eq_true_eq]

/-- A live event is found under its own id. -/
theorem WF.live_id {L : Ledger} (h : WF L) {k : EventId} {x : Event} (hx : L.live[k]? = some x) :
    L.live[x.id]? = some x := by
  rw [h.keyed k x hx]
  exact hx

/-- Keeping what all live events satisfy changes nothing. -/
theorem keep_eq_self {L : Ledger} {p : Event → Bool}
    (h : ∀ (k : EventId) (x : Event), L.live[k]? = some x → p x = true) : L.keep p = L := by
  ext1
  · exact LiveMap.filter_eq_self h
  all_goals rfl

theorem keep_congr {L : Ledger} {p q : Event → Bool}
    (h : ∀ (k : EventId) (x : Event), L.live[k]? = some x → p x = q x) : L.keep p = L.keep q := by
  ext1
  · exact LiveMap.filter_congr h
  all_goals rfl

theorem keep_keep (L : Ledger) (p q : Event → Bool) :
    (L.keep p).keep q = L.keep (fun x => p x && q x) := by
  ext1
  · exact LiveMap.filter_filter p q
  all_goals rfl

/-- Dropping the one live event that satisfies `p` is dropping its id. -/
theorem WF.keep_id {L : Ledger} (h : WF L) {w : Event} (hw : L.live[w.id]? = some w) {p : Event → Bool}
    (hp : p w = true)
    (honly : ∀ (k : EventId) (x : Event), L.live[k]? = some x → p x = true → x = w) :
    L.keep (fun x => decide (x.id ≠ w.id)) = L.keep (fun x => !p x) := by
  refine keep_congr (fun k x hx => ?_)
  by_cases hid : x.id = w.id
  · have hxw : x = w := by
      rw [← h.keyed k x hx, hid, hw] at hx
      exact (Option.some.inj hx).symm
    simp [hxw, hp]
  · have hpx : p x = false := by
      rw [Bool.eq_false_iff]
      exact fun hpx => hid (by rw [honly k x hx hpx])
    simp [hid, hpx]

/-- Without a live event at the coordinate, the coordinate target removes nothing. -/
theorem keep_covers_of_none {L : Ledger} {request : Event} {c : Coordinate}
    (h : ∀ (k : EventId) (x : Event), L.live[k]? = some x → addressableCoord x ≠ some c.key) :
    L.keep (fun x => !covers request c x) = L :=
  keep_eq_self (fun k x hx => by simp [covers, h k x hx])

/-- With a live event at the coordinate, the target removes that one unless it is newer. -/
theorem WF.keep_covers {L : Ledger} (h : WF L) {request : Event} {c : Coordinate} {w : Event}
    (hw : L.live[w.id]? = some w) (hwc : addressableCoord w = some c.key) :
    L.keep (fun x => !covers request c x) =
      if w.createdAt ≤ request.createdAt then L.keep (fun x => decide (x.id ≠ w.id)) else L := by
  have honly : ∀ (k : EventId) (x : Event), L.live[k]? = some x → addressableCoord x = some c.key →
      x = w :=
    fun k x hx hxc => h.unique x w (h.live_id hx) hw ((rivals_of_addressable hwc).mpr hxc)
  by_cases hts : w.createdAt ≤ request.createdAt
  · rw [if_pos hts]
    refine (h.keep_id hw (by simp [covers, hwc, hts]) (fun k x hx hcov => ?_)).symm
    simp only [covers, Bool.and_eq_true, decide_eq_true_eq] at hcov
    exact honly k x hx hcov.1
  · rw [if_neg hts]
    refine keep_eq_self (fun k x hx => ?_)
    by_cases hxc : addressableCoord x = some c.key
    · simp [covers, honly k x hx hxc, hts]
    · simp [covers, hxc]

/-- With a live rival, the slot is contested with that one only. -/
theorem WF.rival {L : Ledger} (h : WF L) {x e : Event} (hx : L.live[x.id]? = some x)
    (hriv : rivals x e = true) :
    (L.beaten e = true ↔ x.precedes e) ∧
      L.keep (fun y => decide (y.id ≠ x.id)) = L.keep (fun y => !rivals y e) := by
  have hone : ∀ (k : EventId) (y : Event), L.live[k]? = some y → rivals y e = true → y = x :=
    fun k y hy hry => h.unique y x (h.live_id hy) hx (rivals_trans hry (rivals_comm hriv))
  refine ⟨?_, h.keep_id hx hriv hone⟩
  rw [beaten_iff h.keyed]
  constructor
  · rintro ⟨y, hy, hry, hp⟩
    rw [hone y.id y hy hry] at hp
    exact hp
  · intro hp
    exact ⟨x, hx, hriv, hp⟩

/-- Without one, nothing is contested. -/
theorem WF.no_rival {L : Ledger} (h : WF L) {e : Event}
    (hno : ∀ (k : EventId) (x : Event), L.live[k]? = some x → rivals x e = false) :
    L.beaten e = false ∧ L.keep (fun y => !rivals y e) = L := by
  refine ⟨?_, keep_eq_self (fun k x hx => by simp [hno k x hx])⟩
  rw [Bool.eq_false_iff]
  intro hb
  obtain ⟨y, hy, hry, _⟩ := (beaten_iff h.keyed).mp hb
  rw [hno y.id y hy] at hry
  cases hry

theorem wf_empty : WF empty where
  keyed := by intro id e h; simp [empty] at h
  unique := by intro x y h; simp [empty] at h

theorem WF.mono {L L' : Ledger} (h : WF L) (hb : Below L' L) : WF L' where
  keyed := fun id e he => h.keyed id e (hb id e he)
  unique := fun x y hx hy => h.unique x y (hb _ _ hx) (hb _ _ hy)

/-- Entering an event that has no rival keeps a ledger well formed. -/
theorem WF.enter {L : Ledger} (h : WF L) {e : Event}
    (hno : ∀ (id : EventId) (x : Event), L.live[id]? = some x → rivals x e = false) :
    WF (L.enter e) where
  keyed := by
    intro id x hx
    rcases (enter_live L e).mp hx with ⟨rfl, rfl⟩ | ⟨_, hx⟩
    · rfl
    · exact h.keyed id x hx
  unique := by
    intro x y hx hy hr
    rcases (enter_live L e).mp hx with ⟨_, hxe⟩ | ⟨_, hx'⟩
    · rcases (enter_live L e).mp hy with ⟨_, hye⟩ | ⟨_, hy'⟩
      · rw [hxe, hye]
      · rw [hxe] at hr
        exact absurd (rivals_comm hr) (by simp [hno _ y hy'])
    · rcases (enter_live L e).mp hy with ⟨_, hye⟩ | ⟨_, hy'⟩
      · rw [hye] at hr
        exact absurd hr (by simp [hno _ x hx'])
      · exact h.unique x y hx' hy' hr

theorem WF.prepare {L : Ledger} (h : WF L) (o : MemoryDatabaseOptions) (e : Event) :
    WF (L.prepare o e) :=
  h.mono (prepare_below o L e)

/-- **Accepting an event keeps a ledger well formed.** -/
theorem WF.accept {L : Ledger} (h : WF L) (o : MemoryDatabaseOptions) (e : Event) :
    WF (L.accept o e) := by
  have hno : ∀ (id : EventId) (x : Event), (L.prepare o e).live[id]? = some x → rivals x e = false :=
    fun id x hx => prepare_not_rivals hx
  exact ((h.prepare o e).enter hno).mono (enforceCapacity_below o _)

/-- **A save keeps the order**: an event enters where it has no rival left, and the rest was there before. -/
theorem WF.saveEvent {L : Ledger} (h : WF L) (o : MemoryDatabaseOptions) (e : Event) (now : Timestamp) :
    WF (L.saveEvent o e now).2 := by
  unfold Ledger.saveEvent
  split
  · exact h
  · exact h.accept o e

/-! ## Capacity -/

/-- **Eviction cuts the listing**: with enough fuel the first `max` events stay. -/
theorem listing_evict {max fuel : Nat} {live : LiveMap} (hk : live.Keyed)
    (hfuel : live.size ≤ max + fuel) : listing (evict max fuel live) = (listing live).take max := by
  have hfits : ∀ live : LiveMap, live.size ≤ max → listing live = (listing live).take max := by
    intro live hsize
    rw [List.take_of_length_le]
    rw [LiveMap.length_listing]
    exact hsize
  induction fuel generalizing live with
  | zero => exact hfits live hfuel
  | succ fuel ih =>
      rw [evict]
      split
      · rename_i hsize
        exact hfits live hsize
      · rename_i hsize
        have hlen := LiveMap.length_listing live
        cases hlast : (listing live).getLast? with
        | none =>
            rw [List.getLast?_eq_none_iff.mp hlast, List.length_nil] at hlen
            omega
        | some e =>
            have hlive : live[e.id]? = some e := hk.mem_listing.mp (List.mem_of_getLast? hlast)
            have hsize' : (live.erase e.id).size = live.size - 1 := by
              rw [ExtTreeMap.size_erase,
                if_pos (by simp [ExtTreeMap.contains_eq_isSome_getElem?, hlive])]
            dsimp only
            rw [ih (hk.erase e.id) (by omega), hk.listing_erase_last hlast, List.dropLast_eq_take,
              List.take_take, Nat.min_eq_left (by omega)]

theorem enforceCapacity_size {o : MemoryDatabaseOptions} {L : Ledger} (hk : L.live.Keyed) {n : ℕ+}
    (hn : o.maxEvents = some n) : (L.enforceCapacity o).live.size ≤ n := by
  unfold enforceCapacity
  rw [hn, ← LiveMap.length_listing]
  dsimp only
  rw [listing_evict hk (by omega)]
  exact List.length_take_le _ _

/-- Enforcing the capacity cuts the listing at the cap, if there is one. -/
theorem listing_enforceCapacity {o : MemoryDatabaseOptions} {L : Ledger} (hk : L.live.Keyed) :
    listing (L.enforceCapacity o).live = takeLimit (o.maxEvents.map PNat.val) (listing L.live) := by
  unfold enforceCapacity
  cases o.maxEvents with
  | none => rfl
  | some max => exact listing_evict hk (by omega)

/-- The live events fit the cap. -/
def Bounded (o : MemoryDatabaseOptions) (L : Ledger) : Prop :=
  ∀ n : ℕ+, o.maxEvents = some n → L.live.size ≤ n

theorem Bounded.saveEvent {o : MemoryDatabaseOptions} {L : Ledger} (h : Bounded o L) (hwf : WF L)
    (e : Event) (now : Timestamp) : Bounded o (L.saveEvent o e now).2 := by
  intro n hn
  unfold Ledger.saveEvent
  split
  · exact h n hn
  · have hk : ((L.prepare o e).enter e).live.Keyed :=
      ((hwf.prepare o e).enter (fun _ _ hx => prepare_not_rivals hx)).keyed
    exact enforceCapacity_size hk hn

theorem Bounded.keep {o : MemoryDatabaseOptions} {L : Ledger} (h : Bounded o L) (p : Event → Bool) :
    Bounded o (L.keep p) := by
  intro n hn
  exact (ExtTreeMap.size_filter_le_size).trans (h n hn)

/-! ## Runs

A save is a function of the ledger. An administrative delete keeps some part of the live events; which
part is the backend's business, so the relation allows any. -/

/-- What one operation may do to the ledger. -/
inductive Step (o : MemoryDatabaseOptions) : StoreOp → Ledger → Ledger → Prop where
  | saveEvent (e : Event) (now : Timestamp) (L : Ledger) :
      Step o (.saveEvent e now) L (L.saveEvent o e now).2
  | deleteMatching (f : Filter) (p : Event → Bool) (L : Ledger) : Step o (.deleteMatching f) L (L.keep p)
  | wipe (L : Ledger) : Step o .wipe L empty

inductive Runs (o : MemoryDatabaseOptions) : List StoreOp → Ledger → Ledger → Prop where
  | nil (L : Ledger) : Runs o [] L L
  | cons {op : StoreOp} {ops : List StoreOp} {L L' L'' : Ledger} :
      Step o op L L' → Runs o ops L' L'' → Runs o (op :: ops) L L''

/-- **The invariant rule**: what every step of the run preserves, the run preserves. -/
theorem Runs.invariant {o : MemoryDatabaseOptions} {ops : List StoreOp} {L L' : Ledger}
    (hrun : Runs o ops L L') {I : Ledger → Prop}
    (hstep : ∀ op ∈ ops, ∀ L L' : Ledger, I L → Step o op L L' → I L') (h : I L) : I L' := by
  induction hrun with
  | nil L => exact h
  | cons hs _ ih =>
      exact ih (fun op hop => hstep op (List.mem_cons_of_mem _ hop))
        (hstep _ List.mem_cons_self _ _ h hs)

theorem Step.wf {o : MemoryDatabaseOptions} {op : StoreOp} {L L' : Ledger} (h : Step o op L L')
    (hwf : WF L) : WF L' := by
  cases h with
  | saveEvent e now => exact hwf.saveEvent o e now
  | deleteMatching f p => exact hwf.mono (keep_below L p)
  | wipe => exact wf_empty

theorem Step.bounded {o : MemoryDatabaseOptions} {op : StoreOp} {L L' : Ledger} (h : Step o op L L')
    (hwf : WF L) (hb : Bounded o L) : Bounded o L' := by
  cases h with
  | saveEvent e now => exact hb.saveEvent hwf e now
  | deleteMatching f p => exact hb.keep p
  | wipe =>
      intro n _
      simp [empty]

/-- **Every ledger a run reaches is well formed and fits the cap.** -/
theorem Runs.sound {o : MemoryDatabaseOptions} {ops : List StoreOp} {L : Ledger}
    (hrun : Runs o ops empty L) : WF L ∧ Bounded o L := by
  refine hrun.invariant (I := fun L => WF L ∧ Bounded o L) ?_ ⟨wf_empty, ?_⟩
  · intro op _ L L' h hs
    exact ⟨hs.wf h.1, hs.bounded h.1 h.2⟩
  · intro n _
    simp [empty]

/-! ## The reference run

What every write is meant to do, as a function: an administrative delete removes exactly the events its
filter admits. -/

def step (o : MemoryDatabaseOptions) (L : Ledger) : StoreOp → Ledger
  | .saveEvent e now => (L.saveEvent o e now).2
  | .deleteMatching f => L.keep (fun x => !f.admits x)
  | .wipe => empty

def run (o : MemoryDatabaseOptions) (ops : List StoreOp) : Ledger := ops.foldl (step o) empty

theorem step_spec (o : MemoryDatabaseOptions) (L : Ledger) (op : StoreOp) : Step o op L (L.step o op) := by
  cases op with
  | saveEvent e now => exact .saveEvent e now L
  | deleteMatching f => exact .deleteMatching f _ L
  | wipe => exact .wipe L

theorem foldl_runs (o : MemoryDatabaseOptions) (L : Ledger) (ops : List StoreOp) :
    Runs o ops L (ops.foldl (step o) L) := by
  induction ops generalizing L with
  | nil => exact .nil L
  | cons op ops ih => exact .cons (step_spec o L op) (ih (L.step o op))

theorem run_runs (o : MemoryDatabaseOptions) (ops : List StoreOp) : Runs o ops empty (run o ops) :=
  foldl_runs o empty ops

end Ledger

end Nula
