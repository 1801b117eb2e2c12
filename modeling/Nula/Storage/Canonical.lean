import Nula.Core.Filter
import Nula.Lib.Listing

/-!
# `Storage.Canonical` — statuses, the canonical event order, and what a query should return

What both backends share: the outcome types of `status.rs`, the sort key of the wire order (newest
first, ties by ascending id), the coordinate of an addressable event, the result set of `events.rs`,
and the reference answer of a query (`specQuery`), stated over the finite map of live events and
mentioning no index.

`listing` is the one list every read path is compared with: the live events in wire order. It is
determined by its members (`LiveMap.Keyed.listing_eq`), which is how each index scan is identified with it.
-/

namespace Nula

open Std

/-! ## Outcomes (`status.rs`) -/

inductive RejectedReason where
  | duplicate
  | ephemeral
  | deleted
  | expired
  | replaced
  | vanished
  | invalidDelete
  deriving DecidableEq, Repr

inductive SaveEventStatus where
  | success
  | rejected (reason : RejectedReason)
  deriving DecidableEq, Repr

inductive DatabaseEventStatus where
  | saved
  | deleted
  | notExistent
  deriving DecidableEq, Repr

/-! ## The wire order -/

/-- Sort key: created-at reversed, then id. -/
structure EventKey where
  createdAt : Timestamp
  id : EventId
  deriving DecidableEq

namespace EventKey

/-- `Reverse(created_at)`, then the id. -/
def cmp : EventKey → EventKey → Ordering :=
  compareLex (fun a b => compareOn EventKey.createdAt b a) (compareOn EventKey.id)

instance : Ord EventKey := ⟨cmp⟩
instance : TransOrd EventKey := inferInstanceAs (TransCmp (compareLex _ _))
instance : LawfulEqOrd EventKey := lawfulEqCmp_compareLex (by
  rintro ⟨t, i⟩ ⟨u, j⟩ h₁ h₂
  have ht : u = t := Std.compare_eq_iff_eq.mp h₁
  have hi : i = j := Std.compare_eq_iff_eq.mp h₂
  rw [ht, hi])

/-- `EventKey::from_event`. -/
def fromEvent (e : Event) : EventKey := ⟨e.createdAt, e.id⟩

end EventKey

namespace Event

/-- `a` comes strictly before `b` on the wire. -/
def precedes (a b : Event) : Prop := compare (EventKey.fromEvent a) (EventKey.fromEvent b) = .lt

instance (a b : Event) : Decidable (precedes a b) := inferInstanceAs (Decidable (_ = _))

instance : IsStrictOrder Event precedes where
  irrefl := by
    intro a h
    rw [precedes, Std.compare_self] at h
    cases h
  trans := fun _ _ _ hab hbc => TransCmp.lt_trans hab hbc

/-- The newer comes first, and of one time the smaller id. -/
theorem precedes_iff {a b : Event} : a.precedes b ↔
    b.createdAt < a.createdAt ∨ (a.createdAt = b.createdAt ∧ compare a.id b.id = .lt) := by
  have h : compare (EventKey.fromEvent a) (EventKey.fromEvent b)
      = (compare b.createdAt a.createdAt).then (compare a.id b.id) := rfl
  rw [precedes, h, Ordering.then_eq_lt, Std.compare_eq_lt, Std.compare_eq_iff_eq]
  exact or_congr Iff.rfl (and_congr_left' eq_comm)

/-- Events with different ids are ordered one way or the other. -/
theorem precedes_total {a b : Event} (h : a.id ≠ b.id) : a.precedes b ∨ b.precedes a := by
  cases hc : compare (EventKey.fromEvent a) (EventKey.fromEvent b) with
  | lt => exact Or.inl hc
  | gt => exact Or.inr (OrientedCmp.gt_iff_lt.mp hc)
  | eq =>
      have := Std.compare_eq_iff_eq.mp hc
      exact absurd (congrArg EventKey.id this) h

end Event

/-- `(kind, author, d)`. -/
abbrev CoordKey := Kind × PublicKey × String

instance : TransOrd CoordKey := instTransOrdProdLex
instance : LawfulEqOrd CoordKey := instLawfulEqOrdProdLex

/-- `addressable_coord`: a missing `d` tag (or one without a value) counts as the empty identifier. -/
def addressableCoord (event : Event) : Option CoordKey :=
  if event.kind.isAddressable then
    some (event.kind, event.pubkey, event.tags.identifier.getD "")
  else none

/-! ## Result sets (`events.rs`) -/

namespace Events

/-- `filter(|e| seen.insert(e.id))`: the first event of each id. -/
def dedupIds (seen : HashSet EventId) : List Event → List Event
  | [] => []
  | e :: rest => if seen.contains e.id then dedupIds seen rest
                 else e :: dedupIds (seen.insert e.id) rest

/-- The comparator of `from_unsorted`. -/
def wireCmp (a b : Event) : Ordering := (compare b.createdAt a.createdAt).then (compare a.id b.id)

/-- `Events::from_unsorted`: deduplicate, then a stable sort. -/
def fromUnsorted (events : List Event) : List Event :=
  (dedupIds ∅ events).insertionSort (fun a b => (wireCmp a b).isLE)

end Events

/-! ## The live events in wire order -/

/-- The finite map of live events, by id. -/
abbrev LiveMap := HashMap EventId Event

/-- Every event sits under its own id. -/
def LiveMap.Keyed (live : LiveMap) : Prop := ∀ (id : EventId) (e : Event), live[id]? = some e → e.id = id

/-- The live events, newest first, ties by ascending id. -/
def listing (live : LiveMap) : List Event :=
  (live.toList.map Prod.snd).insertionSort (fun a b => (Events.wireCmp a b).isLE)

/-- The reference answer of a query: the first `limit` of the live events the filter admits, in wire
    order. -/
def specQuery (live : LiveMap) (f : Filter) : List Event :=
  takeLimit f.limit ((listing live).filter f.admits)

theorem wireCmp_eq (a b : Event) :
    Events.wireCmp a b = compare (EventKey.fromEvent a) (EventKey.fromEvent b) := rfl

/-- A sorted list of events with distinct ids is strictly sorted. -/
theorem insertionSort_pairwise {l : List Event} (h : (l.map Event.id).Nodup) :
    (l.insertionSort (fun a b => (Events.wireCmp a b).isLE)).Pairwise Event.precedes := by
  have htotal : Std.Total (fun a b : Event => (Events.wireCmp a b).isLE = true) :=
    ⟨fun a b => by
      rw [wireCmp_eq, wireCmp_eq]
      cases hc : compare (EventKey.fromEvent a) (EventKey.fromEvent b) with
      | lt => simp
      | eq => simp
      | gt => simp [OrientedCmp.gt_iff_lt.mp hc]⟩
  have htrans : IsTrans Event (fun a b : Event => (Events.wireCmp a b).isLE = true) :=
    ⟨fun a b c hab hbc => by
      rw [wireCmp_eq] at hab hbc ⊢
      exact TransCmp.isLE_trans hab hbc⟩
  have hsorted := List.pairwise_insertionSort (fun a b : Event => (Events.wireCmp a b).isLE = true) l
  have hperm := List.perm_insertionSort (fun a b : Event => (Events.wireCmp a b).isLE = true) l
  have hnd : ((l.insertionSort (fun a b => (Events.wireCmp a b).isLE)).map Event.id).Nodup :=
    (hperm.map Event.id).nodup_iff.mpr h
  rw [List.Nodup, List.pairwise_map] at hnd
  refine (hsorted.and hnd).imp ?_
  rintro a b ⟨hle, hne⟩
  rw [wireCmp_eq] at hle
  rcases Event.precedes_total hne with h | h
  · exact h
  · rw [Event.precedes, ← OrientedCmp.gt_iff_lt] at h
    rw [h] at hle
    simp at hle

section Live

variable {live : LiveMap}

/-- Live events after an insertion under a free id. -/
theorem live_insert {e x : Event} (hfree : live[e.id]? = none) :
    (live.insert e.id e)[x.id]? = some x ↔ x = e ∨ live[x.id]? = some x := by
  rw [ExtTreeMap.getElem?_insert]
  by_cases h : e.id = x.id
  · rw [if_pos (Std.compare_eq_iff_eq.mpr h), ← h, hfree]
    simp [eq_comm]
  · rw [if_neg (by simpa using h)]
    have hne : x ≠ e := fun he => h (by rw [he])
    simp [hne]

/-- Live events after removing the event under an id. -/
theorem live_erase {e x : Event} (he : live[e.id]? = some e) :
    (live.erase e.id)[x.id]? = some x ↔ live[x.id]? = some x ∧ x ≠ e := by
  rw [ExtTreeMap.getElem?_erase]
  by_cases h : e.id = x.id
  · rw [if_pos (Std.compare_eq_iff_eq.mpr h), ← h, he]
    simp [eq_comm]
  · rw [if_neg (by simpa using h)]
    have hne : x ≠ e := fun hx => h (by rw [hx])
    simp [hne]

end Live

/-! ## Deduplicated results -/

namespace Events

/-- No two listed events share an id. -/
def Identified (l : List Event) : Prop := ∀ x ∈ l, ∀ y ∈ l, x.id = y.id → x = y

/-- Fewer events are still told apart by their ids. -/
theorem Identified.sub {l l' : List Event} (h : Identified l) (hsub : ∀ x ∈ l', x ∈ l) : Identified l' :=
  fun x hx y hy => h x (hsub x hx) y (hsub y hy)

/-- Deduplicating leaves an id once, and none that was seen. -/
theorem dedupIds_nodup (seen : HashSet EventId) (l : List Event) :
    ((dedupIds seen l).map Event.id).Nodup ∧ ∀ e ∈ dedupIds seen l, e.id ∉ seen := by
  induction l generalizing seen with
  | nil => simp [dedupIds]
  | cons e l ih =>
      rw [dedupIds]
      split
      · exact ih seen
      · rename_i hseen
        rw [← ExtTreeSet.mem_iff_contains] at hseen
        obtain ⟨hnd, hnew⟩ := ih (seen.insert e.id)
        simp only [ExtTreeSet.mem_insert, Std.compare_eq_iff_eq, not_or] at hnew
        refine ⟨?_, ?_⟩
        · rw [List.map_cons, List.nodup_cons]
          refine ⟨fun hmem => ?_, hnd⟩
          obtain ⟨x, hx, hxe⟩ := List.mem_map.mp hmem
          exact (hnew x hx).1 hxe.symm
        · intro x hx
          rcases List.mem_cons.mp hx with rfl | hx
          · exact hseen
          · exact (hnew x hx).2

/-- Where ids tell events apart, none but repeated ones is lost. -/
theorem mem_dedupIds (seen : HashSet EventId) {l : List Event} (h : Identified l) (e : Event) :
    e ∈ dedupIds seen l ↔ e ∈ l ∧ e.id ∉ seen := by
  induction l generalizing seen with
  | nil => simp [dedupIds]
  | cons a l ih =>
      have hl : Identified l := h.sub (fun x hx => List.mem_cons_of_mem a hx)
      rw [dedupIds]
      split
      · rename_i hseen
        rw [← ExtTreeSet.mem_iff_contains] at hseen
        rw [ih seen hl, List.mem_cons]
        refine ⟨fun he => ⟨Or.inr he.1, he.2⟩, fun he => ⟨he.1.resolve_left ?_, he.2⟩⟩
        rintro rfl
        exact he.2 hseen
      · rename_i hseen
        rw [← ExtTreeSet.mem_iff_contains] at hseen
        rw [List.mem_cons, ih (seen.insert a.id) hl, List.mem_cons, ExtTreeSet.mem_insert,
          Std.compare_eq_iff_eq, not_or]
        constructor
        · rintro (rfl | ⟨he, _, hns⟩)
          · exact ⟨Or.inl rfl, hseen⟩
          · exact ⟨Or.inr he, hns⟩
        · rintro ⟨rfl | he, hns⟩
          · exact Or.inl rfl
          · by_cases hid : a.id = e.id
            · exact Or.inl (h a List.mem_cons_self e (List.mem_cons_of_mem a he) hid).symm
            · exact Or.inr ⟨he, hid, hns⟩

theorem fromUnsorted_pairwise (l : List Event) : (fromUnsorted l).Pairwise Event.precedes :=
  insertionSort_pairwise (dedupIds_nodup ∅ l).1

theorem mem_fromUnsorted {l : List Event} (h : Identified l) (e : Event) :
    e ∈ fromUnsorted l ↔ e ∈ l := by
  rw [fromUnsorted, List.mem_insertionSort, mem_dedupIds ∅ h]
  simp

end Events

namespace LiveMap

variable {live : LiveMap}

theorem mem_listing {e : Event} : e ∈ listing live ↔ ∃ id : EventId, live[id]? = some e := by
  rw [listing, List.mem_insertionSort, List.mem_map]
  constructor
  · rintro ⟨⟨id, e'⟩, hmem, rfl⟩
    exact ⟨id, ExtTreeMap.mem_toList_iff_getElem?_eq_some.mp hmem⟩
  · rintro ⟨id, h⟩
    exact ⟨(id, e), ExtTreeMap.mem_toList_iff_getElem?_eq_some.mpr h, rfl⟩

theorem Keyed.mem_listing (h : live.Keyed) {e : Event} : e ∈ listing live ↔ live[e.id]? = some e := by
  rw [LiveMap.mem_listing]
  constructor
  · rintro ⟨id, hid⟩
    rw [h id e hid]
    exact hid
  · intro he
    exact ⟨e.id, he⟩

theorem Keyed.listing_pairwise (h : live.Keyed) : (listing live).Pairwise Event.precedes := by
  apply insertionSort_pairwise
  -- values carry their keys, and keys are distinct
  have hmap : (live.toList.map Prod.snd).map Event.id = live.keys := by
    rw [← ExtTreeMap.map_fst_toList_eq_keys, List.map_map]
    apply List.map_congr_left
    rintro ⟨id, e⟩ hmem
    exact h id e (ExtTreeMap.mem_toList_iff_getElem?_eq_some.mp hmem)
  rw [hmap]
  exact ExtTreeMap.nodup_keys

theorem length_listing (live : LiveMap) : (listing live).length = live.size := by
  rw [listing, List.length_insertionSort, List.length_map, ExtTreeMap.length_toList]

/-- A strictly sorted list of exactly the live events is the listing. -/
theorem Keyed.listing_eq (h : live.Keyed) {l : List Event} (hl : l.Pairwise Event.precedes)
    (hmem : ∀ e, e ∈ l ↔ live[e.id]? = some e) : l = listing live :=
  Listing.ext hl h.listing_pairwise (fun e => by rw [hmem, h.mem_listing])

/-- The listing determines the map. -/
theorem Keyed.eq_of_listing {live' : LiveMap} (h : live.Keyed) (h' : live'.Keyed)
    (hl : listing live = listing live') : live = live' := by
  have hmem : ∀ (id : EventId) (e : Event), live[id]? = some e ↔ live'[id]? = some e := by
    intro id e
    constructor
    · intro he
      have hid : e.id = id := h id e he
      rw [← hid] at he ⊢
      rw [← h.mem_listing, hl, h'.mem_listing] at he
      exact he
    · intro he
      have hid : e.id = id := h' id e he
      rw [← hid] at he ⊢
      rw [← h'.mem_listing, ← hl, h.mem_listing] at he
      exact he
  exact ExtTreeMap.ext_getElem? (fun {id} => Option.ext (hmem id))

theorem Keyed.erase (h : live.Keyed) (id : EventId) : LiveMap.Keyed (ExtTreeMap.erase live id) := by
  intro k e he
  rw [ExtTreeMap.getElem?_erase] at he
  split at he
  · cases he
  · exact h k e he

/-- Erasing the last event of the listing drops it from the listing. -/
theorem Keyed.listing_erase_last (h : live.Keyed) {e : Event}
    (he : (listing live).getLast? = some e) :
    listing (ExtTreeMap.erase live e.id) = (listing live).dropLast := by
  have hsplit : listing live = (listing live).dropLast ++ [e] :=
    (List.dropLast_append_getLast? e he).symm
  have hnd : ((listing live).dropLast ++ [e]).Nodup := hsplit ▸ nodup_of_pairwise h.listing_pairwise
  have hlive : live[e.id]? = some e := h.mem_listing.mp (List.mem_of_getLast? he)
  refine Listing.ext (h.erase e.id).listing_pairwise
    (h.listing_pairwise.sublist (List.dropLast_sublist _)) (fun x => ?_)
  have hx : x ∈ (listing live).dropLast ↔ x ∈ listing live ∧ x ≠ e := by
    constructor
    · intro hx
      refine ⟨List.mem_of_mem_dropLast hx, ?_⟩
      rintro rfl
      exact List.disjoint_of_nodup_append hnd hx List.mem_cons_self
    · rintro ⟨hx, hne⟩
      rw [hsplit, List.mem_append, List.mem_singleton] at hx
      exact hx.resolve_right hne
  rw [(h.erase e.id).mem_listing, hx, h.mem_listing, ExtTreeMap.getElem?_erase]
  by_cases hid : e.id = x.id
  · rw [if_pos (Std.compare_eq_iff_eq.mpr hid), ← hid, hlive]
    simp [eq_comm]
  · have hne : x ≠ e := fun hxe => hid (by rw [hxe])
    rw [if_neg (by simpa using hid)]
    simp [hne]

/-- A filter depends only on its verdicts on the live events. -/
theorem filter_congr {p q : Event → Bool}
    (h : ∀ (id : EventId) (x : Event), live[id]? = some x → p x = q x) :
    live.filter (fun _ x => p x) = live.filter (fun _ x => q x) := by
  apply ExtTreeMap.ext_getElem?
  intro id
  rw [ExtTreeMap.getElem?_filter', ExtTreeMap.getElem?_filter']
  cases hx : live[id]? with
  | none => rfl
  | some x => simp only [Option.filter, h id x hx]

theorem filter_eq_self {p : Event → Bool}
    (h : ∀ (id : EventId) (x : Event), live[id]? = some x → p x = true) :
    live.filter (fun _ x => p x) = live :=
  (filter_congr h).trans (ExtTreeMap.filter_eq_self_iff.mpr (fun _ _ => rfl))

theorem filter_filter (p q : Event → Bool) :
    (live.filter (fun _ x => p x)).filter (fun _ x => q x) = live.filter (fun _ x => p x && q x) := by
  apply ExtTreeMap.ext_getElem?
  intro id
  rw [ExtTreeMap.getElem?_filter', ExtTreeMap.getElem?_filter', ExtTreeMap.getElem?_filter',
    Option.filter_filter]

/-- Erasing an id is a filter on the events. -/
theorem Keyed.erase_eq_filter (h : live.Keyed) (id : EventId) :
    live.erase id = live.filter (fun _ x => decide (x.id ≠ id)) := by
  apply ExtTreeMap.ext_getElem?
  intro k
  rw [ExtTreeMap.getElem?_erase, ExtTreeMap.getElem?_filter']
  cases hx : live[k]? with
  | none => simp
  | some x =>
      have hxk : x.id = k := h k x hx
      by_cases hid : id = k
      · rw [if_pos (Std.compare_eq_iff_eq.mpr hid)]
        simp [Option.filter, hxk, hid]
      · rw [if_neg (by simpa using hid)]
        simp [Option.filter, hxk, Ne.symm hid]

end LiveMap

end Nula
