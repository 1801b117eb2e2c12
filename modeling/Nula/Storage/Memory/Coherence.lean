import Nula.Storage.Memory.Store

/-!
# `Storage.Memory.Coherence` — the secondary indexes are images of the primary table

`Indexed s` says that each of the four secondary indexes of a `MemoryStore` is determined by `by_id`.
The two mutators keep it: inserting an event that is new and has no rival, and removing any id. Everything
else the store does to its events is a sequence of these two, so later modules never look inside an
index again: they use `removeEventById_abs` / `insertEvent_abs`, which say what happens to the ledger
the store stands for.
-/

namespace Nula

open Std

/-! ## The invariant -/

/-- `m` groups the keys of the live events by `g`, with no empty group. -/
structure Bucketed {κ : Type} [Ord κ] [TransOrd κ] (live : LiveMap) (g : Event → κ)
    (m : HashMap κ (BTreeSet EventKey)) : Prop where
  mem : ∀ (k : κ) (key : EventKey), key ∈ m.getD k ∅ ↔
    ∃ e : Event, live[e.id]? = some e ∧ g e = k ∧ EventKey.fromEvent e = key
  nonempty : ∀ (k : κ) (set : BTreeSet EventKey), m[k]? = some set → set ≠ ∅

namespace MemoryStore

/-- The secondary indexes are exact images of `by_id`. -/
structure Indexed (s : MemoryStore) : Prop where
  keyed : LiveMap.Keyed s.byId
  byTime : ∀ (k : EventKey) (e : Event), s.byTime[k]? = some e ↔
    s.byId[e.id]? = some e ∧ k = EventKey.fromEvent e
  byAuthor : Bucketed s.byId Event.pubkey s.byAuthor
  byKindAuthor : Bucketed s.byId (fun e => (e.kind, e.pubkey)) s.byKindAuthor
  byCoordinate : ∀ (c : CoordKey) (e : Event), s.byCoordinate[c]? = some e ↔
    s.byId[e.id]? = some e ∧ addressableCoord e = some c

/-- The ledger a store stands for. -/
def abs (s : MemoryStore) : Ledger :=
  ⟨s.byId, s.deletedIds, s.deletedCoordinates, s.vanishedAuthors⟩

/-- The indexes know nothing of tombstones, stamps and vanished authors. -/
theorem Indexed.frame {s : MemoryStore} (h : Indexed s) (d : HashSet EventId)
    (c : HashMap CoordKey Timestamp) (v : HashSet PublicKey) :
    Indexed { s with deletedIds := d, deletedCoordinates := c, vanishedAuthors := v } :=
  ⟨h.keyed, h.byTime, h.byAuthor, h.byKindAuthor, h.byCoordinate⟩

theorem indexed_new (o : MemoryDatabaseOptions) : Indexed (new o) where
  keyed := by intro id e h; simp [new] at h
  byTime := by intro k e; simp [new]
  byAuthor := ⟨by intro k key; simp [new], by intro k set h; simp [new] at h⟩
  byKindAuthor := ⟨by intro k key; simp [new], by intro k set h; simp [new] at h⟩
  byCoordinate := by intro c e; simp [new]

end MemoryStore

/-! ## Buckets -/

section Buckets

variable {κ : Type} [Ord κ] [TransOrd κ] [LawfulEqOrd κ] [DecidableEq κ] {live : LiveMap}
  {g : Event → κ} {m : HashMap κ (BTreeSet EventKey)}

/-- **One event more** is indexed under its own key. Two cases, as the bucket is that of the event or another. -/
theorem Bucketed.insertKey (h : Bucketed live g m) {e : Event} (hfree : live[e.id]? = none) :
    Bucketed (live.insert e.id e) g (MemoryStore.insertKey m (g e) (EventKey.fromEvent e)) where
  mem := by
    intro k key
    rw [MemoryStore.insertKey, ExtTreeMap.getD_insert]
    simp only [live_insert hfree]
    by_cases hk : g e = k
    · subst hk
      rw [if_pos Std.compare_self, ExtTreeSet.mem_insert, Std.compare_eq_iff_eq, h.mem]
      constructor
      · rintro (rfl | ⟨x, hx, hg, hkey⟩)
        · exact ⟨e, Or.inl rfl, rfl, rfl⟩
        · exact ⟨x, Or.inr hx, hg, hkey⟩
      · rintro ⟨x, rfl | hx, hg, hkey⟩
        · exact Or.inl hkey
        · exact Or.inr ⟨x, hx, hg, hkey⟩
    · rw [if_neg (by simpa using hk), h.mem]
      constructor
      · rintro ⟨x, hx, hg, hkey⟩
        exact ⟨x, Or.inr hx, hg, hkey⟩
      · rintro ⟨x, rfl | hx, hg, hkey⟩
        · exact absurd hg hk
        · exact ⟨x, hx, hg, hkey⟩
  nonempty := by
    intro k set hset
    rw [MemoryStore.insertKey, ExtTreeMap.getElem?_insert] at hset
    split at hset
    · obtain rfl := Option.some.inj hset
      exact ExtTreeSet.insert_ne_empty
    · exact h.nonempty k set hset

/-- One less is taken out of its bucket, which goes with its last event. The bucket is read off once for all keys:
    that of the event has lost it, and the others are as they were. -/
theorem Bucketed.removeKey (h : Bucketed live g m) {e : Event} (he : live[e.id]? = some e) :
    Bucketed (live.erase e.id) g (MemoryStore.removeKey m (g e) (EventKey.fromEvent e)) := by
  have hin : EventKey.fromEvent e ∈ m.getD (g e) ∅ := (h.mem _ _).mpr ⟨e, he, rfl, rfl⟩
  -- the bucket of `e` exists, since `e` is in it
  obtain ⟨set, hset⟩ : ∃ set, m[g e]? = some set := by
    rw [ExtTreeMap.getD_eq_getD_getElem?] at hin
    cases hm : m[g e]? with
    | none => simp [hm] at hin
    | some set => exact ⟨set, rfl⟩
  have hgetD : m.getD (g e) ∅ = set := by rw [ExtTreeMap.getD_eq_getD_getElem?, hset]; rfl
  have hgetD' : ∀ k, (MemoryStore.removeKey m (g e) (EventKey.fromEvent e)).getD k ∅ =
      if g e = k then set.erase (EventKey.fromEvent e) else m.getD k ∅ := by
    intro k
    rw [MemoryStore.removeKey, hset]
    dsimp only
    by_cases hk : g e = k
    · rw [if_pos hk]
      subst hk
      split
      · rename_i hempty
        rw [ExtTreeMap.getD_erase_self, ExtTreeSet.isEmpty_iff.mp hempty]
      · rw [ExtTreeMap.getD_insert_self]
    · rw [if_neg hk]
      split
      · rw [ExtTreeMap.getD_erase, if_neg (by simpa using hk)]
      · rw [ExtTreeMap.getD_insert, if_neg (by simpa using hk)]
  refine ⟨?_, ?_⟩
  · intro k key
    rw [hgetD']
    simp only [live_erase he]
    by_cases hk : g e = k
    · subst hk
      rw [if_pos rfl, ExtTreeSet.mem_erase, ← hgetD, h.mem]
      constructor
      · rintro ⟨hne, x, hx, hg, hkey⟩
        refine ⟨x, ⟨hx, fun hxe => hne ?_⟩, hg, hkey⟩
        rw [← hkey, hxe]
        exact Std.compare_self
      · rintro ⟨x, ⟨hx, hxe⟩, hg, hkey⟩
        refine ⟨fun hc => hxe ?_, x, hx, hg, hkey⟩
        -- equal keys have equal ids, and an id is held by one event
        rw [Std.compare_eq_iff_eq, ← hkey] at hc
        have hid : e.id = x.id := congrArg EventKey.id hc
        rw [← hid, he] at hx
        exact (Option.some.inj hx).symm
    · rw [if_neg hk, h.mem]
      constructor
      · rintro ⟨x, hx, hg, hkey⟩
        exact ⟨x, ⟨hx, fun hxe => hk (by rw [← hxe, hg])⟩, hg, hkey⟩
      · rintro ⟨x, ⟨hx, _⟩, hg, hkey⟩
        exact ⟨x, hx, hg, hkey⟩
  · intro k set' hset'
    rw [MemoryStore.removeKey, hset] at hset'
    dsimp only at hset'
    split at hset'
    · rw [ExtTreeMap.getElem?_erase] at hset'
      split at hset'
      · cases hset'
      · exact h.nonempty k set' hset'
    · rename_i hne
      rw [ExtTreeMap.getElem?_insert] at hset'
      split at hset'
      · obtain rfl := Option.some.inj hset'
        exact fun hc => hne (ExtTreeSet.isEmpty_iff.mpr hc)
      · exact h.nonempty k set' hset'

end Buckets

namespace MemoryStore

variable {s : MemoryStore}

/-! ## The two mutators -/

/-- A removal erases the id and leaves the tombstones, stamps and options. -/
theorem removeEventById_abs (s : MemoryStore) (id : EventId) :
    (s.removeEventById id).abs = { s.abs with live := s.byId.erase id } := by
  unfold removeEventById
  split
  · rename_i hnone
    have : s.byId.erase id = s.byId := by
      apply ExtTreeMap.ext_getElem?
      intro k
      rw [ExtTreeMap.getElem?_erase]
      split
      · rename_i hk
        rw [← Std.compare_eq_iff_eq.mp hk, hnone]
      · rfl
    rw [this]
    rfl
  · rfl

@[simp] theorem removeEventById_options (s : MemoryStore) (id : EventId) :
    (s.removeEventById id).options = s.options := by
  unfold removeEventById
  split <;> rfl

theorem insertEvent_abs (s : MemoryStore) (e : Event) : (s.insertEvent e).abs = s.abs.enter e := rfl

/-- Inserting a new event without rivals keeps the indexes exact. Index by index; that a key is free follows from the
    free id, and that a coordinate is free from the absence of rivals. -/
theorem Indexed.insertEvent (h : Indexed s) {e : Event} (hfree : s.byId[e.id]? = none)
    (hno : ∀ (id : EventId) (x : Event), s.byId[id]? = some x → rivals x e = false) :
    Indexed (s.insertEvent e) where
  keyed := by
    intro id x hx
    simp only [MemoryStore.insertEvent, ExtTreeMap.getElem?_insert] at hx
    split at hx
    · rename_i hid
      rw [← Option.some.inj hx]
      exact Std.compare_eq_iff_eq.mp hid
    · exact h.keyed id x hx
  byTime := by
    intro k x
    simp only [MemoryStore.insertEvent, live_insert hfree]
    rw [ExtTreeMap.getElem?_insert]
    by_cases hk : EventKey.fromEvent e = k
    · rw [if_pos (Std.compare_eq_iff_eq.mpr hk)]
      constructor
      · intro hx
        obtain rfl := Option.some.inj hx
        exact ⟨Or.inl rfl, hk.symm⟩
      · rintro ⟨rfl | hx, hkx⟩
        · rfl
        · -- a live event with the same key would hold the free id
          have hid : e.id = x.id := congrArg EventKey.id (hk.trans hkx)
          rw [← hid, hfree] at hx
          cases hx
    · rw [if_neg (by simpa using hk), h.byTime]
      constructor
      · rintro ⟨hx, hkx⟩
        exact ⟨Or.inr hx, hkx⟩
      · rintro ⟨rfl | hx, hkx⟩
        · exact absurd hkx.symm hk
        · exact ⟨hx, hkx⟩
  byAuthor := h.byAuthor.insertKey hfree
  byKindAuthor := h.byKindAuthor.insertKey hfree
  byCoordinate := by
    intro c x
    simp only [MemoryStore.insertEvent, live_insert hfree]
    split
    · rename_i coord hcoord
      rw [ExtTreeMap.getElem?_insert]
      by_cases hc : coord = c
      · subst hc
        rw [if_pos Std.compare_self]
        constructor
        · intro hx
          obtain rfl := Option.some.inj hx
          exact ⟨Or.inl rfl, hcoord⟩
        · rintro ⟨rfl | hx, hxc⟩
          · rfl
          · exact absurd ((rivals_of_addressable hcoord).mpr hxc) (by simp [hno x.id x hx])
      · rw [if_neg (by simpa using hc), h.byCoordinate]
        constructor
        · rintro ⟨hx, hxc⟩
          exact ⟨Or.inr hx, hxc⟩
        · rintro ⟨rfl | hx, hxc⟩
          · exact absurd (Option.some.inj (hcoord.symm.trans hxc)) hc
          · exact ⟨hx, hxc⟩
    · rename_i hnone
      rw [h.byCoordinate]
      constructor
      · rintro ⟨hx, hxc⟩
        exact ⟨Or.inr hx, hxc⟩
      · rintro ⟨rfl | hx, hxc⟩
        · rw [hnone] at hxc
          cases hxc
        · exact ⟨hx, hxc⟩

/-- Removing an id keeps the indexes exact. Index by index; an event with the same key or at the same coordinate is
    the event itself. -/
theorem Indexed.removeEventById (h : Indexed s) (id : EventId) : Indexed (s.removeEventById id) := by
  unfold MemoryStore.removeEventById
  split
  · exact h
  · rename_i e he
    obtain rfl := h.keyed id e he
    refine ⟨?_, ?_, h.byAuthor.removeKey he, h.byKindAuthor.removeKey he, ?_⟩
    · intro id x hx
      dsimp only at hx
      rw [ExtTreeMap.getElem?_erase] at hx
      split at hx
      · cases hx
      · exact h.keyed id x hx
    · intro k x
      dsimp only
      rw [live_erase he, ExtTreeMap.getElem?_erase]
      by_cases hk : EventKey.fromEvent e = k
      · rw [if_pos (Std.compare_eq_iff_eq.mpr hk)]
        constructor
        · intro hx
          cases hx
        · rintro ⟨⟨hx, hne⟩, hkx⟩
          have hid : e.id = x.id := congrArg EventKey.id (hk.trans hkx)
          rw [← hid, he] at hx
          exact absurd (Option.some.inj hx).symm hne
      · rw [if_neg (by simpa using hk), h.byTime]
        constructor
        · rintro ⟨hx, hkx⟩
          exact ⟨⟨hx, fun hxe => hk (by rw [hkx, hxe])⟩, hkx⟩
        · rintro ⟨⟨hx, _⟩, hkx⟩
          exact ⟨hx, hkx⟩
    · intro c x
      dsimp only
      rw [live_erase he]
      cases hcoord : addressableCoord e with
      | none =>
          dsimp only
          rw [h.byCoordinate]
          constructor
          · rintro ⟨hx, hxc⟩
            refine ⟨⟨hx, fun hxe => ?_⟩, hxc⟩
            rw [hxe, hcoord] at hxc
            cases hxc
          · rintro ⟨⟨hx, _⟩, hxc⟩
            exact ⟨hx, hxc⟩
      | some coord =>
          -- the coordinate's winner is `e` itself, so the entry goes
          have hwin : s.byCoordinate[coord]? = some e := (h.byCoordinate coord e).mpr ⟨he, hcoord⟩
          dsimp only
          rw [hwin, if_pos (by simp), ExtTreeMap.getElem?_erase]
          by_cases hc : coord = c
          · subst hc
            rw [if_pos Std.compare_self]
            constructor
            · intro hx
              cases hx
            · rintro ⟨⟨hx, hne⟩, hxc⟩
              have := (h.byCoordinate coord x).mpr ⟨hx, hxc⟩
              rw [hwin] at this
              exact absurd (Option.some.inj this).symm hne
          · rw [if_neg (by simpa using hc), h.byCoordinate]
            constructor
            · rintro ⟨hx, hxc⟩
              refine ⟨⟨hx, fun hxe => hc ?_⟩, hxc⟩
              rw [hxe, hcoord] at hxc
              exact Option.some.inj hxc
            · rintro ⟨⟨hx, _⟩, hxc⟩
              exact ⟨hx, hxc⟩

/-- Iterating the time index yields the live events in wire order. -/
theorem Indexed.byTime_values (h : Indexed s) : s.byTime.toList.map Prod.snd = listing s.byId := by
  have hkeys : ∀ p ∈ s.byTime.toList, p.1 = EventKey.fromEvent p.2 := by
    rintro ⟨k, e⟩ hmem
    exact ((h.byTime k e).mp (ExtTreeMap.mem_toList_iff_getElem?_eq_some.mp hmem)).2
  apply h.keyed.listing_eq
  · rw [List.pairwise_map]
    refine ExtTreeMap.ordered_keys_toList.imp_of_mem ?_
    intro a b ha hb hlt
    rw [hkeys a ha, hkeys b hb] at hlt
    exact hlt
  · intro e
    rw [List.mem_map]
    constructor
    · rintro ⟨⟨k, e'⟩, hmem, rfl⟩
      exact ((h.byTime k e').mp (ExtTreeMap.mem_toList_iff_getElem?_eq_some.mp hmem)).1
    · intro he
      exact ⟨(EventKey.fromEvent e, e),
        ExtTreeMap.mem_toList_iff_getElem?_eq_some.mpr ((h.byTime _ e).mpr ⟨he, rfl⟩), rfl⟩

end MemoryStore

end Nula
