import Nula.Lib.Yields
import Nula.Storage.Redb.Store

/-!
# `Storage.Redb.Coherence` — the tables are images of the live events

Each of the five event tables is the image of the live events under a key and a value function
(`Mirrors`), so inserting an event into a table and removing it again are two lemmas, not ten. `Rep t L`
says that the seven tables represent the ledger `L`; the two mutators `insertEventInner` and
`removeEventInner` take a representation to a representation, and never fail on one.
-/

namespace Nula

open Std

namespace Redb

/-! ## Mirrored tables -/

section Mirrors

variable {ν : Type}

/-- The table holds exactly the pairs `(key e, val e)` of live events that have a key. -/
def Mirrors (live : LiveMap) (key : Event → Option Bytes) (val : Event → ν) (t : BTreeMap Bytes ν) : Prop :=
  ∀ (k : Bytes) (v : ν), t[k]? = some v ↔
    ∃ e : Event, live[e.id]? = some e ∧ key e = some k ∧ val e = v

variable {live : LiveMap} {key : Event → Option Bytes} {val : Event → ν} {t : BTreeMap Bytes ν}

theorem mirrors_empty (key : Event → Option Bytes) (val : Event → ν) : Mirrors ∅ key val ∅ := by
  intro k v
  simp

/-- A key is in the table exactly if an event has it. -/
theorem Mirrors.mem_iff (h : Mirrors live key val t) (k : Bytes) :
    k ∈ t ↔ ∃ e : Event, live[e.id]? = some e ∧ key e = some k := by
  rw [ExtTreeMap.mem_iff_isSome_getElem?, Option.isSome_iff_exists]
  constructor
  · rintro ⟨v, hv⟩
    obtain ⟨e, he, hk, _⟩ := (h k v).mp hv
    exact ⟨e, he, hk⟩
  · rintro ⟨e, he, hk⟩
    exact ⟨val e, (h k _).mpr ⟨e, he, hk, rfl⟩⟩

/-- Insert an event whose key no live event has. -/
theorem Mirrors.insert (h : Mirrors live key val t) {e : Event} {k : Bytes} (hfree : live[e.id]? = none)
    (hk : key e = some k) (hnew : ∀ x : Event, live[x.id]? = some x → key x ≠ some k) :
    Mirrors (live.insert e.id e) key val (t.insert k (val e)) := by
  intro k' v
  simp only [live_insert hfree]
  rw [ExtTreeMap.getElem?_insert]
  by_cases hkk : k = k'
  · subst hkk
    rw [if_pos Std.compare_self]
    constructor
    · intro hv
      exact ⟨e, Or.inl rfl, hk, Option.some.inj hv⟩
    · rintro ⟨x, rfl | hx, hxk, hxv⟩
      · rw [hxv]
      · exact absurd hxk (hnew x hx)
  · rw [if_neg (by simpa using hkk), h]
    constructor
    · rintro ⟨x, hx, hxk, hxv⟩
      exact ⟨x, Or.inr hx, hxk, hxv⟩
    · rintro ⟨x, rfl | hx, hxk, hxv⟩
      · exact absurd (Option.some.inj (hk.symm.trans hxk)) hkk
      · exact ⟨x, hx, hxk, hxv⟩

/-- Insert an event without a key. -/
theorem Mirrors.insert_none (h : Mirrors live key val t) {e : Event} (hfree : live[e.id]? = none)
    (hk : key e = none) : Mirrors (live.insert e.id e) key val t := by
  intro k' v
  simp only [live_insert hfree]
  rw [h]
  constructor
  · rintro ⟨x, hx, hxk, hxv⟩
    exact ⟨x, Or.inr hx, hxk, hxv⟩
  · rintro ⟨x, rfl | hx, hxk, hxv⟩
    · rw [hk] at hxk
      cases hxk
    · exact ⟨x, hx, hxk, hxv⟩

/-- Remove a live event whose key no other live event has. -/
theorem Mirrors.erase (h : Mirrors live key val t) {e : Event} {k : Bytes} (he : live[e.id]? = some e)
    (hk : key e = some k) (honly : ∀ x : Event, live[x.id]? = some x → key x = some k → x = e) :
    Mirrors (live.erase e.id) key val (t.erase k) := by
  intro k' v
  simp only [live_erase he]
  rw [ExtTreeMap.getElem?_erase]
  by_cases hkk : k = k'
  · subst hkk
    rw [if_pos Std.compare_self]
    constructor
    · intro hv
      cases hv
    · rintro ⟨x, ⟨hx, hne⟩, hxk, _⟩
      exact absurd (honly x hx hxk) hne
  · rw [if_neg (by simpa using hkk), h]
    constructor
    · rintro ⟨x, hx, hxk, hxv⟩
      refine ⟨x, ⟨hx, fun hxe => hkk ?_⟩, hxk, hxv⟩
      rw [hxe, hk] at hxk
      exact Option.some.inj hxk
    · rintro ⟨x, ⟨hx, _⟩, hxk, hxv⟩
      exact ⟨x, hx, hxk, hxv⟩

/-- Remove a live event without a key. -/
theorem Mirrors.erase_none (h : Mirrors live key val t) {e : Event} (he : live[e.id]? = some e)
    (hk : key e = none) : Mirrors (live.erase e.id) key val t := by
  intro k' v
  simp only [live_erase he]
  rw [h]
  constructor
  · rintro ⟨x, hx, hxk, hxv⟩
    refine ⟨x, ⟨hx, fun hxe => ?_⟩, hxk, hxv⟩
    rw [hxe, hk] at hxk
    cases hxk
  · rintro ⟨x, ⟨hx, _⟩, hxk, hxv⟩
    exact ⟨x, hx, hxk, hxv⟩

end Mirrors

/-! ## Representation -/

/-- The bytes of a coordinate. -/
def coordBytes (c : CoordKey) : Bytes := Keys.byCoordinate c.1 c.2.1 c.2.2

theorem coordBytes_injective : Function.Injective coordBytes := by
  rintro ⟨k, pk, d⟩ ⟨k', pk', d'⟩ h
  obtain ⟨rfl, rfl, rfl⟩ := Keys.byCoordinate_inj h
  rfl

/-- The coordinate of an event, by its identifier. -/
theorem addressableCoord_eq (e : Event) :
    addressableCoord e = (addressableIdentifier e).map (fun d => (e.kind, e.pubkey, d)) := by
  unfold addressableCoord addressableIdentifier
  cases e.kind.isAddressable <;> rfl

/-- The tables represent the ledger. -/
structure Rep (pc : Postcard) (t : Tables) (L : Ledger) : Prop where
  wf : L.WF
  events : Mirrors L.live (fun e => some e.id.bytes) (Codec.record pc) t.events
  byCreatedAt : Mirrors L.live (fun e => some (Keys.byCreatedAt e.createdAt e.id)) (fun _ => ())
    t.byCreatedAt
  byAuthorTs : Mirrors L.live (fun e => some (Keys.byAuthorTs e.pubkey e.createdAt e.id)) (fun _ => ())
    t.byAuthorTs
  byKindAuthorTs : Mirrors L.live
    (fun e => some (Keys.byKindAuthorTs e.kind e.pubkey e.createdAt e.id)) (fun _ => ()) t.byKindAuthorTs
  byCoordinate : Mirrors L.live (fun e => (addressableCoord e).map coordBytes) (fun e => e.id.bytes)
    t.byCoordinate
  deletedIds : ∀ id : EventId, t.deletedIds.contains id.bytes = L.deletedIds.contains id
  deletedCoordinates : ∀ c : CoordKey, t.deletedCoordinates[coordBytes c]? = L.deletedCoordinates[c]?

variable {pc : Postcard} {t : Tables} {L : Ledger}

theorem rep_empty (pc : Postcard) : Rep pc empty .empty where
  wf := Ledger.wf_empty
  events := mirrors_empty _ _
  byCreatedAt := mirrors_empty _ _
  byAuthorTs := mirrors_empty _ _
  byKindAuthorTs := mirrors_empty _ _
  byCoordinate := mirrors_empty _ _
  deletedIds := by intro id; simp [empty, Ledger.empty]
  deletedCoordinates := by intro c; simp [empty, Ledger.empty]

theorem wipe_eq (t : Tables) : wipe t = empty := by
  have hnil : ∀ {ν : Type} (m : BTreeMap Bytes ν), m.filter (fun _ _ => false) = ∅ := by
    intro ν m
    exact ExtTreeMap.filter_eq_empty_iff.mpr (fun _ _ => rfl)
  simp only [wipe, hnil]
  rfl

namespace Rep

theorem keyed (h : Rep pc t L) : L.live.Keyed := h.wf.keyed

/-- The record under an id is that of the live event. -/
theorem events_get (h : Rep pc t L) (id : EventId) :
    t.events[id.bytes]? = (L.live[id]?).map (Codec.record pc) := by
  cases hl : L.live[id]? with
  | none =>
      rw [Option.map_none, ← Option.not_isSome_iff_eq_none, Option.isSome_iff_exists]
      rintro ⟨v, hv⟩
      obtain ⟨e, he, hk, _⟩ := (h.events _ v).mp hv
      rw [EventId.bytes_injective (Option.some.inj hk), hl] at he
      cases he
  | some e =>
      have hid : e.id = id := h.keyed id e hl
      exact (h.events _ _).mpr ⟨e, hid ▸ hl, congrArg (fun i : EventId => some i.bytes) hid, rfl⟩

/-- An id is in the table exactly if the ledger holds its event. -/
theorem contains_events (h : Rep pc t L) (id : EventId) :
    t.events.contains id.bytes = L.live.contains id := by
  rw [ExtTreeMap.contains_eq_isSome_getElem?, ExtTreeMap.contains_eq_isSome_getElem?, h.events_get,
    Option.isSome_map]

/-- The id under a coordinate is that of the live event at it. -/
theorem coordinate_get (h : Rep pc t L) (c : CoordKey) (v : Bytes) :
    t.byCoordinate[coordBytes c]? = some v ↔
      ∃ x : Event, L.live[x.id]? = some x ∧ addressableCoord x = some c ∧ x.id.bytes = v := by
  rw [h.byCoordinate]
  refine exists_congr (fun x => and_congr_right (fun _ => and_congr_left (fun _ => ?_)))
  rw [Option.map_eq_some_iff]
  constructor
  · rintro ⟨c', hc', hb⟩
    rw [coordBytes_injective hb] at hc'
    exact hc'
  · intro hc
    exact ⟨c, hc, rfl⟩

/-! ## The two mutators -/

/-- **An event enters all tables**, where nothing is in its way. Table by table: a key is free because only the event
    itself could hold it, and a coordinate because a rival would. -/
theorem insertEventInner (h : Rep pc t L) {e : Event} (hfree : L.live[e.id]? = none)
    (hno : ∀ (id : EventId) (x : Event), L.live[id]? = some x → rivals x e = false) :
    Yields (insertEventInner pc t e) (fun t' => Rep pc t' (L.enter e)) := by
  have hfresh : ∀ x : Event, L.live[x.id]? = some x → x.id ≠ e.id := by
    intro x hx hid
    rw [hid, hfree] at hx
    cases hx
  unfold Redb.insertEventInner
  rw [Codec.encode_eq]
  refine ⟨_, rfl, ?_, ?_, ?_, ?_, ?_, ?_, h.deletedIds, h.deletedCoordinates⟩
  · exact h.wf.enter hno
  · refine h.events.insert hfree rfl (fun x hx hk => ?_)
    exact hfresh x hx (EventId.bytes_injective (Option.some.inj hk))
  · refine h.byCreatedAt.insert hfree rfl (fun x hx hk => ?_)
    exact hfresh x hx (Keys.byCreatedAt_inj (Option.some.inj hk)).2
  · refine h.byAuthorTs.insert hfree rfl (fun x hx hk => ?_)
    exact hfresh x hx (Keys.byAuthorTs_inj (Option.some.inj hk)).2.2
  · refine h.byKindAuthorTs.insert hfree rfl (fun x hx hk => ?_)
    exact hfresh x hx (Keys.byKindAuthorTs_inj (Option.some.inj hk)).2.2.2
  · dsimp only
    split
    · rename_i d hd
      have hc : addressableCoord e = some (e.kind, e.pubkey, d) := by rw [addressableCoord_eq, hd]; rfl
      refine h.byCoordinate.insert (k := coordBytes (e.kind, e.pubkey, d)) hfree ?_ (fun x hx hk => ?_)
      · rw [hc]
        rfl
      · -- an event at the same coordinate would be a rival
        obtain ⟨c, hxc, hcb⟩ := Option.map_eq_some_iff.mp hk
        rw [coordBytes_injective hcb] at hxc
        exact absurd ((rivals_of_addressable hc).mpr hxc) (by simp [hno x.id x hx])
    · rename_i hd
      refine h.byCoordinate.insert_none hfree ?_
      rw [addressableCoord_eq, hd]
      rfl

/-- **An event leaves all tables**: its record says under which keys it is. Table by table, under the keys of the
    record; an id that is not there changes nothing. -/
theorem removeEventInner (h : Rep pc t L) (id : EventId) :
    Yields (removeEventInner pc t id.bytes)
      (fun t' => Rep pc t' (L.keep (fun x => decide (x.id ≠ id)))) := by
  have hwf : (L.keep (fun x => decide (x.id ≠ id))).WF := h.wf.mono (Ledger.keep_below L _)
  have herase : L.keep (fun x => decide (x.id ≠ id)) = { L with live := L.live.erase id } := by
    ext1
    · exact (h.keyed.erase_eq_filter id).symm
    all_goals rfl
  rw [herase] at hwf ⊢
  unfold Redb.removeEventInner
  rw [h.events_get]
  cases hl : L.live[id]? with
  | none =>
      refine ⟨t, rfl, ?_⟩
      have hsame : L.live.erase id = L.live := by
        apply ExtTreeMap.ext_getElem?
        intro k
        rw [ExtTreeMap.getElem?_erase]
        split
        · rename_i hk
          rw [← Std.compare_eq_iff_eq.mp hk, hl]
        · rfl
      rw [hsame]
      exact h
  | some e =>
      obtain rfl : e.id = id := h.keyed id e hl
      have hsame : ∀ x : Event, L.live[x.id]? = some x → x.id = e.id → x = e := by
        intro x hx hid
        rw [hid, hl] at hx
        exact (Option.some.inj hx).symm
      rw [Option.map_some]
      dsimp only
      rw [Codec.decode_record]
      refine ⟨_, rfl, hwf, ?_, ?_, ?_, ?_, ?_, h.deletedIds, h.deletedCoordinates⟩
      · refine h.events.erase hl rfl (fun x hx hk => ?_)
        exact hsame x hx (EventId.bytes_injective (Option.some.inj hk))
      · refine h.byCreatedAt.erase hl rfl (fun x hx hk => ?_)
        exact hsame x hx (Keys.byCreatedAt_inj (Option.some.inj hk)).2
      · refine h.byAuthorTs.erase hl rfl (fun x hx hk => ?_)
        exact hsame x hx (Keys.byAuthorTs_inj (Option.some.inj hk)).2.2
      · refine h.byKindAuthorTs.erase hl rfl (fun x hx hk => ?_)
        exact hsame x hx (Keys.byKindAuthorTs_inj (Option.some.inj hk)).2.2.2
      · dsimp only
        split
        · rename_i hd
          refine h.byCoordinate.erase_none hl ?_
          rw [addressableCoord_eq, hd]
          rfl
        · rename_i d hd
          have hc : addressableCoord e = some (e.kind, e.pubkey, d) := by
            rw [addressableCoord_eq, hd]
            rfl
          -- the coordinate's entry is the event's own
          have hown : t.byCoordinate[Keys.byCoordinate e.kind e.pubkey d]? = some e.id.bytes :=
            (h.byCoordinate _ _).mpr ⟨e, hl, by dsimp only; rw [hc]; rfl, rfl⟩
          rw [hown, if_pos (by simp)]
          refine h.byCoordinate.erase (k := coordBytes (e.kind, e.pubkey, d)) hl ?_ (fun x hx hk => ?_)
          · rw [hc]
            rfl
          · obtain ⟨c, hxc, hcb⟩ := Option.map_eq_some_iff.mp hk
            rw [coordBytes_injective hcb] at hxc
            exact h.wf.unique x e hx hl ((rivals_of_addressable hc).mpr hxc)

end Rep

end Redb

end Nula
