import Nula.Storage.Redb.Coherence

/-!
# `Storage.Redb.Scan` — what the index scans yield

On tables that represent a ledger, a range scan of an index lists the live events of a group, newest first
and ties by *descending* id (`Mirrors.range_spec`); the wire order breaks ties the other way. The candidates
of a filter come from such a scan or are the ids the filter names, and the two loops over them see exactly
the live events that the filter admits (`Rep.collect`, `Rep.matchingIds`).
-/

namespace Nula

open Std

namespace Redb

variable {pc : Postcard} {t : Tables} {L : Ledger}

/-! ## Index scans -/

/-- Ids in byte order. -/
def idLt (a b : Event) : Prop := compare a.id b.id = .lt

instance : IsStrictOrder Event idLt where
  irrefl := by
    intro a h
    rw [idLt, Std.compare_self] at h
    cases h
  trans := fun _ _ _ hab hbc => TransCmp.lt_trans hab hbc

/-- Seconds, as a number. -/
def stamp (e : Event) : Nat := e.createdAt.toNat

/-- The wire order sorts by stamp, then id. -/
theorem precedes_iff_stampedRel (a b : Event) : a.precedes b ↔ StampedRel stamp idLt a b := by
  rw [Event.precedes_iff, StampedRel, stamp, stamp, UInt64.lt_iff_toNat_lt, UInt64.toNat_inj]
  rfl

/-- Every value of a list that comes from somewhere comes from a list. -/
theorem exists_map_eq {α β : Type} {g : α → β} {P : α → Prop} {l : List β}
    (h : ∀ b ∈ l, ∃ a, P a ∧ g a = b) : ∃ l' : List α, l'.map g = l ∧ ∀ a ∈ l', P a := by
  induction l with
  | nil => exact ⟨[], rfl, by simp⟩
  | cons b l ih =>
      obtain ⟨a, ha, rfl⟩ := h b List.mem_cons_self
      obtain ⟨l', rfl, hl'⟩ := ih (fun x hx => h x (List.mem_cons_of_mem _ hx))
      refine ⟨a :: l', rfl, fun x hx => ?_⟩
      rcases List.mem_cons.mp hx with rfl | hx
      · exact ha
      · exact hl' x hx

/-- **Range scans.** An index whose keys are a fixed-width group, the time and the id yields, for a group,
    the events of that group: oldest first, ties by ascending id. -/
theorem Mirrors.range_spec {live : LiveMap} {n : Nat} {g : Event → Bytes} {table : IndexTable}
    (hsize : ∀ e, (g e).length = n)
    (h : Mirrors live (fun e => some (g e ++ Keys.byCreatedAt e.createdAt e.id)) (fun _ => ()) table)
    {p : Bytes} (hp : p.length = n) :
    ∃ evs : List Event, range table p = evs.map (fun e => g e ++ Keys.byCreatedAt e.createdAt e.id) ∧
      evs.Pairwise (fun a b => StampedRel stamp (flip idLt) b a) ∧
      ∀ e, e ∈ evs ↔ live[e.id]? = some e ∧ g e = p := by
  have hmem : ∀ k, k ∈ range table p ↔ ∃ e : Event, (live[e.id]? = some e ∧ g e = p) ∧
      g e ++ Keys.byCreatedAt e.createdAt e.id = k := by
    intro k
    rw [range, List.mem_filter, ExtTreeMap.mem_keys, h.mem_iff, decide_eq_true_eq]
    constructor
    · rintro ⟨⟨e, he, hk⟩, hr⟩
      obtain rfl := Option.some.inj hk
      have hlen : p.length ≤ (g e ++ Keys.byCreatedAt e.createdAt e.id).length := by
        rw [List.length_append, hsize]
        omega
      obtain ⟨rest, hrest⟩ := (Keys.inRange_iff hlen).mp hr
      exact ⟨e, ⟨he, (List.append_inj hrest (by rw [hp, hsize])).1.symm⟩, rfl⟩
    · rintro ⟨e, ⟨he, hg⟩, rfl⟩
      refine ⟨⟨e, he, rfl⟩, ?_⟩
      rw [← hg]
      exact (Keys.inRange_iff (by simp)).mpr (List.prefix_append _ _)
  obtain ⟨evs, hevs, hlive⟩ := exists_map_eq (fun k hk => (hmem k).mp hk)
  refine ⟨evs, hevs.symm, ?_, fun e => ⟨hlive e, fun he => ?_⟩⟩
  · -- keys ascend, and equal groups leave the time and the id to compare
    have hsorted : (range table p).Pairwise (fun a b => compare a b = .lt) :=
      ExtTreeMap.ordered_keys.filter _
    rw [← hevs, List.pairwise_map] at hsorted
    refine hsorted.imp_of_mem ?_
    intro a b ha hb hlt
    rw [(hlive a ha).2, (hlive b hb).2, compare_append rfl, Std.compare_self, Ordering.eq_then,
      Keys.compare_byCreatedAt, Ordering.then_eq_lt, Std.compare_eq_lt, Std.compare_eq_iff_eq] at hlt
    rcases hlt with hts | ⟨hts, hid⟩
    · exact Or.inl (UInt64.lt_iff_toNat_lt.mp hts)
    · exact Or.inr ⟨by rw [stamp, stamp, hts], hid⟩
  · have hk := (hmem _).mpr ⟨e, he, rfl⟩
    rw [← hevs, List.mem_map] at hk
    obtain ⟨x, hx, hxe⟩ := hk
    have hid := (Keys.byCreatedAt_inj (List.append_inj hxe (by rw [hsize, hsize])).2).2
    have hxl := (hlive x hx).1
    rw [hid, he.1] at hxl
    rw [Option.some.inj hxl]
    exact hx

/-- The ids of a scan, newest first. -/
theorem idsFrom_map {n : Nat} {g : Event → Bytes} (hsize : ∀ e, (g e).length = n)
    (evs : List Event) :
    idsFrom (n + Keys.tsLen) (evs.map (fun e => g e ++ Keys.byCreatedAt e.createdAt e.id))
      = evs.reverse.map (fun e => e.id.bytes) := by
  have hlen : ∀ e : Event, (g e ++ Keys.byCreatedAt e.createdAt e.id).length
      = n + Keys.tsLen + Keys.idLen := by
    intro e
    rw [List.length_append, hsize, Keys.byCreatedAt_length, Nat.add_assoc]
  have hdrop : ∀ e : Event, (g e ++ Keys.byCreatedAt e.createdAt e.id).drop (n + Keys.tsLen)
      = e.id.bytes := by
    intro e
    rw [Keys.byCreatedAt, ← List.append_assoc, List.drop_left']
    rw [List.length_append, hsize, beBytes_length]
  rw [idsFrom, List.filter_eq_self.mpr ?_, List.map_map, ← List.map_reverse]
  · congr 1
    funext e
    exact hdrop e
  · intro k hk
    obtain ⟨e, _, rfl⟩ := List.mem_map.mp hk
    simpa using hlen e

/-! ## Candidates -/

/-- The filter names ids, so no index is consulted. -/
def namesIds (f : Filter) : Bool := f.ids.any (fun ids => !ids.isEmpty)

theorem named_of_namesIds {f : Filter} (h : namesIds f = true) : ∃ ids, f.ids = some ids ∧ ids ≠ [] := by
  unfold namesIds at h
  cases hf : f.ids with
  | none => simp [hf] at h
  | some ids => exact ⟨ids, rfl, by rintro rfl; simp [hf] at h⟩

theorem single_eq_some {α : Type} {v : Option (List α)} {a : α} (h : single v = some a) : v = some [a] := by
  unfold single at h
  cases v with
  | none => cases h
  | some l =>
      match l, h with
      | [b], h =>
          obtain rfl : b = a := Option.some.inj h
          rfl

/-- The live events the filter admits among the ids, in the order of the ids. -/
def hits (live : LiveMap) (f : Filter) (ids : List EventId) : List Event :=
  ids.filterMap (fun id => (live[id]?).filter f.admits)

theorem hits_cons_none {live : LiveMap} {f : Filter} {id : EventId} (ids : List EventId)
    (h : (live[id]?).filter f.admits = none) : hits live f (id :: ids) = hits live f ids :=
  List.filterMap_cons_none h

theorem hits_cons_some {live : LiveMap} {f : Filter} {id : EventId} {e : Event} (ids : List EventId)
    (h : (live[id]?).filter f.admits = some e) : hits live f (id :: ids) = e :: hits live f ids :=
  List.filterMap_cons_some h

namespace Rep

/-- **Index candidates**: newest first, ties by *descending* id, live, and complete for the filter. One case for each
    index that a filter can choose; what the filter admits is in the range that is scanned. -/
theorem candidates_scan (h : Rep pc t L) {f : Filter} (hids : namesIds f = false) :
    ∃ evs : List Event, candidateIds t f = evs.map (fun e => e.id.bytes) ∧
      evs.Pairwise (StampedRel stamp (flip idLt)) ∧
      (∀ e ∈ evs, L.live[e.id]? = some e) ∧
      ∀ e, L.live[e.id]? = some e → f.admits e = true → e ∈ evs := by
  -- a scan of the group `p`, when the filter admits only events of the group
  have hscan : ∀ (n : Nat) (g : Event → Bytes) (table : IndexTable) (p : Bytes),
      (∀ e, (g e).length = n) → p.length = n →
      Mirrors L.live (fun e => some (g e ++ Keys.byCreatedAt e.createdAt e.id)) (fun _ => ()) table →
      (∀ e, f.admits e = true → g e = p) →
      ∃ evs : List Event, idsFrom (n + Keys.tsLen) (range table p) = evs.map (fun e => e.id.bytes) ∧
        evs.Pairwise (StampedRel stamp (flip idLt)) ∧ (∀ e ∈ evs, L.live[e.id]? = some e) ∧
        ∀ e, L.live[e.id]? = some e → f.admits e = true → e ∈ evs := by
    intro n g table p hsize hp hm hadm
    obtain ⟨evs, hrange, hsorted, hmem⟩ := hm.range_spec hsize hp
    refine ⟨evs.reverse, ?_, List.pairwise_reverse.mpr hsorted, ?_, ?_⟩
    · rw [hrange, idsFrom_map hsize]
    · intro e he
      exact ((hmem e).mp (List.mem_reverse.mp he)).1
    · intro e he ha
      exact List.mem_reverse.mpr ((hmem e).mpr ⟨he, hadm e ha⟩)
  have hcand : candidateIds t f = indexIds t f := by
    unfold candidateIds
    unfold namesIds at hids
    cases hf : f.ids with
    | none => rfl
    | some ids =>
        rw [hf, Option.any_some, Bool.not_eq_false'] at hids
        simp only [hids, if_true]
  rw [hcand, indexIds]
  cases ha : single f.authors with
  | none =>
      have hfull : t.byCreatedAt.keys = range t.byCreatedAt [] := by
        rw [range, List.filter_eq_self.mpr]
        intro k _
        exact decide_eq_true ((Keys.inRange_iff (Nat.zero_le _)).mpr List.nil_prefix)
      dsimp only
      rw [hfull]
      have := hscan 0 (fun _ => []) t.byCreatedAt [] (fun _ => rfl) rfl h.byCreatedAt (fun _ _ => rfl)
      rwa [Nat.zero_add] at this
  | some author =>
      have hauthor : ∀ e, f.admits e = true → e.pubkey = author := by
        intro e he
        have := ((f.admits_iff e).mp he).2.1 _ (single_eq_some ha)
        simpa using this
      cases hk : single f.kinds with
      | none =>
          exact hscan 32 (fun e => e.pubkey.bytes) t.byAuthorTs author.bytes (fun e => e.pubkey.size)
            author.size h.byAuthorTs (fun e he => by rw [hauthor e he])
      | some kind =>
          have hkind : ∀ e, f.admits e = true → e.kind = kind := by
            intro e he
            have := ((f.admits_iff e).mp he).2.2.1 _ (single_eq_some hk)
            simpa using this
          exact hscan 34 (fun e => Keys.kindAuthorPrefix e.kind e.pubkey) t.byKindAuthorTs
            (Keys.kindAuthorPrefix kind author) (fun e => Keys.kindAuthorPrefix_length e.kind e.pubkey)
            (Keys.kindAuthorPrefix_length kind author) h.byKindAuthorTs
            (fun e he => by rw [hauthor e he, hkind e he])

/-- Where ids are named, they are the candidates. -/
theorem candidates_ids {f : Filter} {ids : List EventId} (hf : f.ids = some ids) (hne : ids ≠ []) :
    candidateIds t f = ids.map EventId.bytes := by
  unfold candidateIds
  rw [hf]
  simp [hne]

/-- Whatever the path, the candidates are ids and include every admitted live event. -/
theorem candidates_complete (h : Rep pc t L) (f : Filter) :
    ∃ ids : List EventId, candidateIds t f = ids.map EventId.bytes ∧
      ∀ e, L.live[e.id]? = some e → f.admits e = true → e.id ∈ ids := by
  cases hids : namesIds f with
  | false =>
      obtain ⟨evs, hcand, _, _, hall⟩ := h.candidates_scan hids
      refine ⟨evs.map Event.id, by rw [hcand, List.map_map]; rfl, fun e he ha => ?_⟩
      exact List.mem_map_of_mem (hall e he ha)
  | true =>
      obtain ⟨ids, hf, hne⟩ := named_of_namesIds hids
      exact ⟨ids, candidates_ids hf hne, fun e _ ha => ((f.admits_iff e).mp ha).1 ids hf⟩

/-! ## The loops over candidates -/

/-- The read loop emits the hits until the limit is reached. By induction on the ids, with what was emitted before as
    a parameter. -/
theorem collect (h : Rep pc t L) {β : Type} {emit : EventView → Bytes → Result pc β} {g : Event → β}
    (hemit : ∀ e, emit (Codec.viewOf e) (Codec.record pc e) = .ok (g e)) (f : Filter)
    (ids : List EventId) (out : List β) :
    Redb.collect pc emit t f (ids.map EventId.bytes) out
      = .ok (out ++ (takeLimit (f.limit.map (· - out.length)) (hits L.live f ids)).map g) := by
  induction ids generalizing out with
  | nil =>
      have hnil : takeLimit (f.limit.map (· - out.length)) ([] : List Event) = [] :=
        takeLimit_eq_nil_iff.mpr (Or.inr rfl)
      rw [List.map_nil, Redb.collect, hits, List.filterMap_nil, hnil, List.map_nil, List.append_nil]
  | cons id ids ih =>
      rw [List.map_cons, Redb.collect]
      by_cases hfull : f.limit.any (fun limit => limit ≤ out.length) = true
      · rw [if_pos hfull, takeLimit_spent hfull, List.map_nil, List.append_nil]
      · rw [if_neg hfull, h.events_get]
        cases hl : L.live[id]? with
        | none =>
            show Redb.collect pc emit t f (ids.map EventId.bytes) out = _
            rw [ih, hits_cons_none ids (by simp [hl])]
        | some e =>
            rw [Option.map_some]
            dsimp only
            rw [Codec.decodeMatchView_record]
            show (if f.matchEvent (Codec.viewOf e) .default = true then _ else _) = _
            rw [matchEvent_view_default]
            by_cases ha : f.admits e = true
            · have hhit : (L.live[id]?).filter f.admits = some e := by simp [hl, ha]
              rw [if_pos ha, hemit, hits_cons_some ids hhit, takeLimit_cons hfull]
              show Redb.collect pc emit t f (ids.map EventId.bytes) (out ++ [g e]) = _
              rw [ih, List.length_append, List.length_singleton, List.append_assoc, List.map_cons]
              rfl
            · rw [if_neg ha, ih, hits_cons_none ids (by simp [hl, ha])]

/-- The scan of an administrative delete keeps the ids of admitted live events. -/
theorem matchingIds (h : Rep pc t L) (f : Filter) (ids : List EventId) :
    Redb.matchingIds pc t f (ids.map EventId.bytes)
      = .ok ((ids.filter (fun id => (L.live[id]?).any f.admits)).map EventId.bytes) := by
  induction ids with
  | nil => rfl
  | cons id ids ih =>
      rw [List.map_cons, Redb.matchingIds, h.events_get]
      cases hl : L.live[id]? with
      | none =>
          show Redb.matchingIds pc t f (ids.map EventId.bytes) = _
          rw [ih, List.filter_cons_of_neg (by simp [hl])]
      | some e =>
          rw [Option.map_some]
          dsimp only
          rw [Codec.decodeMatchView_record, ih]
          by_cases ha : f.admits e = true
          · rw [List.filter_cons_of_pos (by simp [hl, ha])]
            show Except.ok (if f.matchEvent (Codec.viewOf e) .default = true then _ else _) = _
            rw [matchEvent_view_default, if_pos ha]
            rfl
          · rw [List.filter_cons_of_neg (by simp [hl, ha])]
            show Except.ok (if f.matchEvent (Codec.viewOf e) .default = true then _ else _) = _
            rw [matchEvent_view_default, if_neg ha]

end Rep

end Redb

end Nula
