import Nula.Storage.Memory.Refine

/-!
# `Storage.Memory.Query` — what the in-memory planner returns

The generic scan computes the reference answer. The author and kind-author plans read a bucket, which
lists exactly the events their filter can admit, so they compute it too. The coordinate plan returns
the event keyed at the coordinate, whatever the limit is and whatever other events the filter admits;
`queryOwned_eq_spec_iff` says exactly when that is the reference answer.
-/

namespace Nula

open Std

/-! ## The planner -/

theorem eq_singleton_of_len_head {α : Type} {v : Option (List α)} {a : α}
    (hlen : v.elim 0 List.length = 1) (hhead : v.bind List.head? = some a) : v = some [a] := by
  cases v with
  | none => cases hhead
  | some l =>
      match l, hlen, hhead with
      | [b], _, hhead =>
          obtain rfl : b = a := Option.some.inj hhead
          rfl

namespace QueryPattern

/-- The plan of one author is for filters that ask for one. -/
theorem fromFilter_author {f : Filter} {pk : PublicKey} (h : fromFilter f = .author pk) :
    f.authors = some [pk] := by
  unfold fromFilter at h
  split at h
  · cases h
  split at h
  · cases h
  dsimp only at h
  generalize f.genericTags.len - (if f.genericTags.containsKey singleLetterD then 1 else 0) = others at h
  split at h
  · split at h <;> cases h
  · split at h <;> cases h
  · rename_i hlen _ hhead _ _
    split at h
    · cases h
      exact eq_singleton_of_len_head hlen hhead
    · cases h
  · cases h

/-- The plan of one kind and author is for filters that ask for both. -/
theorem fromFilter_kindAuthor {f : Filter} {kind : Kind} {pk : PublicKey}
    (h : fromFilter f = .kindAuthor kind pk) : f.authors = some [pk] ∧ f.kinds = some [kind] := by
  unfold fromFilter at h
  split at h
  · cases h
  split at h
  · cases h
  dsimp only at h
  generalize f.genericTags.len - (if f.genericTags.containsKey singleLetterD then 1 else 0) = others at h
  split at h
  · split at h <;> cases h
  · rename_i hlen hklen hhead hkhead _
    split at h
    · cases h
      exact ⟨eq_singleton_of_len_head hlen hhead, eq_singleton_of_len_head hklen hkhead⟩
    · cases h
  · split at h <;> cases h
  · cases h

end QueryPattern

/-! ## Scans -/

/-- Live events of a group, in wire order. Two strictly ascending lists with the same members are equal. -/
theorem Bucketed.resolve {κ : Type} [Ord κ] [TransOrd κ] [DecidableEq κ] {live : LiveMap}
    (hk : live.Keyed) {g : Event → κ} {m : HashMap κ (BTreeSet EventKey)} (h : Bucketed live g m)
    (k : κ) : (m.getD k ∅).toList.filterMap (fun key => live[key.id]?)
      = (listing live).filter (fun e => decide (g e = k)) := by
  have hkeys : ∀ key ∈ (m.getD k ∅).toList, ∃ e : Event,
      live[key.id]? = some e ∧ g e = k ∧ EventKey.fromEvent e = key := by
    intro key hkey
    obtain ⟨e, he, hg, rfl⟩ := (h.mem k key).mp (ExtTreeSet.mem_toList.mp hkey)
    exact ⟨e, he, hg, rfl⟩
  apply Listing.ext (r := Event.precedes)
  · -- the keys ascend, and a key is its event's sort key
    rw [List.pairwise_filterMap]
    refine ExtTreeSet.ordered_toList.imp_of_mem ?_
    intro a b ha hb hlt x hx y hy
    obtain ⟨x', hx', _, hxa⟩ := hkeys a ha
    obtain ⟨y', hy', _, hyb⟩ := hkeys b hb
    rw [hx', Option.some.injEq] at hx
    rw [hy', Option.some.injEq] at hy
    rw [← hxa, ← hyb, hx, hy] at hlt
    exact hlt
  · exact hk.listing_pairwise.filter _
  · intro e
    rw [List.mem_filterMap, List.mem_filter, hk.mem_listing, decide_eq_true_eq]
    constructor
    · rintro ⟨key, hkey, hke⟩
      obtain ⟨x, hx, hg, rfl⟩ := hkeys key hkey
      obtain rfl : x = e := Option.some.inj (hx.symm.trans hke)
      exact ⟨hx, hg⟩
    · rintro ⟨he, hg⟩
      exact ⟨EventKey.fromEvent e,
        ExtTreeSet.mem_toList.mpr ((h.mem k _).mpr ⟨e, he, hg, rfl⟩), he⟩

/-- A group that contains every admitted event answers the query. -/
theorem filter_group {live : LiveMap} {f : Filter} {p : Event → Bool}
    (h : ∀ e, f.admits e = true → p e = true) :
    ((listing live).filter p).filter f.admits = (listing live).filter f.admits := by
  rw [List.filter_filter]
  refine List.filter_congr (fun e _ => ?_)
  cases ha : f.admits e with
  | false => rfl
  | true => rw [h e ha]; rfl

namespace MemoryStore

variable {s : MemoryStore}

/-- Every hit is the key of a live event. One case for each plan. -/
theorem Indexed.queryKeys_live (h : Indexed s) (f : Filter) :
    ∀ key ∈ s.queryKeys f, ∃ e : Event, s.byId[e.id]? = some e ∧ EventKey.fromEvent e = key := by
  have hmat : ∀ (events : List Event), (∀ e ∈ events, s.byId[e.id]? = some e) →
      ∀ key ∈ materialise f events, ∃ e : Event, s.byId[e.id]? = some e ∧ EventKey.fromEvent e = key := by
    intro events hev key hkey
    obtain ⟨e, he, rfl⟩ := List.mem_map.mp hkey
    exact ⟨e, hev e (List.mem_of_mem_filter (mem_of_mem_takeLimit he)), rfl⟩
  have hres : ∀ keys : BTreeSet EventKey, ∀ e ∈ s.resolveKeys keys, s.byId[e.id]? = some e := by
    intro keys e he
    obtain ⟨key, _, hkey⟩ := List.mem_filterMap.mp he
    rw [h.keyed key.id e hkey]
    exact hkey
  unfold queryKeys
  split
  · refine hmat _ (fun e he => ?_)
    rw [h.byTime_values, h.keyed.mem_listing] at he
    exact he
  · split
    · exact hmat _ (hres _)
    · simp
  · split
    · exact hmat _ (hres _)
    · simp
  · split
    · rename_i e he
      split
      · intro key hkey
        rw [List.mem_singleton] at hkey
        exact ⟨e, ((h.byCoordinate _ e).mp he).1, hkey.symm⟩
      · simp
    · simp

/-- The hits determine the answer and conversely. -/
theorem Indexed.queryKeys_eq (h : Indexed s) (f : Filter) :
    s.queryKeys f = (s.queryOwned f).map EventKey.fromEvent := by
  rw [queryOwned]
  have hlive := h.queryKeys_live f
  generalize s.queryKeys f = keys at hlive ⊢
  induction keys with
  | nil => rfl
  | cons key keys ih =>
      obtain ⟨e, he, hkey⟩ := hlive key List.mem_cons_self
      have hid : (fun k : EventKey => s.byId[k.id]?) key = some e := by
        rw [← hkey]
        exact he
      rw [List.filterMap_cons_some (f := fun k : EventKey => s.byId[k.id]?) hid, List.map_cons, hkey,
        ← ih (fun k hk => hlive k (List.mem_cons_of_mem _ hk))]

/-- The owned answer of a scan over live events. -/
theorem filterMap_materialise {f : Filter} {events : List Event}
    (hev : ∀ e ∈ events, s.byId[e.id]? = some e) :
    (materialise f events).filterMap (fun k => s.byId[k.id]?)
      = takeLimit f.limit (events.filter f.admits) := by
  have hsub : ∀ l : List Event, (∀ e ∈ l, s.byId[e.id]? = some e) →
      (l.map EventKey.fromEvent).filterMap (fun k => s.byId[k.id]?) = l := by
    intro l hl
    rw [List.filterMap_map]
    induction l with
    | nil => rfl
    | cons e l ih =>
        have he : ((fun k : EventKey => s.byId[k.id]?) ∘ EventKey.fromEvent) e = some e :=
          hl e List.mem_cons_self
        rw [List.filterMap_cons_some he, ih (fun x hx => hl x (List.mem_cons_of_mem _ hx))]
  exact hsub _ (fun e he => hev e (List.mem_of_mem_filter (mem_of_mem_takeLimit he)))

/-- A plan that reads the group `g e = k` computes the reference answer when the filter admits only
    events of the group. -/
theorem Indexed.queryOwned_bucket (h : Indexed s) {κ : Type} [Ord κ] [TransOrd κ] [DecidableEq κ]
    {g : Event → κ} {m : HashMap κ (BTreeSet EventKey)} (hm : Bucketed s.byId g m) {k : κ} {f : Filter}
    (hadm : ∀ e, f.admits e = true → g e = k) :
    (match m[k]? with
      | some keys => materialise f (s.resolveKeys keys)
      | none => []).filterMap (fun key : EventKey => s.byId[key.id]?) = specQuery s.byId f := by
  have hgroup := hm.resolve h.keyed k
  have hspec : specQuery s.byId f = takeLimit f.limit
      (((m.getD k ∅).toList.filterMap (fun key => s.byId[key.id]?)).filter f.admits) := by
    rw [hgroup, filter_group (fun e he => decide_eq_true (hadm e he)), specQuery]
  rw [hspec, ExtTreeMap.getD_eq_getD_getElem?]
  cases hset : m[k]? with
  | none =>
      have hnil : takeLimit f.limit ([] : List Event) = [] := by cases f.limit <;> simp [takeLimit]
      rw [Option.getD_none, ExtTreeSet.toList_eq_nil_iff.mpr rfl]
      exact hnil.symm
  | some keys =>
      refine filterMap_materialise (fun e he => ?_)
      obtain ⟨key, _, hkey⟩ := List.mem_filterMap.mp he
      rw [h.keyed key.id e hkey]
      exact hkey

/-- The full scan computes the reference answer. -/
theorem Indexed.generic_eq (h : Indexed s) (f : Filter) :
    materialise f (s.byTime.toList.map Prod.snd) = (specQuery s.byId f).map EventKey.fromEvent := by
  rw [h.byTime_values]
  rfl

/-! ## The coordinate plan -/

/-- The event keyed at the coordinate is the reference answer: with limit 0 nothing admitted is keyed
    there, and otherwise everything admitted is, or the limit is 1 and the keyed event comes first. -/
def CoordinateFaithful (live : LiveMap) (f : Filter) (c : CoordKey) : Prop :=
  (f.limit = some 0 → ∀ e ∈ listing live, f.admits e = true → addressableCoord e ≠ some c) ∧
  (f.limit ≠ some 0 →
    (∀ e ∈ listing live, f.admits e = true → addressableCoord e = some c) ∨
    (f.limit = some 1 ∧ ∃ w ∈ listing live, f.admits w = true ∧ addressableCoord w = some c ∧
      ∀ e ∈ listing live, f.admits e = true → e ≠ w → w.precedes e))

/-- Only the coordinate plan has to be faithful. -/
def PlanFaithful (live : LiveMap) (f : Filter) : Prop :=
  ∀ (kind : Kind) (author : PublicKey) (d : String),
    QueryPattern.fromFilter f = .coordinate kind author d → CoordinateFaithful live f (kind, author, d)

/-- What the coordinate plan returns, against the reference answer. The plan returns the event at the coordinate if
    the filter admits it, so it is the reference answer only if nothing else is admitted there or the limit cuts the
    rest off. -/
theorem Tracks.coordinate_iff {o : MemoryDatabaseOptions} {L : Ledger} (h : Tracks s o L) (f : Filter)
    (c : CoordKey) :
    (match s.byCoordinate[c]? with
      | some e => if f.admits e then [e] else []
      | none => []) = specQuery L.live f ↔ CoordinateFaithful L.live f c := by
  have hk := h.keyed
  have hat : ∀ e ∈ listing L.live, addressableCoord e = some c → s.byCoordinate[c]? = some e := by
    intro e he hec
    rw [hk.mem_listing, ← h.byId_eq] at he
    exact (h.indexed.byCoordinate c e).mpr ⟨he, hec⟩
  have hpw : ((listing L.live).filter f.admits).Pairwise Event.precedes := hk.listing_pairwise.filter _
  -- without an admitted event at the coordinate the plan returns nothing
  have hnone : (∀ e ∈ listing L.live, f.admits e = true → addressableCoord e ≠ some c) →
      ([] = specQuery L.live f ↔ CoordinateFaithful L.live f c) := by
    intro hno
    rw [eq_comm, specQuery, takeLimit_eq_nil_iff, List.filter_eq_nil_iff]
    constructor
    · rintro hnil
      refine ⟨fun _ => hno, fun hlim => Or.inl (fun e he ha => ?_)⟩
      exact absurd ha (hnil.resolve_left hlim e he)
    · rintro ⟨_, hpos⟩
      by_cases hlim : f.limit = some 0
      · exact Or.inl hlim
      · right
        intro e he ha
        rcases hpos hlim with hall | ⟨_, w, hw, hwa, hwc, _⟩
        · exact hno e he ha (hall e he ha)
        · exact hno w hw hwa hwc
  cases hc : s.byCoordinate[c]? with
  | none =>
      refine hnone (fun e he _ hec => ?_)
      rw [hat e he hec] at hc
      cases hc
  | some w =>
      obtain ⟨hw, hwc⟩ := (h.indexed.byCoordinate c w).mp hc
      rw [h.byId_eq, ← hk.mem_listing] at hw
      have honly : ∀ e ∈ listing L.live, addressableCoord e = some c → e = w := by
        intro e he hec
        exact Option.some.inj ((hat e he hec).symm.trans hc)
      dsimp only
      by_cases hwa : f.admits w = true
      · rw [if_pos hwa, eq_comm, specQuery,
          takeLimit_eq_singleton_iff hpw (List.mem_filter.mpr ⟨hw, hwa⟩)]
        simp only [List.mem_filter, and_imp]
        constructor
        · rintro ⟨hlim, hcase⟩
          refine ⟨fun h0 => absurd h0 hlim, fun _ => ?_⟩
          rcases hcase with hall | ⟨h1, hfirst⟩
          · exact Or.inl (fun e he ha => hall e he ha ▸ hwc)
          · exact Or.inr ⟨h1, w, hw, hwa, hwc, hfirst⟩
        · rintro ⟨hzero, hpos⟩
          have hlim : f.limit ≠ some 0 := fun h0 => hzero h0 w hw hwa hwc
          refine ⟨hlim, ?_⟩
          rcases hpos hlim with hall | ⟨h1, w', hw', _, hwc', hfirst⟩
          · exact Or.inl (fun e he ha => honly e he (hall e he ha))
          · rw [honly w' hw' hwc'] at hfirst
            exact Or.inr ⟨h1, hfirst⟩
      · rw [if_neg hwa]
        refine hnone (fun e he ha hec => ?_)
        rw [honly e he hec] at ha
        exact hwa ha

/-- The owned answer of a plan that returns the event keyed at a coordinate. -/
theorem Indexed.queryOwned_coordinate (h : Indexed s) {f : Filter} {kind : Kind} {author : PublicKey}
    {d : String} (hp : QueryPattern.fromFilter f = .coordinate kind author d) :
    s.queryOwned f = match s.byCoordinate[(kind, author, d)]? with
      | some e => if f.admits e then [e] else []
      | none => [] := by
  rw [queryOwned, queryKeys, hp]
  dsimp only
  cases hc : s.byCoordinate[(kind, author, d)]? with
  | none => rfl
  | some e =>
      have he : s.byId[e.id]? = some e := ((h.byCoordinate _ e).mp hc).1
      by_cases ha : f.admits e = true
      · have ha' : f.matchEvent e .default = true := ha
        dsimp only
        rw [if_pos ha, if_pos ha']
        exact List.filterMap_cons_some (f := fun k : EventKey => s.byId[k.id]?)
          (a := EventKey.fromEvent e) he
      · have ha' : ¬ f.matchEvent e .default = true := ha
        dsimp only
        rw [if_neg ha, if_neg ha']
        rfl

/-- **A query answers as it should exactly if its plan is faithful.** The plans but that of a coordinate always are.
    One case for each plan; the buckets are listed by `Bucketed.resolve`, and the plan of a coordinate is
    `coordinate_iff`. -/
theorem Tracks.queryOwned_iff {o : MemoryDatabaseOptions} {L : Ledger} (h : Tracks s o L)
    (f : Filter) : s.queryOwned f = specQuery L.live f ↔ PlanFaithful L.live f := by
  have hother : (∀ kind author d, QueryPattern.fromFilter f ≠ .coordinate kind author d) →
      s.queryOwned f = specQuery s.byId f → (s.queryOwned f = specQuery L.live f ↔ PlanFaithful L.live f) := by
    intro hne heq
    rw [heq, h.byId_eq]
    exact ⟨fun _ kind author d hp => absurd hp (hne kind author d), fun _ => rfl⟩
  cases hp : QueryPattern.fromFilter f with
  | generic =>
      refine hother (fun _ _ _ hc => by rw [hp] at hc; cases hc) ?_
      rw [queryOwned, queryKeys, hp]
      dsimp only
      rw [filterMap_materialise (fun e he => ?_), h.indexed.byTime_values]
      · rfl
      · rw [h.indexed.byTime_values, h.indexed.keyed.mem_listing] at he
        exact he
  | author pk =>
      refine hother (fun _ _ _ hc => by rw [hp] at hc; cases hc) ?_
      rw [queryOwned, queryKeys, hp]
      refine h.indexed.queryOwned_bucket h.indexed.byAuthor (fun e he => ?_)
      have := ((f.admits_iff e).mp he).2.1 _ (QueryPattern.fromFilter_author hp)
      simpa using this
  | kindAuthor kind pk =>
      refine hother (fun _ _ _ hc => by rw [hp] at hc; cases hc) ?_
      rw [queryOwned, queryKeys, hp]
      refine h.indexed.queryOwned_bucket h.indexed.byKindAuthor (fun e he => ?_)
      obtain ⟨ha, hkd⟩ := QueryPattern.fromFilter_kindAuthor hp
      have h1 := ((f.admits_iff e).mp he).2.1 _ ha
      have h2 := ((f.admits_iff e).mp he).2.2.1 _ hkd
      simp only [List.mem_singleton] at h1 h2
      rw [h1, h2]
  | coordinate kind author d =>
      rw [h.indexed.queryOwned_coordinate hp, h.coordinate_iff]
      constructor
      · intro hf k a d' hp'
        rw [hp] at hp'
        cases hp'
        exact hf
      · intro hf
        exact hf kind author d hp

/-- **When a query of the in-memory store is the reference answer.** In every reachable store, the answer
    is the first `limit` admitted events in wire order, and the planner returns what the full scan
    would, exactly when the coordinate plan, if chosen, is faithful.

    The store reached tracks a ledger (`run_tracks`), and of the plans only that of a coordinate returns what is
    not a slice of the index in wire order (`Tracks.queryOwned_iff`). -/
theorem queryOwned_eq_spec_iff (o : MemoryDatabaseOptions) (ops : List StoreOp) (f : Filter) :
    ((run o ops).queryOwned f = specQuery (run o ops).byId f ∧
      (run o ops).queryKeys f = materialise f ((run o ops).byTime.toList.map Prod.snd)) ↔
      PlanFaithful (run o ops).byId f := by
  obtain ⟨L, _, h⟩ := run_tracks o ops
  rw [h.indexed.generic_eq, h.byId_eq, ← h.queryOwned_iff f, h.indexed.queryKeys_eq]
  constructor
  · exact fun hq => hq.1
  · intro hq
    exact ⟨hq, by rw [hq]⟩

/-- An addressable event with two `d` tags, saved alone. -/
def twoIdentifiers : Event := Sample.event 1 Sample.alice 5 30000 [["d", "a"], ["d", "b"]]

/-- The filter for one author, one addressable kind and one `d` value. -/
def atIdentifier (d : String) (limit : Option Nat) : Filter :=
  { Sample.everything with
    authors := some [Sample.alice]
    kinds := some [⟨30000⟩]
    limit := limit
    genericTags := ⟨[(singleLetterD, [d])], by simp⟩ }

/-- The second `d` value finds nothing although the filter admits the event, and a limit of 0 still
    returns one event. -/
theorem queryOwned_ne_spec :
    ((run ⟨none, true, true⟩ [.saveEvent twoIdentifiers 10]).queryOwned (atIdentifier "b" none)
      ≠ specQuery (run ⟨none, true, true⟩ [.saveEvent twoIdentifiers 10]).byId
          (atIdentifier "b" none)) ∧
    ((run ⟨none, true, true⟩ [.saveEvent twoIdentifiers 10]).queryOwned (atIdentifier "a" (some 0))
      ≠ specQuery (run ⟨none, true, true⟩ [.saveEvent twoIdentifiers 10]).byId
          (atIdentifier "a" (some 0))) := by
  decide +kernel

end MemoryStore

end Nula
