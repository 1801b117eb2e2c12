import Nula.Storage.Redb.Refine

/-!
# `Storage.Redb.Query` — what the redb read path returns

The read path collects hits in the order of its candidates, cuts them at the limit, and sorts what is left.
Sorting last is harmless without a limit. With one, the cut has to fall where the wire order would put it:
for ids named by the filter that depends on the order in which they are named, for an index scan on whether
the cut splits a group of events with one timestamp, since scans break ties the other way.
`databaseQuery_eq_spec_iff` says that these are the only ways to miss the reference answer.
-/

namespace Nula

open Std

namespace Redb

/-! ## The stored events -/

/-- The events table, decoded. -/
def liveEvents (pc : Postcard) (t : Tables) : LiveMap :=
  ExtTreeMap.ofList (t.events.toList.filterMap (fun kv => match Codec.decode pc kv.2 with
    | .ok e => some (e.id, e)
    | .error _ => none))

variable {pc : Postcard} {t : Tables} {L : Ledger}

/-- Decoding the events table gives the live events back. The records decode to the events they were made from, and no
    two have the same id. -/
theorem Rep.liveEvents_eq (h : Rep pc t L) : liveEvents pc t = L.live := by
  have hpair : ∀ kv ∈ t.events.toList, ∃ e : Event, kv = (e.id.bytes, Codec.record pc e) ∧
      L.live[e.id]? = some e := by
    rintro ⟨k, v⟩ hkv
    obtain ⟨e, he, hk, hv⟩ := (h.events k v).mp (ExtTreeMap.mem_toList_iff_getElem?_eq_some.mp hkv)
    exact ⟨e, by rw [← Option.some.inj hk, ← hv], he⟩
  unfold liveEvents
  generalize hlist : t.events.toList.filterMap (fun kv => match Codec.decode pc kv.2 with
    | .ok e => some (e.id, e)
    | .error _ => none) = pairs
  have hmem : ∀ p, p ∈ pairs ↔ ∃ e : Event, p = (e.id, e) ∧ L.live[e.id]? = some e := by
    intro p
    rw [← hlist, List.mem_filterMap]
    constructor
    · rintro ⟨kv, hkv, hp⟩
      obtain ⟨e, rfl, he⟩ := hpair kv hkv
      rw [Codec.decode_record] at hp
      exact ⟨e, (Option.some.inj hp).symm, he⟩
    · rintro ⟨e, rfl, he⟩
      refine ⟨(e.id.bytes, Codec.record pc e), ?_, by rw [Codec.decode_record]⟩
      rw [ExtTreeMap.mem_toList_iff_getElem?_eq_some, h.events_get, he]
      rfl
  have hdistinct : pairs.Pairwise (fun a b => ¬ compare a.1 b.1 = .eq) := by
    rw [← hlist, List.pairwise_filterMap]
    refine ExtTreeMap.distinct_keys_toList.imp_of_mem ?_
    intro a b ha hb hne x hx y hy
    obtain ⟨e, rfl, _⟩ := hpair a ha
    obtain ⟨e', rfl, _⟩ := hpair b hb
    rw [Codec.decode_record] at hx hy
    obtain rfl := Option.some.inj hx
    obtain rfl := Option.some.inj hy
    rw [Std.compare_eq_iff_eq] at hne ⊢
    exact fun hid => hne (by rw [show e.id = e'.id from hid])
  -- distinct keys make the list a map, with exactly the live events in it
  apply ExtTreeMap.ext_getElem?
  intro id
  cases hl : L.live[id]? with
  | some e =>
      have hid : e.id = id := h.keyed id e hl
      refine ExtTreeMap.getElem?_ofList_of_mem Std.compare_self hdistinct ?_
      exact (hmem _).mpr ⟨e, by rw [hid], hid ▸ hl⟩
  | none =>
      refine ExtTreeMap.getElem?_ofList_of_contains_eq_false ?_
      rw [Bool.eq_false_iff, ne_eq, List.contains_iff_mem, List.mem_map]
      rintro ⟨p, hp, hpid⟩
      obtain ⟨e, rfl, he⟩ := (hmem p).mp hp
      rw [show e.id = id from hpid, hl] at he
      cases he

/-! ## Hits -/

/-- A hit is among the candidates, is there, and matches. -/
theorem mem_hits (hk : L.live.Keyed) {f : Filter} {ids : List EventId} {e : Event} :
    e ∈ hits L.live f ids ↔ e.id ∈ ids ∧ L.live[e.id]? = some e ∧ f.admits e = true := by
  rw [hits, List.mem_filterMap]
  constructor
  · rintro ⟨id, hid, he⟩
    rw [Option.filter_eq_some_iff] at he
    obtain rfl : e.id = id := hk id e he.1
    exact ⟨hid, he⟩
  · rintro ⟨hid, he⟩
    exact ⟨e.id, hid, Option.filter_eq_some_iff.mpr he⟩

/-- Among ids of live events, the hits are the admitted ones. -/
theorem hits_map_id {f : Filter} {evs : List Event} (hlive : ∀ e ∈ evs, L.live[e.id]? = some e) :
    hits L.live f (evs.map Event.id) = evs.filter f.admits := by
  induction evs with
  | nil => rfl
  | cons e evs ih =>
      have he := hlive e List.mem_cons_self
      have ih := ih (fun x hx => hlive x (List.mem_cons_of_mem e hx))
      rw [List.map_cons]
      by_cases ha : f.admits e = true
      · have hhit : (L.live[e.id]?).filter f.admits = some e := by simp [he, ha]
        rw [hits_cons_some _ hhit, ih, List.filter_cons_of_pos ha]
      · rw [hits_cons_none _ (by simp [he, ha]), ih, List.filter_cons_of_neg ha]

/-- **The store's answer**: the admitted live events in candidate order, cut at the limit. -/
theorem Rep.query (h : Rep pc t L) (f : Filter) : ∃ found : List Event,
    Redb.query pc t f = .ok (takeLimit f.limit found) ∧
    (∀ e, e ∈ found ↔ e ∈ (listing L.live).filter f.admits) ∧
    (namesIds f = true → found = hits L.live f (f.ids.getD [])) ∧
    (namesIds f = false → found.Pairwise (StampedRel stamp (flip idLt))) := by
  have hloop : ∀ ids : List EventId, candidateIds t f = ids.map EventId.bytes →
      Redb.query pc t f = .ok (takeLimit f.limit (hits L.live f ids)) := by
    intro ids hids
    have hlimit : f.limit.map (· - ([] : List Event).length) = f.limit := by
      cases f.limit <;> rfl
    rw [Redb.query, hids, h.collect (g := fun e => e) (fun e => Codec.decode_record pc e), hlimit,
      List.map_id', List.nil_append]
  cases hids : namesIds f with
  | true =>
      obtain ⟨ids, hf, hne⟩ := named_of_namesIds hids
      refine ⟨hits L.live f ids, hloop ids (candidates_ids hf hne), fun e => ?_, fun _ => by rw [hf]; rfl,
        nofun⟩
      rw [mem_hits h.keyed, List.mem_filter, h.keyed.mem_listing]
      exact ⟨fun he => he.2, fun he => ⟨((f.admits_iff e).mp he.2).1 ids hf, he⟩⟩
  | false =>
      obtain ⟨evs, hcand, hsorted, hlive, hall⟩ := h.candidates_scan hids
      have hq := hloop (evs.map Event.id) (by rw [hcand, List.map_map]; rfl)
      rw [hits_map_id hlive] at hq
      refine ⟨evs.filter f.admits, hq, fun e => ?_, nofun, fun _ => hsorted.filter _⟩
      rw [List.mem_filter, List.mem_filter, h.keyed.mem_listing]
      exact ⟨fun he => ⟨hlive e he.1, he.2⟩, fun he => ⟨hall e he.1 he.2, he.2⟩⟩

/-! ## The cut -/

/-- The limit cuts the hits where the wire order would. Ids named by the filter: the first hits, in the
    order named, come before the other hits on the wire, and none is a repeat while others are left out.
    An index scan: no group of hits with one timestamp is cut apart. -/
def CutFaithful (live : LiveMap) (f : Filter) : Prop :=
  ∀ n, f.limit = some n →
    if namesIds f then PrefixClosed Event.precedes n (hits live f (f.ids.getD []))
    else NoTieSplit stamp ((listing live).filter f.admits) n

/-- The answer of the database, against the reference answer. Two sorted lists are compared by their members, and
    those by how the candidates were found: by ids, or by a scan. -/
theorem Rep.databaseQuery_iff (h : Rep pc t L) (f : Filter) : ∃ answer : List Event,
    Redb.databaseQuery pc t f = .ok answer ∧ (answer = specQuery L.live f ↔ CutFaithful L.live f) := by
  obtain ⟨found, hq, hmem, hnamed, hscan⟩ := h.query f
  refine ⟨Events.fromUnsorted (takeLimit f.limit found), by rw [databaseQuery, hq]; rfl, ?_⟩
  have hpw : ((listing L.live).filter f.admits).Pairwise Event.precedes :=
    h.keyed.listing_pairwise.filter _
  have hspec : (specQuery L.live f).Pairwise Event.precedes := pairwise_takeLimit hpw
  have hident : Events.Identified (takeLimit f.limit found) := by
    have hlive : ∀ x ∈ takeLimit f.limit found, L.live[x.id]? = some x := by
      intro x hx
      exact h.keyed.mem_listing.mp (List.mem_of_mem_filter ((hmem x).mp (mem_of_mem_takeLimit hx)))
    intro x hx y hy hid
    have hxl := hlive x hx
    rw [hid, hlive y hy] at hxl
    exact (Option.some.inj hxl).symm
  -- both sides are sorted, so only membership is at stake
  have hsame : Events.fromUnsorted (takeLimit f.limit found) = specQuery L.live f ↔
      ∀ e, e ∈ takeLimit f.limit found ↔ e ∈ specQuery L.live f := by
    constructor
    · intro heq e
      rw [← heq, Events.mem_fromUnsorted hident]
    · intro heq
      refine Listing.ext (Events.fromUnsorted_pairwise _) hspec (fun e => ?_)
      rw [Events.mem_fromUnsorted hident, heq]
  rw [hsame, specQuery]
  cases hlim : f.limit with
  | none =>
      refine iff_of_true hmem (fun n hn => ?_)
      rw [hlim] at hn
      cases hn
  | some n =>
      have hcut : CutFaithful L.live f ↔
          if namesIds f then PrefixClosed Event.precedes n (hits L.live f (f.ids.getD []))
          else NoTieSplit stamp ((listing L.live).filter f.admits) n := by
        constructor
        · exact fun hc => hc n hlim
        · intro hc m hm
          rw [hlim] at hm
          obtain rfl := Option.some.inj hm
          exact hc
      rw [hcut]
      cases hids : namesIds f with
      | true =>
          rw [if_pos rfl, ← hnamed hids]
          exact take_eq_iff_prefixClosed hpw hmem n
      | false =>
          have hstamped : ((listing L.live).filter f.admits).Pairwise (StampedRel stamp idLt) :=
            hpw.imp (fun hab => (precedes_iff_stampedRel _ _).mp hab)
          rw [if_neg (by simp)]
          exact ties_take_iff hstamped (hscan hids) hmem n

/-- **When a query of the redb store is the reference answer.** In every reachable store a query succeeds,
    and its answer is the first `limit` admitted events in wire order exactly when the limit cuts the hits
    where the wire order would.

    The tables reached represent a ledger (`run_rep`), and `Rep.databaseQuery_iff` compares the scan of the
    candidate ids with the reference answer over that ledger. -/
theorem databaseQuery_eq_spec_iff (pc : Postcard) (o : RedbDatabaseOptions) (ops : List StoreOp)
    (f : Filter) :
    ∃ t answer, run pc o ops = .ok t ∧ databaseQuery pc t f = .ok answer ∧
      (answer = specQuery (liveEvents pc t) f ↔ CutFaithful (liveEvents pc t) f) := by
  obtain ⟨t, hrun, h⟩ := run_rep pc o ops
  obtain ⟨answer, hq, hiff⟩ := h.databaseQuery_iff f
  exact ⟨t, answer, hrun, hq, by rw [h.liveEvents_eq]; exact hiff⟩

/-- Two notes of one second, then a newer one. -/
def tied : List StoreOp :=
  [.saveEvent (Sample.event 1 Sample.alice 5 1 []) 10, .saveEvent (Sample.event 2 Sample.alice 5 1 []) 10,
    .saveEvent (Sample.event 3 Sample.alice 7 1 []) 10]

/-- With limit 2 a scan returns the wrong one of the two tied notes, and with limit 1 the ids of an old and
    a newer note, named in that order, return the old one. -/
theorem databaseQuery_ne_spec :
    (∃ t answer, run .wire ⟨true, true⟩ tied = .ok t ∧
      databaseQuery .wire t { Sample.everything with limit := some 2 } = .ok answer ∧
      answer ≠ specQuery (liveEvents .wire t) { Sample.everything with limit := some 2 }) ∧
    (∃ t answer, run .wire ⟨true, true⟩ tied = .ok t ∧
      databaseQuery .wire t
        { Sample.everything with ids := some [Sample.id 1, Sample.id 3], limit := some 1 } = .ok answer ∧
      answer ≠ specQuery (liveEvents .wire t)
        { Sample.everything with ids := some [Sample.id 1, Sample.id 3], limit := some 1 }) := by
  obtain ⟨t, hrun, h⟩ := run_rep .wire ⟨true, true⟩ tied
  refine ⟨?_, ?_⟩
  · obtain ⟨answer, hq, hiff⟩ := h.databaseQuery_iff { Sample.everything with limit := some 2 }
    refine ⟨t, answer, hrun, hq, ?_⟩
    rw [h.liveEvents_eq, ne_eq, hiff]
    intro hc
    refine hc 2 rfl 5 ?_
    decide +kernel
  · obtain ⟨answer, hq, hiff⟩ := h.databaseQuery_iff
      { Sample.everything with ids := some [Sample.id 1, Sample.id 3], limit := some 1 }
    refine ⟨t, answer, hrun, hq, ?_⟩
    rw [h.liveEvents_eq, ne_eq, hiff]
    intro hc
    have hclosed := (hc 1 rfl).1
    revert hclosed
    decide +kernel

end Redb

end Nula
