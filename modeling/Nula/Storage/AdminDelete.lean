import Nula.Storage.Memory.Query
import Nula.Storage.Redb.Refine

/-!
# `Storage.AdminDelete` — administrative deletes

`delete` is meant to remove exactly the stored events its filter admits and to leave no tombstone. The redb
store scans its candidates for that purpose and does not look at the limit. The in-memory store removes what
the *query* returns, so the limit and the coordinate plan leak into what is deleted; it never removes too
much, and `delete_exact` says when it removes enough.
-/

namespace Nula

open Std

/-! ## The in-memory store -/

namespace MemoryStore

/-- Exactly the events the filter admits are gone; tombstones, stamps and vanished authors are as they were. -/
structure DeletesExactly (f : Filter) (s s' : MemoryStore) : Prop where
  gone : ∀ (id : EventId) (x : Event), s'.byId[id]? = some x → f.admits x = false
  kept : ∀ (id : EventId) (x : Event), s.byId[id]? = some x → f.admits x = false → s'.byId[id]? = some x
  old : ∀ (id : EventId) (x : Event), s'.byId[id]? = some x → s.byId[id]? = some x
  deletedIds : s'.deletedIds = s.deletedIds
  deletedCoordinates : s'.deletedCoordinates = s.deletedCoordinates
  vanishedAuthors : s'.vanishedAuthors = s.vanishedAuthors

/-- The query returns every admitted event: for the coordinate plan, all of them are keyed at the coordinate;
    for the other plans, they do not exceed the limit. -/
def QueryComplete (live : LiveMap) (f : Filter) : Prop :=
  match QueryPattern.fromFilter f with
  | .coordinate kind author d =>
      ∀ e ∈ listing live, f.admits e = true → addressableCoord e = some (kind, author, d)
  | _ => ∀ n, f.limit = some n → ((listing live).filter f.admits).length ≤ n

variable {s : MemoryStore} {o : MemoryDatabaseOptions} {L : Ledger}

/-- A plan that is not the coordinate plan returns the reference answer. -/
theorem Tracks.queryOwned_eq (h : Tracks s o L) {f : Filter}
    (hp : ∀ kind author d, QueryPattern.fromFilter f ≠ .coordinate kind author d) :
    s.queryOwned f = specQuery L.live f :=
  (h.queryOwned_iff f).mpr (fun kind author d hc => absurd hc (hp kind author d))

/-- The query returns only admitted live events. -/
theorem Tracks.queryOwned_sound (h : Tracks s o L) (f : Filter) {e : Event} (he : e ∈ s.queryOwned f) :
    e ∈ listing L.live ∧ f.admits e = true := by
  cases hp : QueryPattern.fromFilter f with
  | coordinate kind author d =>
      rw [h.indexed.queryOwned_coordinate hp] at he
      split at he
      · rename_i w hw
        split at he
        · rename_i ha
          obtain rfl := List.mem_singleton.mp he
          have hlive := ((h.indexed.byCoordinate _ e).mp hw).1
          rw [h.byId_eq] at hlive
          exact ⟨h.keyed.mem_listing.mpr hlive, ha⟩
        · cases he
      · cases he
  | generic | author pk | kindAuthor kind pk =>
      rw [h.queryOwned_eq (fun _ _ _ hc => by rw [hp] at hc; cases hc)] at he
      exact List.mem_filter.mp (mem_of_mem_takeLimit he)

/-- The query returns all of them exactly when it is complete. One case for each plan: that of a coordinate finds one
    event at most, and the others are cut by the limit. -/
theorem Tracks.queryOwned_all_iff (h : Tracks s o L) (f : Filter) :
    (∀ e ∈ listing L.live, f.admits e = true → e ∈ s.queryOwned f) ↔ QueryComplete L.live f := by
  have hnd : ((listing L.live).filter f.admits).Nodup :=
    (nodup_of_pairwise h.keyed.listing_pairwise).filter _
  -- a cut list has all elements exactly when nothing is cut off
  have hcut : (∀ e ∈ listing L.live, f.admits e = true → e ∈ specQuery L.live f) ↔
      ∀ n, f.limit = some n → ((listing L.live).filter f.admits).length ≤ n := by
    unfold specQuery
    cases f.limit with
    | none =>
        refine iff_of_true (fun e he ha => List.mem_filter.mpr ⟨he, ha⟩) (fun n hn => ?_)
        cases hn
    | some n =>
        constructor
        · intro hall m hm
          obtain rfl := Option.some.inj hm
          have hsub : (listing L.live).filter f.admits ⊆ ((listing L.live).filter f.admits).take n := by
            intro e he
            exact hall e (List.mem_filter.mp he).1 (List.mem_filter.mp he).2
          exact ((hnd.subperm hsub).length_le).trans (List.length_take_le n _)
        · intro hlen e he ha
          rw [takeLimit, List.take_of_length_le (hlen n rfl)]
          exact List.mem_filter.mpr ⟨he, ha⟩
  unfold QueryComplete
  cases hp : QueryPattern.fromFilter f with
  | coordinate kind author d =>
      rw [h.indexed.queryOwned_coordinate hp]
      dsimp only
      have hat : ∀ e ∈ listing L.live, (addressableCoord e = some (kind, author, d) ↔
          s.byCoordinate[(kind, author, d)]? = some e) := by
        intro e he
        rw [h.keyed.mem_listing, ← h.byId_eq] at he
        rw [h.indexed.byCoordinate]
        exact ⟨fun hc => ⟨he, hc⟩, fun hc => hc.2⟩
      refine forall_congr' (fun e => forall_congr' (fun he => forall_congr' (fun ha => ?_)))
      rw [hat e he]
      cases hc : s.byCoordinate[(kind, author, d)]? with
      | none => simp
      | some w =>
          dsimp only
          by_cases hw : f.admits w = true
          · rw [if_pos hw, List.mem_singleton, Option.some.injEq]
            exact eq_comm
          · rw [if_neg hw]
            refine iff_of_false List.not_mem_nil (fun heq => hw ?_)
            rw [Option.some.inj heq]
            exact ha
  | generic | author pk | kindAuthor kind pk =>
      rw [h.queryOwned_eq (fun _ _ _ hc => by rw [hp] at hc; cases hc)]
      exact hcut

/-- What is left after a delete. -/
theorem Tracks.deleteMatching_live (h : Tracks s o L) (f : Filter) {id : EventId} {x : Event} :
    (s.deleteMatching f).byId[id]? = some x ↔ L.live[id]? = some x ∧ x ∉ s.queryOwned f := by
  rw [(h.deleteMatching f).byId_eq, Ledger.keep_live, decide_eq_true_eq, h.indexed.queryKeys_eq, List.map_map]
  refine and_congr_right (fun hx => not_congr ?_)
  have hid : ∀ y ∈ s.queryOwned f, y.id = x.id → y = x := by
    intro y hy heq
    have hyl := h.keyed.mem_listing.mp (h.queryOwned_sound f hy).1
    rw [heq, h.keyed id x hx, hx] at hyl
    exact (Option.some.inj hyl).symm
  constructor
  · intro hmem
    obtain ⟨y, hy, heq⟩ := List.mem_map.mp hmem
    rw [← hid y hy heq]
    exact hy
  · intro hmem
    exact List.mem_map.mpr ⟨x, hmem, rfl⟩

/-- The in-memory store deletes exactly the admitted events when its query is complete. -/
theorem Tracks.deletesExactly_iff (h : Tracks s o L) (f : Filter) :
    DeletesExactly f s (s.deleteMatching f) ↔ QueryComplete L.live f := by
  have h' := h.deleteMatching f
  rw [← h.queryOwned_all_iff f]
  constructor
  · intro hex e he ha
    by_contra hno
    have := hex.gone e.id e ((h.deleteMatching_live f).mpr ⟨h.keyed.mem_listing.mp he, hno⟩)
    rw [ha] at this
    cases this
  · intro hall
    refine ⟨fun id x hx => ?_, fun id x hx hna => ?_, fun id x hx => ?_, ?_, ?_, ?_⟩
    · obtain ⟨hl, hno⟩ := (h.deleteMatching_live f).mp hx
      rw [Bool.eq_false_iff]
      exact fun ha => hno (hall x (LiveMap.mem_listing.mpr ⟨id, hl⟩) ha)
    · rw [h.byId_eq] at hx
      refine (h.deleteMatching_live f).mpr ⟨hx, fun hmem => ?_⟩
      rw [(h.queryOwned_sound f hmem).2] at hna
      cases hna
    · rw [h.byId_eq]
      exact ((h.deleteMatching_live f).mp hx).1
    · rw [h'.deletedIds_eq, h.deletedIds_eq, Ledger.keep_deletedIds]
    · rw [h'.deletedCoordinates_eq, h.deletedCoordinates_eq, Ledger.keep_deletedCoordinates]
    · rw [h'.vanishedAuthors_eq, h.vanishedAuthors_eq, Ledger.keep_vanishedAuthors]

end MemoryStore

/-! ## The redb store -/

namespace Redb

variable {pc : Postcard} {t t' : Tables} {L : Ledger}

/-- Exactly the events the filter admits are gone; tombstones and stamps are as they were. -/
structure DeletesExactly (pc : Postcard) (f : Filter) (t t' : Tables) : Prop where
  gone : ∀ x, Stored pc t' x → f.admits x = false
  kept : ∀ x, Stored pc t x → f.admits x = false → Stored pc t' x
  old : ∀ x, Stored pc t' x → Stored pc t x
  deletedIds : t'.deletedIds = t.deletedIds
  deletedCoordinates : t'.deletedCoordinates = t.deletedCoordinates

theorem removeEventInner_frame {id : Bytes} (h : removeEventInner pc t id = .ok t') :
    t'.deletedIds = t.deletedIds ∧ t'.deletedCoordinates = t.deletedCoordinates := by
  unfold removeEventInner at h
  split at h
  · obtain rfl := Except.ok.inj h
    exact ⟨rfl, rfl⟩
  · rename_i bytes _
    cases hdec : Codec.decode pc bytes with
    | error err =>
        rw [hdec] at h
        cases h
    | ok event =>
        rw [hdec] at h
        obtain rfl := Except.ok.inj h
        exact ⟨rfl, rfl⟩

theorem removeAll_frame {ks : List Bytes} (h : ks.foldlM (removeEventInner pc) t = .ok t') :
    t'.deletedIds = t.deletedIds ∧ t'.deletedCoordinates = t.deletedCoordinates := by
  induction ks generalizing t with
  | nil =>
      obtain rfl := Except.ok.inj h
      exact ⟨rfl, rfl⟩
  | cons k ks ih =>
      rw [List.foldlM_cons] at h
      cases hk : removeEventInner pc t k with
      | error err =>
          rw [hk] at h
          cases h
      | ok t₁ =>
          rw [hk] at h
          have h₁ := removeEventInner_frame hk
          have h₂ := ih h
          exact ⟨h₂.1.trans h₁.1, h₂.2.trans h₁.2⟩

/-- The redb store deletes exactly the admitted events. -/
theorem Rep.deletesExactly (h : Rep pc t L) (f : Filter) :
    Yields (Redb.deleteMatching pc t f) (DeletesExactly pc f t) := by
  obtain ⟨t', hdel, h'⟩ := h.deleteMatching f
  have hstored : ∀ x, Stored pc t' x ↔ Stored pc t x ∧ f.admits x = false := by
    intro x
    rw [h'.stored_iff, h.stored_iff, Ledger.keep_live, Bool.not_eq_true']
  have hframe : t'.deletedIds = t.deletedIds ∧ t'.deletedCoordinates = t.deletedCoordinates := by
    unfold Redb.deleteMatching at hdel
    cases hids : Redb.matchingIds pc t f (candidateIds t f) with
    | error err =>
        rw [hids] at hdel
        cases hdel
    | ok ids =>
        rw [hids] at hdel
        exact removeAll_frame hdel
  exact ⟨t', hdel, fun x hx => ((hstored x).mp hx).2, fun x hx hna => (hstored x).mpr ⟨hx, hna⟩,
    fun x hx => ((hstored x).mp hx).1, hframe.1, hframe.2⟩

end Redb

/-- **Administrative deletes.** In every reachable store, the redb backend removes exactly the admitted events
    and touches no tombstone, whatever the filter; the in-memory backend does so exactly when its query
    returns every admitted event.

    In memory what is removed is what the query returns, so it is exact where the query is complete; redb removes
    the candidates that match, and its candidates miss no match. -/
theorem delete_exact (pc : Postcard) (o : MemoryDatabaseOptions) (o' : RedbDatabaseOptions)
    (ops : List StoreOp) (f : Filter) :
    (MemoryStore.DeletesExactly f (MemoryStore.run o ops) ((MemoryStore.run o ops).deleteMatching f) ↔
      MemoryStore.QueryComplete (MemoryStore.run o ops).byId f) ∧
    ∃ t t', Redb.run pc o' ops = .ok t ∧ Redb.deleteMatching pc t f = .ok t' ∧
      Redb.DeletesExactly pc f t t' := by
  refine ⟨?_, ?_⟩
  · obtain ⟨L, _, h⟩ := MemoryStore.run_tracks o ops
    rw [h.byId_eq]
    exact h.deletesExactly_iff f
  · obtain ⟨t, hrun, h⟩ := Redb.run_rep pc o' ops
    obtain ⟨t', hdel, hex⟩ := h.deletesExactly f
    exact ⟨t, t', hrun, hdel, hex⟩

/-- Two notes and a delete with limit 1: one of them stays. An event with two `d` tags and a delete for the
    second one: it stays. -/
theorem delete_leaves_admitted :
    ¬ MemoryStore.DeletesExactly { Sample.everything with limit := some 1 }
        (MemoryStore.run ⟨none, true, true⟩ [.saveEvent (Sample.event 1 Sample.alice 5 1 []) 10,
          .saveEvent (Sample.event 2 Sample.alice 6 1 []) 10])
        ((MemoryStore.run ⟨none, true, true⟩ [.saveEvent (Sample.event 1 Sample.alice 5 1 []) 10,
          .saveEvent (Sample.event 2 Sample.alice 6 1 []) 10]).deleteMatching
            { Sample.everything with limit := some 1 }) ∧
    ¬ MemoryStore.DeletesExactly (MemoryStore.atIdentifier "b" none)
        (MemoryStore.run ⟨none, true, true⟩ [.saveEvent MemoryStore.twoIdentifiers 10])
        ((MemoryStore.run ⟨none, true, true⟩ [.saveEvent MemoryStore.twoIdentifiers 10]).deleteMatching
          (MemoryStore.atIdentifier "b" none)) := by
  refine ⟨fun h => ?_, fun h => ?_⟩
  · have := h.gone (Sample.id 1) (Sample.event 1 Sample.alice 5 1 []) (by decide +kernel)
    revert this
    decide +kernel
  · have := h.gone (Sample.id 1) MemoryStore.twoIdentifiers (by decide +kernel)
    revert this
    decide +kernel

end Nula
