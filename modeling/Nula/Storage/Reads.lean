import Nula.Storage.Memory.Query
import Nula.Storage.Redb.Query

/-!
# `Storage.Reads` — query, count and negentropy items

A backend answers three questions about the events a filter selects: which they are, how many, and their
ids with timestamps. The in-memory store asks one index walk all three. The redb store runs three loops over
the candidates; they collect the same hits, but only the query goes through `Events::from_unsorted`, which
drops repeats. `reads_agree_iff` says that a repeat is the only way for the answers to part.
-/

namespace Nula

open Std

namespace Events

theorem dedupIds_sublist (seen : HashSet EventId) (l : List Event) :
    (dedupIds seen l).Sublist l := by
  induction l generalizing seen with
  | nil => exact List.Sublist.refl []
  | cons e l ih =>
      rw [dedupIds]
      split
      · exact (ih seen).cons e
      · exact (ih (seen.insert e.id)).cons_cons e

/-- Nothing is dropped exactly when nothing is repeated. -/
theorem length_fromUnsorted_iff {l : List Event} (h : Identified l) :
    l.length = (fromUnsorted l).length ↔ l.Nodup := by
  rw [fromUnsorted, List.length_insertionSort]
  constructor
  · intro hlen
    have heq : dedupIds ∅ l = l := (dedupIds_sublist ∅ l).eq_of_length hlen.symm
    have hnd := (dedupIds_nodup ∅ l).1
    rw [heq] at hnd
    exact hnd.of_map
  · intro hnd
    have hperm : (dedupIds ∅ l).Perm l :=
      (List.perm_ext_iff_of_nodup (dedupIds_nodup ∅ l).1.of_map hnd).mpr
        (fun e => by simp [mem_dedupIds ∅ h])
    exact hperm.length_eq.symm

/-- Distinct events that ids tell apart are only reordered. -/
theorem perm_fromUnsorted {l : List Event} (h : Identified l) (hnd : l.Nodup) :
    l.Perm (fromUnsorted l) :=
  (List.perm_ext_iff_of_nodup hnd (nodup_of_pairwise (fromUnsorted_pairwise l))).mpr
    (fun e => (mem_fromUnsorted h e).symm)

end Events

/-- What a reconciliation knows of an event. -/
def Event.negentropyItem (e : Event) : EventId × Timestamp := (e.id, e.createdAt)

/-! ## The in-memory store -/

namespace MemoryStore

/-- One walk answers all three questions. -/
theorem Indexed.reads {s : MemoryStore} (h : Indexed s) (f : Filter) :
    s.count f = (s.queryOwned f).length ∧
      s.negentropyItems f = (s.queryOwned f).map Event.negentropyItem := by
  refine ⟨?_, rfl⟩
  rw [count, h.queryKeys_eq, List.length_map]

end MemoryStore

/-! ## The redb store -/

namespace Redb

variable {pc : Postcard} {t : Tables} {L : Ledger}

/-- No live event the filter admits is named twice among the ids that count towards the limit. Without
    named ids there is nothing to repeat. -/
def NoRepeatedHit (live : LiveMap) (f : Filter) : Prop :=
  namesIds f = true → (takeLimit f.limit (hits live f (f.ids.getD []))).Nodup

/-- The three loops collect the same hits. Candidates come from the ids a filter names, which may repeat, or from a
    scan, which is sorted and so repeats none. -/
theorem Rep.reads (h : Rep pc t L) (f : Filter) : ∃ found : List Event,
    Redb.query pc t f = .ok found ∧ Redb.count pc t f = .ok found.length ∧
    Redb.negentropyItems pc t f = .ok (found.map Event.negentropyItem) ∧
    (∀ e ∈ found, L.live[e.id]? = some e) ∧ (found.Nodup ↔ NoRepeatedHit L.live f) := by
  obtain ⟨ids, hids, hnodup⟩ : ∃ ids : List EventId, candidateIds t f = ids.map EventId.bytes ∧
      ((takeLimit f.limit (hits L.live f ids)).Nodup ↔ NoRepeatedHit L.live f) := by
    cases hn : namesIds f with
    | true =>
        obtain ⟨ids, hf, hne⟩ := named_of_namesIds hn
        refine ⟨ids, candidates_ids hf hne, ?_⟩
        rw [NoRepeatedHit, hn, hf, Option.getD_some]
        exact ⟨fun h _ => h, fun h => h rfl⟩
    | false =>
        obtain ⟨evs, hcand, hsorted, hlive, _⟩ := h.candidates_scan hn
        refine ⟨evs.map Event.id, by rw [hcand, List.map_map]; rfl, ?_⟩
        rw [hits_map_id hlive]
        refine iff_of_true ?_ (fun hc => by rw [hn] at hc; cases hc)
        exact (pairwise_takeLimit (hsorted.filter _)).imp
          (fun hab heq => by subst heq; exact absurd hab (irrefl_of (StampedRel stamp (flip idLt)) _))
  have hlimit : ∀ {β : Type}, f.limit.map (· - ([] : List β).length) = f.limit := by
    intro β
    cases f.limit <;> rfl
  refine ⟨takeLimit f.limit (hits L.live f ids), ?_, ?_, ?_, ?_, hnodup⟩
  · rw [Redb.query, hids, h.collect (g := fun e => e) (fun e => Codec.decode_record pc e), hlimit,
      List.map_id', List.nil_append]
  · rw [Redb.count, hids, h.collect (g := fun _ => ()) (fun _ => rfl), hlimit]
    show Except.ok _ = _
    rw [List.nil_append, List.length_map]
  · rw [Redb.negentropyItems, hids, h.collect (g := Event.negentropyItem) (fun _ => rfl), hlimit,
      List.nil_append]
  · intro e he
    exact ((mem_hits h.keyed).mp (mem_of_mem_takeLimit he)).2.1

/-- The answers of the redb store agree exactly when no hit is repeated. -/
theorem Rep.reads_iff (h : Rep pc t L) (f : Filter) : ∃ answer n items,
    Redb.databaseQuery pc t f = .ok answer ∧ Redb.count pc t f = .ok n ∧
    Redb.negentropyItems pc t f = .ok items ∧
    (n = answer.length ∧ items.Perm (answer.map Event.negentropyItem) ↔ NoRepeatedHit L.live f) := by
  obtain ⟨found, hq, hc, hn, hlive, hiff⟩ := h.reads f
  refine ⟨Events.fromUnsorted found, found.length, found.map Event.negentropyItem,
    by rw [databaseQuery, hq]; rfl, hc, hn, ?_⟩
  have hident : Events.Identified found := by
    intro x hx y hy hid
    have hxl := hlive x hx
    rw [hid, hlive y hy] at hxl
    exact (Option.some.inj hxl).symm
  rw [← hiff, ← Events.length_fromUnsorted_iff hident]
  constructor
  · exact fun hagree => hagree.1
  · intro hlen
    exact ⟨hlen, (Events.perm_fromUnsorted hident
      ((Events.length_fromUnsorted_iff hident).mp hlen)).map _⟩

end Redb

/-- **The three read paths.** In every reachable store and for every filter, the in-memory backend counts and
    lists for reconciliation exactly what it returns; the redb backend does so exactly when the filter does
    not name a hit twice within its limit.

    The three paths of the memory store read one list of keys. Those of redb share the candidates, and only the
    query leaves out repeated ids, so that they differ exactly where an id is hit twice. -/
theorem reads_agree_iff (pc : Postcard) (o : MemoryDatabaseOptions) (o' : RedbDatabaseOptions)
    (ops : List StoreOp) (f : Filter) :
    ((MemoryStore.run o ops).count f = ((MemoryStore.run o ops).queryOwned f).length ∧
      ((MemoryStore.run o ops).negentropyItems f).Perm
        (((MemoryStore.run o ops).queryOwned f).map Event.negentropyItem)) ∧
    ∃ t answer n items, Redb.run pc o' ops = .ok t ∧ Redb.databaseQuery pc t f = .ok answer ∧
      Redb.count pc t f = .ok n ∧ Redb.negentropyItems pc t f = .ok items ∧
      (n = answer.length ∧ items.Perm (answer.map Event.negentropyItem) ↔
        Redb.NoRepeatedHit (Redb.liveEvents pc t) f) := by
  constructor
  · obtain ⟨L, _, h⟩ := MemoryStore.run_tracks o ops
    obtain ⟨hcount, hitems⟩ := h.indexed.reads f
    exact ⟨hcount, by rw [hitems]⟩
  · obtain ⟨t, hrun, h⟩ := Redb.run_rep pc o' ops
    obtain ⟨answer, n, items, hq, hc, hn, hiff⟩ := h.reads_iff f
    exact ⟨t, answer, n, items, hrun, hq, hc, hn, by rw [h.liveEvents_eq]; exact hiff⟩

/-- The filter that names the note twice. -/
def namedTwice : Filter := { Sample.everything with ids := some [Sample.id 1, Sample.id 1] }

/-- One stored note, named twice: the query returns it once, count and the negentropy items see it twice. -/
theorem reads_disagree : ∃ t answer n items,
    Redb.run .wire ⟨true, true⟩ [.saveEvent (Sample.event 1 Sample.alice 5 1 []) 10] = .ok t ∧
    Redb.databaseQuery .wire t namedTwice = .ok answer ∧ Redb.count .wire t namedTwice = .ok n ∧
    Redb.negentropyItems .wire t namedTwice = .ok items ∧
    ¬ (n = answer.length ∧ items.Perm (answer.map Event.negentropyItem)) := by
  obtain ⟨t, hrun, h⟩ := Redb.run_rep .wire ⟨true, true⟩
    [.saveEvent (Sample.event 1 Sample.alice 5 1 []) 10]
  obtain ⟨answer, n, items, hq, hc, hn, hiff⟩ := h.reads_iff namedTwice
  refine ⟨t, answer, n, items, hrun, hq, hc, hn, ?_⟩
  rw [hiff]
  intro hno
  have hdup := hno (by decide +kernel)
  revert hdup
  decide +kernel

end Nula
