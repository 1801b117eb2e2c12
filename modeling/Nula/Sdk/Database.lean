import Nula.Storage.Memory.Refine

/-!
# `Sdk.Database` — the database of a client

What a client uses of the `NostrDatabase` its pool holds, with the errors a backend may answer. Whether an event is
in the store after a save is told by the rules of the store (`LawfulDatabase.keeps`), not by the answer: a refusal
is an answer too. The in-memory backend is one such store (`MemoryDatabase`).
-/

namespace Nula.Sdk

open Std LiveMap

/-- `Timestamp::now`, or the text of its error. -/
abbrev Clock := Except String Timestamp

/-- `NostrDatabase`, as far as a client uses it; a backend reads the clock itself. -/
class NostrDatabase (D : Type) where
  saveEvent : D → Event → Clock → Except String SaveEventStatus × D
  eventById : D → EventId → Except String (Option Event)
  negentropyItems : D → Filter → Except String (List (EventId × Timestamp))

/-- An event is found under the id. -/
def live {D : Type} [NostrDatabase D] (db : D) (id : EventId) : Bool :=
  match NostrDatabase.eventById db id with
  | .ok (some _) => true
  | _ => false

/-- A store whose rules tell from its state before a save whether the event is in it afterwards. -/
class LawfulDatabase (D : Type) extends NostrDatabase D where
  keeps : D → Event → Clock → Bool
  live_saveEvent : ∀ (db : D) (event : Event) (clock : Clock) (status : SaveEventStatus),
    (saveEvent db event clock).1 = .ok status → live (saveEvent db event clock).2 event.id = keeps db event clock

end Nula.Sdk

/-! ## What a save leaves in a ledger -/

namespace Nula

open Std LiveMap

namespace Ledger

/-- The cap leaves the event in: fewer events than it allows come before this one. -/
def fits (o : MemoryDatabaseOptions) (L : Ledger) (e : Event) : Bool :=
  o.maxEvents.all (fun max : ℕ+ =>
    (listing ((L.prepare o e).enter e).live).countP (fun x => x.precedes e) < max.val)

/-- The event is there already, or it is accepted and the cap leaves it in. -/
def keeps (o : MemoryDatabaseOptions) (L : Ledger) (e : Event) (now : Timestamp) : Bool :=
  L.live.contains e.id || (L.refusal o e now).isNone && L.fits o e

/-- A save keeps an event exactly if the ledger says so. -/
theorem contains_saveEvent {o : MemoryDatabaseOptions} {L : Ledger} (hwf : L.WF) (e : Event) (now : Timestamp) :
    (L.saveEvent o e now).2.live.contains e.id = L.keeps o e now := by
  rw [keeps]
  rcases saveEvent_cases o L e now with ⟨reason, hrefusal, hsave⟩ | ⟨hrefusal, hsave⟩
  · rw [hsave, hrefusal, Option.isNone_some, Bool.false_and, Bool.or_false]
  · have hfree : L.live.contains e.id = false := by
      rw [ExtTreeMap.contains_eq_isSome_getElem?, live_of_refusal_none hrefusal]
      rfl
    have hentered : ((L.prepare o e).enter e).WF := (hwf.prepare o e).enter (fun _ _ hx => prepare_not_rivals hx)
    have hmem : e ∈ listing ((L.prepare o e).enter e).live :=
      hentered.keyed.mem_listing.mpr ((enter_live _ _).mpr (Or.inl ⟨rfl, rfl⟩))
    have hcut : (((L.prepare o e).enter e).enforceCapacity o).WF := hentered.mono (enforceCapacity_below o _)
    have hcontains : (L.accept o e).live.contains e.id = true ↔ e ∈ listing (L.accept o e).live := by
      rw [ExtTreeMap.contains_eq_isSome_getElem?, Option.isSome_iff_exists, accept, hcut.keyed.mem_listing]
      constructor
      · rintro ⟨x, hx⟩
        have hbelow := enforceCapacity_below o _ e.id x hx
        rcases (enter_live _ _).mp hbelow with ⟨-, rfl⟩ | ⟨hne, -⟩
        · exact hx
        · exact absurd rfl hne
      · exact fun hx => ⟨e, hx⟩
    rw [hsave, hrefusal, hfree, Option.isNone_none, Bool.true_and, Bool.false_or, Bool.eq_iff_iff, hcontains, accept,
      listing_enforceCapacity hentered.keyed, fits]
    cases o.maxEvents with
    | none => exact iff_of_true hmem rfl
    | some max =>
        refine (mem_take_iff_countP hentered.keyed.listing_pairwise hmem).trans ?_
        rw [Option.all_some, decide_eq_true_eq]

end Ledger

end Nula

/-! ## The in-memory backend -/

namespace Nula.Sdk

/-- `MemoryDatabase`: a store that some sequence of writes has reached. -/
structure MemoryDatabase where
  store : MemoryStore
  reached : ∃ o ops, store = MemoryStore.run o ops

namespace MemoryDatabase

/-- `MemoryDatabase::with_options`. -/
def withOptions (options : MemoryDatabaseOptions) : MemoryDatabase := ⟨.new options, options, [], rfl⟩

/-- A save is one operation more on a store that operations have made. -/
theorem reached_saveEvent (db : MemoryDatabase) (event : Event) (now : Timestamp) :
    ∃ o ops, (db.store.saveEvent event now).2 = MemoryStore.run o ops := by
  obtain ⟨o, ops, h⟩ := db.reached
  refine ⟨o, ops ++ [.saveEvent event now], ?_⟩
  rw [MemoryStore.run, List.foldl_append, h]
  rfl

instance : NostrDatabase MemoryDatabase where
  saveEvent db event
    | .error text => (.error text, db)
    | .ok now => (.ok (db.store.saveEvent event now).1, ⟨_, db.reached_saveEvent event now⟩)
  eventById db id := .ok (db.store.eventById id)
  negentropyItems db filter := .ok (db.store.negentropyItems filter)

/-- A client finds what the store holds. -/
theorem live_eq (db : MemoryDatabase) (id : EventId) : live db id = db.store.byId.contains id := by
  change (match (Except.ok (db.store.eventById id) : Except String (Option Event)) with
    | .ok (some _) => true
    | _ => false) = _
  rw [MemoryStore.eventById, Std.ExtTreeMap.contains_eq_isSome_getElem?]
  cases db.store.byId[id]? <;> rfl

instance : LawfulDatabase MemoryDatabase where
  keeps db event
    | .error _ => false
    | .ok now => db.store.abs.keeps db.store.options event now
  live_saveEvent db event clock status h := by
    cases clock with
    | error text => cases h
    | ok now =>
        obtain ⟨o, ops, hreached⟩ := db.reached
        obtain ⟨L, hruns, htracks⟩ := MemoryStore.run_tracks o ops
        rw [← hreached] at htracks
        have hwf : L.WF := hruns.sound.1
        have hsaved := (htracks.saveEvent hwf event now).2
        have hstore : (NostrDatabase.saveEvent db event (.ok now)).2.store = (db.store.saveEvent event now).2 := rfl
        rw [live_eq, hstore, hsaved.byId_eq, htracks.abs_eq, htracks.options_eq]
        exact Ledger.contains_saveEvent hwf event now

end MemoryDatabase

end Nula.Sdk
