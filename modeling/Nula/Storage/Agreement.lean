import Nula.Storage.Memory.Refine
import Nula.Storage.Redb.Refine

/-!
# `Storage.Agreement` — the two backends agree on writes

Both backends compute the reference run: redb always, the in-memory store as long as no administrative
delete goes through its query planner. Two stores that stand for one ledger answer every lookup and every
save alike, so no sequence of saves and wipes tells them apart.
-/

namespace Nula

open Std

variable {pc : Postcard} {s : MemoryStore} {o : MemoryDatabaseOptions} {t : Tables} {L : Ledger}

/-! ## Lookups -/

/-- The memory store says of an id what the ledger says. -/
theorem MemoryStore.Tracks.checkId (h : MemoryStore.Tracks s o L) (id : EventId) :
    s.checkId id = if L.live.contains id then .saved
      else if L.deletedIds.contains id then .deleted else .notExistent := by
  rw [MemoryStore.checkId, h.byId_eq, h.deletedIds_eq]

theorem Redb.Rep.checkId (h : Redb.Rep pc t L) (id : EventId) :
    Redb.checkId t id = if L.live.contains id then .saved
      else if L.deletedIds.contains id then .deleted else .notExistent := by
  rw [Redb.checkId, h.contains_events, h.deletedIds]

theorem Redb.Rep.eventById (h : Redb.Rep pc t L) (id : EventId) :
    Redb.eventById pc t id = .ok L.live[id]? := by
  rw [Redb.eventById, h.events_get]
  cases L.live[id]? with
  | none => rfl
  | some e =>
      show (Codec.decode pc (Codec.record pc e) >>= fun event => .ok (some event)) = .ok (some e)
      rw [Codec.decode_record]
      rfl

/-! ## Writes -/

/-- **The backends agree.** After any sequence of saves and wipes, whatever the events and the clock, the two
    stores answer every lookup alike, and the next save gets one status from both.

    Both stores represent the ledger of the same operations, so that they agree with each other because each agrees
    with it. -/
theorem backends_agree (pc : Postcard) (processNip09 processNip62 : Bool) (ops : List StoreOp)
    (hops : ∀ op ∈ ops, ∀ f, op ≠ .deleteMatching f) :
    ∃ t, Redb.run pc ⟨processNip09, processNip62⟩ ops = .ok t ∧
      (∀ id, Redb.checkId t id = (MemoryStore.run ⟨none, processNip09, false⟩ ops).checkId id) ∧
      (∀ id, Redb.eventById pc t id
        = .ok ((MemoryStore.run ⟨none, processNip09, false⟩ ops).eventById id)) ∧
      ∀ (e : Event) (now : Timestamp), ∃ status t',
        Redb.saveEvent pc ⟨processNip09, processNip62⟩ t e now = .ok (status, t') ∧
        ((MemoryStore.run ⟨none, processNip09, false⟩ ops).saveEvent e now).1 = status := by
  have hmem := MemoryStore.run_reference ⟨none, processNip09, false⟩ hops
  have hwf := (Ledger.run_runs ⟨none, processNip09, false⟩ ops).sound.1
  obtain ⟨t, hrun, hredb⟩ := Redb.run_rep pc ⟨processNip09, processNip62⟩ ops
  refine ⟨t, hrun, fun id => ?_, fun id => ?_, fun e now => ?_⟩
  · rw [hmem.checkId]
    exact hredb.checkId id
  · rw [MemoryStore.eventById, hmem.byId_eq]
    exact hredb.eventById id
  · obtain ⟨⟨status, t'⟩, hsave, hstatus, _⟩ := hredb.saveEvent ⟨processNip09, processNip62⟩ e now
    refine ⟨status, t', hsave, ?_⟩
    rw [(hmem.saveEvent hwf e now).1]
    exact hstatus.symm

/-- A note, a wipe, the note again, and its author's deletion request. -/
def noteThenDeletion : List StoreOp :=
  [.saveEvent (Sample.event 1 Sample.alice 5 1 []) 10, .wipe,
    .saveEvent (Sample.event 1 Sample.alice 5 1 []) 10,
    .saveEvent (Sample.event 2 Sample.alice 6 5 [["e", (Sample.id 1).toHex]]) 10]

/-- Both backends hold the note to be deleted. -/
theorem backends_agree_noteThenDeletion :
    (∀ op ∈ noteThenDeletion, ∀ f, op ≠ .deleteMatching f) ∧
    (MemoryStore.run ⟨none, true, false⟩ noteThenDeletion).checkId (Sample.id 1) = .deleted ∧
    ∃ t, Redb.run .wire ⟨true, true⟩ noteThenDeletion = .ok t ∧
      Redb.checkId t (Sample.id 1) = .deleted := by
  have hops : ∀ op ∈ noteThenDeletion, ∀ f, op ≠ .deleteMatching f := by
    simp [noteThenDeletion]
  have hmem : (MemoryStore.run ⟨none, true, false⟩ noteThenDeletion).checkId (Sample.id 1) = .deleted := by
    decide +kernel
  obtain ⟨t, hrun, hcheck, _⟩ := backends_agree .wire true true noteThenDeletion hops
  exact ⟨hops, hmem, t, hrun, (hcheck _).trans hmem⟩

end Nula
