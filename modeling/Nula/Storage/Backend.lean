import Nula.Storage.Agreement

/-!
# `Storage.Backend` — both backends behind one interface

What a client sees of a store, whichever it is: the status of a save and the events it holds, after a
sequence of writes. Behind it stands one ledger per sequence (`Backend.ledger`), which each write moves by one
step, so a property of ledger steps is a property of every run of either backend.
-/

namespace Nula

open Std

/-- A backend with its options. -/
inductive Backend where
  | memory (o : MemoryDatabaseOptions)
  | redb (pc : Postcard) (o : RedbDatabaseOptions)

namespace Backend

/-! ## What a client sees -/

/-- After the writes, saving the event returns the status. -/
def Saves (B : Backend) (ops : List StoreOp) (e : Event) (now : Timestamp) (status : SaveEventStatus) :
    Prop :=
  match B with
  | .memory o => ((MemoryStore.run o ops).saveEvent e now).1 = status
  | .redb pc o => ∃ t t', Redb.run pc o ops = .ok t ∧ Redb.saveEvent pc o t e now = .ok (status, t')

/-- After the writes, the event is found under the id. -/
def Holds (B : Backend) (ops : List StoreOp) (id : EventId) (x : Event) : Prop :=
  match B with
  | .memory o => (MemoryStore.run o ops).eventById id = some x
  | .redb pc o => ∃ t, Redb.run pc o ops = .ok t ∧ Redb.eventById pc t id = .ok (some x)

/-- After the writes, one more event fits. -/
def HasRoom (B : Backend) (ops : List StoreOp) : Prop :=
  match B with
  | .memory o => ∀ n : ℕ+, o.maxEvents = some n → (MemoryStore.run o ops).byId.size < n
  | .redb _ _ => True

/-! ## The ledger behind it -/

/-- The options, as the ledger takes them. -/
def options : Backend → MemoryDatabaseOptions
  | .memory o => o
  | .redb _ o => o.ledger

/-- The ledger after the writes. -/
def ledger (B : Backend) (ops : List StoreOp) : Ledger :=
  match B with
  | .memory o => (MemoryStore.run o ops).abs
  | .redb _ o => Ledger.run o.ledger ops

variable (B : Backend)

theorem ledger_nil : B.ledger [] = .empty := by
  cases B with
  | memory o => rfl
  | redb pc o => rfl

/-- The in-memory store stands for its own ledger. -/
theorem memory_tracks (o : MemoryDatabaseOptions) (ops : List StoreOp) :
    MemoryStore.Tracks (MemoryStore.run o ops) o ((Backend.memory o).ledger ops) ∧
      ((Backend.memory o).ledger ops).WF := by
  obtain ⟨L, hrun, h⟩ := MemoryStore.run_tracks o ops
  have hL : (Backend.memory o).ledger ops = L := h.abs_eq
  rw [hL]
  exact ⟨h, hrun.sound.1⟩

/-- **One write is one step.** -/
theorem ledger_step (ops : List StoreOp) (op : StoreOp) :
    Ledger.Step B.options op (B.ledger ops) (B.ledger (ops ++ [op])) := by
  cases B with
  | memory o =>
      obtain ⟨h, hwf⟩ := memory_tracks o ops
      obtain ⟨L, hs, h'⟩ := h.step hwf op
      have hL : (Backend.memory o).ledger (ops ++ [op]) = L := by
        rw [ledger, MemoryStore.run, List.foldl_append]
        exact h'.abs_eq
      rw [hL]
      exact hs
  | redb pc o =>
      rw [ledger, ledger, Ledger.run, Ledger.run, List.foldl_append]
      exact Ledger.step_spec o.ledger _ op

theorem ledger_save (ops : List StoreOp) (e : Event) (now : Timestamp) :
    B.ledger (ops ++ [.saveEvent e now]) = ((B.ledger ops).saveEvent B.options e now).2 := by
  have h := B.ledger_step ops (.saveEvent e now)
  generalize B.ledger (ops ++ [.saveEvent e now]) = L at h ⊢
  cases h
  rfl

/-- The writes that follow are a run. -/
theorem ledger_runs (ops later : List StoreOp) :
    Ledger.Runs B.options later (B.ledger ops) (B.ledger (ops ++ later)) := by
  induction later generalizing ops with
  | nil =>
      rw [List.append_nil]
      exact .nil _
  | cons op later ih =>
      have := ih (ops ++ [op])
      rw [List.append_assoc, List.singleton_append] at this
      exact .cons (B.ledger_step ops op) this

/-- What a save returns is what the ledger says, in both backends. -/
theorem saves_iff {ops : List StoreOp} {e : Event} {now : Timestamp} {status : SaveEventStatus} :
    B.Saves ops e now status ↔ ((B.ledger ops).saveEvent B.options e now).1 = status := by
  cases B with
  | memory o =>
      obtain ⟨h, hwf⟩ := memory_tracks o ops
      rw [Saves, (h.saveEvent hwf e now).1]
      rfl
  | redb pc o =>
      obtain ⟨t, hrun, h⟩ := Redb.run_rep pc o ops
      obtain ⟨⟨st, t'⟩, hsave, hst, _⟩ := h.saveEvent o e now
      constructor
      · rintro ⟨t₁, t₂, hrun₁, hsave₁⟩
        obtain rfl := Except.ok.inj (hrun.symm.trans hrun₁)
        have heq := Except.ok.inj (hsave.symm.trans hsave₁)
        exact hst.symm.trans (congrArg Prod.fst heq)
      · intro heq
        have hst' : st = status := hst.trans heq
        exact ⟨t, t', hrun, hst' ▸ hsave⟩

theorem saves_success_iff {ops : List StoreOp} {e : Event} {now : Timestamp} :
    B.Saves ops e now .success ↔ (B.ledger ops).refusal B.options e now = none := by
  rw [B.saves_iff]
  rcases Ledger.saveEvent_cases B.options (B.ledger ops) e now with ⟨reason, hr, heq⟩ | ⟨hr, heq⟩
  · rw [heq, hr]
    simp
  · rw [heq, hr]
    simp

/-- After an accepted event the ledger is the accepted one. -/
theorem ledger_success {ops : List StoreOp} {e : Event} {now : Timestamp}
    (h : B.Saves ops e now .success) :
    B.ledger (ops ++ [.saveEvent e now]) = (B.ledger ops).accept B.options e := by
  rw [B.ledger_save, Ledger.saveEvent, B.saves_success_iff.mp h]

theorem holds_iff {ops : List StoreOp} {id : EventId} {x : Event} :
    B.Holds ops id x ↔ (B.ledger ops).live[id]? = some x := by
  cases B with
  | memory o => exact Iff.rfl
  | redb pc o =>
      obtain ⟨t, hrun, h⟩ := Redb.run_rep pc o ops
      constructor
      · rintro ⟨t₁, hrun₁, hget⟩
        obtain rfl := Except.ok.inj (hrun.symm.trans hrun₁)
        rw [h.eventById] at hget
        exact Except.ok.inj hget
      · intro hx
        exact ⟨t, hrun, by rw [h.eventById]; exact congrArg Except.ok hx⟩

theorem hasRoom_iff {ops : List StoreOp} : B.HasRoom ops ↔
    ∀ n : ℕ+, B.options.maxEvents = some n → (B.ledger ops).live.size < n := by
  cases B with
  | memory o => exact Iff.rfl
  | redb pc o => exact iff_of_true trivial (fun n hn => by cases hn)

end Backend

end Nula
