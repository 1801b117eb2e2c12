import Mathlib.Data.List.Forall2

/-!
# `Lib.Batch` — fallible steps one after another

`run step s l` takes the entries of `l` one by one from the state `s` and stops at the first that fails. What was
done until then stays done: `run_clean_iff` says when a failed run has done nothing, for steps that are
all-or-nothing each (`Ran.Atomic`).
-/

namespace Nula.Batch

/-- How a step ends: the state it leaves, what it did, and its result. -/
structure Ran (σ ω ε β : Type) where
  state : σ
  effects : List ω
  result : Except ε β

variable {σ ω ε β α : Type}

/-- The step failed and did nothing, or succeeded and did something. -/
structure Ran.Atomic (r : Ran σ ω ε β) : Prop where
  failed : ∀ e, r.result = .error e → r.effects = []
  succeeded : ∀ b, r.result = .ok b → r.effects ≠ []

variable (step : σ → α → Ran σ ω ε β)

/-- The steps from left to right. The first that fails ends the run, with what was done until then. -/
def run : σ → List α → Ran σ ω ε (List β)
  | s, [] => ⟨s, [], .ok []⟩
  | s, a :: rest =>
      match step s a with
      | ⟨s, effects, .error e⟩ => ⟨s, effects, .error e⟩
      | ⟨s, effects, .ok b⟩ =>
          let after := run s rest
          ⟨after.state, effects ++ after.effects, after.result.map (fun bs => b :: bs)⟩

/-- Every step succeeds from where the one before has left off. -/
def Succeeds : σ → List α → Prop
  | _, [] => True
  | s, a :: rest => (step s a).result.isOk = true ∧ Succeeds (step s a).state rest

variable {step} {s : σ} {a : α} {l : List α}

theorem run_cons_error {e : ε} (h : (step s a).result = .error e) :
    run step s (a :: l) = ⟨(step s a).state, (step s a).effects, .error e⟩ := by
  rw [run]
  generalize step s a = r at h
  cases r
  cases h
  rfl

/-- After a first step that succeeds, the rest runs from the state it left. -/
theorem run_cons_ok {b : β} (h : (step s a).result = .ok b) :
    run step s (a :: l) = ⟨(run step (step s a).state l).state,
      (step s a).effects ++ (run step (step s a).state l).effects,
      (run step (step s a).state l).result.map (fun bs => b :: bs)⟩ := by
  rw [run]
  generalize step s a = r at h
  cases r
  cases h
  rfl

/-- A run succeeds when each step does from where the one before it left off. -/
theorem isOk_run : (run step s l).result.isOk = true ↔ Succeeds step s l := by
  induction l generalizing s with
  | nil => exact iff_of_true rfl trivial
  | cons a l ih =>
      rw [Succeeds]
      cases h : (step s a).result with
      | error e =>
          rw [run_cons_error h]
          exact iff_of_false nofun (fun hs => nomatch hs.1)
      | ok b =>
          rw [run_cons_ok h, ← ih]
          cases (run step (step s a).state l).result with
          | error e => exact iff_of_false nofun (fun hs => nomatch hs.2)
          | ok bs => exact iff_of_true rfl ⟨rfl, rfl⟩

/-- **When a failed run has done nothing**: the first step failed, or none did. -/
theorem run_clean_iff (h : (step s a).Atomic) :
    (∀ e, (run step s (a :: l)).result = .error e → (run step s (a :: l)).effects = []) ↔
      ((step s a).result.isOk = true → Succeeds step (step s a).state l) := by
  cases hstep : (step s a).result with
  | error e =>
      rw [run_cons_error hstep]
      exact iff_of_true (fun _ _ => h.failed e hstep) nofun
  | ok b =>
      have hsome := h.succeeded b hstep
      rw [run_cons_ok hstep, ← isOk_run]
      cases (run step (step s a).state l).result with
      | error e =>
          refine iff_of_false (fun hclean => hsome ?_) (fun hs => nomatch hs rfl)
          exact (List.append_eq_nil_iff.mp (hclean e rfl)).1
      | ok bs => exact iff_of_true nofun (fun _ => rfl)

/-- What a run that succeeds has done: every step's work, with the results in order. -/
theorem forall₂_of_run_ok {bs : List β} (h : (run step s l).result = .ok bs) :
    List.Forall₂ (fun a b => ∃ s', (step s' a).result = .ok b ∧
      ∀ w ∈ (step s' a).effects, w ∈ (run step s l).effects) l bs := by
  induction l generalizing s bs with
  | nil =>
      cases h
      exact .nil
  | cons a l ih =>
      cases hstep : (step s a).result with
      | error e =>
          rw [run_cons_error hstep] at h
          cases h
      | ok b =>
          rw [run_cons_ok hstep] at h ⊢
          cases hrest : (run step (step s a).state l).result with
          | error e =>
              rw [hrest] at h
              cases h
          | ok rest =>
              rw [hrest] at h
              cases h
              refine .cons ⟨s, hstep, fun w hw => List.mem_append_left _ hw⟩ ((ih hrest).imp ?_)
              rintro a b ⟨s', hb, hmem⟩
              exact ⟨s', hb, fun w hw => List.mem_append_right _ (hmem w hw)⟩

theorem exists_of_forall₂ {R : α → β → Prop} {bs : List β} (h : List.Forall₂ R l bs) (ha : a ∈ l) :
    ∃ b ∈ bs, R a b := by
  induction h with
  | nil => exact absurd ha List.not_mem_nil
  | @cons x b rest bs hx _ ih =>
      rcases List.mem_cons.mp ha with rfl | ha
      · exact ⟨b, List.mem_cons_self, hx⟩
      · obtain ⟨b', hb', hR⟩ := ih ha
        exact ⟨b', List.mem_cons_of_mem b hb', hR⟩

/-- Steps that all succeed or all fail, whatever happened before. -/
theorem succeeds_of_uniform {I : σ → Prop} {p : Prop}
    (huniform : ∀ s a, I s → ((step s a).result.isOk = true ↔ p) ∧ I (step s a).state) (hs : I s) (hp : p) :
    Succeeds step s l := by
  induction l generalizing s with
  | nil => trivial
  | cons a l ih =>
      obtain ⟨hok, hnext⟩ := huniform s a hs
      exact ⟨hok.mpr hp, ih hnext⟩

end Nula.Batch
