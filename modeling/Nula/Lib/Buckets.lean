import Std.Data.ExtTreeMap
import Std.Data.ExtTreeSet
import Mathlib.Data.List.Basic

/-!
# `Lib.Buckets` — loops that only add, and maps of sets

A loop whose turns only add ends with what it started from and what some turn added (`foldl_iff`). The main use
is a map whose values are sets: `entry(k).or_default().insert(v)` relates `k` to `v`, and a nested loop over such
inserts turns a function into sets around.
-/

namespace Nula.Buckets

open Std

/-! ## Loops -/

/-- What holds after a loop whose turns only add. -/
theorem foldl_iff {σ α : Type} {P : σ → Prop} {R : α → Prop} {step : σ → α → σ}
    (hstep : ∀ s a, P (step s a) ↔ P s ∨ R a) (l : List α) (s : σ) :
    P (l.foldl step s) ↔ P s ∨ ∃ a ∈ l, R a := by
  induction l generalizing s with
  | nil => simp
  | cons a rest ih =>
      rw [List.foldl_cons, ih, hstep, or_assoc]
      simp only [List.mem_cons, exists_eq_or_imp]

/-- A property every turn keeps holds at the end. -/
theorem foldl_keeps {σ α : Type} {P : σ → Prop} {step : σ → α → σ} (hstep : ∀ s a, P s → P (step s a))
    (l : List α) {s : σ} (h : P s) : P (l.foldl step s) := by
  induction l generalizing s with
  | nil => exact h
  | cons a rest ih => exact ih (hstep s a h)

/-! ## Sets -/

section Sets

variable {ν : Type} [Ord ν] [TransOrd ν] [LawfulEqOrd ν]

theorem mem_foldl_insert (l : List ν) (s : ExtTreeSet ν) (x : ν) :
    x ∈ l.foldl (fun s a => s.insert a) s ↔ x ∈ s ∨ x ∈ l := by
  have hstep : ∀ (s : ExtTreeSet ν) (a : ν), x ∈ s.insert a ↔ x ∈ s ∨ x = a := by
    intro s a
    rw [ExtTreeSet.mem_insert, LawfulEqCmp.compare_eq_iff_eq, or_comm, eq_comm]
  have h := foldl_iff (P := fun s : ExtTreeSet ν => x ∈ s) hstep l s
  simpa using h

theorem mem_filter {s : ExtTreeSet ν} {p : ν → Bool} {x : ν} : x ∈ s.filter p ↔ x ∈ s ∧ p x = true := by
  rw [ExtTreeSet.mem_filter]
  constructor
  · rintro ⟨h, hp⟩
    rw [ExtTreeSet.get_eq] at hp
    exact ⟨h, hp⟩
  · rintro ⟨h, hp⟩
    refine ⟨h, ?_⟩
    rw [ExtTreeSet.get_eq]
    exact hp

end Sets

/-! ## Maps of sets -/

variable {κ ν : Type} [Ord κ] [TransOrd κ] [Ord ν] [TransOrd ν]

/-- `map.entry(k).or_default().insert(v)`. -/
def add (m : ExtTreeMap κ (ExtTreeSet ν)) (k : κ) (v : ν) : ExtTreeMap κ (ExtTreeSet ν) :=
  m.insert k ((m.getD k ∅).insert v)

/-- The relation a map of sets stands for. -/
def Holds (m : ExtTreeMap κ (ExtTreeSet ν)) (k : κ) (v : ν) : Prop := ∃ s, m[k]? = some s ∧ v ∈ s

/-- No set in the map is empty. -/
def Inhabited (m : ExtTreeMap κ (ExtTreeSet ν)) : Prop :=
  ∀ (k : κ) (s : ExtTreeSet ν), m[k]? = some s → ∃ v, v ∈ s

theorem not_holds_empty (k : κ) (v : ν) : ¬ Holds (∅ : ExtTreeMap κ (ExtTreeSet ν)) k v := by
  rintro ⟨s, hs, _⟩
  rw [ExtTreeMap.getElem?_empty] at hs
  cases hs

theorem inhabited_empty : Inhabited (∅ : ExtTreeMap κ (ExtTreeSet ν)) := by
  intro k s hs
  rw [ExtTreeMap.getElem?_empty] at hs
  cases hs

/-- No set of the map becomes empty by an insert. -/
theorem inhabited_add {m : ExtTreeMap κ (ExtTreeSet ν)} (h : Inhabited m) (k : κ) (v : ν) :
    Inhabited (add m k v) := by
  intro k' s hs
  rw [add, ExtTreeMap.getElem?_insert] at hs
  split at hs
  · cases hs
    exact ⟨v, ExtTreeSet.mem_insert_self⟩
  · exact h k' s hs

variable [LawfulEqOrd κ] [LawfulEqOrd ν]

theorem holds_add (m : ExtTreeMap κ (ExtTreeSet ν)) (k : κ) (v : ν) (k' : κ) (v' : ν) :
    Holds (add m k v) k' v' ↔ Holds m k' v' ∨ (k = k' ∧ v = v') := by
  unfold Holds add
  rw [ExtTreeMap.getElem?_insert]
  by_cases hk : k = k'
  · subst hk
    simp only [Std.compare_self, if_true, Option.some.injEq, exists_eq_left', ExtTreeSet.mem_insert,
      LawfulEqCmp.compare_eq_iff_eq, true_and, ExtTreeMap.getD_eq_getD_getElem?]
    cases m[k]? with
    | none => simp
    | some s =>
        simp only [Option.getD_some, Option.some.injEq, exists_eq_left']
        exact Or.comm
  · simp [LawfulEqCmp.compare_eq_iff_eq, hk]

end Nula.Buckets
