import Mathlib

/-!
# `Lib.Standing` — facts that inputs set and clear

Some inputs of a run set a fact and some clear it; the fact *stands* after a history when an input set it and
none after that one cleared it. A predicate on states that every step keeps to this rule holds exactly when the
fact stands (`stands_foldl`), so what a state remembers can be read off its history.
-/

namespace Nula

variable {ι σ : Type} {sets clears : ι → Prop} {history : List ι} {i : ι}

/-- An input of the history sets the fact, and none after it clears it. -/
def Stands (sets clears : ι → Prop) (history : List ι) : Prop :=
  ∃ before i since, history = before ++ i :: since ∧ sets i ∧ ∀ j ∈ since, ¬ clears j

theorem not_stands_nil : ¬ Stands sets clears [] := by
  rintro ⟨before, i, since, heq, -, -⟩
  exact absurd heq (by simp)

/-- The last input sets the fact, or it stood before and the last input does not clear it. -/
theorem stands_append_singleton :
    Stands sets clears (history ++ [i]) ↔ sets i ∨ Stands sets clears history ∧ ¬ clears i := by
  constructor
  · rintro ⟨before, j, since, heq, hset, hkept⟩
    rcases List.eq_nil_or_concat since with rfl | ⟨since, k, rfl⟩
    · have hlast := List.append_inj' heq rfl
      cases hlast.2
      exact Or.inl hset
    · rw [List.concat_eq_append] at heq hkept
      rw [← List.cons_append, ← List.append_assoc] at heq
      obtain ⟨rfl, hk⟩ := List.append_inj' heq rfl
      cases hk
      exact Or.inr ⟨⟨before, j, since, rfl, hset, fun x hx => hkept x (List.mem_append_left _ hx)⟩,
        hkept i (List.mem_append_right _ List.mem_cons_self)⟩
  · rintro (hset | ⟨⟨before, j, since, rfl, hset, hkept⟩, hclear⟩)
    · exact ⟨history, i, [], rfl, hset, fun _ h => absurd h List.not_mem_nil⟩
    · refine ⟨before, j, since ++ [i], by simp, hset, fun x hx => ?_⟩
      rcases List.mem_append.mp hx with hx | hx
      · exact hkept x hx
      · rw [List.mem_singleton.mp hx]
        exact hclear

/-- A fact no input clears stands from the first that set it. -/
theorem stands_of_mem (hset : sets i) (h : i ∈ history) : Stands sets (fun _ => False) history := by
  obtain ⟨before, since, rfl⟩ := List.append_of_mem h
  exact ⟨before, i, since, rfl, hset, fun _ _ => id⟩

/-- What is set after the last clearing input stands. -/
theorem not_stands_of_cleared {before since : List ι} (hclear : clears i) (hnot : ¬ sets i)
    (hsince : ∀ j ∈ since, ¬ sets j) : ¬ Stands sets clears (before ++ i :: since) := by
  induction since using List.reverseRecOn with
  | nil =>
      rw [stands_append_singleton]
      exact fun h => h.elim hnot (fun h => h.2 hclear)
  | append_singleton since j ih =>
      rw [← List.cons_append, ← List.append_assoc, stands_append_singleton]
      rintro (hset | ⟨hstands, -⟩)
      · exact hsince j (List.mem_append_right _ List.mem_cons_self) hset
      · exact ih (fun k hk => hsince k (List.mem_append_left _ hk)) hstands

/-- **A state remembers what stands.** -/
theorem stands_foldl {step : σ → ι → σ} {P : σ → Prop} {start : σ}
    (hstep : ∀ s i, P (step s i) ↔ sets i ∨ P s ∧ ¬ clears i) (hstart : ¬ P start) (history : List ι) :
    P (history.foldl step start) ↔ Stands sets clears history := by
  induction history using List.reverseRecOn with
  | nil => exact iff_of_false hstart not_stands_nil
  | append_singleton history i ih =>
      rw [List.foldl_append, List.foldl_cons, List.foldl_nil, hstep, ih, stands_append_singleton]

end Nula
