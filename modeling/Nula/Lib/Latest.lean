import Mathlib

/-!
# `Lib.Latest` — a cell that keeps what is strictly later

Values are offered to a cell one after another, and a value replaces the one kept only if its stamp is strictly
greater. The cell ends with the latest value, the first offered among equals (`latest_eq_some_iff`). Which of the
equals that is depends on the order of the offers, so what is kept is the same for every order exactly when the
equals are (`latest_filterMap_perm_iff`).
-/

namespace Nula.Latest

variable {α τ : Type} [LinearOrder τ] (stamp : α → τ)

/-- One offer. -/
def offer (cell : Option α) (x : α) : Option α :=
  match cell with
  | none => some x
  | some y => if stamp y < stamp x then some x else some y

/-- The cell after all offers. -/
def latest (l : List α) : Option α := l.foldl (offer stamp) none

/-- No offer has a greater stamp, and the earlier ones have smaller stamps. -/
def IsLatest (l : List α) (x : α) : Prop :=
  ∃ before after, l = before ++ x :: after ∧ (∀ y ∈ before, stamp y < stamp x) ∧ ∀ y ∈ after, stamp y ≤ stamp x

/-- No offer has a greater stamp. -/
def IsMax (l : List α) (x : α) : Prop := x ∈ l ∧ ∀ y ∈ l, stamp y ≤ stamp x

variable {stamp} {l : List α} {x : α}

theorem offer_some (y x : α) : offer stamp (some y) x = if stamp y < stamp x then some x else some y := rfl

theorem IsLatest.isMax (h : IsLatest stamp l x) : IsMax stamp l x := by
  obtain ⟨before, after, rfl, hbefore, hafter⟩ := h
  refine ⟨List.mem_append_right _ List.mem_cons_self, fun y hy => ?_⟩
  rcases List.mem_append.mp hy with hy | hy
  · exact le_of_lt (hbefore y hy)
  · rcases List.mem_cons.mp hy with rfl | hy
    · exact le_refl _
    · exact hafter y hy

/-- The order of the list does not matter to it. -/
theorem IsMax.perm {l' : List α} (h : IsMax stamp l x) (hl : l.Perm l') : IsMax stamp l' x :=
  ⟨hl.mem_iff.mp h.1, fun y hy => h.2 y (hl.mem_iff.mpr hy)⟩

/-- One more offer. -/
theorem isLatest_append_singleton {y : α} (h : IsLatest stamp l x) :
    IsLatest stamp (l ++ [y]) (if stamp x < stamp y then y else x) := by
  by_cases hlt : stamp x < stamp y
  · rw [if_pos hlt]
    exact ⟨l, [], rfl, fun z hz => lt_of_le_of_lt (h.isMax.2 z hz) hlt, fun z hz => absurd hz List.not_mem_nil⟩
  · rw [if_neg hlt]
    obtain ⟨before, after, rfl, hbefore, hafter⟩ := h
    refine ⟨before, after ++ [y], by simp, hbefore, fun z hz => ?_⟩
    rcases List.mem_append.mp hz with hz | hz
    · exact hafter z hz
    · rw [List.mem_singleton.mp hz]
      exact not_lt.mp hlt

theorem latest_append_singleton (l : List α) (y : α) :
    latest stamp (l ++ [y]) = offer stamp (latest stamp l) y := by
  rw [latest, latest, List.foldl_append]
  rfl

/-- **What the cell keeps.** -/
theorem latest_spec (stamp : α → τ) (l : List α) :
    (l = [] ∧ latest stamp l = none) ∨ ∃ x, latest stamp l = some x ∧ IsLatest stamp l x := by
  induction l using List.reverseRecOn with
  | nil => exact Or.inl ⟨rfl, rfl⟩
  | append_singleton l y ih =>
      refine Or.inr ?_
      rw [latest_append_singleton]
      rcases ih with ⟨rfl, hnone⟩ | ⟨x, hx, hlatest⟩
      · rw [hnone]
        exact ⟨y, rfl, [], [], rfl, fun z hz => absurd hz List.not_mem_nil, fun z hz => absurd hz List.not_mem_nil⟩
      · rw [hx]
        refine ⟨if stamp x < stamp y then y else x, ?_, isLatest_append_singleton hlatest⟩
        rw [offer_some]
        split <;> rfl

theorem latest_eq_none_iff : latest stamp l = none ↔ l = [] := by
  rcases latest_spec stamp l with ⟨rfl, h⟩ | ⟨x, hx, hlatest⟩
  · exact iff_of_true h rfl
  · rw [hx]
    refine iff_of_false (by simp) (fun hnil => ?_)
    rw [hnil] at hlatest
    exact absurd hlatest.isMax.1 List.not_mem_nil

/-- What the loop keeps is the latest. By induction from the end of the list: an offer takes the place of the kept
    element only when its stamp is greater. -/
theorem isLatest_of_latest (h : latest stamp l = some x) : IsLatest stamp l x := by
  rcases latest_spec stamp l with ⟨_, hnone⟩ | ⟨x', hx, hlatest⟩
  · cases hnone.symm.trans h
  · cases hx.symm.trans h
    exact hlatest

/-- Later offers that are not strictly later change nothing. -/
theorem foldl_offer_of_le {rest : List α} (h : ∀ y ∈ rest, stamp y ≤ stamp x) :
    rest.foldl (offer stamp) (some x) = some x := by
  induction rest with
  | nil => rfl
  | cons y rest ih =>
      rw [List.foldl_cons, offer_some, if_neg (not_lt.mpr (h y List.mem_cons_self))]
      exact ih (fun z hz => h z (List.mem_cons_of_mem y hz))

/-- **The loop finds exactly the latest.** -/
theorem latest_eq_some_iff : latest stamp l = some x ↔ IsLatest stamp l x := by
  refine ⟨isLatest_of_latest, ?_⟩
  rintro ⟨before, after, rfl, hbefore, hafter⟩
  have hoffer : offer stamp (latest stamp before) x = some x := by
    cases hb : latest stamp before with
    | none => rfl
    | some y => rw [offer_some, if_pos (hbefore y (isLatest_of_latest hb).isMax.1)]
  rw [latest, List.foldl_append, List.foldl_cons]
  change after.foldl (offer stamp) (offer stamp (latest stamp before) x) = some x
  rw [hoffer, foldl_offer_of_le hafter]

/-- A maximum offered first is kept. -/
theorem latest_cons (h : ∀ y ∈ l, stamp y ≤ stamp x) : latest stamp (x :: l) = some x := by
  rw [latest, List.foldl_cons]
  exact foldl_offer_of_le h

/-- The sources of the offers can be reordered so that a given maximum is kept. -/
theorem IsMax.exists_perm_filterMap {β : Type} {f : β → Option α} {l : List β}
    (h : IsMax stamp (l.filterMap f) x) : ∃ l', l.Perm l' ∧ latest stamp (l'.filterMap f) = some x := by
  obtain ⟨b, hb, hbx⟩ := List.mem_filterMap.mp h.1
  obtain ⟨before, after, rfl⟩ := List.append_of_mem hb
  refine ⟨b :: (before ++ after), List.perm_middle, ?_⟩
  rw [List.filterMap_cons_some hbx]
  refine latest_cons (fun y hy => h.2 y ?_)
  rw [(List.perm_middle.filterMap f).mem_iff, List.filterMap_cons_some hbx]
  exact List.mem_cons_of_mem x hy

/-- Offers that are all one value keep it. -/
theorem latest_eq_of_mem_iff {o : Option α} (h : ∀ x, x ∈ l ↔ o = some x) : latest stamp l = o := by
  cases hl : latest stamp l with
  | none =>
      rw [latest_eq_none_iff] at hl
      cases o with
      | none => rfl
      | some x =>
          have hx := (h x).mpr rfl
          rw [hl] at hx
          exact absurd hx List.not_mem_nil
  | some x => exact ((h x).mp (isLatest_of_latest hl).isMax.1).symm

/-- **What is kept reads like a given offer in every order exactly when every maximum does.** -/
theorem latest_filterMap_perm_iff {β γ : Type} (stamp : α → τ) (f : β → Option α) (g : Option α → γ) {l : List β}
    {o : Option α} (ho : ∀ x, o = some x → x ∈ l.filterMap f) :
    (∀ l', l.Perm l' → g (latest stamp (l'.filterMap f)) = g o) ↔
      ∀ x, IsMax stamp (l.filterMap f) x → g (some x) = g o := by
  constructor
  · intro h x hx
    obtain ⟨l', hperm, hl'⟩ := hx.exists_perm_filterMap
    rw [← hl']
    exact h l' hperm
  · intro h l' hperm
    cases hl : latest stamp (l'.filterMap f) with
    | some x => exact h x ((isLatest_of_latest hl).isMax.perm (hperm.filterMap f).symm)
    | none =>
        rw [latest_eq_none_iff] at hl
        -- without an offer there is none to read
        cases o with
        | none => rfl
        | some x =>
            have hx := (hperm.filterMap f).mem_iff.mp (ho x rfl)
            rw [hl] at hx
            exact absurd hx List.not_mem_nil

end Nula.Latest
