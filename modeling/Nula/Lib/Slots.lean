import Mathlib

/-!
# `Lib.Slots` — lists that are told apart by labels, and lists that are sorted

A row of optional items, each under a label of its own, before items under other labels: what is present in it
tells which slots are filled and with what (`row_inj`). Two lists sort alike exactly when one is a permutation of
the other.
-/

namespace Nula

variable {α κ : Type}

/-! ## Sorting -/

theorem insertionSort_eq_iff {r : α → α → Prop} [DecidableRel r] [Std.Total r] [IsTrans α r] [Std.Antisymm r]
    {l m : List α} : l.insertionSort r = m.insertionSort r ↔ l.Perm m := by
  constructor
  · intro h
    exact ((List.perm_insertionSort r l).symm.trans (by rw [h])).trans (List.perm_insertionSort r m)
  · intro h
    have hanti : ∀ a b, a ∈ l.insertionSort r → b ∈ m.insertionSort r → r a b → r b a → a = b :=
      fun a b _ _ => antisymm
    refine List.Perm.eq_of_pairwise hanti (List.pairwise_insertionSort r l) (List.pairwise_insertionSort r m) ?_
    exact ((List.perm_insertionSort r l).trans h).trans (List.perm_insertionSort r m).symm

/-! ## Rows -/

/-- Each slot of the row is under its label. -/
def Labelled (label : α → κ) (keys : List κ) (row : List (Option α)) : Prop :=
  List.Forall₂ (fun k x => ∀ a ∈ x, label a = k) keys row

variable {label : α → κ} {keys : List κ}

/-- What stands in the row has a label of the row. -/
theorem Labelled.label_mem {row : List (Option α)} (h : Labelled label keys row) {a : α} (ha : a ∈ row.reduceOption) :
    label a ∈ keys := by
  rw [List.reduceOption_mem_iff] at ha
  induction h with
  | nil => exact absurd ha List.not_mem_nil
  | cons hx hrest ih =>
      rcases List.mem_cons.mp ha with hhere | hthere
      · rw [hx a hhere.symm]
        exact List.mem_cons_self
      · exact List.mem_cons_of_mem _ (ih hthere)

/-- **A row of optional values can be told from what follows it**, as long as nothing there has a label of the row. By
    induction on the row: a slot is full in both, with the first element, or in neither. -/
theorem row_inj (hkeys : keys.Nodup) {row row' : List (Option α)} {rest rest' : List α}
    (hrow : Labelled label keys row) (hrow' : Labelled label keys row') (hrest : ∀ a ∈ rest, label a ∉ keys)
    (hrest' : ∀ a ∈ rest', label a ∉ keys) (h : row.reduceOption ++ rest = row'.reduceOption ++ rest') :
    row = row' ∧ rest = rest' := by
  induction hrow generalizing row' with
  | nil =>
      cases hrow'
      exact ⟨rfl, h⟩
  | @cons k x keys row hx hrow ih =>
      cases hrow' with
      | @cons _ y _ row' hy hrow' =>
          obtain ⟨hk, hkeys⟩ := List.nodup_cons.mp hkeys
          -- nothing behind the first slot is under its label
          have hlater : ∀ {s : List (Option α)} {t : List α}, Labelled label keys s → (∀ a ∈ t, label a ∉ k :: keys) →
              ∀ a ∈ s.reduceOption ++ t, label a ≠ k := by
            intro s t hs ht a ha heq
            rcases List.mem_append.mp ha with ha | ha
            · exact hk (heq ▸ hs.label_mem ha)
            · exact ht a ha (by rw [heq]; exact List.mem_cons_self)
          have hbehind := fun a ha hmem => hrest a ha (List.mem_cons_of_mem k hmem)
          have hbehind' := fun a ha hmem => hrest' a ha (List.mem_cons_of_mem k hmem)
          cases x with
          | none =>
              cases y with
              | none =>
                  rw [List.reduceOption_cons_of_none, List.reduceOption_cons_of_none] at h
                  obtain ⟨rfl, hrests⟩ := ih hkeys hrow' hbehind hbehind' h
                  exact ⟨rfl, hrests⟩
              | some b =>
                  rw [List.reduceOption_cons_of_none, List.reduceOption_cons_of_some, List.cons_append] at h
                  exact absurd (hy b rfl) (hlater hrow hrest b (by rw [h]; exact List.mem_cons_self))
          | some a =>
              cases y with
              | none =>
                  rw [List.reduceOption_cons_of_none, List.reduceOption_cons_of_some, List.cons_append] at h
                  exact absurd (hx a rfl) (hlater hrow' hrest' a (by rw [← h]; exact List.mem_cons_self))
              | some b =>
                  rw [List.reduceOption_cons_of_some, List.reduceOption_cons_of_some, List.cons_append,
                    List.cons_append] at h
                  obtain ⟨rfl, htail⟩ := List.cons.inj h
                  obtain ⟨rfl, hrests⟩ := ih hkeys hrow' hbehind hbehind' htail
                  exact ⟨rfl, hrests⟩

end Nula
