import Mathlib

/-!
# `Lib.Realign` — pairs split into two lists and put together again

Pairs whose parts may be missing are written as the list of their first parts and the list of their second parts, and
read back by position. Reading pairs the first parts with the first second parts, so that what is missing always comes
out last (`packed_realign`): pairs that are like that to begin with come back as they were (`realign_of_packed`).
-/

namespace Nula.Realign

variable {α β : Type}

/-- The parts in their order, side by side while there are any of both. -/
def realign : List α → List β → List (Option α × Option β)
  | a :: as, b :: bs => (some a, some b) :: realign as bs
  | a :: as, [] => (some a, none) :: realign as []
  | [], bs => bs.map (fun b => (none, some b))

/-- No pair that misses a part stands before one that has it. -/
def Packed (l : List (Option α × Option β)) : Prop :=
  l.Pairwise (fun x y => (y.1.isSome = true → x.1.isSome = true) ∧ (y.2.isSome = true → x.2.isSome = true))

theorem snd_realign_nil (as : List α) : ∀ x ∈ realign as ([] : List β), x.2 = none := by
  induction as with
  | nil => intro x hx; cases hx
  | cons a as ih =>
      intro x hx
      rcases List.mem_cons.mp hx with rfl | hx
      · rfl
      · exact ih x hx

/-- The second column has no gaps before its end. -/
theorem packed_realign (as : List α) (bs : List β) : Packed (realign as bs) := by
  induction as generalizing bs with
  | nil =>
      rw [Packed, realign, List.pairwise_map]
      exact List.pairwise_of_forall (fun _ _ => ⟨fun h => h, fun h => h⟩)
  | cons a as ih =>
      cases bs with
      | nil =>
          refine List.pairwise_cons.mpr ⟨fun x hx => ⟨fun _ => rfl, fun h => ?_⟩, ih []⟩
          rw [snd_realign_nil as x hx] at h
          cases h
      | cons b bs => exact List.pairwise_cons.mpr ⟨fun x _ => ⟨fun _ => rfl, fun _ => rfl⟩, ih bs⟩

/-- Packed pairs are put together again. -/
theorem realign_of_packed {l : List (Option α × Option β)} (hparts : ∀ x ∈ l, x.1.isSome = true ∨ x.2.isSome = true)
    (h : Packed l) : realign (l.filterMap Prod.fst) (l.filterMap Prod.snd) = l := by
  induction l with
  | nil => rfl
  | cons x l ih =>
      obtain ⟨hx, hl⟩ := List.pairwise_cons.mp h
      obtain ⟨hpart, hrest⟩ := List.forall_mem_cons.mp hparts
      have hsame := ih hrest hl
      rcases x with ⟨_ | a, _ | b⟩
      · rcases hpart with hpart | hpart <;> cases hpart
      · -- no first part from here on
        have hnone : l.filterMap Prod.fst = [] := by
          rw [List.filterMap_eq_nil_iff]
          intro y hy
          exact Option.not_isSome_iff_eq_none.mp (fun hsome => by cases (hx y hy).1 hsome)
        rw [hnone, realign] at hsame
        show realign (l.filterMap Prod.fst) (b :: l.filterMap Prod.snd) = (none, some b) :: l
        rw [hnone, realign, List.map_cons, hsame]
      · -- no second part from here on
        have hnone : l.filterMap Prod.snd = [] := by
          rw [List.filterMap_eq_nil_iff]
          intro y hy
          exact Option.not_isSome_iff_eq_none.mp (fun hsome => by cases (hx y hy).2 hsome)
        rw [hnone] at hsame
        show realign (a :: l.filterMap Prod.fst) (l.filterMap Prod.snd) = (some a, none) :: l
        rw [hnone, realign, hsame]
      · show realign (a :: l.filterMap Prod.fst) (b :: l.filterMap Prod.snd) = (some a, some b) :: l
        rw [realign, hsame]

end Nula.Realign
