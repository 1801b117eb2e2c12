import Mathlib

/-!
# `Lib.Joins` — states that only join

A state reads as an element of a semilattice, and every step joins what it is fed to it. Then a run joins what the
state was with the supremum of what it was fed (`reads_foldl`): the order of the steps does not matter, nor does a step
taken twice (`reads_foldl_congr`), and two runs are joined to the run of both (`reads_foldl_append`).
-/

namespace Nula.Joins

section Run

variable {σ α β : Type} [SemilatticeSup β] [OrderBot β] [DecidableEq α]
variable {reads : σ → β} {step : σ → α → σ} {f : α → β}

/-- What a loop of joins reads at the end: the start and everything that came up. -/
theorem reads_foldl (h : ∀ s a, reads (step s a) = reads s ⊔ f a) (s : σ) (l : List α) :
    reads (l.foldl step s) = reads s ⊔ l.toFinset.sup f := by
  induction l generalizing s with
  | nil => simp
  | cons a l ih => rw [List.foldl_cons, ih, h, List.toFinset_cons, Finset.sup_insert, sup_assoc]

theorem reads_foldl_congr (h : ∀ s a, reads (step s a) = reads s ⊔ f a) (s : σ) {l m : List α}
    (hsame : ∀ a, a ∈ l ↔ a ∈ m) : reads (l.foldl step s) = reads (m.foldl step s) := by
  have hset : l.toFinset = m.toFinset := by
    ext a
    rw [List.mem_toFinset, List.mem_toFinset, hsame]
  rw [reads_foldl h, reads_foldl h, hset]

theorem reads_foldl_append (h : ∀ s a, reads (step s a) = reads s ⊔ f a) {empty : σ} (hempty : reads empty = ⊥) (s : σ)
    (l m : List α) :
    reads ((l ++ m).foldl step s) = reads (l.foldl step s) ⊔ reads (m.foldl step empty) := by
  rw [List.foldl_append, reads_foldl h, reads_foldl h empty, hempty, bot_sup_eq]

end Run

/-- A single place with something at it. -/
def single {ι γ : Type} [DecidableEq ι] [Bot γ] (i : ι) (v : γ) : ι → γ := fun j => if i = j then v else ⊥

/-- What reaches one place, when every element has a place of its own. -/
theorem sup_single_apply {ι α γ : Type} [DecidableEq ι] [SemilatticeSup γ] [OrderBot γ] (place : α → ι) (v : α → γ)
    (s : Finset α) (i : ι) :
    s.sup (fun a => single (place a) (v a)) i = (s.filter (fun a => place a = i)).sup v := by
  rw [Finset.sup_apply]
  unfold single
  rw [Finset.sup_ite, Finset.sup_bot, sup_bot_eq]

end Nula.Joins
