import Mathlib

/-!
# `Lib.Delimited` — codes whose words can be told apart in a text

A code is delimited when a word of it at the front of a text tells its value and where it ends, whatever
follows. Such a code is injective, and the rules build one from its parts: a word behind a fixed text, one word
after another, a word that avoids the mark it ends with, the words of a list up to a mark, and a list between
brackets with separators.
-/

namespace Nula

variable {α β γ : Type}

/-- A word at the front of a text tells its value and where it ends. -/
def Delimited (code : α → List γ) : Prop := ∀ a b r s, code a ++ r = code b ++ s → a = b ∧ r = s

namespace Delimited

variable {code : α → List γ}

/-- No word begins another. -/
theorem of_prefix (h : ∀ a b, code a <+: code b → a = b) : Delimited code := by
  intro a b r s heq
  have hab : a = b := by
    rcases List.prefix_or_prefix_of_prefix (List.prefix_append (code a) r)
      (heq ▸ List.prefix_append (code b) s) with hpre | hpre
    · exact h a b hpre
    · exact (h b a hpre).symm
  subst hab
  exact ⟨rfl, List.append_cancel_left heq⟩

/-- A code stays delimited when fewer values use it. -/
theorem comp (h : Delimited code) {f : β → α} (hf : Function.Injective f) : Delimited (fun b => code (f b)) := by
  intro a b r s heq
  obtain ⟨hfab, hrs⟩ := h _ _ r s heq
  exact ⟨hf hfab, hrs⟩

/-- A mark before every word. -/
theorem cons (h : Delimited code) (mark : γ) : Delimited (fun a => mark :: code a) := by
  intro a b r s heq
  exact h a b r s (List.cons.inj heq).2

/-- Both texts end their word at the first mark. -/
theorem first_mark {mark : γ} {v w r s : List γ} (hv : mark ∉ v) (hw : mark ∉ w)
    (heq : v ++ mark :: r = w ++ mark :: s) : v = w ∧ r = s := by
  induction v generalizing w with
  | nil =>
      cases w with
      | nil => exact ⟨rfl, (List.cons.inj heq).2⟩
      | cons c w => exact absurd ((List.cons.inj heq).1 ▸ List.mem_cons_self) hw
  | cons c v ih =>
      cases w with
      | nil => exact absurd ((List.cons.inj heq).1 ▸ List.mem_cons_self) hv
      | cons d w =>
          obtain ⟨rfl, htail⟩ := List.cons.inj heq
          obtain ⟨rfl, hrest⟩ := ih (fun h => hv (List.mem_cons_of_mem _ h))
            (fun h => hw (List.mem_cons_of_mem _ h)) htail
          exact ⟨rfl, hrest⟩

/-- Words that avoid a mark, and the mark behind them. -/
theorem marked (hinj : Function.Injective code) {mark : γ} (hmark : ∀ a, mark ∉ code a) :
    Delimited (fun a => code a ++ [mark]) := by
  intro a b r s heq
  simp only [List.append_assoc, List.singleton_append] at heq
  obtain ⟨hcode, hrest⟩ := first_mark (hmark a) (hmark b) heq
  exact ⟨hinj hcode, hrest⟩

/-- The words of a list up to a mark that begins none of them. -/
theorem list (h : Delimited code) {mark : γ} (hhead : ∀ a, ∃ c w, code a = c :: w ∧ c ≠ mark) :
    Delimited (fun l : List α => l.flatMap code ++ [mark]) := by
  intro l
  induction l with
  | nil =>
      intro l' r s heq
      cases l' with
      | nil =>
          simp only [List.flatMap_nil, List.nil_append, List.singleton_append, List.cons.injEq, true_and] at heq
          exact ⟨rfl, heq⟩
      | cons b l' =>
          obtain ⟨c, w, hc, hne⟩ := hhead b
          simp only [List.flatMap_nil, List.nil_append, List.flatMap_cons, hc, List.cons_append] at heq
          exact absurd (List.cons.inj heq).1.symm hne
  | cons a l ih =>
      intro l' r s heq
      cases l' with
      | nil =>
          obtain ⟨c, w, hc, hne⟩ := hhead a
          simp only [List.flatMap_nil, List.nil_append, List.flatMap_cons, hc, List.cons_append] at heq
          exact absurd (List.cons.inj heq).1 hne
      | cons b l' =>
          simp only [List.flatMap_cons, List.append_assoc] at heq
          obtain ⟨rfl, htail⟩ := h a b _ _ heq
          obtain ⟨rfl, hrest⟩ := ih l' r s (by simpa only [List.append_assoc] using htail)
          exact ⟨rfl, hrest⟩

/-! ## Brackets and separators -/

theorem intercalate_cons (sep : γ) (w : List γ) (ws : List (List γ)) :
    [sep].intercalate (w :: ws) = w ++ ws.flatMap (fun v => sep :: v) := by
  induction ws generalizing w with
  | nil => simp [List.intercalate]
  | cons v ws ih =>
      rw [List.intercalate_cons_of_ne_nil (List.cons_ne_nil _ _), ih, List.flatMap_cons, List.append_assoc,
        List.singleton_append, List.cons_append]

/-- A list between brackets, its words apart. -/
theorem bracketed (h : Delimited code) {opening sep closing : γ} (hsep : sep ≠ closing)
    (hhead : ∀ a, ∃ c w, code a = c :: w ∧ c ≠ closing) :
    Delimited (fun l : List α => [opening] ++ [sep].intercalate (l.map code) ++ [closing]) := by
  have hrest : Delimited (fun l : List α => l.flatMap (fun a => sep :: code a) ++ [closing]) :=
    list (h.cons sep) (fun a => ⟨sep, code a, rfl, hsep⟩)
  have hempty : ∀ a l r s, [opening] ++ [sep].intercalate (([] : List α).map code) ++ [closing] ++ r ≠
      [opening] ++ [sep].intercalate ((a :: l).map code) ++ [closing] ++ s := by
    intro a l r s heq
    obtain ⟨c, w, hc, hne⟩ := hhead a
    rw [List.map_cons, intercalate_cons, hc] at heq
    simp only [List.map_nil, List.intercalate_nil, List.append_nil, List.cons_append, List.nil_append,
      List.append_assoc, List.cons.injEq, true_and] at heq
    exact hne heq.1.symm
  intro l l' r s heq
  cases l with
  | nil =>
      cases l' with
      | nil => exact ⟨rfl, List.append_cancel_left heq⟩
      | cons b l' => exact absurd heq (hempty b l' r s)
  | cons a l =>
      cases l' with
      | nil => exact absurd heq.symm (hempty a l s r)
      | cons b l' =>
          simp only [List.map_cons, intercalate_cons, List.append_assoc, List.flatMap_map] at heq
          obtain ⟨rfl, htail⟩ := h a b _ _ (List.append_cancel_left heq)
          obtain ⟨rfl, hrs⟩ := hrest l l' r s (by simpa only [List.append_assoc] using htail)
          exact ⟨rfl, hrs⟩

end Delimited

end Nula
