import Mathlib

/-!
# `Lib.Yields` — total correctness of fallible code

`Yields x P` says that `x` succeeds, with a result satisfying `P`. The rules follow the program: a return, a
bind, and a loop against a total specification loop (`Yields.foldlM`, the fallible counterpart of
`List.foldl_rel`). `bind_ok_iff`, `map_ok_iff` and `mapError_ok_iff` read a success backwards.
-/

namespace Nula

variable {ε α β γ : Type}

/-- `x` succeeds, and its result satisfies `P`. -/
def Yields (x : Except ε α) (P : α → Prop) : Prop := ∃ a, x = .ok a ∧ P a

namespace Yields

theorem ok {a : α} {P : α → Prop} (h : P a) : Yields (.ok a : Except ε α) P := ⟨a, rfl, h⟩

theorem mono {x : Except ε α} {P Q : α → Prop} (h : Yields x P) (hPQ : ∀ a, P a → Q a) : Yields x Q := by
  obtain ⟨a, hx, ha⟩ := h
  exact ⟨a, hx, hPQ a ha⟩

/-- What the first yields may be assumed of the second. -/
theorem bind {x : Except ε α} {f : α → Except ε β} {P : α → Prop} {Q : β → Prop} (h : Yields x P)
    (hf : ∀ a, P a → Yields (f a) Q) : Yields (x >>= f) Q := by
  obtain ⟨a, rfl, ha⟩ := h
  exact hf a ha

/-- A known result goes through a bind. -/
theorem bind_of_eq {x : Except ε α} {a : α} {f : α → Except ε β} {Q : β → Prop} (hx : x = .ok a)
    (hf : Yields (f a) Q) : Yields (x >>= f) Q := by
  subst hx
  exact hf

/-- A loop whose every turn succeeds and keeps the relation to a specification loop does both. -/
theorem foldlM {f : β → α → Except ε β} {g : γ → α → γ} {R : β → γ → Prop} {l : List α} {b : β} {c : γ}
    (h : R b c) (hstep : ∀ a ∈ l, ∀ b c, R b c → Yields (f b a) (fun b' => R b' (g c a))) :
    Yields (l.foldlM f b) (fun b' => R b' (l.foldl g c)) := by
  induction l generalizing b c with
  | nil => exact ok h
  | cons a l ih =>
      rw [List.foldlM_cons, List.foldl_cons]
      refine (hstep a List.mem_cons_self b c h).bind (fun b' hb' => ?_)
      exact ih hb' (fun x hx => hstep x (List.mem_cons_of_mem a hx))

end Yields

theorem mapError_ok_iff {δ : Type} {x : Except ε α} {f : ε → δ} {a : α} : x.mapError f = .ok a ↔ x = .ok a := by
  cases x with
  | error e => simp [Except.mapError]
  | ok b => simp [Except.mapError]

theorem bind_ok_iff {x : Except ε α} {f : α → Except ε β} {b : β} :
    x >>= f = .ok b ↔ ∃ a, x = .ok a ∧ f a = .ok b := by
  cases x with
  | error e => simp [bind, Except.bind]
  | ok a => simp [bind, Except.bind]

theorem map_ok_iff {x : Except ε α} {f : α → β} {b : β} : x.map f = .ok b ↔ ∃ a, x = .ok a ∧ f a = b := by
  cases x with
  | error e => simp [Except.map]
  | ok a => simp [Except.map]

/-- A loop over two lists goes on with what the first made of the state. -/
theorem foldlM_append_of_ok {f : β → α → Except ε β} {l l' : List α} {b c : β} (h : l.foldlM f b = .ok c) :
    (l ++ l').foldlM f b = l'.foldlM f c := by
  rw [List.foldlM_append, h]
  rfl

/-- A traversal succeeds exactly when every element does. -/
theorem mapM_ok_iff {f : α → Except ε β} {l : List α} {r : List β} :
    l.mapM f = .ok r ↔ List.Forall₂ (fun a b => f a = .ok b) l r := by
  induction l generalizing r with
  | nil =>
      rw [List.mapM_nil, List.forall₂_nil_left_iff]
      constructor
      · intro h
        exact (Except.ok.inj h).symm
      · rintro rfl
        rfl
  | cons a l ih =>
      rw [List.mapM_cons, bind_ok_iff]
      constructor
      · rintro ⟨b, hb, hrest⟩
        obtain ⟨bs, hbs, heq⟩ := bind_ok_iff.mp hrest
        obtain rfl := Except.ok.inj heq
        exact .cons hb (ih.mp hbs)
      · intro h
        cases h with
        | cons hb hbs => exact ⟨_, hb, bind_ok_iff.mpr ⟨_, ih.mpr hbs, rfl⟩⟩

end Nula
