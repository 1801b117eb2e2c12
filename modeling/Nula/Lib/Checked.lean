import Mathlib

/-!
# `Lib.Checked` — code that may fail and must not panic

`Checked` is a computation that may panic: `usize` arithmetic that leaves its width, a slice cut beyond its
end, an `expect` on nothing. `Fallible ε` is one that also returns errors. `Safe x P` says that `x` does not
panic and that a value it returns satisfies `P`; its rules follow the program.
-/

namespace Nula

variable {ε α β : Type}

/-- What stops a program: an overflow, an index out of range, or a failed `expect` with its text. -/
inductive Panic where
  | overflow
  | outOfRange
  | expect (text : String)
  deriving DecidableEq, Repr

/-- Code that may panic. -/
abbrev Checked (α : Type) := Except Panic α

/-- Code that may panic or return an error. -/
abbrev Fallible (ε α : Type) := ExceptT ε (Except Panic) α

/-! ## `usize` arithmetic and slices -/

namespace Checked

/-- `usize` addition with overflow checks on. -/
def add (a b : Nat) : Checked Nat := if a + b < 2 ^ 64 then .ok (a + b) else .error .overflow

/-- `usize` subtraction with overflow checks on. -/
def sub (a b : Nat) : Checked Nat := if b ≤ a then .ok (a - b) else .error .overflow

/-- `usize` multiplication with overflow checks on. -/
def mul (a b : Nat) : Checked Nat := if a * b < 2 ^ 64 then .ok (a * b) else .error .overflow

/-- `1usize << bits`. -/
def oneShl (bits : Nat) : Checked Nat := if bits < 64 then .ok (2 ^ bits) else .error .overflow

/-- `<[T]>::split_at`. -/
def splitAt (l : List α) (mid : Nat) : Checked (List α × List α) :=
  if mid ≤ l.length then .ok (l.take mid, l.drop mid) else .error .outOfRange

/-- `Option::expect`. -/
def expect (text : String) : Option α → Checked α
  | some a => .ok a
  | none => .error (.expect text)

theorem add_ok {a b : Nat} (h : a + b < 2 ^ 64) : add a b = .ok (a + b) := if_pos h

theorem sub_ok {a b : Nat} (h : b ≤ a) : sub a b = .ok (a - b) := if_pos h

theorem mul_ok {a b : Nat} (h : a * b < 2 ^ 64) : mul a b = .ok (a * b) := if_pos h

theorem oneShl_ok {bits : Nat} (h : bits < 64) : oneShl bits = .ok (2 ^ bits) := if_pos h

theorem splitAt_ok {l : List α} {mid : Nat} (h : mid ≤ l.length) : splitAt l mid = .ok (l.take mid, l.drop mid) :=
  if_pos h

/-- A slice is cut between its two parts. -/
theorem splitAt_append (l r : List α) : splitAt (l ++ r) l.length = .ok (l, r) := by
  rw [splitAt_ok (by simp), List.take_left, List.drop_left]

end Checked

/-! ## Programs that return a value -/

/-- The next step runs on what this one returned. -/
theorem Fallible.bind_ok {x : Fallible ε α} {f : α → Fallible ε β} {a : α} (hx : x.run = .ok (.ok a)) :
    (x >>= f).run = (f a).run := by
  rw [ExceptT.run_bind, hx]
  rfl

/-- What a program of two steps returned came of both. -/
theorem Fallible.bind_eq_ok {x : Fallible ε α} {f : α → Fallible ε β} {b : β} (h : (x >>= f).run = .ok (.ok b)) :
    ∃ a, x.run = .ok (.ok a) ∧ (f a).run = .ok (.ok b) := by
  rw [ExceptT.run_bind] at h
  cases hx : x.run with
  | error panic =>
      rw [hx] at h
      cases h
  | ok r =>
      rw [hx] at h
      cases r with
      | error e => cases h
      | ok a => exact ⟨a, rfl, h⟩

/-- An error under another name, where the outcome is known. -/
theorem Fallible.run_adapt {δ : Type} {f : ε → δ} {x : Fallible ε α} {r : Except ε α} (h : x.run = .ok r) :
    (ExceptT.adapt f x).run = .ok (r.mapError f) := by
  show (Except.mapError f <$> x.run : Checked (Except δ α)) = _
  rw [h]
  rfl

theorem Fallible.adapt_eq_ok {δ : Type} {f : ε → δ} {x : Fallible ε α} {a : α}
    (h : (ExceptT.adapt f x).run = .ok (.ok a)) : x.run = .ok (.ok a) := by
  cases hx : x.run with
  | error panic =>
      have hpanic : (Except.mapError f <$> x.run : Checked (Except δ α)) = .ok (.ok a) := h
      rw [hx] at hpanic
      cases hpanic
  | ok r =>
      rw [run_adapt hx] at h
      cases r with
      | error e => cases h
      | ok b =>
          cases h
          rfl

/-- Arithmetic that does not panic disappears from a computation. -/
theorem Fallible.bind_lift {x : Checked α} {f : α → Fallible ε β} {a : α} (hx : x = .ok a) :
    ((liftM x : Fallible ε α) >>= f).run = (f a).run := by
  subst hx
  rfl

/-! ## Programs that do not panic -/

/-- `x` does not panic, and `P` holds of what it returns. -/
def Safe (x : Fallible ε α) (P : α → Prop) : Prop := ∃ r, x.run = .ok r ∧ ∀ a, r = .ok a → P a

namespace Safe

theorem pure {a : α} {P : α → Prop} (h : P a) : Safe (Pure.pure a : Fallible ε α) P := by
  refine ⟨.ok a, rfl, ?_⟩
  rintro b ⟨⟩
  exact h

theorem throw (e : ε) (P : α → Prop) : Safe (MonadExcept.throw e : Fallible ε α) P := by
  refine ⟨.error e, rfl, ?_⟩
  rintro b ⟨⟩

/-- A safe computation followed by safe ones is safe; what the first yields may be assumed of the others. -/
theorem bind {x : Fallible ε α} {f : α → Fallible ε β} {P : α → Prop} {Q : β → Prop} (hx : Safe x P)
    (hf : ∀ a, P a → Safe (f a) Q) : Safe (x >>= f) Q := by
  obtain ⟨r, hrun, hP⟩ := hx
  cases r with
  | error e =>
      refine ⟨.error e, ?_, ?_⟩
      · rw [ExceptT.run_bind, hrun]
        rfl
      · rintro b ⟨⟩
  | ok a =>
      obtain ⟨r, hrun', hQ⟩ := hf a (hP a rfl)
      exact ⟨r, (Fallible.bind_ok hrun).trans hrun', hQ⟩

/-- The same behind arithmetic that does not panic. -/
theorem bind_lift {x : Checked α} {f : α → Fallible ε β} {a : α} {Q : β → Prop} (hx : x = .ok a)
    (hf : Safe (f a) Q) : Safe ((liftM x : Fallible ε α) >>= f) Q := by
  obtain ⟨r, hrun, hQ⟩ := hf
  exact ⟨r, (Fallible.bind_lift hx).trans hrun, hQ⟩

/-- What is returned satisfies `P`. -/
theorem of_run {x : Fallible ε α} {P : α → Prop} {a : α} (h : Safe x P) (hrun : x.run = .ok (.ok a)) : P a := by
  obtain ⟨r, hr, hP⟩ := h
  rw [hrun] at hr
  exact hP a (Except.ok.inj hr).symm

end Safe

end Nula
