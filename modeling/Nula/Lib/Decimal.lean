import Mathlib

/-!
# `Lib.Decimal` — numbers written in digits, and the digits a number is printed with

A reader of digits takes more texts than a printer writes: leading zeros change no value. A text is `Plain` when
it has neither sign nor leading zero; among the texts of digits, those are what a number is printed with.
-/

namespace Nula.Decimal

/-- The number that a text of digits stands for. -/
def value (ds : List Char) : Nat := ds.foldl (fun acc c => acc * 10 + (c.toNat - 48)) 0

/-- Neither a sign nor a zero before another character. -/
def Plain (cs : List Char) : Prop := cs.head? ≠ some '+' ∧ (cs.head? = some '0' → cs = ['0'])

instance (cs : List Char) : Decidable (Plain cs) := inferInstanceAs (Decidable (_ ∧ (_ → _)))

theorem value_eq (ds : List Char) : value ds = Nat.ofDigitChars 10 ds 0 := by
  simp only [value, Nat.ofDigitChars_eq_foldl, Nat.mul_comm 10]
  rfl

@[simp] theorem value_toDigits (n : Nat) : value (Nat.toDigits 10 n) = n := by
  rw [value_eq, Nat.ofDigitChars_ten_toDigits]

/-! ## Digits -/

theorem bounds_of_isDigit {c : Char} (h : c.isDigit = true) : 48 ≤ c.toNat ∧ c.toNat ≤ 57 := by
  simpa [Char.isDigit, UInt32.le_iff_toNat_le] using h

theorem digitChar_digit {c : Char} (h : c.isDigit = true) : Nat.digitChar (c.toNat - 48) = c := by
  obtain ⟨hlow, hhigh⟩ := bounds_of_isDigit h
  have hall : ∀ d < 10, Nat.digitChar d = Char.ofNat (d + 48) := by decide
  rw [hall _ (by omega), Nat.sub_add_cancel hlow, Char.ofNat_toNat]

/-- A digit other than zero has a positive value. -/
theorem digit_pos {c : Char} (h : c.isDigit = true) (hne : c ≠ '0') : 0 < c.toNat - 48 := by
  obtain ⟨hlow, -⟩ := bounds_of_isDigit h
  have hzero : c.toNat ≠ 48 := fun heq => hne (Char.toNat_inj.mp heq)
  omega

theorem isDigit_toDigits {n : Nat} : ∀ c ∈ Nat.toDigits 10 n, c.isDigit = true := fun _ hc =>
  Nat.isDigit_of_mem_toDigits (by decide) (by decide) hc

/-! ## Printing what was read -/

/-- Digits behind a positive number that has been read are printed behind it. -/
theorem toDigits_append {ds : List Char} (hds : ∀ c ∈ ds, c.isDigit = true) {n : Nat} (hn : 0 < n) :
    Nat.toDigits 10 (Nat.ofDigitChars 10 ds n) = Nat.toDigits 10 n ++ ds := by
  induction ds generalizing n with
  | nil => rw [Nat.ofDigitChars_nil, List.append_nil]
  | cons c ds ih =>
      have hc := hds c List.mem_cons_self
      have hdigit : c.toNat - 48 < 10 := by
        have := bounds_of_isDigit hc
        omega
      have hstep : Nat.toDigits 10 (10 * n + (c.toNat - 48)) = Nat.toDigits 10 n ++ [c] := by
        rw [← Nat.toDigits_append_toDigits (by decide) hn hdigit, Nat.toDigits_of_lt_base hdigit,
          digitChar_digit hc]
      rw [Nat.ofDigitChars_cons, show c.toNat - '0'.toNat = c.toNat - 48 from rfl,
        ih (fun d hd => hds d (List.mem_cons_of_mem c hd)) (by omega), hstep, List.append_assoc,
        List.singleton_append]

/-- The digits of a plain text are printed again as they stand. -/
theorem toDigits_value {ds : List Char} (hds : ∀ c ∈ ds, c.isDigit = true) (hne : ds ≠ []) (hplain : Plain ds) :
    Nat.toDigits 10 (value ds) = ds := by
  cases ds with
  | nil => exact absurd rfl hne
  | cons c ds =>
      by_cases hzero : c = '0'
      · have hds : c :: ds = ['0'] := hplain.2 (by rw [List.head?_cons, hzero])
        rw [hds]
        rfl
      · have hc := hds c List.mem_cons_self
        have hbounds := bounds_of_isDigit hc
        have hrest : ∀ d ∈ ds, d.isDigit = true := fun d hd => hds d (List.mem_cons_of_mem c hd)
        rw [value_eq, Nat.ofDigitChars_cons, Nat.mul_zero, Nat.zero_add,
          show c.toNat - '0'.toNat = c.toNat - 48 from rfl, toDigits_append hrest (digit_pos hc hzero),
          Nat.toDigits_of_lt_base (by omega), digitChar_digit hc, List.singleton_append]

/-- A number is printed without a sign and without a leading zero. -/
theorem plain_toDigits (n : Nat) : Plain (Nat.toDigits 10 n) := by
  refine ⟨fun hsign => ?_, fun hzero => ?_⟩
  · have hdigit := isDigit_toDigits _ (List.mem_of_mem_head? hsign)
    exact absurd hdigit (by decide)
  · induction n using Nat.base_induction 10 (by decide) with
    | single m hm =>
        rw [Nat.toDigits_of_lt_base hm] at hzero ⊢
        rw [Option.some.inj hzero]
    | digit m k hk hm ih =>
        rw [← Nat.toDigits_append_toDigits (by decide) hm hk, List.head?_append_of_ne_nil _ Nat.toDigits_ne_nil]
          at hzero
        have hm' := congrArg value (ih hzero)
        rw [value_toDigits] at hm'
        exact absurd hm' (by rw [show value ['0'] = 0 from rfl]; omega)

/-- Of the texts of digits, the plain ones are printed as they were read. -/
theorem toDigits_value_iff {ds : List Char} (hds : ∀ c ∈ ds, c.isDigit = true) (hne : ds ≠ []) :
    Nat.toDigits 10 (value ds) = ds ↔ Plain ds := by
  refine ⟨fun heq => ?_, toDigits_value hds hne⟩
  rw [← heq]
  exact plain_toDigits _

end Nula.Decimal
