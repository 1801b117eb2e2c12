import Mathlib

/-!
# `Lib.Order` — comparators for map keys, and the byte-lexicographic order

Two small toolkits that every ordered container of the development leans on.

## Contents
- **Comparators from keys.** A comparator pulled back along an injective key is lawful, and the
  lexicographic product of two lawful comparators is lawful: enough for `Std.ExtTreeMap` to be
  extensional over any key type built from integers, byte strings and products.
- **Byte strings.** `Bytes` compares lexicographically (the core order on lists). Equal-length
  prefixes compare first (`compare_append`), fixed-width big-endian integers compare as the integers
  do (`compare_beBytes`), and a prefix is recovered from its encoding (`ofBe_beBytes`).
-/

namespace Nula

open Std

/-! ## Comparators from keys -/

/-- Pulling a comparator back along an injective key keeps it lawful. -/
theorem lawfulEqCmp_compareOn {α β : Type} [Ord β] [LawfulEqOrd β] {f : α → β}
    (hf : Function.Injective f) : LawfulEqCmp (compareOn f) where
  compare_self := by
    intro a
    exact Std.compare_self
  eq_of_compare := by
    intro a b h
    exact hf (Std.compare_eq_iff_eq.mp h)

/-- The lexicographic product of two comparators is lawful when the pair of keys is injective. -/
theorem lawfulEqCmp_compareLex {α : Type} {c₁ c₂ : α → α → Ordering} [ReflCmp c₁] [ReflCmp c₂]
    (h : ∀ a b, c₁ a b = .eq → c₂ a b = .eq → a = b) : LawfulEqCmp (compareLex c₁ c₂) where
  compare_self := by
    intro a
    simp [compareLex, ReflCmp.compare_self]
  eq_of_compare := by
    intro a b hab
    rw [compareLex, Ordering.then_eq_eq] at hab
    exact h a b hab.1 hab.2

section Prod

variable {α β : Type} [Ord α] [Ord β]

/-- Tuples compare lexicographically. -/
instance instOrdProdLex : Ord (α × β) where
  compare := compareLex (compareOn Prod.fst) (compareOn Prod.snd)

instance instTransOrdProdLex [TransOrd α] [TransOrd β] : TransOrd (α × β) :=
  inferInstanceAs (TransCmp (compareLex (compareOn Prod.fst) (compareOn Prod.snd)))

instance instLawfulEqOrdProdLex [TransOrd α] [TransOrd β] [LawfulEqOrd α] [LawfulEqOrd β] :
    LawfulEqOrd (α × β) :=
  lawfulEqCmp_compareLex (fun _ _ h₁ h₂ =>
    Prod.ext (LawfulEqCmp.eq_of_compare h₁) (LawfulEqCmp.eq_of_compare h₂))

end Prod

/-! ## Byte strings -/

/-- A byte string; the core order on lists makes it compare byte-lexicographically. -/
abbrev Bytes := List UInt8

/-- Strings with equal-length prefixes compare by the prefixes first. -/
theorem compare_append {p q : Bytes} (h : p.length = q.length) (r s : Bytes) :
    compare (p ++ r) (q ++ s) = (compare p q).then (compare r s) := by
  induction p generalizing q with
  | nil =>
      obtain rfl : q = [] := List.length_eq_zero_iff.mp h.symm
      simp
  | cons x xs ih =>
      cases q with
      | nil => simp at h
      | cons y ys =>
          simp only [List.cons_append, List.compare_cons_cons]
          rw [ih (by simpa using h), Ordering.then_assoc]

/-- The `w`-byte big-endian encoding of `n`. -/
def beBytes : Nat → Nat → Bytes
  | 0,     _ => []
  | w + 1, n => beBytes w (n / 256) ++ [UInt8.ofNat (n % 256)]

/-- Read a big-endian byte string back as a number. -/
def ofBe (b : Bytes) : Nat := b.foldl (fun acc x => acc * 256 + x.toNat) 0

@[simp] theorem beBytes_length (w n : Nat) : (beBytes w n).length = w := by
  induction w generalizing n with
  | zero => rfl
  | succ w ih => simp [beBytes, ih]

theorem ofBe_append_singleton (b : Bytes) (x : UInt8) : ofBe (b ++ [x]) = ofBe b * 256 + x.toNat := by
  simp [ofBe]

/-- Reading back a big-endian encoding gives the number, as long as it fits. -/
theorem ofBe_beBytes {w n : Nat} (h : n < 256 ^ w) : ofBe (beBytes w n) = n := by
  induction w generalizing n with
  | zero =>
      have : n = 0 := by simpa using h
      simp [beBytes, ofBe, this]
  | succ w ih =>
      have hq : n / 256 < 256 ^ w := by
        rw [pow_succ] at h
        omega
      rw [beBytes, ofBe_append_singleton, ih hq]
      simp only [UInt8.toNat_ofNat']
      omega

theorem beBytes_inj {w m n : Nat} (hm : m < 256 ^ w) (hn : n < 256 ^ w)
    (h : beBytes w m = beBytes w n) : m = n := by
  rw [← ofBe_beBytes hm, h, ofBe_beBytes hn]

/-- A text of `n` bytes stands for a number below `256 ^ n`. -/
theorem ofBe_lt (b : Bytes) : ofBe b < 256 ^ b.length := by
  induction b using List.reverseRecOn with
  | nil => exact Nat.one_pos
  | append_singleton b x ih =>
      have hx := x.toNat_lt
      rw [ofBe_append_singleton, List.length_append, List.length_singleton, pow_succ]
      omega

/-- Every byte string is the encoding of the number it reads as. -/
theorem beBytes_ofBe (b : Bytes) : beBytes b.length (ofBe b) = b := by
  induction b using List.reverseRecOn with
  | nil => rfl
  | append_singleton b x ih =>
      have hx := x.toNat_lt
      have hquot : (ofBe b * 256 + x.toNat) / 256 = ofBe b := by omega
      have hrem : (ofBe b * 256 + x.toNat) % 256 = x.toNat := by omega
      rw [ofBe_append_singleton, List.length_append, List.length_singleton, beBytes, hquot, hrem, ih,
        UInt8.ofNat_toNat]

/-- Comparing quotients, then remainders, compares the numbers. -/
theorem compare_div_mod (m n : Nat) :
    (compare (m / 256) (n / 256)).then (compare (m % 256) (n % 256)) = compare m n := by
  rcases Nat.lt_trichotomy (m / 256) (n / 256) with h | h | h
  · have hmn : m < n := by omega
    simp [Nat.compare_eq_lt.mpr h, Nat.compare_eq_lt.mpr hmn]
  · simp only [h, Std.compare_self, Ordering.eq_then]
    rcases Nat.lt_trichotomy m n with hmn | rfl | hmn
    · rw [Nat.compare_eq_lt.mpr hmn, Nat.compare_eq_lt]
      omega
    · simp
    · rw [Nat.compare_eq_gt.mpr hmn, Nat.compare_eq_gt]
      omega
  · have hmn : n < m := by omega
    simp [Nat.compare_eq_gt.mpr h, Nat.compare_eq_gt.mpr hmn]

/-- Bytes compare as their numeric values do. -/
theorem compare_uint8_toNat (x y : UInt8) : compare x y = compare x.toNat y.toNat := by
  rcases Nat.lt_trichotomy x.toNat y.toNat with h | h | h
  · rw [Nat.compare_eq_lt.mpr h, Std.compare_eq_lt]
    exact UInt8.lt_iff_toNat_lt.mpr h
  · rw [UInt8.toNat_inj.mp h, Std.compare_self, Std.compare_self]
  · rw [Nat.compare_eq_gt.mpr h, Std.compare_eq_gt]
    exact UInt8.lt_iff_toNat_lt.mpr h

/-- Fixed-width big-endian encodings compare as the numbers do. -/
theorem compare_beBytes {w m n : Nat} (hm : m < 256 ^ w) (hn : n < 256 ^ w) :
    compare (beBytes w m) (beBytes w n) = compare m n := by
  induction w generalizing m n with
  | zero =>
      have h1 : m = 0 := by simpa using hm
      have h2 : n = 0 := by simpa using hn
      simp [beBytes, h1, h2]
  | succ w ih =>
      rw [pow_succ] at hm hn
      have hlast : compare [UInt8.ofNat (m % 256)] [UInt8.ofNat (n % 256)]
          = compare (m % 256) (n % 256) := by
        rw [List.compare_cons_cons]
        simp only [List.compare_nil_nil, Ordering.then_eq, compare_uint8_toNat, UInt8.toNat_ofNat']
        congr 1 <;> omega
      rw [beBytes, beBytes, compare_append (by simp), ih (by omega) (by omega), hlast,
        compare_div_mod]

end Nula
