import Mathlib

/-!
# `Lib.Spacing` — how many of a row of times fall into any interval

A row of non-decreasing times has at most `n` in every half-open interval of length `d` exactly when each time is
at least `d` after the `n`-th before it (`within_iff_spaced`). Where the row is what the first `n` of each of a row
of windows make up, and windows that are no neighbours are `d` apart anyway, only neighbours have to be looked at:
the place of a time in its window says which time of the next window is the `n`-th after it
(`spaced_iff_apart`).
-/

namespace Nula

/-- How many of the times are in the interval of length `d` from `t` on. -/
def inInterval (d t : Nat) (times : List Nat) : Nat := times.countP (fun x => decide (t ≤ x ∧ x < t + d))

/-- No interval of length `d` holds more than `n` of the times. -/
def AtMostWithin (n d : Nat) (times : List Nat) : Prop := ∀ t, inInterval d t times ≤ n

/-- Each time is at least `d` after the `n`-th before it. -/
def Spaced (n d : Nat) (times : List Nat) : Prop :=
  ∀ i x y, times[i]? = some x → times[i + n]? = some y → x + d ≤ y

/-- Of two neighbouring windows the first `n` count. What the earlier one lacks of `n` the later one has room for:
    that many places further on, the later one keeps its distance from the earlier. -/
def Apart (n d : Nat) (w w' : List Nat) : Prop :=
  ∀ i < min n w.length, ∀ x ∈ w[i]?, ∀ y ∈ w'[i + (n - w.length)]?, x + d ≤ y

instance (n d : Nat) (w w' : List Nat) : Decidable (Apart n d w w') :=
  inferInstanceAs (Decidable (∀ i < min n w.length, ∀ x ∈ w[i]?, ∀ y ∈ w'[i + (n - w.length)]?, x + d ≤ y))

/-- Windows that are no neighbours keep their distance. -/
def Skips (d : Nat) : List (List Nat) → Prop
  | w :: w' :: ws => (∀ x ∈ w, ∀ y ∈ ws.flatten, x + d ≤ y) ∧ Skips d (w' :: ws)
  | _ => True

variable {n d : Nat} {times : List Nat}

/-! ## One row -/

theorem mem_take_drop {i m : Nat} {z : Nat} (h : z ∈ (times.drop i).take m) :
    ∃ j, j < m ∧ times[i + j]? = some z := by
  obtain ⟨j, hj⟩ := List.mem_iff_getElem?.mp h
  rw [List.getElem?_take] at hj
  split at hj
  · rename_i hlt
    rw [List.getElem?_drop] at hj
    exact ⟨j, hlt, hj⟩
  · cases hj

theorem le_of_index_le (hsorted : times.Pairwise (· ≤ ·)) {i j x y : Nat} (hij : i ≤ j) (hx : times[i]? = some x)
    (hy : times[j]? = some y) : x ≤ y := by
  obtain ⟨hi, rfl⟩ := List.getElem?_eq_some_iff.mp hx
  obtain ⟨hj, rfl⟩ := List.getElem?_eq_some_iff.mp hy
  rcases Nat.eq_or_lt_of_le hij with rfl | hlt
  · exact le_rfl
  · exact List.pairwise_iff_getElem.mp hsorted i j hi hj hlt

/-- What comes from the `n`-th time on is late, if the `n`-th is. -/
theorem countP_lt_le (hsorted : times.Pairwise (· ≤ ·)) {c : Nat} (hlate : ∀ y, times[n]? = some y → c ≤ y) :
    times.countP (fun x => decide (x < c)) ≤ n := by
  have hcut : times.countP (fun x => decide (x < c)) =
      (times.take n).countP (fun x => decide (x < c)) + (times.drop n).countP (fun x => decide (x < c)) := by
    rw [← List.countP_append, List.take_append_drop]
  have hdrop : (times.drop n).countP (fun x => decide (x < c)) = 0 := by
    refine List.countP_eq_zero.mpr (fun x hx => ?_)
    obtain ⟨j, hj⟩ := List.mem_iff_getElem?.mp hx
    rw [List.getElem?_drop] at hj
    have hn : n < times.length := by
      have := (List.getElem?_eq_some_iff.mp hj).1
      omega
    have hy := hlate _ (List.getElem?_eq_getElem hn)
    have hle := le_of_index_le hsorted (Nat.le_add_right n j) (List.getElem?_eq_getElem hn) hj
    simpa using hy.trans hle
  have htake := List.countP_le_length (p := fun x => decide (x < c)) (l := times.take n)
  rw [List.length_take] at htake
  omega

/-- **At most `n` in any interval, exactly when the `n`-th after each is out of reach.** One way, the row from a time
    to the `n`-th after it would be in one interval; the other way, of what is not before the interval the `n`-th
    comes too late. -/
theorem within_iff_spaced (hsorted : times.Pairwise (· ≤ ·)) : AtMostWithin n d times ↔ Spaced n d times := by
  constructor
  · intro h i x y hx hy
    by_contra hlt
    -- The times from the `i`-th to the `i + n`-th are in the interval that begins with the former.
    have hall : ((times.drop i).take (n + 1)).countP (fun z => decide (x ≤ z ∧ z < x + d)) = n + 1 := by
      have hlength : ((times.drop i).take (n + 1)).length = n + 1 := by
        have := (List.getElem?_eq_some_iff.mp hy).1
        rw [List.length_take, List.length_drop]
        omega
      refine (List.countP_eq_length.mpr (fun z hz => ?_)).trans hlength
      obtain ⟨j, hj, hz⟩ := mem_take_drop hz
      have hlow := le_of_index_le hsorted (Nat.le_add_right i j) hx hz
      have hhigh := le_of_index_le hsorted (by omega : i + j ≤ i + n) hz hy
      simp only [decide_eq_true_eq]
      omega
    have hsub := ((List.take_sublist (n + 1) (times.drop i)).trans (List.drop_sublist i times)).countP_le
      (p := fun z => decide (x ≤ z ∧ z < x + d))
    have hmost : times.countP (fun z => decide (x ≤ z ∧ z < x + d)) ≤ n := h x
    omega
  · intro h t
    -- Nothing before the first time that is not before `t` counts, and from there on the `n`-th is too late.
    have hsplit : times.takeWhile (fun x => decide (x < t)) ++ times.dropWhile (fun x => decide (x < t)) = times :=
      List.takeWhile_append_dropWhile
    generalize hearly : times.takeWhile (fun x => decide (x < t)) = early at hsplit
    generalize hlater : times.dropWhile (fun x => decide (x < t)) = later at hsplit
    have hbefore : ∀ x ∈ early, x < t := by
      intro x hx
      rw [← hearly] at hx
      simpa using List.mem_takeWhile_imp hx
    have hcount : inInterval d t times ≤ later.countP (fun x => decide (x < t + d)) := by
      have hnone : early.countP (fun x => decide (t ≤ x ∧ x < t + d)) = 0 := by
        refine List.countP_eq_zero.mpr (fun x hx => ?_)
        have := hbefore x hx
        simp
        omega
      rw [inInterval, ← hsplit, List.countP_append, hnone, Nat.zero_add]
      exact List.countP_mono_left (fun x _ hx => by simp at hx ⊢; omega)
    have hrest : later.Pairwise (· ≤ ·) := by
      rw [← hsplit] at hsorted
      exact (List.pairwise_append.mp hsorted).2.1
    refine hcount.trans (countP_lt_le hrest (fun y hy => ?_))
    cases later with
    | nil => cases hy
    | cons x later =>
        have hfirst : t ≤ x := by
          have := List.head_dropWhile_not (p := fun x => decide (x < t)) (l := times) (by rw [hlater]; simp)
          simpa [hlater] using this
        have hx : times[early.length]? = some x := by
          rw [← hsplit, List.getElem?_append_right le_rfl, Nat.sub_self]
          rfl
        have hxy := h early.length x y hx (by
          rw [← hsplit, List.getElem?_append_right (Nat.le_add_right _ _), Nat.add_sub_cancel_left]
          exact hy)
        omega

/-! ## Windows -/

/-- The `n`-th after one of a short row is in what follows it. -/
theorem spaced_append {row rest : List Nat} (hshort : row.length ≤ n) :
    Spaced n d (row ++ rest) ↔
      (∀ i x y, row[i]? = some x → rest[i + (n - row.length)]? = some y → x + d ≤ y) ∧ Spaced n d rest := by
  have hacross : ∀ i, (row ++ rest)[i + n]? = rest[i + (n - row.length)]? := by
    intro i
    rw [List.getElem?_append_right (by omega)]
    congr 1
    omega
  constructor
  · intro h
    constructor
    · intro i x y hx hy
      have hi := (List.getElem?_eq_some_iff.mp hx).1
      exact h i x y ((List.getElem?_append_left hi).trans hx) ((hacross i).trans hy)
    · intro i x y hx hy
      refine h (row.length + i) x y ?_ ?_
      · rw [List.getElem?_append_right (by omega), Nat.add_sub_cancel_left]
        exact hx
      · rw [List.getElem?_append_right (by omega), Nat.add_assoc, Nat.add_sub_cancel_left]
        exact hy
  · rintro ⟨hcross, hrest⟩ i x y hx hy
    by_cases hi : i < row.length
    · rw [List.getElem?_append_left hi] at hx
      rw [hacross] at hy
      exact hcross i x y hx hy
    · rw [List.getElem?_append_right (by omega)] at hx hy
      refine hrest (i - row.length) x y hx ?_
      rw [show i - row.length + n = i + n - row.length by omega]
      exact hy

/-- Across one border: what is not in the next window is far away, and what is has its place there. The one that comes
    `n` later is in the next window if that is long enough, and behind it otherwise. -/
theorem across_iff_apart {w w' : List Nat} {ws : List (List Nat)}
    (hfar : ∀ x ∈ w, ∀ y ∈ ws.flatten, x + d ≤ y) :
    (∀ i x y, (w.take n)[i]? = some x →
        (w'.take n ++ (ws.map (List.take n)).flatten)[i + (n - (w.take n).length)]? = some y → x + d ≤ y) ↔
      Apart n d w w' := by
  have hlacks : n - (w.take n).length = n - w.length := by
    rw [List.length_take]
    omega
  rw [hlacks]
  constructor
  · intro h i hi x hx y hy
    refine h i x y ?_ ?_
    · rw [List.getElem?_take_of_lt (by omega)]
      exact hx
    · have hnext : (w'.take n)[i + (n - w.length)]? = some y := by
        rw [List.getElem?_take_of_lt (by omega)]
        exact hy
      rw [List.getElem?_append_left (List.getElem?_eq_some_iff.mp hnext).1]
      exact hnext
  · intro h i x y hx hy
    have hi : i < min n w.length := by
      have := (List.getElem?_eq_some_iff.mp hx).1
      rwa [List.length_take] at this
    rw [List.getElem?_take_of_lt (by omega)] at hx
    by_cases hnext : i + (n - w.length) < (w'.take n).length
    · rw [List.getElem?_append_left hnext, List.getElem?_take_of_lt (by omega)] at hy
      exact h i hi x hx y hy
    · rw [List.getElem?_append_right (by omega)] at hy
      refine hfar x (List.mem_of_getElem? hx) y ?_
      obtain ⟨cut, hcut, hmem⟩ := List.mem_flatten.mp (List.mem_of_getElem? hy)
      obtain ⟨later, hlater, rfl⟩ := List.mem_map.mp hcut
      exact List.mem_flatten.mpr ⟨later, hlater, List.mem_of_mem_take hmem⟩

/-- Border by border: the first `n` of each window keep their distance when neighbours do. -/
theorem spaced_iff_apart {ws : List (List Nat)} (hskips : Skips d ws) :
    Spaced n d (ws.map (List.take n)).flatten ↔ ws.IsChain (Apart n d) := by
  induction ws with
  | nil =>
      refine iff_of_true (fun i x y hx _ => ?_) List.IsChain.nil
      cases hx
  | cons w ws ih =>
      rw [List.map_cons, List.flatten_cons, spaced_append (by rw [List.length_take]; omega)]
      cases ws with
      | nil =>
          refine iff_of_true ⟨fun i x y _ hy => ?_, fun i x y hx _ => ?_⟩ (List.IsChain.singleton w)
          · cases hy
          · cases hx
      | cons w' ws =>
          rw [ih hskips.2, List.isChain_cons_cons, List.map_cons, List.flatten_cons, across_iff_apart hskips.1]

/-- Times put before the first window have the windows after the next to keep away from. -/
theorem Skips.modifyHead {ws : List (List Nat)} (hskips : Skips d ws) {more : List Nat}
    (hfar : ∀ x ∈ more, ∀ y ∈ ws.tail.tail.flatten, x + d ≤ y) : Skips d (ws.modifyHead (more ++ ·)) := by
  match ws with
  | [] => exact True.intro
  | [_] => exact True.intro
  | w :: w' :: ws =>
      refine ⟨fun x hx y hy => ?_, hskips.2⟩
      rcases List.mem_append.mp hx with hx | hx
      · exact hfar x hx y hy
      · exact hskips.1 x hx y hy

end Nula
