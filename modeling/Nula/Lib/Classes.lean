import Mathlib

/-!
# `Lib.Classes` — the best element of each class

A list falls into classes under a key, and its elements have sizes. `BestAt key size l i a`: the element `a` at `i` is
the earliest among the largest of its class. `Represents key size l r`: the list `r` holds the best of every class, in
the order in which the classes first occur. There is only one such list (`Represents.unique`), and it represents
itself (`Represents.self`). `represents_slots` reads one off a row of slots, one for each place of the list, of which
those where a class first occurs are filled.
-/

namespace Nula.Classes

variable {α κ : Type} {key : α → κ} {size : α → Nat} {l r : List α}

/-! ## The best of a class -/

variable (key size) in
/-- At `i` stands `a`, larger than all of its class before it and at least as large as all behind. -/
structure BestAt (l : List α) (i : Nat) (a : α) : Prop where
  here : l[i]? = some a
  before : ∀ j < i, ∀ b, l[j]? = some b → key b = key a → size b < size a
  behind : ∀ j, i < j → ∀ b, l[j]? = some b → key b = key a → size b ≤ size a

/-- A class has one best. -/
theorem BestAt.unique {i j : Nat} {a b : α} (ha : BestAt key size l i a) (hb : BestAt key size l j b)
    (h : key a = key b) : a = b := by
  rcases Nat.lt_trichotomy i j with hij | rfl | hji
  · exact absurd (ha.behind j hij b hb.here h.symm) (Nat.not_le.mpr (hb.before i hij a ha.here h))
  · exact Option.some.inj (ha.here.symm.trans hb.here)
  · exact absurd (hb.behind i hji a ha.here h) (Nat.not_le.mpr (ha.before j hji b hb.here h.symm))

/-- An element that comes behind beats the best of its class, or leaves it. Every place of the longer list is one of
    the old ones or the new one. -/
theorem BestAt.append [DecidableEq κ] {i : Nat} {a x : α} (h : BestAt key size l i a) :
    if key x = key a ∧ size a < size x then BestAt key size (l ++ [x]) l.length x
    else BestAt key size (l ++ [x]) i a := by
  have hi : i < l.length := (List.getElem?_eq_some_iff.mp h.here).1
  have hold : ∀ j b, (l ++ [x])[j]? = some b → l[j]? = some b ∨ j = l.length ∧ b = x := by
    intro j b hj
    rcases Nat.lt_or_ge j l.length with hlt | hge
    · exact Or.inl (List.getElem?_append_left hlt ▸ hj)
    · rw [List.getElem?_append_right hge, List.getElem?_singleton] at hj
      split at hj
      · exact Or.inr ⟨by omega, (Option.some.inj hj).symm⟩
      · cases hj
  split
  · rename_i hbeats
    refine ⟨List.getElem?_concat_length, fun j hj b hb hkey => ?_, fun j hj b hb _ => ?_⟩
    · rcases hold j b hb with hb | ⟨rfl, rfl⟩
      · refine Nat.lt_of_le_of_lt ?_ hbeats.2
        have hclass := hkey.trans hbeats.1
        rcases Nat.lt_trichotomy j i with hji | rfl | hij
        · exact Nat.le_of_lt (h.before j hji b hb hclass)
        · rw [Option.some.inj (hb.symm.trans h.here)]
        · exact h.behind j hij b hb hclass
      · exact absurd hj (Nat.lt_irrefl _)
    · have := (List.getElem?_eq_some_iff.mp hb).1
      rw [List.length_append, List.length_singleton] at this
      omega
  · rename_i hkept
    refine ⟨(List.getElem?_append_left hi).trans h.here, fun j hj b hb hkey => ?_, fun j hj b hb hkey => ?_⟩
    · exact h.before j hj b (List.getElem?_append_left (hj.trans hi) ▸ hb) hkey
    · rcases hold j b hb with hb | ⟨rfl, rfl⟩
      · exact h.behind j hj b hb hkey
      · exact Nat.not_lt.mp (fun hlt => hkept ⟨hkey, hlt⟩)

/-- The first of its class is its best so far. -/
theorem bestAt_new {x : α} (h : key x ∉ l.map key) : BestAt key size (l ++ [x]) l.length x where
  here := List.getElem?_concat_length
  before := by
    intro j hj b hb hkey
    rw [List.getElem?_append_left hj] at hb
    exact absurd (hkey ▸ List.mem_map_of_mem (List.mem_of_getElem? hb)) h
  behind := by
    intro j hj b hb _
    have := (List.getElem?_eq_some_iff.mp hb).1
    rw [List.length_append, List.length_singleton] at this
    omega

/-! ## The best of every class -/

variable [BEq κ] [LawfulBEq κ]

variable (key size) in
/-- One element for each key, in the order in which the keys come up, and each the best of its class. -/
structure Represents (l r : List α) : Prop where
  keys : r.map key = (l.map key).eraseDups
  best : ∀ a ∈ r, ∃ i, BestAt key size l i a

omit [LawfulBEq κ] in
theorem Represents.unique {r' : List α} (h : Represents key size l r) (h' : Represents key size l r') : r = r' := by
  have heq : r.map key = r'.map key := h.keys.trans h'.keys.symm
  have hbest := h.best
  have hbest' := h'.best
  clear h h'
  induction r generalizing r' with
  | nil => exact (List.map_eq_nil_iff.mp heq.symm).symm
  | cons a r ih =>
      cases r' with
      | nil => cases heq
      | cons a' r' =>
          obtain ⟨hkey, hrest⟩ := List.cons.inj heq
          obtain ⟨i, ha⟩ := hbest a List.mem_cons_self
          obtain ⟨j, ha'⟩ := hbest' a' List.mem_cons_self
          rw [ha.unique ha' hkey, ih hrest (fun b hb => hbest b (List.mem_cons_of_mem a hb))
            (fun b hb => hbest' b (List.mem_cons_of_mem a' hb))]

theorem eraseDups_append_singleton (ks : List κ) (k : κ) :
    (ks ++ [k]).eraseDups = if k ∈ ks then ks.eraseDups else ks.eraseDups ++ [k] := by
  rw [List.eraseDups_append]
  split
  · rename_i hk
    have hnone : [k].removeAll ks = [] := by simp [List.removeAll, hk]
    rw [hnone]
    simp
  · rename_i hk
    have hall : [k].removeAll ks = [k] := by simp [List.removeAll, hk]
    rw [hall, List.eraseDups_cons]
    rfl

theorem nodup_eraseDups (ks : List κ) : ks.eraseDups.Nodup ∧ ∀ k, k ∈ ks.eraseDups ↔ k ∈ ks := by
  induction ks using List.reverseRecOn with
  | nil => simp
  | append_singleton ks k ih =>
      rw [eraseDups_append_singleton]
      split
      · rename_i hk
        refine ⟨ih.1, fun k' => (ih.2 k').trans ?_⟩
        simp only [List.mem_append, List.mem_singleton]
        exact ⟨Or.inl, fun h => h.elim id (fun h => h ▸ hk)⟩
      · rename_i hk
        refine ⟨?_, fun k' => by simp only [List.mem_append, ih.2 k', List.mem_singleton]⟩
        exact List.nodup_append.mpr ⟨ih.1, List.nodup_singleton k, fun a ha b hb => by
          rw [List.mem_singleton.mp hb]
          exact fun heq => hk ((ih.2 k).mp (heq ▸ ha))⟩

theorem eraseDups_of_nodup {ks : List κ} (h : ks.Nodup) : ks.eraseDups = ks := by
  induction ks using List.reverseRecOn with
  | nil => rfl
  | append_singleton ks k ih =>
      obtain ⟨hks, -, hfresh⟩ := List.nodup_append.mp h
      rw [eraseDups_append_singleton, if_neg (fun hk => hfresh k hk k (List.mem_singleton_self k) rfl), ih hks]

/-- A list of representatives represents itself. -/
theorem Represents.self (h : Represents key size l r) : Represents key size r r := by
  have hnodup : (r.map key).Nodup := h.keys ▸ (nodup_eraseDups _).1
  refine ⟨(eraseDups_of_nodup hnodup).symm, fun a ha => ?_⟩
  obtain ⟨i, hi⟩ := List.mem_iff_getElem?.mp ha
  have hsame : ∀ j b, r[j]? = some b → key b = key a → j = i := by
    intro j b hj hkey
    have hjk : (r.map key)[j]? = some (key a) := by rw [List.getElem?_map, hj, Option.map_some, hkey]
    have hik : (r.map key)[i]? = some (key a) := by rw [List.getElem?_map, hi, Option.map_some]
    obtain ⟨hjlt, hjget⟩ := List.getElem?_eq_some_iff.mp hjk
    obtain ⟨hilt, higet⟩ := List.getElem?_eq_some_iff.mp hik
    exact (List.Nodup.getElem_inj_iff hnodup).mp (hjget.trans higet.symm)
  refine ⟨i, hi, fun j hj b hb hkey => ?_, fun j hj b hb hkey => ?_⟩
  · exact absurd (hsame j b hb hkey) (Nat.ne_of_lt hj)
  · exact absurd (hsame j b hb hkey) (Nat.ne_of_gt hj)

/-! ## Slots -/

/-- The slot of a place holds the best of the class that first occurs there, and nothing anywhere else. By induction
    on how many slots are looked at: a slot is full exactly where a class occurs first. -/
theorem represents_slots {slots : List (Option α)} (hlength : slots.length = l.length)
    (hfirst : ∀ i a, l[i]? = some a → key a ∉ (l.take i).map key →
      ∃ b j, slots[i]? = some (some b) ∧ key b = key a ∧ BestAt key size l j b)
    (hlater : ∀ i a, l[i]? = some a → key a ∈ (l.take i).map key → slots[i]? = some none) :
    Represents key size l slots.reduceOption := by
  have hprefix : ∀ n ≤ l.length, (slots.take n).reduceOption.map key = ((l.take n).map key).eraseDups ∧
      ∀ a ∈ (slots.take n).reduceOption, ∃ i, BestAt key size l i a := by
    intro n
    induction n with
    | zero => exact fun _ => ⟨rfl, nofun⟩
    | succ n ih =>
        intro hn
        obtain ⟨hkeys, hbest⟩ := ih (Nat.le_of_succ_le hn)
        have hl : l[n]? = some l[n] := List.getElem?_eq_getElem hn
        rw [List.take_add_one, List.take_add_one, hl, Option.toList_some, List.map_append, List.map_singleton,
          eraseDups_append_singleton, List.reduceOption_append, List.map_append, hkeys]
        by_cases hseen : key l[n] ∈ (l.take n).map key
        · rw [if_pos hseen, hlater n _ hl hseen]
          exact ⟨List.append_nil _, by simpa using hbest⟩
        · obtain ⟨b, j, hslot, hkey, hb⟩ := hfirst n _ hl hseen
          rw [if_neg hseen, hslot]
          refine ⟨?_, fun a ha => ?_⟩
          · rw [← hkey]
            rfl
          · rcases List.mem_append.mp ha with ha | ha
            · exact hbest a ha
            · rw [List.mem_singleton.mp ha]
              exact ⟨j, hb⟩
  have hall := hprefix l.length le_rfl
  rw [List.take_length, ← hlength, List.take_length] at hall
  exact ⟨hall.1, hall.2⟩

end Nula.Classes
