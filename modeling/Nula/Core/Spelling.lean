import Nula.Core.Event
import Nula.Lib.Decimal

/-!
# `Core.Spelling` — texts taken apart, integers read from them and printed again

`str::parse` takes a sign and leading zeros, which `Display` never writes: a text that has been read comes back
as it was exactly when it is plain.
-/

namespace Nula

/-! ## Pieces -/

theorem splitOn_eq (sep : Char) (cs : List Char) : splitOn sep cs = cs.splitOn sep := by
  induction cs with
  | nil => rfl
  | cons c cs ih =>
      rw [splitOn, List.splitOn_cons_eq_if_modifyHead, ih]
      by_cases hc : c = sep
      · simp [hc]
      · rw [if_neg hc, if_neg (by simpa using hc)]
        cases hsplit : cs.splitOn sep with
        | nil => exact absurd hsplit (List.splitOn_ne_nil sep cs)
        | cons piece pieces => rfl

theorem splitOn_ne_nil (sep : Char) (cs : List Char) : splitOn sep cs ≠ [] := by
  rw [splitOn_eq]
  exact List.splitOn_ne_nil sep cs

theorem notMem_of_mem_splitOn {sep : Char} {cs piece : List Char} (h : piece ∈ splitOn sep cs) : sep ∉ piece := by
  induction cs generalizing piece with
  | nil =>
      rw [List.mem_singleton.mp h]
      exact List.not_mem_nil
  | cons c cs ih =>
      rw [splitOn] at h
      by_cases hc : c = sep
      · rw [if_pos hc] at h
        rcases List.mem_cons.mp h with rfl | hrest
        · exact List.not_mem_nil
        · exact ih hrest
      · rw [if_neg hc] at h
        cases hsplit : splitOn sep cs with
        | nil => exact absurd hsplit (splitOn_ne_nil sep cs)
        | cons first pieces =>
            rw [hsplit] at h ih
            rcases List.mem_cons.mp h with rfl | hrest
            · rw [List.mem_cons, not_or]
              exact ⟨fun heq => hc heq.symm, ih List.mem_cons_self⟩
            · exact ih (List.mem_cons_of_mem first hrest)

/-- `str::split`. -/
def pieces (sep : Char) (s : String) : List String := (splitOn sep s.toList).map String.ofList

theorem pieces_ne_nil (sep : Char) (s : String) : pieces sep s ≠ [] := fun hnil =>
  splitOn_ne_nil sep s.toList (List.map_eq_nil_iff.mp hnil)

theorem notMem_of_mem_pieces {sep : Char} {s piece : String} (h : piece ∈ pieces sep s) : sep ∉ piece.toList := by
  obtain ⟨cs, hcs, rfl⟩ := List.mem_map.mp h
  rw [String.toList_ofList]
  exact notMem_of_mem_splitOn hcs

/-- The pieces with the separator between them are the text. -/
theorem intercalate_pieces (sep : Char) (s : String) : (String.singleton sep).intercalate (pieces sep s) = s := by
  have hid : (String.toList ∘ String.ofList) = id := funext (fun _ => String.toList_ofList)
  rw [← String.toList_inj, String.toList_intercalate, String.toList_singleton, pieces, List.map_map, splitOn_eq, hid,
    List.map_id]
  exact List.intercalate_splitOn sep

/-- **Texts without the separator come back** when they are joined by it, if there is at least one. -/
theorem pieces_intercalate {sep : Char} {texts : List String} (h : ∀ text ∈ texts, sep ∉ text.toList)
    (hne : texts ≠ []) : pieces sep ((String.singleton sep).intercalate texts) = texts := by
  have hid : (String.ofList ∘ String.toList) = id := funext (fun _ => String.ofList_toList)
  have hsplit : ([sep].intercalate (texts.map String.toList)).splitOn sep = texts.map String.toList := by
    refine List.splitOn_intercalate sep ?_ (by simpa using hne)
    rintro piece hpiece
    obtain ⟨text, htext, rfl⟩ := List.mem_map.mp hpiece
    exact h text htext
  rw [pieces, splitOn_eq, String.toList_intercalate, String.toList_singleton, hsplit, List.map_map, hid, List.map_id]

/-- Pieces that are not empty are told by the text they join to. -/
theorem intercalate_inj {sep : Char} {texts texts' : List String} (h : ∀ text ∈ texts, sep ∉ text.toList ∧ text ≠ "")
    (h' : ∀ text ∈ texts', sep ∉ text.toList ∧ text ≠ "") :
    (String.singleton sep).intercalate texts = (String.singleton sep).intercalate texts' ↔ texts = texts' := by
  have hempty : ∀ {l : List String}, (∀ text ∈ l, sep ∉ text.toList ∧ text ≠ "") →
      (String.singleton sep).intercalate l = "" → l = [] := by
    intro l hl hjoin
    cases l with
    | nil => rfl
    | cons first rest =>
        have hpieces := pieces_intercalate (fun text ht => (hl text ht).1) (List.cons_ne_nil first rest)
        rw [hjoin] at hpieces
        exact absurd (List.cons.inj hpieces).1.symm (hl first List.mem_cons_self).2
  constructor
  · intro heq
    by_cases hnil : texts = []
    · subst hnil
      exact (hempty h' heq.symm).symm
    · have hnil' : texts' ≠ [] := by
        rintro rfl
        exact hnil (hempty h heq)
      rw [← pieces_intercalate (fun text ht => (h text ht).1) hnil, heq,
        pieces_intercalate (fun text ht => (h' text ht).1) hnil']
  · rintro rfl
    rfl

/-- Pieces that are rewritten one by one join to the old text exactly when each stays what it was. -/
theorem rejoin_iff {sep : Char} {s : String} {f : String → String}
    (hf : ∀ piece ∈ pieces sep s, sep ∉ (f piece).toList) :
    (String.singleton sep).intercalate ((pieces sep s).map f) = s ↔ ∀ piece ∈ pieces sep s, f piece = piece := by
  constructor
  · intro hjoin
    have hwritten : ∀ text ∈ (pieces sep s).map f, sep ∉ text.toList := by
      rintro text htext
      obtain ⟨piece, hpiece, rfl⟩ := List.mem_map.mp htext
      exact hf piece hpiece
    have hpieces := pieces_intercalate hwritten (by simpa using pieces_ne_nil sep s)
    rw [hjoin] at hpieces
    conv_lhs at hpieces => rw [← List.map_id (pieces sep s)]
    exact fun piece hpiece => (List.map_inj_left.mp hpieces piece hpiece).symm
  · intro hsame
    conv_rhs => rw [← intercalate_pieces sep s, ← List.map_id (pieces sep s)]
    exact congrArg _ (List.map_congr_left hsame)

theorem splitOnce_append {sep : Char} {l : List Char} (h : sep ∉ l) (r : List Char) :
    splitOnce sep (l ++ sep :: r) = some (l, r) := by
  induction l with
  | nil => exact if_pos rfl
  | cons c l ih =>
      have hc : c ≠ sep := fun heq => h (heq ▸ List.mem_cons_self)
      rw [List.cons_append, splitOnce, if_neg hc, ih (fun hmem => h (List.mem_cons_of_mem c hmem)), Option.map_some]

/-- What was split is the two parts with the separator between them. -/
theorem splitOnce_eq_some {sep : Char} {cs l r : List Char} (h : splitOnce sep cs = some (l, r)) :
    cs = l ++ sep :: r := by
  induction cs generalizing l with
  | nil => cases h
  | cons c cs ih =>
      rw [splitOnce] at h
      split at h
      · rename_i hc
        obtain ⟨rfl, rfl⟩ := Prod.mk.inj (Option.some.inj h)
        rw [hc, List.nil_append]
      · obtain ⟨⟨l', r'⟩, hrest, heq⟩ := Option.map_eq_some_iff.mp h
        obtain ⟨rfl, rfl⟩ := Prod.mk.inj heq
        rw [ih hrest, List.cons_append]

/-! ## Digits -/

/-- The digits of a text, behind its sign if it has one. -/
theorem parseUnsigned_eq_some {max n : Nat} {s : String} (h : parseUnsigned max s = some n) :
    ∃ digits, (s.toList = digits ∨ s.toList = '+' :: digits) ∧ digits ≠ [] ∧ (∀ c ∈ digits, c.isDigit = true) ∧
      Decimal.value digits = n ∧ n ≤ max := by
  have hread : ∀ digits : List Char,
      (if digits ≠ [] ∧ digits.all Char.isDigit then
        if Decimal.value digits ≤ max then some (Decimal.value digits) else none
      else none) = some n →
      digits ≠ [] ∧ (∀ c ∈ digits, c.isDigit = true) ∧ Decimal.value digits = n ∧ n ≤ max := by
    intro digits hdigits
    split at hdigits
    · rename_i hall
      split at hdigits
      · rename_i hle
        obtain rfl := Option.some.inj hdigits
        exact ⟨hall.1, List.all_eq_true.mp hall.2, rfl, hle⟩
      · cases hdigits
    · cases hdigits
  unfold parseUnsigned at h
  split at h
  · rename_i rest hsign
    exact ⟨rest, Or.inr hsign, hread rest h⟩
  · exact ⟨s.toList, Or.inl rfl, hread s.toList h⟩

theorem parseUnsigned_toString {max n : Nat} (h : n ≤ max) : parseUnsigned max (toString n) = some n := by
  have hlist : (toString n).toList = Nat.toDigits 10 n := Nat.toList_repr
  have hdigits : (Nat.toDigits 10 n).all Char.isDigit = true := List.all_eq_true.mpr Decimal.isDigit_toDigits
  unfold parseUnsigned
  rw [hlist]
  split
  · rename_i rest hsign
    exact absurd (by rw [hsign]; rfl) (Decimal.plain_toDigits n).1
  · have hvalue : (Nat.toDigits 10 n).foldl (fun acc c => acc * 10 + (c.toNat - 48)) 0 = n := Decimal.value_toDigits n
    rw [if_pos ⟨Nat.toDigits_ne_nil, hdigits⟩, hvalue, if_pos h]

/-- What has been read is printed as it was read, if it was plain, and never otherwise. -/
theorem toString_parseUnsigned {max n : Nat} {s : String} (h : parseUnsigned max s = some n) :
    toString n = s ↔ Decimal.Plain s.toList := by
  have hlist : (toString n).toList = Nat.toDigits 10 n := Nat.toList_repr
  obtain ⟨digits, hs, hne, hdigits, rfl, -⟩ := parseUnsigned_eq_some h
  rw [← String.toList_inj, hlist]
  rcases hs with hs | hs
  · rw [hs]
    exact Decimal.toDigits_value_iff hdigits hne
  · constructor
    · intro heq
      rw [← heq]
      exact Decimal.plain_toDigits _
    · intro hplain
      exact absurd (by rw [hs]; rfl) hplain.1

/-! ## The widths -/

/-- A number of 16 bits comes back from its text. -/
theorem parseU16_toString (n : UInt16) : parseU16 (toString n.toNat) = some n := by
  have hle : n.toNat ≤ 2 ^ 16 - 1 := Nat.le_pred_of_lt n.toNat_lt
  rw [parseU16, parseUnsigned_toString hle, Option.map_some, UInt16.ofNat_toNat]

/-- **Which texts are kept**: those that have neither a sign nor a zero in front. -/
theorem toString_parseU16 {s : String} {n : UInt16} (h : parseU16 s = some n) :
    toString n.toNat = s ↔ Decimal.Plain s.toList := by
  obtain ⟨m, hm, rfl⟩ := Option.map_eq_some_iff.mp h
  obtain ⟨-, -, -, -, -, hle⟩ := parseUnsigned_eq_some hm
  rw [UInt16.toNat_ofNat_of_lt' (Nat.lt_of_le_pred (by decide) hle)]
  exact toString_parseUnsigned hm

/-- A number of 64 bits comes back from its text. -/
theorem parseU64_toString (n : UInt64) : parseU64 (toString n.toNat) = some n := by
  have hle : n.toNat ≤ 2 ^ 64 - 1 := Nat.le_pred_of_lt n.toNat_lt
  rw [parseU64, parseUnsigned_toString hle, Option.map_some, UInt64.ofNat_toNat]

theorem toString_parseU64 {s : String} {n : UInt64} (h : parseU64 s = some n) :
    toString n.toNat = s ↔ Decimal.Plain s.toList := by
  obtain ⟨m, hm, rfl⟩ := Option.map_eq_some_iff.mp h
  obtain ⟨-, -, -, -, -, hle⟩ := parseUnsigned_eq_some hm
  rw [UInt64.toNat_ofNat_of_lt' (Nat.lt_of_le_pred (by decide) hle)]
  exact toString_parseUnsigned hm

end Nula
