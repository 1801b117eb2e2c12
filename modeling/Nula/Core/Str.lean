import Nula.Core.Primitives
import Nula.Lib.Checked

/-!
# `Core.Str` — texts as their bytes

What a scanner over bytes uses of `str`: character boundaries, `get` of a range, slicing that panics off a boundary,
and the width of a character. A boundary splits the text in two (`isCharBoundary_iff`); next to an ASCII byte there is
one on either side (`boundary_of_ascii`).
-/

namespace Nula

/-- `str::len`. -/
def strLen (s : String) : Nat := (strBytes s).length

@[simp] theorem strLen_append (s t : String) : strLen (s ++ t) = strLen s + strLen t := by
  rw [strLen, strBytes_append, List.length_append]
  rfl

theorem strLen_ofList (cs : List Char) : strLen (String.ofList cs) = (cs.map Char.utf8Size).sum := by
  rw [strLen, strBytes_ofList, List.length_flatMap]
  congr 1
  exact List.map_congr_left (fun c _ => String.length_utf8EncodeChar c)

theorem eq_empty_of_strLen {s : String} (h : strLen s = 0) : s = "" :=
  strBytes_inj (List.length_eq_zero_iff.mp h)

/-- `str::is_char_boundary`. -/
def isCharBoundary (s : String) (i : Nat) : Bool := (⟨i⟩ : String.Pos.Raw).isValid s

/-- A boundary splits the text. -/
theorem isCharBoundary_iff {s : String} {i : Nat} :
    isCharBoundary s i = true ↔ ∃ pre post : String, s = pre ++ post ∧ strLen pre = i := by
  rw [isCharBoundary, String.Pos.Raw.isValid_eq_true_iff, String.Pos.Raw.isValid_iff_exists_append]
  constructor
  · rintro ⟨pre, post, hs, hi⟩
    exact ⟨pre, post, hs, (congrArg String.Pos.Raw.byteIdx hi).symm⟩
  · rintro ⟨pre, post, hs, rfl⟩
    exact ⟨pre, post, hs, rfl⟩

/-- Bytes at the front that end at a boundary are characters at the front. -/
theorem toList_prefix {s p : String} (hboundary : isCharBoundary s (strLen p) = true)
    (h : (strBytes s).take (strLen p) = strBytes p) : p.toList <+: s.toList := by
  obtain ⟨pre, post, rfl, hlen⟩ := isCharBoundary_iff.mp hboundary
  have hsame : pre = p := by
    apply strBytes_inj
    rw [strBytes_append, ← hlen] at h
    exact List.take_left.symm.trans h
  rw [hsame, String.toList_append]
  exact List.prefix_append _ _

theorem isCharBoundary_zero (s : String) : isCharBoundary s 0 = true :=
  isCharBoundary_iff.mpr ⟨"", s, by simp, rfl⟩

theorem isCharBoundary_strLen (s : String) : isCharBoundary s (strLen s) = true :=
  isCharBoundary_iff.mpr ⟨s, "", by simp, rfl⟩

theorem le_of_isCharBoundary {s : String} {i : Nat} (h : isCharBoundary s i = true) : i ≤ strLen s := by
  obtain ⟨pre, post, rfl, rfl⟩ := isCharBoundary_iff.mp h
  rw [strLen_append]
  exact Nat.le_add_right _ _

/-- `str::get` of a range. -/
def strGet (s : String) (start stop : Nat) : Option String :=
  if start ≤ stop ∧ isCharBoundary s start = true ∧ isCharBoundary s stop = true then
    fromUtf8 (((strBytes s).take stop).drop start)
  else none

/-- Two boundaries cut a piece out of the text. -/
theorem exists_piece {s : String} {start stop : Nat} (hle : start ≤ stop) (hstart : isCharBoundary s start = true)
    (hstop : isCharBoundary s stop = true) :
    ∃ pre piece post : String, s = pre ++ piece ++ post ∧ strLen pre = start ∧ strLen (pre ++ piece) = stop := by
  obtain ⟨pre, rest, hpre, hpreLen⟩ := isCharBoundary_iff.mp hstart
  obtain ⟨front, post, hfront, hfrontLen⟩ := isCharBoundary_iff.mp hstop
  have hlists : pre.toList ++ rest.toList = front.toList ++ post.toList := by
    rw [← String.toList_append, ← String.toList_append, ← hpre, ← hfront]
  rcases List.append_eq_append_iff.mp hlists with ⟨piece, hpiece, -⟩ | ⟨piece, hpiece, -⟩
  · have hsame : front = pre ++ String.ofList piece := by
      rw [← String.toList_inj, String.toList_append, String.toList_ofList, hpiece]
    exact ⟨pre, String.ofList piece, post, hsame ▸ hfront, hpreLen, hsame ▸ hfrontLen⟩
  · have hsame : pre = front ++ String.ofList piece := by
      rw [← String.toList_inj, String.toList_append, String.toList_ofList, hpiece]
    have hempty : String.ofList piece = "" := by
      rw [hsame, strLen_append] at hpreLen
      exact eq_empty_of_strLen (by omega)
    rw [hempty, String.append_empty] at hsame
    refine ⟨pre, "", post, ?_, hpreLen, ?_⟩
    · rw [String.append_empty, hsame]
      exact hfront
    · rw [String.append_empty, hsame]
      exact hfrontLen

/-- The piece that `get` returns. -/
theorem strGet_append (pre piece post : String) :
    strGet (pre ++ piece ++ post) (strLen pre) (strLen (pre ++ piece)) = some piece := by
  have hstart : isCharBoundary (pre ++ piece ++ post) (strLen pre) = true :=
    isCharBoundary_iff.mpr ⟨pre, piece ++ post, String.append_assoc .., rfl⟩
  have hstop : isCharBoundary (pre ++ piece ++ post) (strLen (pre ++ piece)) = true :=
    isCharBoundary_iff.mpr ⟨pre ++ piece, post, rfl, rfl⟩
  have hle : strLen pre ≤ strLen (pre ++ piece) := by
    rw [strLen_append]
    exact Nat.le_add_right _ _
  have hbytes : ((strBytes (pre ++ piece ++ post)).take (strLen (pre ++ piece))).drop (strLen pre) =
      strBytes piece := by
    have hfront : (strBytes (pre ++ piece) ++ strBytes post).take (strLen (pre ++ piece)) = strBytes (pre ++ piece) :=
      List.take_left' rfl
    rw [strBytes_append, hfront, strBytes_append]
    exact List.drop_left' rfl
  rw [strGet, if_pos ⟨hle, hstart, hstop⟩, hbytes, fromUtf8_strBytes]

/-- **A slice is a piece of the text**, with what is in front of it and what is behind. -/
theorem strGet_eq_some_iff {s piece : String} {start stop : Nat} : strGet s start stop = some piece ↔
    ∃ pre post : String, s = pre ++ piece ++ post ∧ strLen pre = start ∧ strLen (pre ++ piece) = stop := by
  constructor
  · intro h
    by_cases hcond : start ≤ stop ∧ isCharBoundary s start = true ∧ isCharBoundary s stop = true
    · obtain ⟨hle, hstart, hstop⟩ := hcond
      obtain ⟨pre, piece', post, rfl, rfl, rfl⟩ := exists_piece hle hstart hstop
      rw [strGet_append] at h
      cases h
      exact ⟨pre, post, rfl, rfl, rfl⟩
    · rw [strGet, if_neg hcond] at h
      cases h
  · rintro ⟨pre, post, rfl, rfl, rfl⟩
    exact strGet_append pre piece post

/-- Between two boundaries there is a piece, and it holds the bytes between them. -/
theorem strGet_of_boundary {s : String} {start stop : Nat} (hle : start ≤ stop)
    (hstart : isCharBoundary s start = true) (hstop : isCharBoundary s stop = true) :
    ∃ piece, strGet s start stop = some piece ∧ strLen piece = stop - start := by
  obtain ⟨pre, piece, post, rfl, rfl, rfl⟩ := exists_piece hle hstart hstop
  refine ⟨piece, strGet_append pre piece post, ?_⟩
  rw [strLen_append]
  omega

/-- The whole text is a piece of itself. -/
theorem strGet_self (s : String) : strGet s 0 (strLen s) = some s :=
  strGet_eq_some_iff.mpr ⟨"", "", by simp, rfl, by simp⟩

/-- Pieces that meet are one piece. -/
theorem strGet_trans {s a b : String} {i j k : Nat} (ha : strGet s i j = some a) (hb : strGet s j k = some b) :
    strGet s i k = some (a ++ b) := by
  obtain ⟨pre, rest, rfl, rfl, rfl⟩ := strGet_eq_some_iff.mp ha
  obtain ⟨front, post, hsplit, hfront, rfl⟩ := strGet_eq_some_iff.mp hb
  have hbytes : strBytes (pre ++ a) ++ strBytes rest = strBytes front ++ (strBytes b ++ strBytes post) := by
    rw [← strBytes_append, hsplit, strBytes_append, strBytes_append, List.append_assoc]
  obtain ⟨hsame, -⟩ := List.append_inj hbytes hfront.symm
  rw [← strBytes_inj hsame] at hsplit ⊢
  refine strGet_eq_some_iff.mpr ⟨pre, post, ?_, rfl, ?_⟩
  · rw [hsplit, ← String.append_assoc]
  · rw [String.append_assoc]

/-- A piece holds the bytes that stand there. -/
theorem getElem?_of_strGet {s piece : String} {i j k : Nat} (h : strGet s i j = some piece) (hk : k < strLen piece) :
    (strBytes piece)[k]? = (strBytes s)[i + k]? := by
  obtain ⟨pre, post, rfl, rfl, -⟩ := strGet_eq_some_iff.mp h
  rw [strBytes_append, strBytes_append, List.append_assoc, strLen, List.getElem?_append_right (Nat.le_add_right _ _),
    Nat.add_sub_cancel_left, List.getElem?_append_left hk]

/-- `&s[i..]`, which panics off a boundary. -/
def sliceFrom (s : String) (i : Nat) : Checked String :=
  match strGet s i (strLen s) with
  | some rest => .ok rest
  | none => .error .outOfRange

/-! ## Characters -/

/-- A boundary before the end has a character behind it. -/
theorem exists_char {s : String} {i : Nat} (hi : isCharBoundary s i = true) (hlt : i < strLen s) :
    ∃ (pre : String) (c : Char) (rest : List Char), s = pre ++ String.ofList (c :: rest) ∧ strLen pre = i ∧
      strGet s i (strLen s) = some (String.ofList (c :: rest)) := by
  obtain ⟨pre, post, rfl, rfl⟩ := isCharBoundary_iff.mp hi
  have hget : strGet (pre ++ post) (strLen pre) (strLen (pre ++ post)) = some post :=
    strGet_eq_some_iff.mpr ⟨pre, "", by simp, rfl, by simp⟩
  cases hpost : post.toList with
  | nil =>
      have hempty : post = "" := String.toList_eq_nil_iff.mp hpost
      rw [hempty, String.append_empty] at hlt
      exact absurd hlt (Nat.lt_irrefl _)
  | cons c rest =>
      have hsame : post = String.ofList (c :: rest) := by rw [← hpost, String.ofList_toList]
      rw [hsame] at hget ⊢
      exact ⟨pre, c, rest, rfl, rfl, hget⟩

/-- The next character ends at a boundary. -/
theorem isCharBoundary_next {pre : String} {c : Char} {rest : List Char} :
    isCharBoundary (pre ++ String.ofList (c :: rest)) (strLen pre + c.utf8Size) = true := by
  refine isCharBoundary_iff.mpr ⟨pre ++ String.ofList [c], String.ofList rest, ?_, ?_⟩
  · rw [String.append_assoc, ← String.ofList_append]
    rfl
  · rw [strLen_append, strLen_ofList, List.map_singleton, List.sum_singleton]

/-- Between a boundary and the end of the next character there is none. -/
theorem next_le_of_isCharBoundary {pre : String} {c : Char} {rest : List Char} {i : Nat}
    (h : isCharBoundary (pre ++ String.ofList (c :: rest)) i = true) (hlt : strLen pre < i) :
    strLen pre + c.utf8Size ≤ i := by
  obtain ⟨front, post, hsplit, rfl⟩ := isCharBoundary_iff.mp h
  have hlists : pre.toList ++ c :: rest = front.toList ++ post.toList := by
    rw [← String.toList_append, ← hsplit, String.toList_append, String.toList_ofList]
  have hlen : ∀ {s t : String} {cs : List Char}, s.toList = t.toList ++ cs →
      strLen s = strLen t + (cs.map Char.utf8Size).sum := by
    intro s t cs h
    have hsame : s = t ++ String.ofList cs := by rw [← String.toList_inj, String.toList_append, String.toList_ofList, h]
    rw [hsame, strLen_append, strLen_ofList]
  rcases List.append_eq_append_iff.mp hlists with ⟨piece, hpiece, hrest⟩ | ⟨piece, hpiece, -⟩
  · have hfront := hlen hpiece
    cases piece with
    | nil => exact absurd hfront (Nat.ne_of_gt hlt)
    | cons d ds =>
        obtain ⟨rfl, -⟩ := List.cons.inj hrest
        rw [List.map_cons, List.sum_cons] at hfront
        omega
  · have hpre := hlen hpiece
    omega

/-! ## ASCII -/

/-- The first byte of a character of several bytes is not ASCII. -/
theorem utf8Size_of_ascii {c : Char} {b : UInt8} (h : (String.utf8EncodeChar c).head? = some b) (hb : b < 128) :
    c.utf8Size = 1 := by
  have hlow : b.toNat < 128 := UInt8.lt_iff_toNat_lt.mp hb
  have hbyte : ∀ n, n < 64 → ∀ m, 192 ≤ m → m ≤ 240 → n < 256 - m → UInt8.ofNat (n + m) ≠ b := by
    intro n _ m hm _ hlt hsame
    have hnat := congrArg UInt8.toNat hsame
    rw [UInt8.toNat_ofNat_of_lt' (by rw [UInt8.size]; omega)] at hnat
    omega
  rw [String.utf8EncodeChar] at h
  split at h
  · rename_i hv
    exact Char.utf8Size_eq_one_iff.mpr (UInt32.le_iff_toNat_le.mpr hv)
  split at h
  · exact absurd (Option.some.inj h) (hbyte _ (by omega) _ (by decide) (by decide) (by omega))
  split at h
  · exact absurd (Option.some.inj h) (hbyte _ (by omega) _ (by decide) (by decide) (by omega))
  · exact absurd (Option.some.inj h) (hbyte _ (by omega) _ (by decide) (by decide) (by omega))

theorem isUTF8FirstByte_of_ascii : ∀ b : UInt8, b < 128 → b.IsUTF8FirstByte := by
  decide +kernel

/-- An ASCII byte is a character of its own. -/
theorem boundary_of_ascii {s : String} {i : Nat} {b : UInt8} (h : (strBytes s)[i]? = some b) (hb : b < 128) :
    isCharBoundary s i = true ∧ isCharBoundary s (i + 1) = true := by
  have hlt : i < strLen s := (List.getElem?_eq_some_iff.mp h).1
  have hi : isCharBoundary s i = true := by
    rw [isCharBoundary, String.Pos.Raw.isValid_eq_true_iff, String.Pos.Raw.isValid_iff_isUTF8FirstByte]
    refine Or.inr ⟨hlt, ?_⟩
    have hbyte : s.getUTF8Byte ⟨i⟩ hlt = b := Option.some.inj ((List.getElem?_eq_getElem hlt).symm.trans h)
    rw [hbyte]
    exact isUTF8FirstByte_of_ascii b hb
  obtain ⟨pre, c, rest, rfl, rfl, -⟩ := exists_char hi hlt
  have hhead : (String.utf8EncodeChar c).head? = some b := by
    rw [strBytes_append, strLen, List.getElem?_append_right (Nat.le_refl _), Nat.sub_self, strBytes_ofList,
      List.flatMap_cons, ← List.head?_eq_getElem?, List.head?_append] at h
    cases hencode : String.utf8EncodeChar c with
    | nil =>
        have hlength := String.length_utf8EncodeChar c
        rw [hencode] at hlength
        exact absurd hlength (Nat.ne_of_lt c.utf8Size_pos)
    | cons x l =>
        rw [hencode] at h
        exact h
  have hnext : isCharBoundary (pre ++ String.ofList (c :: rest)) (strLen pre + c.utf8Size) = true := isCharBoundary_next
  rw [utf8Size_of_ascii hhead hb] at hnext
  exact ⟨hi, hnext⟩

end Nula
