import Nula.Lib.Order

/-!
# `Lib.FormUrlencoded` — percent encoding and the pairs of a query

A query is read as pairs (`application/x-www-form-urlencoded`): pieces between `&`, each cut at its first `=`, a
plus for a space, and two hex digits after a percent sign for a byte. A writer that keeps some bytes and percent
encodes the others is undone by that reader, whatever it keeps, as long as it keeps none of the four signs.
-/

namespace Nula.FormUrlencoded

/-! ## Reading -/

/-- `%`. -/
def percent : UInt8 := 37

/-- `&`. -/
def ampersand : UInt8 := 38

/-- `+`. -/
def plus : UInt8 := 43

/-- `=`. -/
def equals : UInt8 := 61

/-- The value of a hex digit, either case. -/
def hexValue (b : UInt8) : Option UInt8 :=
  if 48 ≤ b ∧ b ≤ 57 then some (b - 48)
  else if 97 ≤ b ∧ b ≤ 102 then some (b - 87)
  else if 65 ≤ b ∧ b ≤ 70 then some (b - 55)
  else none

/-- A percent sign that no two digits follow stands for itself. -/
def percentDecode : Bytes → Bytes
  | [] => []
  | b :: hi :: lo :: rest =>
      if b = percent then
        match hexValue hi, hexValue lo with
        | some h, some l => (h * 16 + l) :: percentDecode rest
        | _, _ => b :: percentDecode (hi :: lo :: rest)
      else b :: percentDecode (hi :: lo :: rest)
  | b :: rest => b :: percentDecode rest

/-- `+` stands for a blank. -/
def plusToSpace (b : UInt8) : UInt8 := if b = plus then 32 else b

/-- A name or a value. -/
def component (text : Bytes) : Bytes := percentDecode (text.map plusToSpace)

/-- What stands before and after the first `=`. -/
def pair (piece : Bytes) : Bytes × Bytes :=
  (component (piece.takeWhile (· ≠ equals)), component ((piece.dropWhile (· ≠ equals)).drop 1))

/-- The pairs of a query. -/
def parse (query : Bytes) : List (Bytes × Bytes) :=
  ((query.splitOn ampersand).filter (· ≠ [])).map pair

/-! ## Writing -/

section Writing

/-- The uppercase digit of a nibble. -/
def hexDigit (n : UInt8) : UInt8 := if n < 10 then n + 48 else n + 55

variable (keep : UInt8 → Bool)

/-- What is not kept is written as `%` and two hexadecimal digits. -/
def percentEncode (text : Bytes) : Bytes :=
  text.flatMap (fun b => if keep b then [b] else [percent, hexDigit (b / 16), hexDigit (b % 16)])

/-- A name as it is, its value encoded. -/
def writePair (p : Bytes × Bytes) : Bytes := p.1 ++ equals :: percentEncode keep p.2

/-- The pairs with `&` between them. -/
def write (pairs : List (Bytes × Bytes)) : Bytes := [ampersand].intercalate (pairs.map (writePair keep))

/-- What is kept means itself. -/
def Safe : Prop := ∀ b ∈ [percent, ampersand, plus, equals], keep b = false

end Writing

/-! ## Reading what was written -/

/-- The two digits of a byte are digits, mean the byte, and are none of the signs. -/
theorem hexDigit_spec (b : UInt8) : hexValue (hexDigit (b / 16)) = some (b / 16) ∧
    hexValue (hexDigit (b % 16)) = some (b % 16) ∧ b / 16 * 16 + b % 16 = b := by
  revert b
  decide +kernel

theorem nibbles_lt (b : UInt8) : b / 16 < 16 ∧ b % 16 < 16 := by
  rw [UInt8.lt_iff_toNat_lt, UInt8.lt_iff_toNat_lt, UInt8.toNat_div, UInt8.toNat_mod]
  have hb := b.toNat_lt
  show b.toNat / 16 < 16 ∧ b.toNat % 16 < 16
  omega

/-- The digits of a byte are those of two nibbles. -/
theorem exists_nibble {b d : UInt8} (h : d ∈ [hexDigit (b / 16), hexDigit (b % 16)]) :
    ∃ n < 16, d = hexDigit n := by
  rcases List.mem_cons.mp h with rfl | h
  · exact ⟨b / 16, (nibbles_lt b).1, rfl⟩
  · exact ⟨b % 16, (nibbles_lt b).2, List.mem_singleton.mp h⟩

theorem hexDigit_nibble : ∀ n < (16 : UInt8), hexDigit n ≠ plus ∧ hexDigit n ≠ ampersand ∧ hexDigit n ≠ equals := by
  decide +kernel

/-- The digits of an escape are none of the signs that separate. -/
theorem hexDigit_plain (b : UInt8) : ∀ d ∈ [hexDigit (b / 16), hexDigit (b % 16)],
    d ≠ plus ∧ d ≠ ampersand ∧ d ≠ equals := by
  intro d hd
  obtain ⟨n, hn, rfl⟩ := exists_nibble hd
  exact hexDigit_nibble n hn

theorem percentDecode_plain {b : UInt8} (h : b ≠ percent) (rest : Bytes) :
    percentDecode (b :: rest) = b :: percentDecode rest := by
  match rest with
  | [] => rfl
  | [_] => rfl
  | hi :: lo :: rest =>
      rw [percentDecode, if_neg h]

theorem percentDecode_triple {hi lo h l : UInt8} (hhi : hexValue hi = some h) (hlo : hexValue lo = some l)
    (rest : Bytes) : percentDecode (percent :: hi :: lo :: rest) = (h * 16 + l) :: percentDecode rest := by
  rw [percentDecode, if_pos rfl, hhi, hlo]

variable {keep : UInt8 → Bool}

theorem percentEncode_cons (b : UInt8) (text : Bytes) : percentEncode keep (b :: text) =
    (if keep b then [b] else [percent, hexDigit (b / 16), hexDigit (b % 16)]) ++ percentEncode keep text := by
  rw [percentEncode, List.flatMap_cons, percentEncode]

theorem write_cons (p : Bytes × Bytes) (pairs : List (Bytes × Bytes)) : write keep (p :: pairs) =
    writePair keep p ++ pairs.flatMap (fun q => ampersand :: writePair keep q) := by
  induction pairs generalizing p with
  | nil => simp [write]
  | cons q pairs ih =>
      have hrest : write keep (q :: pairs) =
          writePair keep q ++ pairs.flatMap (fun q => ampersand :: writePair keep q) := ih q
      rw [write] at hrest ⊢
      rw [List.map_cons, List.intercalate_cons_of_ne_nil (by simp), hrest, List.flatMap_cons]
      simp

/-- A byte of an encoding is kept or stands in a triple. -/
theorem mem_percentEncode {c : UInt8} {text : Bytes} (h : c ∈ percentEncode keep text) :
    keep c = true ∨ c = percent ∨ ∃ b, c ∈ [hexDigit (b / 16), hexDigit (b % 16)] := by
  obtain ⟨b, -, hb⟩ := List.mem_flatMap.mp h
  split at hb
  next hkeep =>
    rw [List.mem_singleton.mp hb]
    exact Or.inl hkeep
  next =>
    rcases List.mem_cons.mp hb with hpercent | hdigit
    · exact Or.inr (Or.inl hpercent)
    · exact Or.inr (Or.inr ⟨b, hdigit⟩)

theorem Safe.not_sign (safe : Safe keep) {b : UInt8} (h : keep b = true) :
    b ∉ [percent, ampersand, plus, equals] := by
  intro hsign
  rw [safe b hsign] at h
  cases h

/-- No sign but the percent sign is in an encoding. -/
theorem Safe.encoded (safe : Safe keep) {c : UInt8} {text : Bytes} (h : c ∈ percentEncode keep text) :
    c ≠ plus ∧ c ≠ ampersand ∧ c ≠ equals := by
  rcases mem_percentEncode h with hkeep | rfl | ⟨b, hdigit⟩
  · have hsign := safe.not_sign hkeep
    simp only [List.mem_cons, List.not_mem_nil, or_false, not_or] at hsign
    exact ⟨hsign.2.2.1, hsign.2.1, hsign.2.2.2⟩
  · decide
  · exact hexDigit_plain b c hdigit

/-- An encoding has no `+` that would become a blank. -/
theorem Safe.map_plusToSpace (safe : Safe keep) (text : Bytes) :
    (percentEncode keep text).map plusToSpace = percentEncode keep text := by
  conv_rhs => rw [← List.map_id (percentEncode keep text)]
  apply List.map_congr_left
  intro b hb
  exact if_neg (safe.encoded hb).1

/-- **What is encoded is decoded to itself.** -/
theorem Safe.percentDecode_encode (safe : Safe keep) (text : Bytes) :
    percentDecode (percentEncode keep text) = text := by
  induction text with
  | nil => rfl
  | cons b text ih =>
      rw [percentEncode_cons]
      split
      next hkeep =>
        have hb : b ≠ percent := by
          rintro rfl
          exact safe.not_sign hkeep List.mem_cons_self
        rw [List.singleton_append, percentDecode_plain hb, ih]
      next =>
        obtain ⟨hhi, hlo, hb⟩ := hexDigit_spec b
        rw [List.cons_append, List.cons_append, List.singleton_append, percentDecode_triple hhi hlo, ih, hb]

/-- **A value is read back.** -/
theorem Safe.component_encode (safe : Safe keep) (text : Bytes) : component (percentEncode keep text) = text := by
  rw [component, safe.map_plusToSpace, safe.percentDecode_encode]

/-- What is kept is its own encoding. -/
theorem percentEncode_kept {text : Bytes} (h : ∀ b ∈ text, keep b = true) : percentEncode keep text = text := by
  induction text with
  | nil => rfl
  | cons b text ih =>
      rw [percentEncode_cons, if_pos (h b List.mem_cons_self), ih (fun c hc => h c (List.mem_cons_of_mem b hc))]
      rfl

/-- A pair is read back when its name is kept. -/
theorem Safe.pair_writePair (safe : Safe keep) {p : Bytes × Bytes} (h : ∀ b ∈ p.1, keep b = true) :
    pair (writePair keep p) = p := by
  have hname : ∀ b ∈ p.1, b ≠ equals := by
    intro b hb
    rw [← percentEncode_kept h] at hb
    exact (safe.encoded hb).2.2
  have hcut : (equals :: percentEncode keep p.2).takeWhile (· ≠ equals) = [] := by
    rw [List.takeWhile_cons_of_neg (by simp)]
  have hvalue : (equals :: percentEncode keep p.2).dropWhile (· ≠ equals) = equals :: percentEncode keep p.2 := by
    rw [List.dropWhile_cons_of_neg (by simp)]
  have hread : component p.1 = p.1 := by
    conv_lhs => rw [← percentEncode_kept h]
    exact safe.component_encode p.1
  rw [pair, writePair, List.takeWhile_append_of_pos (by simpa using hname),
    List.dropWhile_append_of_pos (by simpa using hname), hcut, hvalue, List.append_nil, hread, List.drop_one,
    List.tail_cons, safe.component_encode]

/-- **A query is read back** when its names are kept. -/
theorem Safe.parse_write (safe : Safe keep) {pairs : List (Bytes × Bytes)}
    (h : ∀ p ∈ pairs, ∀ b ∈ p.1, keep b = true) : parse (write keep pairs) = pairs := by
  have hpiece : ∀ piece ∈ pairs.map (writePair keep), ampersand ∉ piece := by
    rintro piece hpiece hmem
    obtain ⟨p, hp, rfl⟩ := List.mem_map.mp hpiece
    rcases List.mem_append.mp hmem with hname | hvalue
    · rw [← percentEncode_kept (h p hp)] at hname
      exact (safe.encoded hname).2.1 rfl
    · rcases List.mem_cons.mp hvalue with hequals | hvalue
      · exact absurd hequals (by decide)
      · exact (safe.encoded hvalue).2.1 rfl
  have hfull : ∀ piece ∈ pairs.map (writePair keep), decide (piece ≠ []) = true := by
    rintro piece hmem
    obtain ⟨p, -, rfl⟩ := List.mem_map.mp hmem
    simp [writePair]
  cases hpairs : pairs with
  | nil => rfl
  | cons p rest =>
      rw [← hpairs, parse, write, List.splitOn_intercalate ampersand hpiece (by simp [hpairs]),
        List.filter_eq_self.mpr hfull, List.map_map]
      conv_rhs => rw [← List.map_id pairs]
      apply List.map_congr_left
      intro p hp
      exact safe.pair_writePair (h p hp)

end Nula.FormUrlencoded
