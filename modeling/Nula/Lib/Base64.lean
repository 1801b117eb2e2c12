import Nula.Lib.Order

/-!
# `Lib.Base64` — base64 engines

What a user of an engine relies on (`Base64Engine`): decoding undoes encoding, four characters stand for three
bytes, and the characters are the alphabet's. The standard engine (padded, canonical) is one.
-/

namespace Nula

/-- `base64::Engine`, the error by its text. -/
structure Base64Engine where
  encode : Bytes → String
  decode : String → Except String Bytes
  decode_encode : ∀ b, decode (encode b) = .ok b
  length_encode : ∀ b, (encode b).toList.length = (b.length + 2) / 3 * 4
  alphabet_encode : ∀ b, ∀ c ∈ (encode b).toList, c.isAlphanum = true ∨ c = '+' ∨ c = '/' ∨ c = '='

namespace Base64

/-- The standard alphabet. -/
def alphabet : List Char := "ABCDEFGHIJKLMNOPQRSTUVWXYZabcdefghijklmnopqrstuvwxyz0123456789+/".toList

/-- The digit of six bits. -/
def sextetChar (n : Nat) : Char := alphabet.getD n '='

/-- The six bits of a digit. -/
def charSextet (c : Char) : Option Nat := alphabet.idxOf? c

theorem alphabet_eq : alphabet =
    ['A', 'B', 'C', 'D', 'E', 'F', 'G', 'H', 'I', 'J', 'K', 'L', 'M', 'N', 'O', 'P', 'Q', 'R', 'S', 'T', 'U', 'V',
      'W', 'X', 'Y', 'Z', 'a', 'b', 'c', 'd', 'e', 'f', 'g', 'h', 'i', 'j', 'k', 'l', 'm', 'n', 'o', 'p', 'q',
      'r', 's', 't', 'u', 'v', 'w', 'x', 'y', 'z', '0', '1', '2', '3', '4', '5', '6', '7', '8', '9', '+', '/'] :=
  String.toList_ofList

/-- Every digit is read back, and none of them is the padding. -/
theorem sextet_spec {n : Nat} (h : n < 64) : charSextet (sextetChar n) = some n ∧ sextetChar n ≠ '=' ∧
    ((sextetChar n).isAlphanum = true ∨ sextetChar n = '+' ∨ sextetChar n = '/') := by
  simp only [charSextet, sextetChar, alphabet_eq]
  revert n
  decide +kernel

/-- Three bytes are four characters. -/
def encodeChars : Bytes → List Char
  | a :: b :: c :: rest =>
      sextetChar (a.toNat / 4) :: sextetChar (a.toNat % 4 * 16 + b.toNat / 16) ::
        sextetChar (b.toNat % 16 * 4 + c.toNat / 64) :: sextetChar (c.toNat % 64) :: encodeChars rest
  | [a, b] =>
      [sextetChar (a.toNat / 4), sextetChar (a.toNat % 4 * 16 + b.toNat / 16), sextetChar (b.toNat % 16 * 4), '=']
  | [a] => [sextetChar (a.toNat / 4), sextetChar (a.toNat % 4 * 16), '=', '=']
  | [] => []

/-- The last group, padded; bits that no byte takes must be zero. -/
def decodePadded (w x y : Char) : Option Bytes := do
  let s₀ ← charSextet w
  let s₁ ← charSextet x
  if y = '=' then
    if s₁ % 16 = 0 then return [UInt8.ofNat (s₀ * 4 + s₁ / 16)] else none
  else
    let s₂ ← charSextet y
    if s₂ % 4 = 0 then return [UInt8.ofNat (s₀ * 4 + s₁ / 16), UInt8.ofNat (s₁ % 16 * 16 + s₂ / 4)] else none

/-- Four digits at a time. Padding may stand in the last four only, and hides no bits. -/
def decodeChars : List Char → Option Bytes
  | [] => some []
  | w :: x :: y :: z :: rest =>
      if rest = [] ∧ z = '=' then decodePadded w x y
      else do
        -- padding is not in the alphabet, so here it is refused
        let s₀ ← charSextet w
        let s₁ ← charSextet x
        let s₂ ← charSextet y
        let s₃ ← charSextet z
        let tail ← decodeChars rest
        return UInt8.ofNat (s₀ * 4 + s₁ / 16) :: UInt8.ofNat (s₁ % 16 * 16 + s₂ / 4) ::
          UInt8.ofNat (s₂ % 4 * 64 + s₃) :: tail
  | _ => none

theorem ofNat_eq_of_toNat {n : Nat} {b : UInt8} (h : n = b.toNat) : UInt8.ofNat n = b := by
  rw [h, UInt8.ofNat_toNat]

/-- **What is encoded is decoded to itself**, three bytes at a time; one and two bytes at the end are padded. In each
    case the sextets are found in the alphabet, and the bytes are put together from them by arithmetic. -/
theorem decodeChars_encodeChars (bytes : Bytes) : decodeChars (encodeChars bytes) = some bytes := by
  fun_induction encodeChars bytes with
  | case1 a b c rest ih =>
      have ha := a.toNat_lt
      have hb := b.toNat_lt
      have hc := c.toNat_lt
      obtain ⟨h₀, -⟩ := sextet_spec (n := a.toNat / 4) (by omega)
      obtain ⟨h₁, -⟩ := sextet_spec (n := a.toNat % 4 * 16 + b.toNat / 16) (by omega)
      obtain ⟨h₂, -⟩ := sextet_spec (n := b.toNat % 16 * 4 + c.toNat / 64) (by omega)
      obtain ⟨h₃, hpad, -⟩ := sextet_spec (n := c.toNat % 64) (by omega)
      rw [decodeChars, if_neg (fun h => hpad h.2), h₀, h₁, h₂, h₃, ih]
      change some _ = _
      rw [ofNat_eq_of_toNat (b := a) (by omega), ofNat_eq_of_toNat (b := b) (by omega),
        ofNat_eq_of_toNat (b := c) (by omega)]
  | case2 a b =>
      have ha := a.toNat_lt
      have hb := b.toNat_lt
      obtain ⟨h₀, -⟩ := sextet_spec (n := a.toNat / 4) (by omega)
      obtain ⟨h₁, -⟩ := sextet_spec (n := a.toNat % 4 * 16 + b.toNat / 16) (by omega)
      obtain ⟨h₂, hpad, -⟩ := sextet_spec (n := b.toNat % 16 * 4) (by omega)
      have hzero : b.toNat % 16 * 4 % 4 = 0 := by omega
      rw [decodeChars, if_pos ⟨rfl, rfl⟩, decodePadded, h₀, h₁]
      change (if _ then _ else _) = _
      rw [if_neg hpad, h₂]
      change (if _ then _ else _) = _
      rw [if_pos hzero]
      change some _ = _
      rw [ofNat_eq_of_toNat (b := a) (by omega), ofNat_eq_of_toNat (b := b) (by omega)]
  | case3 a =>
      have ha := a.toNat_lt
      obtain ⟨h₀, -⟩ := sextet_spec (n := a.toNat / 4) (by omega)
      obtain ⟨h₁, -⟩ := sextet_spec (n := a.toNat % 4 * 16) (by omega)
      have hzero : a.toNat % 4 * 16 % 16 = 0 := by omega
      rw [decodeChars, if_pos ⟨rfl, rfl⟩, decodePadded, h₀, h₁]
      change (if _ then _ else _) = _
      rw [if_pos hzero]
      change some _ = _
      rw [ofNat_eq_of_toNat (b := a) (by omega)]
  | case4 => rfl

/-- Four digits for three bytes, begun ones included. -/
theorem length_encodeChars (bytes : Bytes) : (encodeChars bytes).length = (bytes.length + 2) / 3 * 4 := by
  fun_induction encodeChars bytes with
  | case1 a b c rest ih =>
      simp only [List.length_cons, ih]
      omega
  | case2 a b => simp
  | case3 a => simp
  | case4 => rfl

/-- An encoding has letters, digits and the three signs only. -/
theorem alphabet_encodeChars (bytes : Bytes) :
    ∀ c ∈ encodeChars bytes, c.isAlphanum = true ∨ c = '+' ∨ c = '/' ∨ c = '=' := by
  have hsextet {n : Nat} (h : n < 64) : (sextetChar n).isAlphanum = true ∨ sextetChar n = '+' ∨
      sextetChar n = '/' ∨ sextetChar n = '=' := by
    obtain ⟨-, -, hchar⟩ := sextet_spec h
    tauto
  fun_induction encodeChars bytes with
  | case1 a b c rest ih =>
      have ha := a.toNat_lt
      have hb := b.toNat_lt
      have hc := c.toNat_lt
      simp only [List.forall_mem_cons]
      exact ⟨hsextet (by omega), hsextet (by omega), hsextet (by omega), hsextet (by omega), ih⟩
  | case2 a b =>
      have ha := a.toNat_lt
      have hb := b.toNat_lt
      simp only [List.forall_mem_cons]
      exact ⟨hsextet (by omega), hsextet (by omega), hsextet (by omega), by simp, by simp⟩
  | case3 a =>
      have ha := a.toNat_lt
      simp only [List.forall_mem_cons]
      exact ⟨hsextet (by omega), hsextet (by omega), by simp, by simp, by simp⟩
  | case4 => simp

/-- `general_purpose::STANDARD`. -/
def standard : Base64Engine where
  encode b := String.ofList (encodeChars b)
  decode s :=
    match decodeChars s.toList with
    | some b => .ok b
    | none => .error "Invalid input"
  decode_encode b := by rw [String.toList_ofList, decodeChars_encodeChars]
  length_encode b := by rw [String.toList_ofList, length_encodeChars]
  alphabet_encode b := by
    rw [String.toList_ofList]
    exact alphabet_encodeChars b

end Base64

end Nula
