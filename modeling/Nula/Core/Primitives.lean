import Nula.Lib.Order

/-!
# `Core.Primitives` — containers, hex, ids, keys, timestamps, kinds

The fixed-width values every event is made of. Identifiers and keys carry their width (and, for keys,
the curve condition) as a field, so a malformed one cannot be built; each comes with the order its
Rust counterpart derives, which is the byte-lexicographic one.
-/

namespace Nula

open Std

/-! ## Containers

The order in which a `HashMap` or `HashSet` iterates is its hasher's choice, so an extensional ordered
container stands for it, and code that does iterate takes the order as a parameter (`HashMap.iter`) unless a
comment says why no order matters. `BTreeMap` and `BTreeSet` iterate in key order. -/

/-- `HashMap`, by its contents; an order in which it is iterated is a parameter where it matters. -/
abbrev HashMap (κ ν : Type) [Ord κ] := ExtTreeMap κ ν

/-- `HashSet`, likewise. -/
abbrev HashSet (κ : Type) [Ord κ] := ExtTreeSet κ

abbrev BTreeMap (κ ν : Type) [Ord κ] := ExtTreeMap κ ν

abbrev BTreeSet (κ : Type) [Ord κ] := ExtTreeSet κ

namespace HashMap

variable {κ ν : Type} [Ord κ] [TransOrd κ]

/-- The entries in the order `rank` gives the keys; every order of the keys has such a rank. -/
def iter (m : HashMap κ ν) (rank : κ → Nat) : List (κ × ν) :=
  m.toList.insertionSort (fun a b => rank a.1 ≤ rank b.1)

theorem mem_iter [LawfulEqOrd κ] {m : HashMap κ ν} {rank : κ → Nat} {k : κ} {v : ν} :
    (k, v) ∈ m.iter rank ↔ m[k]? = some v := by
  rw [iter, List.mem_insertionSort]
  exact ExtTreeMap.mem_toList_iff_getElem?_eq_some

section

variable {m : HashMap κ ν} {k i : κ} {v new : ν}

/-- What is left after a removal was there before. -/
theorem of_erase (h : (m.erase i)[k]? = some v) : m[k]? = some v := by
  rw [ExtTreeMap.getElem?_erase] at h
  split at h
  · cases h
  · exact h

variable [LawfulEqOrd κ]

theorem of_insert (h : (m.insert i new)[k]? = some v) : m[k]? = some v ∨ v = new ∧ i = k := by
  rw [ExtTreeMap.getElem?_insert] at h
  split at h
  next heq => exact Or.inr ⟨(Option.some.inj h).symm, LawfulEqCmp.compare_eq_iff_eq.mp heq⟩
  next => exact Or.inl h

theorem erase_kept (h : m[k]? = some v) : (m.erase i)[k]? = some v ∨ i = k := by
  rw [ExtTreeMap.getElem?_erase]
  split
  next heq => exact Or.inr (LawfulEqCmp.compare_eq_iff_eq.mp heq)
  next => exact Or.inl h

/-- An insert under a free key takes nothing away. -/
theorem insert_kept (h : m[k]? = some v) (hfree : m.contains i = false) : (m.insert i new)[k]? = some v := by
  rw [ExtTreeMap.getElem?_insert]
  split
  next heq =>
    rw [LawfulEqCmp.compare_eq_iff_eq.mp heq, ExtTreeMap.contains_eq_isSome_getElem?, h] at hfree
    cases hfree
  next => exact h

end

end HashMap

namespace HashSet

variable {κ : Type} [Ord κ] [TransOrd κ]

/-- The elements in the order `rank` gives them. -/
def iter (s : HashSet κ) (rank : κ → Nat) : List κ := s.toList.insertionSort (fun a b => rank a ≤ rank b)

theorem perm_iter (s : HashSet κ) (rank : κ → Nat) : (s.iter rank).Perm s.toList :=
  List.perm_insertionSort _ _

variable [LawfulEqOrd κ]

theorem mem_iter {s : HashSet κ} {rank : κ → Nat} {k : κ} : k ∈ s.iter rank ↔ k ∈ s := by
  rw [(perm_iter s rank).mem_iff]
  exact ExtTreeSet.mem_toList

theorem nodup_iter (s : HashSet κ) (rank : κ → Nat) : (s.iter rank).Nodup := by
  rw [(perm_iter s rank).nodup_iff]
  exact ExtTreeSet.distinct_toList.imp (fun hne heq => hne (LawfulEqCmp.compare_eq_iff_eq.mpr heq))

end HashSet

/-! ## Hex (`util/hex.rs`) -/

/-- `str::as_bytes`. -/
def strBytes (s : String) : Bytes := s.toByteArray.data.toList

theorem strBytes_inj {s t : String} (h : strBytes s = strBytes t) : s = t := by
  have harr : s.toByteArray.data = t.toByteArray.data := Array.toList_inj.mp h
  have hba : s.toByteArray = t.toByteArray := by
    cases hs : s.toByteArray
    cases ht : t.toByteArray
    rw [hs, ht] at harr
    exact congrArg ByteArray.mk harr
  exact String.toByteArray_inj.mp hba

/-- The bytes of a text, character by character. -/
theorem strBytes_ofList (cs : List Char) :
    strBytes (String.ofList cs) = cs.flatMap String.utf8EncodeChar := by
  simp [strBytes, List.utf8Encode]

theorem length_utf8_le (cs : List Char) : (cs.flatMap String.utf8EncodeChar).length ≤ 4 * cs.length := by
  induction cs with
  | nil => exact le_rfl
  | cons c cs ih =>
      have hc := c.utf8Size_le_four
      simp only [List.flatMap_cons, List.length_append, String.length_utf8EncodeChar, List.length_cons]
      omega

theorem length_le_utf8 (cs : List Char) : cs.length ≤ (cs.flatMap String.utf8EncodeChar).length := by
  induction cs with
  | nil => exact le_rfl
  | cons c cs ih =>
      have hc := c.utf8Size_pos
      simp only [List.flatMap_cons, List.length_append, String.length_utf8EncodeChar, List.length_cons]
      omega

theorem length_toList_le (s : String) : s.toList.length ≤ (strBytes s).length := by
  have hs := length_le_utf8 s.toList
  rwa [← strBytes_ofList, String.ofList_toList] at hs

theorem strBytes_append (s t : String) : strBytes (s ++ t) = strBytes s ++ strBytes t := by
  rw [← String.ofList_toList (s := s), ← String.ofList_toList (s := t), ← String.ofList_append, strBytes_ofList,
    strBytes_ofList, strBytes_ofList, List.flatMap_append]

/-- `String::from_utf8`. -/
def fromUtf8 (b : Bytes) : Option String := String.fromUTF8? ⟨b.toArray⟩

theorem fromUtf8_strBytes (s : String) : fromUtf8 (strBytes s) = some s := by
  have hb : (⟨(strBytes s).toArray⟩ : ByteArray) = s.toByteArray := by simp [strBytes]
  rw [fromUtf8, hb, String.fromUTF8?, dif_pos s.isValidUTF8]
  rfl

theorem strBytes_of_fromUtf8 {b : Bytes} {s : String} (h : fromUtf8 b = some s) : strBytes s = b := by
  rw [fromUtf8, String.fromUTF8?] at h
  split at h
  · cases h
    rfl
  · cases h

inductive HexError where
  | invalidChar
  | invalidLength (len : Nat)
  | lengthMismatch (expected actual : Nat)
  deriving DecidableEq, Repr

namespace Hex

/-- The value of a hex digit, either case. -/
def digit (b : UInt8) : Option UInt8 :=
  if 48 ≤ b ∧ b ≤ 57 then some (b - 48)
  else if 97 ≤ b ∧ b ≤ 102 then some (b - 87)
  else if 65 ≤ b ∧ b ≤ 70 then some (b - 55)
  else none

/-- Digit pairs to bytes; `none` on a non-hex byte. -/
def decodePairs : Bytes → Option Bytes
  | hi :: lo :: rest => do
      let h ← digit hi
      let l ← digit lo
      let tail ← decodePairs rest
      return (h * 16 + l) :: tail
  | _ => some []

/-- `hex::decode`. -/
def decode (input : Bytes) : Except HexError Bytes :=
  if input.length % 2 ≠ 0 then .error (.invalidLength input.length)
  else match decodePairs input with
    | some out => .ok out
    | none => .error .invalidChar

/-- `hex::decode_to_slice` into a buffer of `size` bytes. -/
def decodeToSlice (size : Nat) (input : Bytes) : Except HexError Bytes :=
  if input.length ≠ size * 2 then .error (.lengthMismatch (size * 2) input.length)
  else decode input

/-- The lowercase digit of a nibble. -/
def digitChar (n : UInt8) : Char :=
  if n < 10 then Char.ofNat (n.toNat + 48) else Char.ofNat (n.toNat + 87)

/-- `hex::encode`: lowercase. -/
def encode (b : Bytes) : String :=
  String.ofList (b.flatMap fun x => [digitChar (x / 16), digitChar (x % 16)])

theorem utf8_digitChar {n : UInt8} (h : n < 16) :
    ∃ c, String.utf8EncodeChar (digitChar n) = [c] ∧ digit c = some n := by
  refine ⟨UInt8.ofNat (digitChar n).toNat, ?_, ?_⟩
  · revert h
    revert n
    decide +kernel
  · revert h
    revert n
    decide +kernel

/-- A byte is its high nibble followed by its low one. -/
theorem nibbles (x : UInt8) : x / 16 < 16 ∧ x % 16 < 16 ∧ x / 16 * 16 + x % 16 = x := by
  revert x
  decide +kernel

/-- The pairs of an encoding decode to the bytes, two digits a byte. -/
theorem decodePairs_encode (b : Bytes) :
    decodePairs (strBytes (encode b)) = some b ∧ (strBytes (encode b)).length = 2 * b.length := by
  rw [encode, strBytes_ofList]
  induction b with
  | nil => exact ⟨rfl, rfl⟩
  | cons x xs ih =>
      obtain ⟨hdiv, hmod, hx⟩ := nibbles x
      obtain ⟨hi, hhi, hdhi⟩ := utf8_digitChar hdiv
      obtain ⟨lo, hlo, hdlo⟩ := utf8_digitChar hmod
      simp only [List.flatMap_cons, hhi, hlo, List.cons_append, List.nil_append, decodePairs, hdhi,
        hdlo, ih.1, List.length_cons, ih.2]
      constructor
      · simp [hx]
      · omega

/-- **Hex round trip.** -/
theorem decode_encode (b : Bytes) : decode (strBytes (encode b)) = .ok b := by
  obtain ⟨hpairs, hlen⟩ := decodePairs_encode b
  simp [decode, hpairs, hlen]

/-- Bytes come back from their hex, into a buffer of their length. -/
theorem decodeToSlice_encode {b : Bytes} {size : Nat} (h : b.length = size) :
    decodeToSlice size (strBytes (encode b)) = .ok b := by
  have hlen := (decodePairs_encode b).2
  rw [decodeToSlice, if_neg (by omega), decode_encode]

end Hex

/-! ## Event ids (`event/id.rs`) -/

/-- 32-byte event identifier. -/
structure EventId where
  bytes : Bytes
  size : bytes.length = 32
  deriving DecidableEq

inductive EventIdError where
  | hex (e : HexError)
  | invalidLength (len : Nat)
  deriving DecidableEq, Repr

namespace EventId

theorem bytes_injective : Function.Injective EventId.bytes := by
  rintro ⟨a, ha⟩ ⟨b, hb⟩ h
  cases h
  rfl

/-- Ids compare byte-lexicographically. -/
instance : Ord EventId := ⟨compareOn EventId.bytes⟩
instance : TransOrd EventId := inferInstanceAs (TransCmp (compareOn EventId.bytes))
instance : LawfulEqOrd EventId := lawfulEqCmp_compareOn bytes_injective

/-- `EventId::from_slice`. -/
def fromSlice (b : Bytes) : Except EventIdError EventId :=
  if h : b.length = 32 then .ok ⟨b, h⟩ else .error (.invalidLength b.length)

/-- `EventId::parse`. -/
def parse (s : String) : Except EventIdError EventId :=
  match Hex.decode (strBytes s) with
  | .error e => .error (.hex e)
  | .ok b => fromSlice b

/-- `EventId::to_hex`. -/
def toHex (id : EventId) : String := Hex.encode id.bytes

end EventId

/-! ## Public keys (`key/public_key.rs`) -/

/-- The secp256k1 field prime. -/
def fieldPrime : Nat := 2 ^ 256 - 2 ^ 32 - 977

/-- `b ^ e mod m` by repeated squaring, `fuel` bits of the exponent. -/
def powMod (m : Nat) : Nat → Nat → Nat → Nat → Nat
  | 0,        _, _, acc => acc
  | fuel + 1, b, e, acc =>
      powMod m fuel (b * b % m) (e / 2) (if e % 2 = 1 then acc * b % m else acc)

/-- The bytes are the x-coordinate of a curve point: below the prime, and `x³ + 7` is the square of
    its candidate root `(x³ + 7) ^ ((p + 1) / 4)`. -/
def isXOnlyPoint (b : Bytes) : Bool :=
  let x := ofBe b
  let c := (x * x * x + 7) % fieldPrime
  let y := powMod fieldPrime 256 c ((fieldPrime + 1) / 4) 1
  decide (x < fieldPrime) && decide (y * y % fieldPrime = c)

/-- 32-byte x-only public key; only curve points are keys. -/
structure PublicKey where
  bytes : Bytes
  size : bytes.length = 32
  onCurve : isXOnlyPoint bytes = true
  deriving DecidableEq

inductive PublicKeyError where
  | hex (e : HexError)
  | invalidLength (len : Nat)
  | invalidPoint
  deriving DecidableEq, Repr

namespace PublicKey

theorem bytes_injective : Function.Injective PublicKey.bytes := by
  rintro ⟨a, ha, ha'⟩ ⟨b, hb, hb'⟩ h
  cases h
  rfl

instance : Ord PublicKey := ⟨compareOn PublicKey.bytes⟩
instance : TransOrd PublicKey := inferInstanceAs (TransCmp (compareOn PublicKey.bytes))
instance : LawfulEqOrd PublicKey := lawfulEqCmp_compareOn bytes_injective

/-- `PublicKey::from_slice`. -/
def fromSlice (b : Bytes) : Except PublicKeyError PublicKey :=
  if h : b.length = 32 then
    if hc : isXOnlyPoint b = true then .ok ⟨b, h, hc⟩ else .error .invalidPoint
  else .error (.invalidLength b.length)

/-- `PublicKey::parse`. -/
def parse (s : String) : Except PublicKeyError PublicKey :=
  match Hex.decode (strBytes s) with
  | .error e => .error (.hex e)
  | .ok b => fromSlice b

/-- `PublicKey::to_hex`. -/
def toHex (pk : PublicKey) : String := Hex.encode pk.bytes

theorem parse_toHex (pk : PublicKey) : parse pk.toHex = .ok pk := by
  unfold parse toHex
  rw [Hex.decode_encode]
  simp only [fromSlice, pk.size, pk.onCurve, dite_true]

theorem toHex_injective : Function.Injective toHex := by
  intro a b h
  have := congrArg parse h
  rw [parse_toHex, parse_toHex] at this
  exact Except.ok.inj this

end PublicKey

/-! ## Timestamps and kinds (`types/timestamp.rs`, `event/kind.rs`) -/

/-- Unix seconds. -/
abbrev Timestamp := UInt64

/-- Event kind. -/
structure Kind where
  val : UInt16
  deriving DecidableEq, Repr

namespace Kind

theorem val_injective : Function.Injective Kind.val := by
  rintro ⟨a⟩ ⟨b⟩ h
  cases h
  rfl

instance : Ord Kind := ⟨compareOn Kind.val⟩
instance : TransOrd Kind := inferInstanceAs (TransCmp (compareOn Kind.val))
instance : LawfulEqOrd Kind := lawfulEqCmp_compareOn val_injective

/-- `Kind::EVENT_DELETION`. -/
def eventDeletion : Kind := ⟨5⟩

/-- `Kind::REQUEST_TO_VANISH`. -/
def requestToVanish : Kind := ⟨62⟩

/-- `Kind::CONTACTS`. -/
def contacts : Kind := ⟨3⟩

/-- `Kind::GIFT_WRAP`. -/
def giftWrap : Kind := ⟨1059⟩

/-- `Kind::RELAY_LIST`. -/
def relayList : Kind := ⟨10002⟩

/-- `Kind::DM_RELAYS`. -/
def dmRelays : Kind := ⟨10050⟩

/-- Metadata, contacts, and `10000..=19999`. -/
def isReplaceable (k : Kind) : Bool :=
  k.val == 0 || k.val == 3 || (10000 ≤ k.val && k.val ≤ 19999)

/-- `30000..=39999`. -/
def isAddressable (k : Kind) : Bool := 30000 ≤ k.val && k.val ≤ 39999

/-- `20000..=29999`. -/
def isEphemeral (k : Kind) : Bool := 20000 ≤ k.val && k.val ≤ 29999

/-- No kind is both replaceable and addressable. -/
theorem not_addressable_of_replaceable {k : Kind} (h : k.isReplaceable = true) :
    k.isAddressable = false := by
  simp only [isReplaceable, isAddressable, Bool.or_eq_true, Bool.and_eq_true, beq_iff_eq,
    decide_eq_true_eq, Bool.and_eq_false_iff, decide_eq_false_iff_not] at *
  grind

end Kind

end Nula
