import Nula.Lib.Decimal
import Nula.Lib.Order

/-!
# `Core.IpAddr` — IP addresses as text

`Ipv4Addr`, `Ipv6Addr` and `IpAddr` of the standard library: their `FromStr`, which for an `IpAddr` tries the four
decimal octets before the eight hexadecimal groups, and their `Display`. A reader takes characters off the front
and leaves the rest.
-/

namespace Nula

open Std

/-! ## Readers (`core::net::parser`) -/

namespace Addr

/-- `char::to_digit`, for a radix up to 36. -/
def toDigit (radix : Nat) (c : Char) : Option Nat :=
  let digit :=
    if '0' ≤ c ∧ c ≤ '9' then some (c.toNat - '0'.toNat)
    else if 'a' ≤ c ∧ c ≤ 'z' then some (c.toNat - 'a'.toNat + 10)
    else if 'A' ≤ c ∧ c ≤ 'Z' then some (c.toNat - 'A'.toNat + 10)
    else none
  digit.filter (fun d => d < radix)

/-- `read_number`: the digits at the front, at most `maxDigits` of them. -/
def readNumber (radix maxDigits max : Nat) (zeroPrefix : Bool) (input : List Char) : Option (Nat × List Char) :=
  let digits := input.takeWhile (fun c => (toDigit radix c).isSome)
  if digits = [] ∨ maxDigits < digits.length then none
  else if !zeroPrefix && digits.head? = some '0' && 1 < digits.length then none
  else
    let n := digits.foldl (fun acc c => acc * radix + (toDigit radix c).getD 0) 0
    if n ≤ max then some (n, input.drop digits.length) else none

/-- `read_separator`: the separator stands before every group but the first. -/
def readSeparator (separator : Char) (index : Nat) (input : List Char) : Option (List Char) :=
  if index = 0 then some input
  else match input with
    | [] => none
    | c :: rest => if c = separator then some rest else none

/-- One group of an IPv4 address. -/
def readOctet (index : Nat) (input : List Char) : Option (UInt8 × List Char) := do
  let input ← readSeparator '.' index input
  let (n, rest) ← readNumber 10 3 255 false input
  return (UInt8.ofNat n, rest)

end Addr

/-! ## Four octets -/

structure Ipv4Addr where
  octets : UInt8 × UInt8 × UInt8 × UInt8
  deriving DecidableEq

namespace Ipv4Addr

/-- `read_ipv4_addr`. -/
def read (input : List Char) : Option (Ipv4Addr × List Char) := do
  let (a, input) ← Addr.readOctet 0 input
  let (b, input) ← Addr.readOctet 1 input
  let (c, input) ← Addr.readOctet 2 input
  let (d, input) ← Addr.readOctet 3 input
  return (⟨a, b, c, d⟩, input)

/-- `str::parse::<Ipv4Addr>`. -/
def parse (s : String) : Option Ipv4Addr :=
  match read s.toList with
  | some (addr, []) => some addr
  | _ => none

def isLoopback (addr : Ipv4Addr) : Bool := addr.octets.1 == 127

def isPrivate (addr : Ipv4Addr) : Bool :=
  match addr.octets with
  | (10, _, _, _) => true
  | (172, b, _, _) => 16 ≤ b && b ≤ 31
  | (192, 168, _, _) => true
  | _ => false

/-- `Display`. -/
def text (addr : Ipv4Addr) : String :=
  toString addr.octets.1.toNat ++ "." ++ toString addr.octets.2.1.toNat ++ "." ++ toString addr.octets.2.2.1.toNat ++
    "." ++ toString addr.octets.2.2.2.toNat

end Ipv4Addr

/-! ## Eight groups -/

/-- `Ipv6Addr`: eight groups. -/
structure Ipv6Addr where
  segments : List UInt16
  size : segments.length = 8
  deriving DecidableEq

namespace Ipv6Addr

/-- A group of two bytes. -/
def ofOctets (hi lo : UInt8) : UInt16 := hi.toUInt16 * 256 + lo.toUInt16

/-- `read_groups`: up to `room` more groups. The flag says that an IPv4 address took the last two. -/
def readGroups : Nat → List UInt16 → List Char → List UInt16 × Bool × List Char
  | 0,        groups, input => (groups, false, input)
  | room + 1, groups, input =>
      -- two groups must be left for an IPv4 address
      let addr := if room = 0 then none
        else (Addr.readSeparator ':' groups.length input).bind Ipv4Addr.read
      match addr with
      | some (⟨a, b, c, d⟩, rest) => (groups ++ [ofOctets a b, ofOctets c d], true, rest)
      | none =>
          match (Addr.readSeparator ':' groups.length input).bind (Addr.readNumber 16 4 65535 true) with
          | some (n, rest) => readGroups room (groups ++ [UInt16.ofNat n]) rest
          | none => (groups, false, input)

/-- A row of groups does not grow beyond its room. -/
theorem length_readGroups_le (room : Nat) (groups : List UInt16) (input : List Char) :
    (readGroups room groups input).1.length ≤ groups.length + room := by
  induction room generalizing groups input with
  | zero => exact Nat.le_refl _
  | succ room ih =>
      rw [readGroups]
      split
      · -- an address takes two groups, so there was room for two
        rename_i haddr
        have hroom : room ≠ 0 := by
          rintro rfl
          cases haddr
        rw [List.length_append]
        exact Nat.add_le_add_left (by simp; omega) _
      · split
        · refine (ih _ _).trans ?_
          rw [List.length_append, List.length_singleton]
          omega
        · exact Nat.le_add_right _ _

/-- A gap is filled up to eight. -/
theorem size_filled {head : List UInt16} (input : List Char) (hgap : head.length < 8) :
    (head ++ List.replicate (8 - head.length - (readGroups (8 - (head.length + 1)) [] input).1.length) 0 ++
      (readGroups (8 - (head.length + 1)) [] input).1).length = 8 := by
  have htail := length_readGroups_le (8 - (head.length + 1)) [] input
  rw [List.length_nil, Nat.zero_add] at htail
  rw [List.length_append, List.length_append, List.length_replicate]
  omega

/-- `read_ipv6_addr`: eight groups, or `::` for a run of zeroes. -/
def read (input : List Char) : Option (Ipv6Addr × List Char) :=
  let head := readGroups 8 [] input
  if h : head.1.length = 8 then some (⟨head.1, h⟩, head.2.2)
  else if head.2.1 then none
  else match head.2.2 with
    | ':' :: ':' :: rest =>
        let tail := readGroups (8 - (head.1.length + 1)) [] rest
        some (⟨head.1 ++ List.replicate (8 - head.1.length - tail.1.length) 0 ++ tail.1,
          size_filled rest (Nat.lt_of_le_of_ne (length_readGroups_le 8 [] input) h)⟩, tail.2.2)
    | _ => none

/-- `str::parse::<Ipv6Addr>`. -/
def parse (s : String) : Option Ipv6Addr :=
  match read s.toList with
  | some (addr, []) => some addr
  | _ => none

def isLoopback (addr : Ipv6Addr) : Bool := addr.segments == [0, 0, 0, 0, 0, 0, 0, 1]

/-- Lowercase hex, without leading zeros. -/
def hexDigits (n : UInt16) : String := String.ofList (Nat.toDigits 16 n.toNat)

/-- The longest run of zeros, the first of the longest: start and length. -/
def longestZeros : (index : Nat) → (current longest : Nat × Nat) → List UInt16 → Nat × Nat
  | _, _, longest, [] => longest
  | index, current, longest, segment :: segments =>
      if segment = 0 then
        let current := (if current.2 = 0 then index else current.1, current.2 + 1)
        longestZeros (index + 1) current (if longest.2 < current.2 then current else longest) segments
      else longestZeros (index + 1) (0, 0) longest segments

/-- `fmt_subslice`. -/
def writeSegments (segments : List UInt16) : String := ":".intercalate (segments.map hexDigits)

/-- `Display`. -/
def text (addr : Ipv6Addr) : String :=
  match addr.segments with
  | [0, 0, 0, 0, 0, 0xFFFF, hi, lo] =>
      "::ffff:" ++ Ipv4Addr.text ⟨(hi / 256).toUInt8, (hi % 256).toUInt8, (lo / 256).toUInt8, (lo % 256).toUInt8⟩
  | segments =>
      let (start, len) := longestZeros 0 (0, 0) (0, 0) segments
      if 1 < len then writeSegments (segments.take start) ++ "::" ++ writeSegments (segments.drop (start + len))
      else writeSegments segments

end Ipv6Addr

/-! ## Either of them -/

inductive IpAddr where
  | v4 (addr : Ipv4Addr)
  | v6 (addr : Ipv6Addr)
  deriving DecidableEq

namespace IpAddr

/-- The numbers of an address; their count tells the family. -/
def parts : IpAddr → List UInt16
  | v4 ⟨a, b, c, d⟩ => [a.toUInt16, b.toUInt16, c.toUInt16, d.toUInt16]
  | v6 addr => addr.segments

theorem parts_injective : Function.Injective parts := by
  have hwide : ∀ a b : UInt8, a.toUInt16 = b.toUInt16 → a = b := by
    intro a b h
    rw [← UInt8.toUInt8_toUInt16 a, h, UInt8.toUInt8_toUInt16]
  have hsizes : ∀ (a : Ipv4Addr) (b : Ipv6Addr), parts (v4 a) ≠ parts (v6 b) := by
    intro a b h
    have hlength := congrArg List.length h
    rw [show (parts (v6 b)).length = 8 from b.size] at hlength
    cases hlength
  intro a b h
  cases a with
  | v4 a =>
      cases b with
      | v4 b =>
          obtain ⟨a₁, a₂, a₃, a₄⟩ := a
          obtain ⟨b₁, b₂, b₃, b₄⟩ := b
          simp only [parts, List.cons.injEq, and_true] at h
          obtain ⟨h₁, h₂, h₃, h₄⟩ := h
          rw [hwide _ _ h₁, hwide _ _ h₂, hwide _ _ h₃, hwide _ _ h₄]
      | v6 b => exact absurd h (hsizes a b)
  | v6 a =>
      cases b with
      | v4 b => exact absurd h.symm (hsizes b a)
      | v6 b =>
          obtain ⟨a, size⟩ := a
          obtain rfl : a = b.segments := h
          rfl

instance : Ord IpAddr := ⟨compareOn parts⟩
instance : TransOrd IpAddr := inferInstanceAs (TransCmp (compareOn parts))
instance : LawfulEqOrd IpAddr := lawfulEqCmp_compareOn parts_injective

/-- `read_ip_addr`. -/
def read (input : List Char) : Option (IpAddr × List Char) :=
  match Ipv4Addr.read input with
  | some (addr, rest) => some (v4 addr, rest)
  | none => (Ipv6Addr.read input).map (fun r => (v6 r.1, r.2))

/-- `IpAddr::from_str`: nothing may follow. -/
def parse (s : String) : Option IpAddr :=
  match read s.toList with
  | some (addr, []) => some addr
  | _ => none

/-- `Display`. -/
def text : IpAddr → String
  | v4 addr => addr.text
  | v6 addr => addr.text

example : (parse "2001:db8::192.0.2.33").map text = some "2001:db8::c000:221" := by decide +kernel
example : (parse "::ffff:c000:0221").map text = some "::ffff:192.0.2.33" := by decide +kernel
example : parse "192.0.02.1" = none := by decide +kernel

end IpAddr

/-! ## Dotted decimals read back -/

namespace Addr

theorem toDigit_digit {c : Char} (h : c.isDigit = true) : toDigit 10 c = some (c.toNat - 48) := by
  obtain ⟨hlow, hhigh⟩ := Decimal.bounds_of_isDigit h
  have hrange : '0' ≤ c ∧ c ≤ '9' := ⟨hlow, hhigh⟩
  rw [toDigit, if_pos hrange]
  exact Option.filter_some_pos (by simpa using (by omega : c.toNat - 48 < 10))

/-- A number is read up to the first character that is no digit. -/
theorem takeWhile_toDigits (n : Nat) {rest : List Char} (hrest : ∀ c ∈ rest.head?, toDigit 10 c = none) :
    (Nat.toDigits 10 n ++ rest).takeWhile (fun c => (toDigit 10 c).isSome) = Nat.toDigits 10 n := by
  have hdigits : ∀ c ∈ Nat.toDigits 10 n, (toDigit 10 c).isSome = true := by
    intro c hc
    rw [toDigit_digit (Decimal.isDigit_toDigits c hc)]
    rfl
  rw [List.takeWhile_append_of_pos hdigits]
  cases rest with
  | nil => exact List.append_nil _
  | cons c rest => rw [List.takeWhile_cons_of_neg (by simp [hrest c rfl]), List.append_nil]

theorem length_toDigits : ∀ n < 256, (Nat.toDigits 10 n).length ≤ 3 := by
  decide +kernel

/-- A printed octet is read up to what follows. -/
theorem readNumber_toDigits {n : Nat} (hn : n < 256) {rest : List Char}
    (hrest : ∀ c ∈ rest.head?, toDigit 10 c = none) :
    readNumber 10 3 255 false (Nat.toDigits 10 n ++ rest) = some (n, rest) := by
  have hlength := length_toDigits n hn
  have hzero : ¬ ((!false && decide ((Nat.toDigits 10 n).head? = some '0') &&
      decide (1 < (Nat.toDigits 10 n).length)) = true) := by
    simp only [Bool.not_false, Bool.true_and, Bool.and_eq_true, decide_eq_true_eq, not_and, Nat.not_lt]
    intro hhead
    rw [(Decimal.plain_toDigits n).2 hhead]
    exact Nat.le_refl 1
  have hvalue : (Nat.toDigits 10 n).foldl (fun acc c => acc * 10 + (toDigit 10 c).getD 0) 0 = n := by
    refine Eq.trans (List.foldl_ext _ _ _ (fun acc c hc => ?_)) (Decimal.value_toDigits n)
    rw [toDigit_digit (Decimal.isDigit_toDigits c hc), Option.getD_some]
  have hfew : ¬ (Nat.toDigits 10 n = [] ∨ 3 < (Nat.toDigits 10 n).length) := by
    rintro (hnil | hlong)
    · exact Nat.toDigits_ne_nil hnil
    · omega
  rw [readNumber, takeWhile_toDigits n hrest]
  simp only [if_neg hfew, if_neg hzero, hvalue, if_pos (Nat.le_of_lt_succ hn), List.drop_left]

/-- What stands before the octet of this place. -/
def dot (index : Nat) : List Char := if index = 0 then [] else ['.']

theorem readOctet_text (index : Nat) (b : UInt8) {rest : List Char} (hrest : ∀ c ∈ rest.head?, toDigit 10 c = none) :
    readOctet index (dot index ++ (Nat.toDigits 10 b.toNat ++ rest)) = some (b, rest) := by
  have hskip : readSeparator '.' index (dot index ++ (Nat.toDigits 10 b.toNat ++ rest)) =
      some (Nat.toDigits 10 b.toNat ++ rest) := by
    cases index with
    | zero => rfl
    | succ index => rfl
  rw [readOctet, hskip]
  simp only [Option.bind_eq_bind, Option.bind_some, readNumber_toDigits b.toNat_lt hrest, UInt8.ofNat_toNat]
  rfl

end Addr

/-- An address is read back from its text. -/
theorem Ipv4Addr.parse_text (addr : Ipv4Addr) : parse addr.text = some addr := by
  obtain ⟨a, b, c, d⟩ := addr
  have hlist : (text ⟨a, b, c, d⟩).toList =
      Addr.dot 0 ++ (Nat.toDigits 10 a.toNat ++ (Addr.dot 1 ++ (Nat.toDigits 10 b.toNat ++ (Addr.dot 2 ++
        (Nat.toDigits 10 c.toNat ++ (Addr.dot 3 ++ (Nat.toDigits 10 d.toNat ++ []))))))) := by
    simp only [text, String.toList_append]
    have hdigits : ∀ n : Nat, (toString n).toList = Nat.toDigits 10 n := fun n => Nat.toList_repr
    simp only [hdigits, Addr.dot]
    simp
  have hdot : ∀ (index : Nat) (rest : List Char),
      ∀ x ∈ (Addr.dot (index + 1) ++ rest).head?, Addr.toDigit 10 x = none := by
    intro index rest x hx
    obtain rfl : '.' = x := Option.some.inj hx
    rfl
  have hend : ∀ x ∈ ([] : List Char).head?, Addr.toDigit 10 x = none := by simp
  rw [parse, hlist, read]
  simp only [Option.bind_eq_bind, Option.bind_some, Addr.readOctet_text 0 a (hdot 0 _),
    Addr.readOctet_text 1 b (hdot 1 _), Addr.readOctet_text 2 c (hdot 2 _), Addr.readOctet_text 3 d hend]
  rfl

end Nula
