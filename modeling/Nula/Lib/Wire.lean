import Nula.Lib.Order

/-!
# `Lib.Wire` — self-delimiting codecs

A `Wire α` is a writer and a reader with the law that ties them: reading what was written, followed by
anything, gives the value back and leaves the rest. The combinators build a codec for a record from
codecs for its fields, so a round trip never has to be proved again, and a reader for the first fields of
a record reads a prefix of what the record's writer wrote (`prod_put`).
-/

namespace Nula

/-- A writer and a reader that stops where the writer stopped. -/
structure Wire (α : Type) where
  put : α → Bytes
  get : Bytes → Option (α × Bytes)
  get_put : ∀ (a : α) (rest : Bytes), get (put a ++ rest) = some (a, rest)

namespace Wire

variable {α β : Type}

/-! ## Numbers -/

/-- Base-128 digits, least significant first, the high bit set on all but the last. -/
def putVarint : Nat → Nat → Bytes
  | 0,        _ => []
  | fuel + 1, n =>
      if n < 128 then [UInt8.ofNat n] else UInt8.ofNat (n % 128 + 128) :: putVarint fuel (n / 128)

/-- The bytes of a variable-length number, the low seven bits of each. -/
def getVarint : Bytes → Option (Nat × Bytes)
  | [] => none
  | b :: rest =>
      if b.toNat < 128 then some (b.toNat, rest)
      else (getVarint rest).map (fun p => (p.1 * 128 + (b.toNat - 128), p.2))

/-- A number is read back from its bytes, whatever follows. -/
theorem getVarint_putVarint {fuel n : Nat} (h : n < fuel) (rest : Bytes) :
    getVarint (putVarint fuel n ++ rest) = some (n, rest) := by
  induction fuel generalizing n with
  | zero => omega
  | succ fuel ih =>
      rw [putVarint]
      by_cases hn : n < 128
      · have hb : (UInt8.ofNat n).toNat = n := by
          rw [UInt8.toNat_ofNat']
          omega
        rw [if_pos hn, List.singleton_append, getVarint, hb, if_pos hn]
      · have hb : (UInt8.ofNat (n % 128 + 128)).toNat = n % 128 + 128 := by
          rw [UInt8.toNat_ofNat']
          omega
        rw [if_neg hn, List.cons_append, getVarint, hb, if_neg (by omega), ih (by omega),
          Option.map_some, Option.some.injEq, Prod.mk.injEq]
        exact ⟨by omega, rfl⟩

/-- Unbounded numbers. -/
def varint : Wire Nat where
  put n := putVarint (n + 1) n
  get := getVarint
  get_put n rest := getVarint_putVarint (Nat.lt_succ_self n) rest

/-! ## Combinators -/

/-- Transport along a partial inverse. -/
def imap (A : Wire α) (f : β → α) (g : α → Option β) (h : ∀ b, g (f b) = some b) : Wire β where
  put b := A.put (f b)
  get bytes := (A.get bytes).bind (fun p => (g p.1).map (fun b => (b, p.2)))
  get_put b rest := by rw [A.get_put, Option.bind_some, h, Option.map_some]

/-- One after the other. -/
def prod (A : Wire α) (B : Wire β) : Wire (α × β) where
  put p := A.put p.1 ++ B.put p.2
  get bytes := (A.get bytes).bind (fun p => (B.get p.2).map (fun q => ((p.1, q.1), q.2)))
  get_put p rest := by rw [List.append_assoc, A.get_put, Option.bind_some, B.get_put, Option.map_some]

theorem prod_put (A : Wire α) (B : Wire β) (a : α) (b : β) :
    (prod A B).put (a, b) = A.put a ++ B.put b := rfl

/-- `n` values in a row. -/
def getMany (A : Wire α) : Nat → Bytes → Option (List α × Bytes)
  | 0,     bytes => some ([], bytes)
  | n + 1, bytes =>
      (A.get bytes).bind (fun p => (getMany A n p.2).map (fun q => (p.1 :: q.1, q.2)))

/-- A row of values of a known length is read back. -/
theorem getMany_put (A : Wire α) (l : List α) (rest : Bytes) :
    getMany A l.length (l.flatMap A.put ++ rest) = some (l, rest) := by
  induction l with
  | nil => rfl
  | cons a l ih =>
      rw [List.flatMap_cons, List.append_assoc, List.length_cons, getMany, A.get_put, Option.bind_some,
        ih, Option.map_some]

/-- The number of values, written by `len`, then the values. -/
def counted (len : Wire Nat) (A : Wire α) : Wire (List α) where
  put l := len.put l.length ++ l.flatMap A.put
  get bytes := (len.get bytes).bind (fun p => getMany A p.1 p.2)
  get_put l rest := by rw [List.append_assoc, len.get_put, Option.bind_some, getMany_put]

/-- The length, written by `len`, then the bytes. -/
def prefixed (len : Wire Nat) : Wire Bytes where
  put b := len.put b.length ++ b
  get bytes := (len.get bytes).bind
    (fun p => if p.1 ≤ p.2.length then some (p.2.take p.1, p.2.drop p.1) else none)
  get_put b rest := by
    rw [List.append_assoc, len.get_put, Option.bind_some, if_pos (by simp), List.take_left,
      List.drop_left]

/-- Elements written through a map are the mapped elements. -/
theorem counted_imap_put (len : Wire Nat) (A : Wire α) (f : β → α) (g : α → Option β)
    (h : ∀ b, g (f b) = some b) (l : List β) :
    (counted len (A.imap f g h)).put l = (counted len A).put (l.map f) := by
  simp only [counted, imap, List.length_map, List.flatMap_map]

end Wire

end Nula
