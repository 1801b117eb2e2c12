import Nula.Core.Nip13
import Nula.Lib.Joins

/-!
# `Core.Nip45` — sketches of event counts

The sketches of `nips/nip45.rs`: 256 registers, each the largest rank observed at it. A sketch reads as its levels, one
number for each register (`levels`), and observing a hash joins the rank of the hash at its register
(`levels_observe`), so counts from many relays may be merged in any order (`sketches_merge_like_sets`). The estimate is
floating point and is left out.
-/

namespace Nula.Nip45

/-- A SHA-256 digest. -/
abbrev Hash := Vector UInt8 32

/-- `HyperLogLog`. -/
structure HyperLogLog where
  registers : Vector UInt8 256
  deriving DecidableEq

namespace HyperLogLog

/-- `HyperLogLog::new`. -/
def new : HyperLogLog := ⟨Vector.replicate 256 0⟩

/-- `u8::saturating_add`. -/
def saturatingAdd (a b : Nat) : UInt8 := UInt8.ofNat (min (a + b) 255)

/-- What a hash writes: one more than the zero bits behind the offset, counted by the same loop as in `nip13.rs`. -/
def rank (tail : Bytes) : UInt8 := saturatingAdd (Nip13.countLeadingZeroBits 0 tail) 1

/-- `HyperLogLog::observe`. -/
def observe (offset : Nat) (hash : Hash) (sketch : HyperLogLog) : Bool × HyperLogLog :=
  if ¬ (8 ≤ offset ∧ offset ≤ 23) then (false, sketch)
  else match hash[offset]? with
    | none => (false, sketch)
    | some register =>
        let value := rank (hash.toList.drop (offset + 1))
        let slot := sketch.registers.get register.toFin
        if slot < value then (true, ⟨sketch.registers.set register.toNat value register.toNat_lt⟩) else (true, sketch)

/-- `HyperLogLog::merge`. -/
def merge (sketch other : HyperLogLog) : HyperLogLog :=
  ⟨Vector.zipWith (fun a b => if a < b then b else a) sketch.registers other.registers⟩

/-- The sketch after all hashes. -/
def observeAll (offset : Nat) (hashes : List Hash) (sketch : HyperLogLog) : HyperLogLog :=
  hashes.foldl (fun sketch hash => (observe offset hash sketch).2) sketch

end HyperLogLog

/-! ## Offsets -/

/-- `is_64_hex`. -/
def is64Hex (s : String) : Bool := (strBytes s).length = 64 && (strBytes s).all (fun b => (Hex.digit b).isSome)

/-- `coordinate_pubkey_part`. -/
def coordinatePubkeyPart (s : String) : Option String := do
  let (_, rest) ← splitOnce ':' s.toList
  let (pubkey, _) ← splitOnce ':' rest
  return String.ofList pubkey

variable (sha256 : Bytes → Bytes)

/-- `canonical_hex_for_value`. -/
def canonicalHexForValue (value : String) : String :=
  if is64Hex value then toAsciiLowercase value
  else match (coordinatePubkeyPart value).filter is64Hex with
    | some pubkey => toAsciiLowercase pubkey
    | none => Hex.encode (sha256 (strBytes value))

/-- `hex_digit_value`. -/
def hexDigitValue (byte : UInt8) : UInt8 :=
  if 48 ≤ byte ∧ byte ≤ 57 then byte - 48
  else if 97 ≤ byte ∧ byte ≤ 102 then byte - 97 + 10
  else if 65 ≤ byte ∧ byte ≤ 70 then byte - 65 + 10
  else 0

/-- `hll_offset_for_value`. -/
def hllOffsetForValue (value : String) : Nat :=
  8 + ((strBytes (canonicalHexForValue sha256 value))[32]?.elim 0 hexDigitValue).toNat

theorem hexDigitValue_lt : ∀ b : UInt8, (hexDigitValue b).toNat < 16 := by
  decide +kernel

theorem hllOffsetForValue_mem (value : String) :
    8 ≤ hllOffsetForValue sha256 value ∧ hllOffsetForValue sha256 value ≤ 23 := by
  unfold hllOffsetForValue
  cases (strBytes (canonicalHexForValue sha256 value))[32]? with
  | none => exact ⟨Nat.le_add_right _ _, by decide⟩
  | some b =>
      have hlt := hexDigitValue_lt b
      exact ⟨Nat.le_add_right _ _, Nat.add_le_add_left (Nat.le_of_lt_succ hlt) 8⟩

/-! ## Levels -/

namespace HyperLogLog

/-- What a sketch says: a number for each register. -/
def levels (sketch : HyperLogLog) (i : UInt8) : Nat := (sketch.registers.get i.toFin).toNat

theorem levels_injective : Function.Injective levels := by
  intro s t h
  have hget : ∀ (i : Nat) (hi : i < 256), s.registers[i] = t.registers[i] := by
    intro i hi
    have hlevel := congrFun h (UInt8.ofNat i)
    have hfin : (UInt8.ofNat i).toFin = ⟨i, hi⟩ := by
      apply Fin.ext
      exact UInt8.toNat_ofNat_of_lt' hi
    rw [levels, levels, hfin] at hlevel
    exact UInt8.toNat_inj.mp hlevel
  rcases s with ⟨s⟩
  rcases t with ⟨t⟩
  exact congrArg HyperLogLog.mk (Vector.ext hget)

theorem levels_new : new.levels = ⊥ := by
  funext i
  rw [levels, new, Vector.get_replicate]
  rfl

/-- **Merging is the join** of the registers, one by one. -/
theorem levels_merge (s t : HyperLogLog) : (s.merge t).levels = s.levels ⊔ t.levels := by
  funext i
  rw [Pi.sup_apply, levels, levels, levels, merge, Vector.get_eq_getElem, Vector.get_eq_getElem,
    Vector.get_eq_getElem, Vector.getElem_zipWith]
  split
  · rename_i hlt
    exact (max_eq_right (Nat.le_of_lt (UInt8.lt_iff_toNat_lt.mp hlt))).symm
  · rename_i hle
    exact (max_eq_left (Nat.le_of_not_lt (fun h => hle (UInt8.lt_iff_toNat_lt.mpr h)))).symm

/-! ## Observing -/

/-- The bytes behind the offset. -/
def tail (offset : Nat) (hash : Hash) : Bytes := hash.toList.drop (offset + 1)

/-- No more than eight zero bits a byte. -/
theorem leadingZeroBits_le (bytes : Bytes) : Nip13.leadingZeroBits bytes ≤ 8 * bytes.length := by
  induction bytes with
  | nil => exact Nat.le_refl 0
  | cons b bytes ih =>
      have hb : Nip13.leadingZeros b ≤ 8 := by
        unfold Nip13.leadingZeros
        split <;> omega
      rw [Nip13.leadingZeroBits_cons, List.length_cons]
      split <;> omega

/-- Nothing saturates behind an offset from 8 on: there are 23 bytes at most. -/
theorem rank_tail {offset : Nat} (h : 8 ≤ offset) (hash : Hash) :
    (rank (tail offset hash)).toNat = 1 + Nip13.leadingZeroBits (tail offset hash) := by
  have hbits := leadingZeroBits_le (tail offset hash)
  have hlength : (tail offset hash).length ≤ 23 := by
    rw [tail, List.length_drop, Vector.length_toList]
    omega
  rw [rank, saturatingAdd, Nip13.countLeadingZeroBits_eq (Nat.zero_le _), UInt8.toNat_ofNat']
  omega

/-- The register of a hash. -/
def place (offset : Nat) (hash : Hash) : UInt8 := (hash[offset]?).getD 0

theorem place_eq_iff {offset : Nat} (h : offset ≤ 23) {hash : Hash} {i : UInt8} :
    place offset hash = i ↔ hash[offset]? = some i := by
  have hlt : offset < 32 := by omega
  rw [place, Vector.getElem?_eq_getElem hlt, Option.getD_some, Option.some.injEq]

/-- Registers of bytes are told apart. -/
theorem toFin_ne {i j : UInt8} (h : i ≠ j) : i.toNat ≠ j.toNat := fun hnat => h (UInt8.toNat_inj.mp hnat)

/-- **A hash joins its rank at its register.** Two cases, as the register is that of the hash or another. -/
theorem levels_observe {offset : Nat} (hoffset : 8 ≤ offset ∧ offset ≤ 23) (s : HyperLogLog) (hash : Hash) :
    (observe offset hash s).2.levels =
      s.levels ⊔ Joins.single (place offset hash) (1 + Nip13.leadingZeroBits (tail offset hash)) := by
  have hlt : offset < 32 := by omega
  have hplace : hash[offset]? = some (place offset hash) := (place_eq_iff hoffset.2).mp rfl
  funext i
  rw [Pi.sup_apply, ← rank_tail hoffset.1, observe, if_neg (not_not_intro hoffset), hplace]
  dsimp only
  rw [← tail]
  unfold Joins.single
  by_cases hi : place offset hash = i
  · -- the register of the hash keeps the larger of the two
    rw [if_pos hi, ← hi]
    split
    · rename_i hless
      have hnat := UInt8.lt_iff_toNat_lt.mp hless
      have hset : ((s.registers.set (place offset hash).toNat (rank (tail offset hash))
          (place offset hash).toNat_lt).get (place offset hash).toFin) = rank (tail offset hash) := by
        rw [Vector.get_eq_getElem]
        exact Vector.getElem_set_self _
      rw [levels, hset]
      exact (max_eq_right (Nat.le_of_lt hnat)).symm
    · rename_i hmore
      exact (max_eq_left (Nat.le_of_not_lt (fun hnat => hmore (UInt8.lt_iff_toNat_lt.mpr hnat)))).symm
  · -- the others stay
    rw [if_neg hi, sup_bot_eq]
    split
    · have hset : ((s.registers.set (place offset hash).toNat (rank (tail offset hash))
          (place offset hash).toNat_lt).get i.toFin) = s.registers.get i.toFin := by
        rw [Vector.get_eq_getElem, Vector.get_eq_getElem]
        exact Vector.getElem_set_ne _ _ (toFin_ne hi)
      rw [levels, hset]
      rfl
    · rfl

/-- **What a row of hashes leaves**: each register at the highest rank of those that came to it. The order of the row
    does not matter to a join. -/
theorem levels_observeAll {offset : Nat} (h : 8 ≤ offset ∧ offset ≤ 23) (s : HyperLogLog) (hashes : List Hash) :
    (observeAll offset hashes s).levels = s.levels ⊔ hashes.toFinset.sup (fun hash =>
      Joins.single (place offset hash) (1 + Nip13.leadingZeroBits (tail offset hash))) :=
  Joins.reads_foldl (levels_observe h) s hashes

theorem observeAll_append {offset : Nat} (h : 8 ≤ offset ∧ offset ≤ 23) (s : HyperLogLog) (A B : List Hash) :
    observeAll offset (A ++ B) s = (observeAll offset A s).merge (observeAll offset B new) := by
  apply levels_injective
  rw [levels_merge]
  exact Joins.reads_foldl_append (levels_observe h) levels_new s A B

/-- The sketch is that of the set of hashes. -/
theorem observeAll_congr {offset : Nat} (h : 8 ≤ offset ∧ offset ≤ 23) (s : HyperLogLog) {A B : List Hash}
    (hsame : ∀ hash, hash ∈ A ↔ hash ∈ B) : observeAll offset A s = observeAll offset B s :=
  levels_injective (Joins.reads_foldl_congr (levels_observe h) s hsame)

/-- A register holds the largest rank of the hashes it belongs to. -/
theorem levels_observeAll_new {offset : Nat} (h : 8 ≤ offset ∧ offset ≤ 23) (hashes : List Hash) (i : UInt8) :
    (observeAll offset hashes new).levels i = (hashes.toFinset.filter (fun hash => hash[offset]? = some i)).sup
      (fun hash => 1 + Nip13.leadingZeroBits (tail offset hash)) := by
  rw [levels_observeAll h, levels_new, bot_sup_eq, Joins.sup_single_apply]
  simp only [place_eq_iff h.2]

/-- An offset out of range is refused, and leaves the sketch as it is. -/
theorem observe_outside {offset : Nat} (h : ¬ (8 ≤ offset ∧ offset ≤ 23)) (hash : Hash) (s : HyperLogLog) :
    observe offset hash s = (false, s) := if_pos h

end HyperLogLog

open HyperLogLog in
/-- **Sketches merge like sets.** A sketch is that of the set of hashes observed, a register holds the largest rank
    among the hashes that belong to it, and observing more is merging a sketch of it. Other offsets observe nothing;
    the offset of a value is never one of them.

    A sketch is the supremum of what its hashes contribute to each register (`levels_observeAll`), and merging is
    the join of two; a supremum over a set does not ask for order or repetition. -/
theorem sketches_merge_like_sets :
    (∀ offset, 8 ≤ offset ∧ offset ≤ 23 →
      (∀ A B : List Hash,
        observeAll offset B (observeAll offset A new) = (observeAll offset A new).merge (observeAll offset B new)) ∧
      (∀ A B : List Hash, (∀ hash, hash ∈ A ↔ hash ∈ B) → observeAll offset A new = observeAll offset B new) ∧
      ∀ (A : List Hash) (i : UInt8), ((observeAll offset A new).registers.get i.toFin).toNat =
        (A.toFinset.filter (fun hash => hash[offset]? = some i)).sup
          (fun hash => 1 + Nip13.leadingZeroBits (hash.toList.drop (offset + 1)))) ∧
    (∀ offset, ¬ (8 ≤ offset ∧ offset ≤ 23) → ∀ hash s, observe offset hash s = (false, s)) ∧
    ∀ (sha256 : Bytes → Bytes) (value : String),
      8 ≤ hllOffsetForValue sha256 value ∧ hllOffsetForValue sha256 value ≤ 23 := by
  refine ⟨fun offset h => ⟨fun A B => ?_, fun A B => ?_, fun A i => ?_⟩, fun offset h hash s => ?_, ?_⟩
  · rw [← observeAll_append h]
    exact (List.foldl_append).symm
  · exact observeAll_congr h new
  · exact levels_observeAll_new h A i
  · exact observe_outside h hash s
  · intro sha256 value
    exact hllOffsetForValue_mem sha256 value

end Nula.Nip45
