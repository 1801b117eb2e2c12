import Nula.Core.Primitives
import Nula.Lib.Decoder

/-!
# `Core.Negentropy` — the NIP-77 payload codec (`nips/nip77.rs`)

A reconciliation payload is a version byte and a list of ranges; each range is a bound, whose timestamp is
written as its distance to the one before, and what the sender says about the range. The decoder's cursor is
the rest of the buffer. A `usize` is 64 bits wide, so its conversions from `u64` do not fail.

## Contents
- **Numbers.** `writeVarint` and `readVarint`: base 128, the most significant digit first.
- **Bounds and ranges.** The encoders thread the previous timestamp, the decoders thread it the same way.
- **Payloads.** `decode_encode`, and what every decoded payload is like (`canonical_of_decode`).
-/

namespace Nula.Negentropy

/-- `INFINITY_TIMESTAMP`. -/
def infinityTimestamp : UInt64 := 0xFFFFFFFFFFFFFFFF

/-- `RESERVED_TIMESTAMP_INFINITY_OFFSET`. -/
def reservedTimestampInfinityOffset : UInt64 := 0

/-- `NegProtocolVersion`. -/
structure NegProtocolVersion where
  byte : UInt8
  deriving DecidableEq

namespace NegProtocolVersion

/-- `NegProtocolVersion::V1`. -/
def v1 : NegProtocolVersion := ⟨0x61⟩

/-- `NegProtocolVersion::from_byte`. -/
def fromByte (byte : UInt8) : Option NegProtocolVersion :=
  if 0x60 ≤ byte ∧ byte < 0x70 then some ⟨byte⟩ else none

end NegProtocolVersion

/-- `NegBound`: where a range ends. -/
structure NegBound where
  timestamp : UInt64
  idPrefix : Bytes
  deriving DecidableEq

/-- `NegBound::infinity`. -/
def NegBound.infinity : NegBound := ⟨infinityTimestamp, []⟩

/-- `NegRangeMode`: what is said of a range. -/
inductive NegRangeMode where
  | skip
  | fingerprint (fp : Octets 16)
  | idList (ids : Vec (Octets 32))
  deriving DecidableEq

structure NegRange where
  upperBound : NegBound
  mode : NegRangeMode
  deriving DecidableEq

structure NegPayload where
  version : NegProtocolVersion
  ranges : List NegRange
  deriving DecidableEq

inductive NegentropyError where
  | unexpectedEof
  | varintOverflow
  | payloadTruncated (expected : Nat)
  | unknownRangeMode (mode : UInt64)
  | unsupportedVersion (byte : UInt8)
  | hex (e : HexError)
  deriving DecidableEq

/-! ## Numbers -/

/-- The digits of `write_varint`, the least significant first. -/
def varintDigits (value : UInt64) : Bytes :=
  let byte := (value &&& 0x7F).toUInt8
  let next := value >>> 7
  if next = 0 then [byte] else byte :: varintDigits next
termination_by value.toNat
decreasing_by
  rename_i hne
  have hpos : (value >>> 7).toNat ≠ 0 := fun h => hne (UInt64.toNat_inj.mp h)
  simp only [UInt64.toNat_shiftRight, UInt64.reduceToNat, Nat.reduceMod, Nat.shiftRight_eq_div_pow] at hpos ⊢
  omega

/-- `write_varint`. -/
def writeVarint (value : UInt64) : Bytes :=
  let tmp := varintDigits value
  tmp.reverse.mapIdx (fun i byte => if i + 1 < tmp.length then byte ||| 0x80 else byte)

/-- `u64::checked_shl`. -/
def checkedShl (value : UInt64) (bits : Nat) : Option UInt64 :=
  if bits < 64 then some (value <<< UInt64.ofNat bits) else none

/-- The byte at the cursor. -/
def nextByte : Decoder NegentropyError UInt8 := fun
  | []        => .error .unexpectedEof
  | b :: rest => .ok (b, rest)

/-- The loop of `read_varint`. -/
def readVarintLoop : Nat → UInt64 → Decoder NegentropyError UInt64
  | 0,          _     => throw .varintOverflow
  | rounds + 1, value => do
      let byte ← nextByte
      match checkedShl value 7 with
      | none => throw .varintOverflow
      | some shifted =>
          let value := shifted ||| (byte &&& 0x7F).toUInt64
          if byte &&& 0x80 = 0 then return value else readVarintLoop rounds value

/-- `read_varint`. -/
def readVarint : Decoder NegentropyError UInt64 := readVarintLoop 10 0

section Varint

variable (v : UInt64)

/-- Cutting seven bits off and cutting to a byte commute. -/
theorem byte_eq : (v &&& 0x7F).toUInt8 = v.toUInt8 &&& 0x7F := by
  rw [UInt64.toUInt8_and]
  rfl

/-- The last digit has no continuation bit, and keeps its value. -/
theorem byte_last (x : UInt8) : x &&& 0x7F &&& 0x80 = 0 ∧ x &&& 0x7F &&& 0x7F = x &&& 0x7F := by
  revert x
  decide +kernel

/-- A continued digit has the continuation bit, and keeps its value. -/
theorem byte_continued (x : UInt8) :
    (x &&& 0x7F ||| 0x80) &&& 0x80 ≠ 0 ∧ (x &&& 0x7F ||| 0x80) &&& 0x7F = x &&& 0x7F := by
  revert x
  decide +kernel

/-- A number is its high digits followed by its last. -/
theorem shifted_or_byte : (v >>> 7) <<< 7 ||| (v.toUInt8 &&& 0x7F).toUInt64 = v := by
  apply UInt64.toNat_inj.mp
  have hlow : ((v.toUInt8 &&& 0x7F).toUInt64).toNat = v.toNat % 2 ^ 7 := by
    have hmask : (0x7F : UInt8).toNat = 2 ^ 7 - 1 := rfl
    rw [UInt8.toNat_toUInt64, UInt8.toNat_and, UInt64.toNat_toUInt8, hmask, Nat.and_two_pow_sub_one_eq_mod]
    omega
  have hhigh : ((v >>> 7) <<< 7).toNat = (v.toNat / 2 ^ 7) <<< 7 := by
    have hlt := v.toNat_lt
    simp only [UInt64.toNat_shiftLeft, UInt64.toNat_shiftRight, UInt64.reduceToNat, Nat.reduceMod,
      Nat.shiftRight_eq_div_pow, Nat.shiftLeft_eq]
    omega
  rw [UInt64.toNat_or, hlow, hhigh, ← Nat.shiftLeft_add_eq_or_of_lt (Nat.mod_lt _ (by decide)), Nat.shiftLeft_eq]
  omega

theorem shiftRight_toNat : (v >>> 7).toNat = v.toNat / 128 := by
  simp [UInt64.toNat_shiftRight, Nat.shiftRight_eq_div_pow]

theorem varintDigits_last {v : UInt64} (h : v >>> 7 = 0) : varintDigits v = [v.toUInt8 &&& 0x7F] := by
  rw [varintDigits, byte_eq, if_pos h]

theorem varintDigits_more {v : UInt64} (h : v >>> 7 ≠ 0) :
    varintDigits v = (v.toUInt8 &&& 0x7F) :: varintDigits (v >>> 7) := by
  rw [varintDigits, byte_eq, if_neg h]

/-- `n` digits for a number below `128 ^ n`. -/
theorem varintDigits_length {n : Nat} (h : v.toNat < 128 ^ (n + 1)) : (varintDigits v).length ≤ n + 1 := by
  induction n generalizing v with
  | zero =>
      have hz : v >>> 7 = 0 := by
        apply UInt64.toNat_inj.mp
        rw [shiftRight_toNat]
        exact Nat.div_eq_of_lt h
      rw [varintDigits_last hz, List.length_singleton]
  | succ n ih =>
      by_cases hz : v >>> 7 = 0
      · rw [varintDigits_last hz, List.length_singleton]
        omega
      · have hnext : (v >>> 7).toNat < 128 ^ (n + 1) := by
          rw [shiftRight_toNat]
          rw [Nat.pow_succ] at h
          exact Nat.div_lt_of_lt_mul (by omega)
        rw [varintDigits_more hz, List.length_cons]
        exact Nat.succ_le_succ (ih _ hnext)

/-- The digits of `v`, the most significant first, with the continuation bit on all of them. -/
def continued (v : UInt64) : Bytes := (varintDigits v).reverse.map (· ||| 0x80)

/-- The digits as they are written: the highest first, all but the last continued. -/
theorem writeVarint_eq :
    writeVarint v = (if v >>> 7 = 0 then [] else continued (v >>> 7)) ++ [v.toUInt8 &&& 0x7F] := by
  have hmark (l : Bytes) (n : Nat) (hn : l.length < n) :
      l.mapIdx (fun i byte => if i + 1 < n then byte ||| 0x80 else byte) = l.map (· ||| 0x80) := by
    apply List.ext_getElem
    · simp
    · intro i h₁ h₂
      rw [List.length_map] at h₂
      rw [List.getElem_mapIdx, List.getElem_map, if_pos (by omega)]
  unfold writeVarint
  by_cases hz : v >>> 7 = 0
  · rw [varintDigits_last hz, if_pos hz]
    rfl
  · rw [varintDigits_more hz, if_neg hz]
    dsimp only
    rw [List.reverse_cons, List.mapIdx_append, hmark _ _ (by simp)]
    simp [continued]

/-- One digit at the end of `v`'s, read after the ones before it. -/
theorem read_digit (rounds : Nat) (byte : UInt8) (rest : Bytes) (hbits : byte &&& 0x7F = v.toUInt8 &&& 0x7F) :
    (readVarintLoop (rounds + 1) (v >>> 7)).run (byte :: rest) =
      if byte &&& 0x80 = 0 then .ok (v, rest) else (readVarintLoop rounds v).run rest := by
  have hstep : (readVarintLoop (rounds + 1) (v >>> 7)).run (byte :: rest) =
      (if byte &&& 0x80 = 0 then pure ((v >>> 7) <<< 7 ||| (byte &&& 0x7F).toUInt64)
        else readVarintLoop rounds ((v >>> 7) <<< 7 ||| (byte &&& 0x7F).toUInt64) :
          Decoder NegentropyError UInt64).run rest := rfl
  rw [hstep, hbits, shifted_or_byte]
  split <;> rfl

/-- Reading a continued digit goes on with what it stands for. -/
theorem read_digit_continued (rounds : Nat) (rest : Bytes) :
    (readVarintLoop (rounds + 1) (v >>> 7)).run ((v.toUInt8 &&& 0x7F ||| 0x80) :: rest) =
      (readVarintLoop rounds v).run rest := by
  obtain ⟨hbit, hlow⟩ := byte_continued v.toUInt8
  rw [read_digit v rounds _ rest hlow, if_neg hbit]

end Varint

/-- The continued digits bring the loop to their value. -/
theorem read_continued (v : UInt64) (rounds : Nat) (rest : Bytes) :
    (readVarintLoop (rounds + (varintDigits v).length) 0).run (continued v ++ rest) =
      (readVarintLoop rounds v).run rest := by
  induction v using varintDigits.induct generalizing rounds rest with
  | case1 v next hz =>
      have hlast := read_digit_continued v rounds rest
      rw [show v >>> 7 = 0 from hz] at hlast
      rw [continued, varintDigits_last hz]
      exact hlast
  | case2 v next hz ih =>
      have hshift : continued v ++ rest = continued next ++ (v.toUInt8 &&& 0x7F ||| 0x80) :: rest := by
        rw [continued, varintDigits_more hz]
        simp [continued, next]
      rw [hshift, varintDigits_more hz, List.length_cons,
        show rounds + ((varintDigits next).length + 1) = rounds + 1 + (varintDigits next).length by omega, ih]
      exact read_digit_continued v rounds rest

/-- **Varint round trip.** -/
theorem reads_writeVarint (v : UInt64) : Reads readVarint (writeVarint v) v := by
  intro rest
  obtain ⟨hbit, hlow⟩ := byte_last v.toUInt8
  have hlast (rounds : Nat) : (readVarintLoop (rounds + 1) (v >>> 7)).run ((v.toUInt8 &&& 0x7F) :: rest) =
      .ok (v, rest) := by
    rw [read_digit v rounds _ rest hlow, if_pos hbit]
  rw [writeVarint_eq, List.append_assoc, List.singleton_append, readVarint]
  by_cases hz : v >>> 7 = 0
  · rw [if_pos hz, List.nil_append, ← hz]
    exact hlast 9
  · have hlen : (varintDigits (v >>> 7)).length ≤ 9 := by
      apply varintDigits_length _ (n := 8)
      have := v.toNat_lt
      rw [shiftRight_toNat]
      omega
    obtain ⟨rounds, hrounds⟩ := Nat.exists_eq_add_of_le hlen
    rw [if_neg hz, show 10 = rounds + 1 + (varintDigits (v >>> 7)).length by omega, read_continued]
    exact hlast rounds

/-! ## Bounds -/

/-- `u64::saturating_sub`. -/
def saturatingSub (a b : UInt64) : UInt64 := if b ≤ a then a - b else 0

/-- `u64::saturating_add`. -/
def saturatingAdd (a b : UInt64) : UInt64 :=
  if a.toNat + b.toNat < 2 ^ 64 then a + b else 0xFFFFFFFFFFFFFFFF

/-- `read_chunk`. -/
def readChunk (len : Nat) : Decoder NegentropyError (Octets len) := fun buf =>
  if h : len ≤ buf.length then .ok (⟨buf.take len, by rw [List.length_take, Nat.min_eq_left h]⟩, buf.drop len)
  else .error (.payloadTruncated (len - buf.length))

theorem reads_chunk {n : Nat} (b : Octets n) : Reads (readChunk n) b.1 b := by
  intro rest
  obtain ⟨b, rfl⟩ := b
  have hlen : b.length ≤ (b ++ rest).length := by simp
  rw [show (readChunk b.length).run (b ++ rest) = readChunk b.length (b ++ rest) from rfl, readChunk, dif_pos hlen]
  simp

/-- `encode_bound`: the bytes, and the new `prev_timestamp`. -/
def encodeBound (prevTimestamp : UInt64) (bound : NegBound) : Bytes × UInt64 :=
  let encodedTs :=
    if bound.timestamp = infinityTimestamp then reservedTimestampInfinityOffset
    else saturatingAdd (saturatingSub bound.timestamp prevTimestamp) 1
  let prevTimestamp := if bound.timestamp ≠ infinityTimestamp then bound.timestamp else prevTimestamp
  let len := min bound.idPrefix.length 32
  (writeVarint encodedTs ++ (writeVarint (UInt64.ofNat len) ++ bound.idPrefix.take len), prevTimestamp)

/-- The timestamp of `decode_bound`, and the new `prev_timestamp`. -/
def decodeTimestamp (prevTimestamp tsField : UInt64) : UInt64 × UInt64 :=
  if tsField = reservedTimestampInfinityOffset then (infinityTimestamp, prevTimestamp)
  else
    let value := saturatingAdd prevTimestamp (saturatingSub tsField 1)
    (value, value)

/-- `decode_bound`. -/
def decodeBound (prevTimestamp : UInt64) : Decoder NegentropyError (NegBound × UInt64) := do
  let tsField ← readVarint
  let (timestamp, prevTimestamp) := decodeTimestamp prevTimestamp tsField
  let len ← readVarint
  if 32 < len.toNat then throw (.payloadTruncated len.toNat)
  else do
    let chunk ← readChunk len.toNat
    return (⟨timestamp, chunk.1⟩, prevTimestamp)

/-- What the writer asks of a bound that follows `prevTimestamp`. -/
structure Encodable (prevTimestamp : UInt64) (bound : NegBound) : Prop where
  ascends : bound.timestamp ≠ infinityTimestamp → prevTimestamp ≤ bound.timestamp
  short : bound.idPrefix.length ≤ 32

/-- The distance is written with an offset of one, which leaves zero to infinity. -/
theorem decodeTimestamp_encoded {prev ts : UInt64} (h : prev ≤ ts) (hfin : ts ≠ infinityTimestamp) :
    decodeTimestamp prev (saturatingAdd (saturatingSub ts prev) 1) = (ts, ts) := by
  have hlt : ts.toNat < 2 ^ 64 - 1 := by
    have hne : ts.toNat ≠ infinityTimestamp.toNat := fun h => hfin (UInt64.toNat_inj.mp h)
    have := ts.toNat_lt
    rw [show infinityTimestamp.toNat = 2 ^ 64 - 1 from rfl] at hne
    omega
  have hle := UInt64.le_iff_toNat_le.mp h
  have hsub : (ts - prev).toNat = ts.toNat - prev.toNat := UInt64.toNat_sub_of_le _ _ h
  have hone : (ts - prev + 1).toNat = ts.toNat - prev.toNat + 1 := by
    rw [UInt64.toNat_add, hsub, UInt64.toNat_one]
    omega
  have hadd : saturatingAdd (saturatingSub ts prev) 1 = ts - prev + 1 := by
    rw [saturatingSub, if_pos h, saturatingAdd, hsub, UInt64.toNat_one, if_pos (by omega)]
  have hpos : ts - prev + 1 ≠ reservedTimestampInfinityOffset := by
    intro hzero
    rw [hzero] at hone
    exact absurd hone (by simp [reservedTimestampInfinityOffset])
  have hback : saturatingSub (ts - prev + 1) 1 = ts - prev := by
    rw [saturatingSub, if_pos (UInt64.le_iff_toNat_le.mpr (by rw [hone, UInt64.toNat_one]; omega))]
    exact UInt64.add_sub_cancel _ _
  rw [hadd, decodeTimestamp, if_neg hpos, hback, saturatingAdd, hsub, if_pos (by omega)]
  have hsum : prev + (ts - prev) = ts := by
    rw [UInt64.add_comm]
    exact UInt64.sub_add_cancel _ _
  rw [hsum]

/-- A bound is read back, with the timestamp that the next one counts from, if its own does not lie before the last. -/
theorem reads_bound {prev : UInt64} {bound : NegBound} (h : Encodable prev bound) :
    Reads (decodeBound prev) (encodeBound prev bound).1 (bound, (encodeBound prev bound).2) := by
  obtain ⟨ts, pre⟩ := bound
  have hlen : min pre.length 32 = pre.length := Nat.min_eq_left h.short
  have hnat : (UInt64.ofNat pre.length).toNat = pre.length := by
    rw [UInt64.toNat_ofNat']
    have := h.short
    exact Nat.mod_eq_of_lt (by omega)
  have htail (next : UInt64) : Reads (do
      let len ← readVarint
      if 32 < len.toNat then throw (.payloadTruncated len.toNat)
      else do
        let chunk ← readChunk len.toNat
        return (⟨ts, chunk.1⟩, next)) (writeVarint (UInt64.ofNat pre.length) ++ pre)
      ((⟨ts, pre⟩, next) : NegBound × UInt64) := by
    refine (reads_writeVarint _).bind ?_
    rw [hnat, if_neg (Nat.not_lt.mpr h.short)]
    exact (reads_chunk ⟨pre, rfl⟩).bind_last (Reads.pure _)
  rw [encodeBound]
  dsimp only
  rw [hlen, List.take_length]
  refine (reads_writeVarint _).bind ?_
  by_cases hinf : ts = infinityTimestamp
  · rw [if_pos hinf, if_neg (not_not.mpr hinf), decodeTimestamp, if_pos rfl, ← hinf]
    exact htail prev
  · rw [if_neg hinf, if_pos hinf, decodeTimestamp_encoded (h.ascends hinf) hinf]
    exact htail ts

/-! ## Ranges -/

/-- The mode part of `encode_range`. -/
def encodeMode : NegRangeMode → Bytes
  | .skip => writeVarint 0
  | .fingerprint fp => writeVarint 1 ++ fp.1
  | .idList ids => writeVarint 2 ++ (writeVarint ids.len ++ ids.toList.flatMap Subtype.val)

/-- `encode_range`. -/
def encodeRange (prevTimestamp : UInt64) (range : NegRange) : Bytes × UInt64 :=
  let (bound, prevTimestamp) := encodeBound prevTimestamp range.upperBound
  (bound ++ encodeMode range.mode, prevTimestamp)

/-- The mode part of `decode_range`. -/
def decodeMode : Decoder NegentropyError NegRangeMode := do
  let mode ← readVarint
  if mode = 0 then return .skip
  else if mode = 1 then do
    let fp ← readChunk 16
    return .fingerprint fp
  else if mode = 2 then do
    let count ← readVarint
    let ids ← (readChunk 32).times count.toNat
    return .idList ⟨ids.1, by rw [ids.2]; exact count.toNat_lt⟩
  else throw (.unknownRangeMode mode)

/-- `decode_range`. -/
def decodeRange (prevTimestamp : UInt64) : Decoder NegentropyError (NegRange × UInt64) := do
  let (upperBound, prevTimestamp) ← decodeBound prevTimestamp
  let mode ← decodeMode
  return (⟨upperBound, mode⟩, prevTimestamp)

/-- A mode is read back: its number tells which it is. -/
theorem reads_mode (mode : NegRangeMode) : Reads decodeMode (encodeMode mode) mode := by
  cases mode with
  | skip => exact (reads_writeVarint 0).bind_last (Reads.pure _)
  | fingerprint fp => exact (reads_writeVarint 1).bind ((reads_chunk fp).bind_last (Reads.pure _))
  | idList ids =>
      refine (reads_writeVarint 2).bind ((reads_writeVarint ids.len).bind ?_)
      exact (Reads.times (fun id _ => reads_chunk id) ids.len_toNat.symm).bind_last (Reads.pure _)

/-- A range is read back with its bound and mode. -/
theorem reads_range {prev : UInt64} {range : NegRange} (h : Encodable prev range.upperBound) :
    Reads (decodeRange prev) (encodeRange prev range).1 (range, (encodeRange prev range).2) :=
  (reads_bound h).bind ((reads_mode range.mode).bind_last (Reads.pure _))

/-! ### Every decoder moves the cursor forward, and a range by a byte at least -/

theorem consumes_nextByte : Consumes nextByte := by
  intro buf b rest h
  cases buf with
  | nil => cases h
  | cons x xs =>
      cases h
      exact Nat.lt_succ_self _

/-- Reading digits does not lengthen what is left. -/
theorem shrinks_readVarintLoop (rounds : Nat) (value : UInt64) : Shrinks (readVarintLoop rounds value) := by
  induction rounds generalizing value with
  | zero => exact Shrinks.throw _
  | succ rounds ih =>
      refine consumes_nextByte.shrinks.bind (fun byte => ?_)
      split
      · exact Shrinks.throw _
      split
      · exact Shrinks.pure _
      · exact ih _

theorem consumes_readVarint : Consumes readVarint := by
  refine consumes_nextByte.bind (fun byte => ?_)
  split
  · exact Shrinks.throw _
  split
  · exact Shrinks.pure _
  · exact shrinks_readVarintLoop _ _

theorem shrinks_readChunk (n : Nat) : Shrinks (readChunk n) := by
  intro buf chunk rest h
  rw [show (readChunk n).run buf = readChunk n buf from rfl, readChunk] at h
  split at h
  · cases h
    rw [List.length_drop]
    omega
  · cases h

theorem shrinks_decodeMode : Shrinks decodeMode := by
  refine consumes_readVarint.shrinks.bind (fun mode => ?_)
  split
  · exact Shrinks.pure _
  split
  · exact (shrinks_readChunk 16).bind (fun _ => Shrinks.pure _)
  split
  · exact consumes_readVarint.shrinks.bind
      (fun count => ((shrinks_readChunk 32).times count.toNat).bind (fun _ => Shrinks.pure _))
  · exact Shrinks.throw _

theorem consumes_decodeBound (prev : UInt64) : Consumes (decodeBound prev) := by
  refine consumes_readVarint.bind (fun tsField => consumes_readVarint.shrinks.bind (fun len => ?_))
  split
  · exact Shrinks.throw _
  · exact (shrinks_readChunk _).bind (fun _ => Shrinks.pure _)

theorem consumes_decodeRange (prev : UInt64) : Consumes (decodeRange prev) :=
  (consumes_decodeBound prev).bind (fun _ => shrinks_decodeMode.bind (fun _ => Shrinks.pure _))

/-! ## Payloads -/

/-- `encode_payload`. -/
def encodePayload (payload : NegPayload) : Bytes :=
  payload.version.byte :: putAll encodeRange 0 payload.ranges

/-- `decode_payload`. -/
def decodePayload : Bytes → Except NegentropyError NegPayload
  | [] => .error .unexpectedEof
  | versionByte :: rest =>
      match NegProtocolVersion.fromByte versionByte with
      | none => .error (.unsupportedVersion versionByte)
      | some version => (drain decodeRange consumes_decodeRange 0 rest).map (⟨version, ·⟩)

/-- The timestamps of the finite bounds, in list order. -/
def finiteTimestamps (ranges : List NegRange) : List UInt64 :=
  (ranges.map (·.upperBound.timestamp)).filter (· ≠ infinityTimestamp)

/-- What the encoding can express: a supported version, finite bounds in order, id prefixes of at most 32 bytes. -/
structure Canonical (payload : NegPayload) : Prop where
  supported : (NegProtocolVersion.fromByte payload.version.byte).isSome = true
  sorted : (finiteTimestamps payload.ranges).Pairwise (· ≤ ·)
  short : ∀ range ∈ payload.ranges, range.upperBound.idPrefix.length ≤ 32

/-- The timestamps of a row of ranges, without the infinite ones. -/
theorem finiteTimestamps_cons (range : NegRange) (ranges : List NegRange) :
    finiteTimestamps (range :: ranges) =
      if range.upperBound.timestamp ≠ infinityTimestamp then
        range.upperBound.timestamp :: finiteTimestamps ranges
      else finiteTimestamps ranges := by
  rw [finiteTimestamps, List.map_cons, List.filter_cons]
  simp [finiteTimestamps]

/-- `prev_timestamp` is the last finite timestamp, so it bounds what is still to come. -/
theorem along_of_sorted {prev : UInt64} {ranges : List NegRange}
    (hsorted : (finiteTimestamps ranges).Pairwise (· ≤ ·)) (hprev : ∀ ts ∈ finiteTimestamps ranges, prev ≤ ts)
    (hshort : ∀ range ∈ ranges, range.upperBound.idPrefix.length ≤ 32) :
    Along encodeRange (fun prev range => Encodable prev range.upperBound) prev ranges := by
  induction ranges generalizing prev with
  | nil => exact trivial
  | cons range ranges ih =>
      obtain ⟨hhead, hshorts⟩ := List.forall_mem_cons.mp hshort
      rw [finiteTimestamps_cons] at hsorted hprev
      have hnext : (encodeRange prev range).2 =
          if range.upperBound.timestamp ≠ infinityTimestamp then range.upperBound.timestamp else prev := rfl
      rw [Along, hnext]
      by_cases hfin : range.upperBound.timestamp ≠ infinityTimestamp
      · rw [if_pos hfin] at hsorted hprev ⊢
        obtain ⟨hlater, hsorted⟩ := List.pairwise_cons.mp hsorted
        exact ⟨⟨fun _ => hprev _ (List.mem_cons_self ..), hhead⟩, ih hsorted hlater hshorts⟩
      · rw [if_neg hfin] at hsorted hprev ⊢
        exact ⟨⟨fun h => absurd h hfin, hhead⟩, ih hsorted hprev hshorts⟩

/-- **A canonical payload comes back from its bytes.** The ranges are read one after the other, each counting from the
    timestamp the writer left off at. -/
theorem decode_of_canonical {payload : NegPayload} (h : Canonical payload) :
    decodePayload (encodePayload payload) = .ok payload := by
  obtain ⟨⟨byte⟩, ranges⟩ := payload
  have hversion : NegProtocolVersion.fromByte byte = some ⟨byte⟩ := by
    have hsome := h.supported
    dsimp only [NegProtocolVersion.fromByte] at hsome ⊢
    split at hsome
    next hrange => rw [if_pos hrange]
    next => cases hsome
  have hzero (ts : UInt64) : 0 ≤ ts := UInt64.le_iff_toNat_le.mpr (Nat.zero_le _)
  have hdrain := drain_putAll consumes_decodeRange (fun _ _ h => reads_range h)
    (along_of_sorted h.sorted (fun ts _ => hzero ts) h.short)
  rw [encodePayload, decodePayload]
  dsimp only
  rw [hversion, hdrain]
  rfl

/-- **Faithfulness.** A payload the encoding can express is decoded to itself, and so is every number.

    Each part of a payload has a lemma that its decoder reads what its encoder writes and leaves the rest
    (`reads_range`), and the loop over the ranges follows by induction (`decode_of_canonical`). -/
theorem codec_faithful {payload : NegPayload} (h : Canonical payload) :
    decodePayload (encodePayload payload) = .ok payload ∧
      ∀ v rest, readVarint.run (writeVarint v ++ rest) = .ok (v, rest) :=
  ⟨decode_of_canonical h, reads_writeVarint⟩

/-- Infinity in the middle of the list, the largest finite timestamp, an empty id list. -/
theorem codec_faithful_infinity :
    let payload : NegPayload := ⟨.v1, [⟨⟨7, [0xAB]⟩, .idList ⟨[], by decide⟩⟩, ⟨.infinity, .skip⟩,
      ⟨⟨infinityTimestamp - 1, []⟩, .fingerprint ⟨List.replicate 16 0xFF, by decide⟩⟩]⟩
    decodePayload (encodePayload payload) = .ok payload :=
  (codec_faithful ⟨by decide, by decide, by decide⟩).1

/-! ### What is decoded can be encoded -/

/-- A saturating sum is no less than its first part. -/
theorem le_saturatingAdd (a b : UInt64) : a ≤ saturatingAdd a b := by
  rw [saturatingAdd, UInt64.le_iff_toNat_le]
  split
  · rename_i h
    rw [UInt64.toNat_add, Nat.mod_eq_of_lt h]
    omega
  · have := a.toNat_lt
    exact Nat.le_of_lt_succ this

/-- A timestamp counts up from the one before it. -/
theorem le_decodeTimestamp (prev tsField : UInt64) : prev ≤ (decodeTimestamp prev tsField).2 := by
  unfold decodeTimestamp
  split
  · exact UInt64.le_refl _
  · exact le_saturatingAdd _ _

/-- A finite timestamp is where the next one counts from. -/
theorem decodeTimestamp_finite {prev tsField : UInt64} (h : (decodeTimestamp prev tsField).1 ≠ infinityTimestamp) :
    (decodeTimestamp prev tsField).1 = (decodeTimestamp prev tsField).2 := by
  unfold decodeTimestamp at h ⊢
  split
  next hzero =>
    rw [if_pos hzero] at h
    exact absurd rfl h
  next => rfl

/-- The running timestamp never falls, a finite bound is at it, and no prefix is longer than an id. -/
theorem range_of_decode {prev next : UInt64} {buf rest : Bytes} {range : NegRange}
    (h : (decodeRange prev).run buf = .ok ((range, next), rest)) :
    prev ≤ next ∧ (range.upperBound.timestamp ≠ infinityTimestamp → range.upperBound.timestamp = next) ∧
      range.upperBound.idPrefix.length ≤ 32 := by
  obtain ⟨⟨bound, next'⟩, mid, hbound, htail⟩ := Decoder.run_bind_ok.mp h
  obtain ⟨mode, mid', hmode, ⟨⟩⟩ := Decoder.run_bind_ok.mp htail
  obtain ⟨tsField, buf₁, hts, hbound⟩ := Decoder.run_bind_ok.mp hbound
  obtain ⟨len, buf₂, hlen, hbound⟩ := Decoder.run_bind_ok.mp hbound
  split at hbound
  · cases hbound
  rename_i hshort
  obtain ⟨chunk, buf₃, hchunk, ⟨⟩⟩ := Decoder.run_bind_ok.mp hbound
  exact ⟨le_decodeTimestamp prev tsField, decodeTimestamp_finite, by rw [chunk.2]; exact Nat.not_lt.mp hshort⟩

/-- **What the loop over ranges decodes is canonical**: its finite timestamps ascend from where it started, and its
    prefixes are short. By induction on the ranges. -/
theorem ranges_of_drained {prev : UInt64} {buf : Bytes} {ranges : List NegRange}
    (h : Drained decodeRange prev buf ranges) :
    (finiteTimestamps ranges).Pairwise (· ≤ ·) ∧ (∀ ts ∈ finiteTimestamps ranges, prev ≤ ts) ∧
      ∀ range ∈ ranges, range.upperBound.idPrefix.length ≤ 32 := by
  induction h with
  | nil prev => exact ⟨List.Pairwise.nil, by simp [finiteTimestamps], by simp⟩
  | @cons prev next buf rest range ranges head tail ih =>
      obtain ⟨hle, hfinite, hshort⟩ := range_of_decode head
      obtain ⟨hsorted, hnext, hshorts⟩ := ih
      have hprev : ∀ ts ∈ finiteTimestamps ranges, prev ≤ ts :=
        fun ts hts => UInt64.le_trans hle (hnext ts hts)
      rw [finiteTimestamps_cons]
      split
      · rename_i hfin
        rw [hfinite hfin]
        exact ⟨List.pairwise_cons.mpr ⟨hnext, hsorted⟩, List.forall_mem_cons.mpr ⟨hle, hprev⟩,
          List.forall_mem_cons.mpr ⟨hshort, hshorts⟩⟩
      · exact ⟨hsorted, hprev, List.forall_mem_cons.mpr ⟨hshort, hshorts⟩⟩

/-- Whatever the decoder accepts, the encoder can express. -/
theorem canonical_of_decode {bytes : Bytes} {payload : NegPayload} (h : decodePayload bytes = .ok payload) :
    Canonical payload := by
  cases bytes with
  | nil => cases h
  | cons versionByte rest =>
      rw [decodePayload] at h
      split at h
      · cases h
      · rename_i version hversion
        cases hdrain : drain decodeRange consumes_decodeRange 0 rest with
        | error e => rw [hdrain] at h; cases h
        | ok ranges =>
            rw [hdrain] at h
            cases h
            obtain ⟨hsorted, -, hshort⟩ := ranges_of_drained (drained_of_drain hdrain)
            have hbyte : version.byte = versionByte := by
              rw [NegProtocolVersion.fromByte] at hversion
              split at hversion
              · cases hversion; rfl
              · cases hversion
            exact ⟨by rw [hbyte, hversion]; rfl, hsorted, hshort⟩

/-- Decoding, encoding and decoding again changes nothing. -/
theorem decode_encode_decode {bytes : Bytes} {payload : NegPayload} (h : decodePayload bytes = .ok payload) :
    decodePayload (encodePayload payload) = .ok payload :=
  decode_of_canonical (canonical_of_decode h)

/-! ### Hex -/

/-- `encode_payload_hex`. -/
def encodePayloadHex (payload : NegPayload) : String := Hex.encode (encodePayload payload)

/-- `decode_payload_hex`. -/
def decodePayloadHex (hexStr : String) : Except NegentropyError NegPayload :=
  match Hex.decode (strBytes hexStr) with
  | .error e => .error (.hex e)
  | .ok bytes => decodePayload bytes

theorem decodePayloadHex_encode {payload : NegPayload} (h : Canonical payload) :
    decodePayloadHex (encodePayloadHex payload) = .ok payload := by
  rw [decodePayloadHex, encodePayloadHex, Hex.decode_encode]
  exact decode_of_canonical h

end Nula.Negentropy
