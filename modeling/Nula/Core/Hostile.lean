import Nula.Core.Negentropy
import Nula.Lib.Watched

/-!
# `Core.Hostile` — NIP-77 payloads that nobody encoded

The decoders of `Core.Negentropy` under observation: which bytes each number was read from, and what room was
made for a list of ids before its ids were read. The texts say, without a decoder, how a payload is laid out.
A number keeps its last 64 bits only, and room for a list is made on the word of its count.
-/

namespace Nula.Negentropy

/-- What an observer sees of a run. -/
inductive Note where
  | varint (bytes : Bytes) (value : UInt64)
  | capacity (count : Nat)
  deriving DecidableEq

namespace Hostile

open Watched hiding drain

/-! ## The decoders -/

/-- `read_varint`. -/
def readVarint : Watched Note NegentropyError UInt64 :=
  watch Negentropy.readVarint (fun bytes value => [.varint bytes value])

/-- `read_chunk`. -/
def readChunk (len : Nat) : Watched Note NegentropyError (Octets len) :=
  watch (Negentropy.readChunk len) (fun _ _ => [])

/-- `Vec::with_capacity` for ids of 32 bytes: the room must be within `isize::MAX`. -/
def withCapacity (count : Nat) : Watched Note NegentropyError Unit :=
  if 32 * count < 2 ^ 63 then note (.capacity count) else Watched.panic

/-- `decode_bound`. -/
def decodeBound (prevTimestamp : UInt64) : Watched Note NegentropyError (NegBound × UInt64) := do
  let tsField ← readVarint
  let (timestamp, prevTimestamp) := decodeTimestamp prevTimestamp tsField
  let len ← readVarint
  if 32 < len.toNat then fail (.payloadTruncated len.toNat)
  else do
    let chunk ← readChunk len.toNat
    return (⟨timestamp, chunk.1⟩, prevTimestamp)

theorem length_ids_lt (count : UInt64) (ids : { l : List (Octets 32) // l.length = count.toNat }) :
    ids.1.length < 2 ^ 64 := by
  rw [ids.2]
  exact count.toNat_lt

/-- The mode part of `decode_range`. -/
def decodeMode : Watched Note NegentropyError NegRangeMode := do
  let mode ← readVarint
  if mode = 0 then return .skip
  else if mode = 1 then do
    let fp ← readChunk 16
    return .fingerprint fp
  else if mode = 2 then do
    let count ← readVarint
    -- the room is asked for before a single id is read
    withCapacity count.toNat
    let ids ← (readChunk 32).times count.toNat
    return .idList ⟨ids.1, length_ids_lt count ids⟩
  else fail (.unknownRangeMode mode)

/-- `decode_range`. -/
def decodeRange (prevTimestamp : UInt64) : Watched Note NegentropyError (NegRange × UInt64) := do
  let (upperBound, prevTimestamp) ← decodeBound prevTimestamp
  let mode ← decodeMode
  return (⟨upperBound, mode⟩, prevTimestamp)

/-- An allocation that the decoder without memory does not make. -/
theorem simulates_withCapacity {α : Type} {w : Watched Note NegentropyError α} {d : Decoder NegentropyError α}
    (h : Simulates w d) (count : Nat) : Simulates (withCapacity count >>= fun _ => w) d := by
  rw [withCapacity]
  split
  · exact h.note _
  · exact Simulates.panic d

theorem simulates_decodeMode : Simulates decodeMode Negentropy.decodeMode := by
  refine (Simulates.watch _ _).bind (fun mode => ?_)
  split
  · exact Simulates.pure _
  split
  · exact (Simulates.watch _ _).bind (fun _ => Simulates.pure _)
  split
  · refine (Simulates.watch _ _).bind (fun count => simulates_withCapacity ?_ _)
    exact ((Simulates.watch _ _).times _).bind (fun _ => Simulates.pure _)
  · exact Simulates.fail _

/-- A range is decoded alike, whether it is watched or not. -/
theorem simulates_decodeRange (prev : UInt64) : Simulates (decodeRange prev) (Negentropy.decodeRange prev) := by
  refine Simulates.bind ?_ (fun _ => simulates_decodeMode.bind (fun _ => Simulates.pure _))
  refine (Simulates.watch _ _).bind (fun tsField => (Simulates.watch _ _).bind (fun len => ?_))
  split
  · exact Simulates.fail _
  · exact (Simulates.watch _ _).bind (fun _ => Simulates.pure _)

/-- Every range that is decoded takes bytes, so decoding comes to an end. -/
theorem consumes_decodeRange (prev : UInt64) : Watched.Consumes (decodeRange prev) :=
  .of_simulates (simulates_decodeRange prev) (Negentropy.consumes_decodeRange prev)

/-- `decode_payload`. -/
def decodePayload : Bytes → Outcome Note NegentropyError NegPayload
  | [] => ⟨[], .error (.error .unexpectedEof)⟩
  | versionByte :: rest =>
      match NegProtocolVersion.fromByte versionByte with
      | none => ⟨[], .error (.error (.unsupportedVersion versionByte))⟩
      | some version =>
          let out := Watched.drain decodeRange consumes_decodeRange 0 rest
          ⟨out.notes, out.result.map (fun (ranges, left) => (⟨version, ranges⟩, left))⟩

/-! ## Numbers -/

namespace Sample

/-- One list of `2 ^ 58` ids, of which none is there. -/
def crowded : Bytes := 0x61 :: ([0x00, 0x00] ++ ([0x02] ++ (0x84 :: List.replicate 7 0x80 ++ [0x00])))

end Sample

end Hostile

end Nula.Negentropy
