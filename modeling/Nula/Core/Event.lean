import Nula.Core.Tag

/-!
# `Core.Event` — events, coordinates, expiration and deletion requests

The signed event (`event/event.rs`), the address of an addressable event (`event/coordinate.rs`), the
NIP-40 deadline (`nips/nip40.rs`) and the NIP-09 request parsed off a kind-5 event (`nips/nip09.rs`).
-/

namespace Nula

open Std

/-! ## Text to integers -/

/-- `str::parse` for an unsigned integer no larger than `max`: an optional `+`, then digits. -/
def parseUnsigned (max : Nat) (s : String) : Option Nat :=
  let digits := match s.toList with
    | '+' :: rest => rest
    | cs => cs
  if digits ≠ [] ∧ digits.all Char.isDigit then
    let n := digits.foldl (fun acc c => acc * 10 + (c.toNat - 48)) 0
    if n ≤ max then some n else none
  else none

/-- `str::parse::<u64>`. -/
def parseU64 (s : String) : Option UInt64 := (parseUnsigned (2 ^ 64 - 1) s).map UInt64.ofNat

/-- `str::parse::<u16>`. -/
def parseU16 (s : String) : Option UInt16 := (parseUnsigned (2 ^ 16 - 1) s).map UInt16.ofNat

/-! ## Text -/

/-- `char::is_whitespace`. -/
def isWhitespace (c : Char) : Bool :=
  let n := c.toNat
  (9 ≤ n && n ≤ 13) || n == 0x20 || n == 0x85 || n == 0xa0 || n == 0x1680 || (0x2000 ≤ n && n ≤ 0x200a) ||
    n == 0x2028 || n == 0x2029 || n == 0x202f || n == 0x205f || n == 0x3000

/-- `str::trim`, on the characters. -/
def trimChars (cs : List Char) : List Char :=
  ((cs.dropWhile isWhitespace).reverse.dropWhile isWhitespace).reverse

/-- `str::trim`. -/
def trim (s : String) : String := String.ofList (trimChars s.toList)

/-- `str::to_ascii_lowercase`. -/
def toAsciiLowercase (s : String) : String := String.ofList (s.toList.map Char.toLower)

/-- The pieces between the separators; one more than there are separators. -/
def splitOn (sep : Char) : List Char → List (List Char)
  | [] => [[]]
  | c :: cs =>
      if c = sep then [] :: splitOn sep cs
      else
        match splitOn sep cs with
        | [] => [[c]]
        | piece :: pieces => (c :: piece) :: pieces

/-! ## Events (`event/event.rs`) -/

/-- 64-byte Schnorr signature. -/
structure Signature where
  bytes : Bytes
  size : bytes.length = 64
  deriving DecidableEq

/-- A signed event, fields in wire order. -/
structure Event where
  id : EventId
  pubkey : PublicKey
  createdAt : Timestamp
  kind : Kind
  tags : Tags
  content : String
  sig : Signature
  deriving DecidableEq

/-! ## Expiration (`nips/nip40.rs`) -/

/-- `ExpirationError`: the tag has no value, or one that is no number. -/
inductive ExpirationError where
  | missingValue
  | invalidTimestamp (value : String)
  deriving DecidableEq, Repr

namespace Event

/-- `nip40::parse_expiration`. -/
def expiration (event : Event) : Except ExpirationError (Option Timestamp) :=
  match event.tags.findFirst (TagKind.fromWire "expiration") with
  | none => .ok none
  | some tag =>
      match tag.content with
      | none => .error .missingValue
      | some value =>
          match parseU64 value with
          | none => .error (.invalidTimestamp value)
          | some secs => .ok (some secs)

/-- `nip40::is_expired`. -/
def isExpired (event : Event) (now : Timestamp) : Except ExpirationError Bool :=
  match event.expiration with
  | .error e => .error e
  | .ok none => .ok false
  | .ok (some deadline) => .ok (decide (deadline ≤ now))

/-- `matches!(event.is_expired(now), Ok(true))`: a malformed deadline never expires. -/
def deadOnArrival (event : Event) (now : Timestamp) : Bool :=
  match event.isExpired now with
  | .ok true => true
  | _ => false

end Event

/-! ## Coordinates (`event/coordinate.rs`) -/

/-- Address of an addressable event. -/
structure Coordinate where
  kind : Kind
  author : PublicKey
  identifier : String
  deriving DecidableEq

/-- `CoordinateError`, of a text that is no `kind:author:identifier`. -/
inductive CoordinateError where
  | malformed (s : String)
  | invalidKind (s : String)
  | invalidAuthor (e : PublicKeyError)
  deriving DecidableEq, Repr

/-- Split at the first `sep`. -/
def splitOnce (sep : Char) : List Char → Option (List Char × List Char)
  | [] => none
  | c :: cs =>
      if c = sep then some ([], cs)
      else (splitOnce sep cs).map (fun (l, r) => (c :: l, r))

/-- `Coordinate::from_str`: two colons split, later ones belong to the identifier. -/
def Coordinate.parse (s : String) : Except CoordinateError Coordinate :=
  match splitOnce ':' s.toList with
  | none => .error (.malformed s)
  | some (k, rest) =>
      -- the identifier keeps its own colons
      match splitOnce ':' rest with
      | none => .error (.malformed s)
      | some (a, identifier) =>
          match parseU16 (String.ofList k) with
          | none => .error (.invalidKind (String.ofList k))
          | some kind =>
              match PublicKey.parse (String.ofList a) with
              | .error e => .error (.invalidAuthor e)
              | .ok author => .ok ⟨⟨kind⟩, author, String.ofList identifier⟩

/-! ## Deletion requests (`nips/nip09.rs`) -/

/-- `DeletionRequest`: what a deletion asks to be deleted, and why. -/
structure DeletionRequest where
  eventIds : List EventId
  coordinates : List Coordinate
  kinds : List Kind
  reason : String
  deriving DecidableEq

/-- `DeletionError`, each with the tag or value it speaks of. -/
inductive DeletionError where
  | unexpectedKind (kind : UInt16)
  | missingTagValue (tag : String)
  | invalidEventId (e : EventIdError)
  | invalidCoordinate (e : CoordinateError)
  | invalidKindHint (value : String)
  deriving DecidableEq, Repr

namespace DeletionRequest

/-- One tag of the loop in `DeletionRequest::from_event`; other heads are ignored. -/
def addTag (request : DeletionRequest) (tag : Tag) : Except DeletionError DeletionRequest :=
  if tag.kind = .singleLetter (.lowercase .E) then
    match tag.content with
    | none => .error (.missingTagValue "e")
    | some value =>
        match EventId.parse value with
        | .error e => .error (.invalidEventId e)
        | .ok id => .ok { request with eventIds := request.eventIds ++ [id] }
  else if tag.kind = .singleLetter (.lowercase .A) then
    match tag.content with
    | none => .error (.missingTagValue "a")
    | some value =>
        match Coordinate.parse value with
        | .error e => .error (.invalidCoordinate e)
        | .ok coord => .ok { request with coordinates := request.coordinates ++ [coord] }
  -- a hint for relays that index by kind
  else if tag.kind = TagKind.fromWire "k" then
    match tag.content with
    | none => .error (.missingTagValue "k")
    | some value =>
        match parseU16 value with
        | none => .error (.invalidKindHint value)
        | some raw => .ok { request with kinds := request.kinds ++ [⟨raw⟩] }
  else .ok request

/-- `DeletionRequest::from_event`: one malformed tag rejects the whole request. -/
def fromEvent (event : Event) : Except DeletionError DeletionRequest :=
  if event.kind ≠ Kind.eventDeletion then .error (.unexpectedKind event.kind.val)
  else event.tags.items.foldlM addTag ⟨[], [], [], event.content⟩

end DeletionRequest

end Nula
