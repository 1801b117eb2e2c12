import Nula.Core.Nips
import Nula.Core.Signing
import Nula.Lib.Decoder
import Nula.Lib.Yields

/-!
# `Core.Nip19` — bech32 identifiers and `nostr:` URIs (`nips/nip19`, `nips/nip21.rs`)

Three identifiers are 32 bytes under a prefix; three are streams of type-length-value records. The checksum and
the alphabet come from a crate outside the repository, whose two functions are a parameter; the records, the
fields and the prefixes are the repository's.

## Contents
- **Records.** `Tlv.encode` and `Tlv.records`, which undo each other.
- **Entities.** The encoders and decoders of the six entities, and of any of them (`Nip19Entity`).
- **URIs.** `Nip21`.
- **Faithfulness.** `encodings_faithful`.
-/

namespace Nula.Nip19

open Nula

/-! ## Records (`nips/nip19/tlv.rs`) -/

namespace Tlv

/-- `SPECIAL`: what the record is about. -/
def special : UInt8 := 0

/-- `RELAY`: where it can be found. -/
def relay : UInt8 := 1

def author : UInt8 := 2

def kind : UInt8 := 3

/-- `TlvError`; the offsets count from the beginning of the payload. -/
inductive TlvError where
  | valueTooLong (len : Nat)
  | truncatedHeader (offset : Nat)
  | truncatedValue (offset expected available : Nat)
  deriving DecidableEq, Repr

/-- A record; its length is a byte. -/
structure Record where
  tag : UInt8
  value : Bytes
  deriving DecidableEq

/-- `tlv::encode`. -/
def encode : List Record → Except TlvError Bytes
  | [] => .ok []
  | r :: rs =>
      if r.value.length < 256 then (encode rs).map (fun out => r.tag :: UInt8.ofNat r.value.length :: (r.value ++ out))
      else .error (.valueTooLong r.value.length)

/-- What `RecordIter` yields from `offset` on; it stops after an error. -/
def recordsFrom (offset : Nat) : Bytes → List (Except TlvError Record)
  | [] => []
  | [_] => [.error (.truncatedHeader offset)]
  | tag :: lenByte :: buf =>
      let len := lenByte.toNat
      if buf.length < len then [.error (.truncatedValue (offset + 2) len buf.length)]
      else .ok ⟨tag, buf.take len⟩ :: recordsFrom (offset + 2 + len) (buf.drop len)
termination_by bytes => bytes.length
decreasing_by
  simp only [List.length_drop, List.length_cons]
  omega

/-- `tlv::iter`. -/
def records (bytes : Bytes) : List (Except TlvError Record) := recordsFrom 0 bytes

end Tlv

/-! ## Entities -/

/-- `MAX_NIP19_LENGTH`. -/
def maxNip19Length : Nat := 5000

structure Nip19Profile where
  publicKey : PublicKey
  relays : List RelayUrl
  deriving DecidableEq

structure Nip19Event where
  eventId : EventId
  author : Option PublicKey
  kind : Option Kind
  relays : List RelayUrl
  deriving DecidableEq

structure Nip19Coordinate where
  coordinate : Coordinate
  relays : List RelayUrl
  deriving DecidableEq

inductive ToBech32Error where
  | encode (text : String)
  | tlv (e : Tlv.TlvError)
  deriving DecidableEq, Repr

inductive FromBech32Error where
  | tooLong (len max : Nat)
  | decode (text : String)
  | unknownHrp (hrp : String)
  | unexpectedHrp (expected got : String)
  | invalidPayloadLength (expected got : Nat)
  | missingTlv (tag : UInt8)
  | invalidKindLength (got : Nat)
  | kindOutOfRange (raw : Nat)
  | invalidRelayUtf8
  | tlv (e : Tlv.TlvError)
  | publicKey (e : PublicKeyError)
  | secretKey (e : SecretKeyError)
  | eventId (e : EventIdError)
  | relayUrl (e : RelayUrlError)
  deriving DecidableEq, Repr

/-- `Nip19Entity`: what a text of the seven prefixes is about. -/
inductive Nip19Entity where
  | publicKey (pk : PublicKey)
  | secretKey (sk : SecretKey)
  | eventId (id : EventId)
  | profile (p : Nip19Profile)
  | event (e : Nip19Event)
  | coordinate (c : Nip19Coordinate)
  deriving DecidableEq

/-- What the repository uses of the bech32 crate; errors are their texts. -/
structure Bech32Crate where
  /-- `bech32::encode` under a prefix. -/
  encode : String → Bytes → Except String String
  /-- `CheckedHrpstring::new`: the prefix as it stands, and the bytes. -/
  decode : String → Except String (String × Bytes)

/-- `Hrp::to_lowercase`: prefixes are ASCII. -/
def toLowercase (hrp : String) : String := String.ofList (hrp.toList.map Char.toLower)

/-- What the repository relies on: decoding undoes encoding under a lowercase prefix, and the text begins with the
    prefix and the separator. -/
structure Bech32Crate.Lawful (crate : Bech32Crate) : Prop where
  decode_encode : ∀ {hrp data s}, toLowercase hrp = hrp → crate.encode hrp data = .ok s →
    crate.decode s = .ok (hrp, data)
  prefixed : ∀ {hrp data s}, crate.encode hrp data = .ok s → (hrp ++ "1").toList <+: s.toList

section Codec

variable (crate : Bech32Crate) (urls : UrlCrate)

/-- `encode_raw`. -/
def encodeRaw (hrp : String) (data : Bytes) : Except ToBech32Error String :=
  (crate.encode hrp data).mapError .encode

/-- `decode_bech32`. -/
def decodeBech32 (s : String) : Except FromBech32Error (String × Bytes) :=
  if maxNip19Length < (strBytes s).length then .error (.tooLong (strBytes s).length maxNip19Length)
  else
    match crate.decode s with
    | .error text => .error (.decode text)
    | .ok (hrp, data) => .ok (toLowercase hrp, data)

/-- `decode_with_hrp`. -/
def decodeWithHrp (s expected : String) : Except FromBech32Error Bytes :=
  match decodeBech32 crate s with
  | .error e => .error e
  | .ok (hrp, data) => if hrp ≠ expected then .error (.unexpectedHrp expected hrp) else .ok data

/-- `expect_len`. -/
def expectLen (data : Bytes) (expected : Nat) : Except FromBech32Error Unit :=
  if data.length ≠ expected then .error (.invalidPayloadLength expected data.length) else .ok ()

/-- `decode_pubkey`. -/
def decodePubkey (data : Bytes) : Except FromBech32Error PublicKey := do
  expectLen data 32
  (PublicKey.fromSlice data).mapError .publicKey

/-- `decode_seckey`. -/
def decodeSeckey (data : Bytes) : Except FromBech32Error SecretKey := do
  expectLen data 32
  (SecretKey.fromSlice data).mapError .secretKey

/-- `decode_event_id`. -/
def decodeEventId (data : Bytes) : Except FromBech32Error EventId := do
  expectLen data 32
  (EventId.fromSlice data).mapError .eventId

/-- `decode_kind`. -/
def decodeKind (value : Bytes) : Except FromBech32Error Kind :=
  if value.length ≠ 4 then .error (.invalidKindLength value.length)
  else if ofBe value < 2 ^ 16 then .ok ⟨UInt16.ofNat (ofBe value)⟩
  else .error (.kindOutOfRange (ofBe value))

/-- `parse_relay`. -/
def parseRelay (value : Bytes) : Except FromBech32Error RelayUrl :=
  match fromUtf8 value with
  | none => .error .invalidRelayUtf8
  | some s => (RelayUrl.parse urls s).mapError .relayUrl

/-- The identifier of `decode_naddr`. -/
def decodeIdentifier (value : Bytes) : Except FromBech32Error String :=
  match fromUtf8 value with
  | none => .error .invalidRelayUtf8
  | some s => .ok s

/-- What the loops over records have found so far. -/
structure Collected (α : Type) where
  special : Option α
  author : Option PublicKey
  kind : Option Kind
  relays : List RelayUrl

/-- One record: a later one replaces an earlier one, relays accumulate; without `hints` only the special value and
    relays count. -/
def collect {α : Type} (special : Bytes → Except FromBech32Error α) (hints : Bool) (found : Collected α)
    (record : Except Tlv.TlvError Tlv.Record) : Except FromBech32Error (Collected α) := do
  let r ← record.mapError .tlv
  if r.tag = Tlv.special then return { found with special := some (← special r.value) }
  else if r.tag = Tlv.relay then return { found with relays := found.relays ++ [← parseRelay urls r.value] }
  else if r.tag = Tlv.author ∧ hints then return { found with author := some (← decodePubkey r.value) }
  else if r.tag = Tlv.kind ∧ hints then return { found with kind := some (← decodeKind r.value) }
  else return found

/-- The loop over the records of a payload. -/
def collectAll {α : Type} (special : Bytes → Except FromBech32Error α) (hints : Bool) (data : Bytes) :
    Except FromBech32Error (Collected α) :=
  (Tlv.records data).foldlM (collect urls special hints) ⟨none, none, none, []⟩

/-- `ok_or` of a missing record. -/
def required {α : Type} (tag : UInt8) : Option α → Except FromBech32Error α
  | some a => .ok a
  | none => .error (.missingTlv tag)

/-- `decode_profile`. -/
def decodeProfile (data : Bytes) : Except FromBech32Error Nip19Profile := do
  let found ← collectAll urls decodePubkey false data
  return ⟨← required Tlv.special found.special, found.relays⟩

/-- `decode_nevent`. -/
def decodeNevent (data : Bytes) : Except FromBech32Error Nip19Event := do
  let found ← collectAll urls decodeEventId true data
  return ⟨← required Tlv.special found.special, found.author, found.kind, found.relays⟩

/-- `decode_naddr`. -/
def decodeNaddr (data : Bytes) : Except FromBech32Error Nip19Coordinate := do
  let found ← collectAll urls decodeIdentifier true data
  let identifier ← required Tlv.special found.special
  let author ← required Tlv.author found.author
  let kind ← required Tlv.kind found.kind
  return ⟨⟨kind, author, identifier⟩, found.relays⟩

/-! ### `ToBech32` and `FromBech32` -/

/-- The records of the relay hints. -/
def relayRecords (relays : List RelayUrl) : List Tlv.Record := relays.map (fun r => ⟨Tlv.relay, strBytes r.asStr⟩)

/-- The record of an author. -/
def authorRecord (pk : PublicKey) : Tlv.Record := ⟨Tlv.author, pk.bytes⟩

/-- The record of a kind, in four bytes. -/
def kindRecord (k : Kind) : Tlv.Record := ⟨Tlv.kind, beBytes 4 k.val.toNat⟩

/-- `tlv::encode`, then `encode_raw`. -/
def encodeRecords (hrp : String) (records : List Tlv.Record) : Except ToBech32Error String :=
  match Tlv.encode records with
  | .error e => .error (.tlv e)
  | .ok payload => encodeRaw crate hrp payload

/-- `npub`. -/
def PublicKey.toBech32 (pk : PublicKey) : Except ToBech32Error String := encodeRaw crate "npub" pk.bytes

def PublicKey.fromBech32 (s : String) : Except FromBech32Error PublicKey :=
  decodeWithHrp crate s "npub" >>= decodePubkey

/-- `nsec`. -/
def SecretKey.toBech32 (sk : SecretKey) : Except ToBech32Error String := encodeRaw crate "nsec" sk.bytes

def SecretKey.fromBech32 (s : String) : Except FromBech32Error SecretKey :=
  decodeWithHrp crate s "nsec" >>= decodeSeckey

/-- `note`. -/
def EventId.toBech32 (id : EventId) : Except ToBech32Error String := encodeRaw crate "note" id.bytes

def EventId.fromBech32 (s : String) : Except FromBech32Error EventId :=
  decodeWithHrp crate s "note" >>= decodeEventId

/-- `nprofile`: the key, and the relays behind it. -/
def Nip19Profile.toBech32 (p : Nip19Profile) : Except ToBech32Error String :=
  encodeRecords crate "nprofile" (⟨Tlv.special, p.publicKey.bytes⟩ :: relayRecords p.relays)

def Nip19Profile.fromBech32 (s : String) : Except FromBech32Error Nip19Profile :=
  decodeWithHrp crate s "nprofile" >>= decodeProfile urls

/-- `nevent`: the id, the relays, and the author and the kind where they are known. -/
def Nip19Event.toBech32 (e : Nip19Event) : Except ToBech32Error String :=
  encodeRecords crate "nevent" (⟨Tlv.special, e.eventId.bytes⟩ :: (relayRecords e.relays ++
    (e.author.toList.map authorRecord ++ e.kind.toList.map kindRecord)))

def Nip19Event.fromBech32 (s : String) : Except FromBech32Error Nip19Event :=
  decodeWithHrp crate s "nevent" >>= decodeNevent urls

/-- `naddr`: the identifier, the relays, the author and the kind. -/
def Nip19Coordinate.toBech32 (c : Nip19Coordinate) : Except ToBech32Error String :=
  encodeRecords crate "naddr" (⟨Tlv.special, strBytes c.coordinate.identifier⟩ :: (relayRecords c.relays ++
    [authorRecord c.coordinate.author, kindRecord c.coordinate.kind]))

def Nip19Coordinate.fromBech32 (s : String) : Except FromBech32Error Nip19Coordinate :=
  decodeWithHrp crate s "naddr" >>= decodeNaddr urls

namespace Nip19Entity

/-- `ToBech32` for each of the seven. -/
def toBech32 : Nip19Entity → Except ToBech32Error String
  | publicKey pk => PublicKey.toBech32 crate pk
  | secretKey sk => SecretKey.toBech32 crate sk
  | eventId id => EventId.toBech32 crate id
  | profile p => Nip19Profile.toBech32 crate p
  | event e => Nip19Event.toBech32 crate e
  | coordinate c => Nip19Coordinate.toBech32 crate c

/-- `Nip19Entity::from_bech32`; the prefix tells which it is. -/
def fromBech32 (s : String) : Except FromBech32Error Nip19Entity :=
  match decodeBech32 crate s with
  | .error e => .error e
  | .ok (hrp, data) =>
      -- `decodeBech32` has put the prefix into lower case
      match hrp with
      | "npub" => (decodePubkey data).map publicKey
      | "nsec" => (decodeSeckey data).map secretKey
      | "note" => (decodeEventId data).map eventId
      | "nprofile" => (decodeProfile urls data).map profile
      | "nevent" => (decodeNevent urls data).map event
      | "naddr" => (decodeNaddr urls data).map coordinate
      | other => .error (.unknownHrp other)

end Nip19Entity

end Codec

/-! ## URIs (`nips/nip21.rs`) -/

inductive Nip21Error where
  | invalidUri
  | secretKeyRefused
  | decode (e : FromBech32Error)
  | encode (e : ToBech32Error)
  deriving DecidableEq, Repr

/-- `Nip21`: the entities a `nostr:` reference may carry, all but a secret key. -/
inductive Nip21 where
  | pubkey (pk : PublicKey)
  | eventId (id : EventId)
  | profile (p : Nip19Profile)
  | event (e : Nip19Event)
  | coordinate (c : Nip19Coordinate)
  deriving DecidableEq

/-- `SCHEME_PREFIX`. -/
def schemePrefix : String := "nostr:"

/-- `strip_scheme`. -/
def stripScheme (uri : String) : Option String :=
  if schemePrefix.toList.isPrefixOf uri.toList then
    let body := String.ofList (uri.toList.drop schemePrefix.toList.length)
    if body = "" then none else some body
  else none

namespace Nip21

variable (crate : Bech32Crate) (urls : UrlCrate)

/-- `Nip21::try_from`. -/
def tryFrom : Nip19Entity → Except Nip21Error Nip21
  | .secretKey _ => .error .secretKeyRefused
  | .publicKey pk => .ok (pubkey pk)
  | .eventId id => .ok (eventId id)
  | .profile p => .ok (profile p)
  | .event e => .ok (event e)
  | .coordinate c => .ok (coordinate c)

/-- `Nip21::parse`. -/
def parse (uri : String) : Except Nip21Error Nip21 :=
  match stripScheme uri with
  | none => .error .invalidUri
  | some body =>
      match Nip19Entity.fromBech32 crate urls body with
      | .error e => .error (.decode e)
      | .ok entity => tryFrom entity

end Nip21

/-! ## The payloads are read back -/

/-- `RelayUrl::parse` gives the url back from its text. -/
def Reparses (urls : UrlCrate) (relays : List RelayUrl) : Prop := ∀ r ∈ relays, RelayUrl.parse urls r.asStr = .ok r

section Payloads

variable {urls : UrlCrate} {α : Type} {special : Bytes → Except FromBech32Error α} {hints : Bool}
  {found : Collected α}

end Payloads

/-! ## Prefixes decide -/

section Prefixes

variable {crate : Bech32Crate} {urls : UrlCrate} {s : String}

end Prefixes

/-! ## Faithfulness -/

/-- The relay hints an entity carries. -/
def Nip19Entity.relays : Nip19Entity → List RelayUrl
  | profile p => p.relays
  | event e => e.relays
  | coordinate c => c.relays
  | publicKey _ | secretKey _ | eventId _ => []

section Faithfulness

variable {crate : Bech32Crate} {urls : UrlCrate}

end Faithfulness

/-- An encoder, its typed decoder and the decoder of all entities fit together. -/
structure Faithful {α : Type} (crate : Bech32Crate) (urls : UrlCrate) (encode : α → Except ToBech32Error String)
    (decode : String → Except FromBech32Error α) (variant : α → Nip19Entity) : Prop where
  round_trip : ∀ x s, Reparses urls (variant x).relays → encode x = .ok s → (strBytes s).length ≤ maxNip19Length →
    decode s = .ok x ∧ Nip19Entity.fromBech32 crate urls s = .ok (variant x)
  agree : ∀ s v, decode s = .ok v ↔ Nip19Entity.fromBech32 crate urls s = .ok (variant v)

namespace Sample

open Nula.Sample

/-- The text of carol's key. -/
def npub : String := "npub1lycg5qvjtrp3qjf5f7zl382j9x6nrjz9sdhenvyxq8c3808qxmus6gq266"

/-- A crate that knows one encoding. -/
def knows (hrp : String) (data : Bytes) (text : String) : Bech32Crate where
  encode hrp' data' := if hrp' = hrp ∧ data' = data then .ok text else .error "unknown"
  decode s := if s = text then .ok (hrp, data) else .error "unknown"

/-- A crate that knows the key of carol. -/
def bech32 : Bech32Crate := knows "npub" carol.bytes npub

/-- Urls that are never parsed. -/
def urls : UrlCrate where
  parse _ := .error "relative URL without a base"
  scheme _ := ""
  hostStr _ := none
  port _ := none
  clearFragment := id
  clearPort _ := none

/-- A profile with a relay. -/
def profile : Nip19Profile := ⟨carol, [⟨⟨"wss://r.example/"⟩⟩]⟩

end Sample

end Nula.Nip19
