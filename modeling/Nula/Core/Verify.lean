import Nula.Core.Event

/-!
# `Core.Verify` — the canonical form and `Event::verify`

The byte sequence an event's id is the hash of (`event/mod.rs`), the hash itself (`event/id.rs`) and the two
checks of `Event::verify` (`event/event.rs`). SHA-256 and BIP-340 verification come from crates outside the
repository, so they are a parameter (`Crypto`).

`canonicalBytes` is what `serde_json` writes for `[0, pubkey, created_at, kind, tags, content]`: no
whitespace, decimal integers, and inside a string the two-character escapes where JSON has one, `\u00xx` for
the other control characters, and every other byte as it is.
-/

namespace Nula

open Std

/-! ## Primitives from outside -/

/-- The hash and the signature check. -/
structure Crypto where
  sha256 : Bytes → Bytes
  sha256_size : ∀ b, (sha256 b).length = 32
  verifySchnorr : Signature → Bytes → PublicKey → Bool

/-! ## Compact JSON (`serde_json::to_writer`) -/

namespace Json

/-- `format_escaped_str_contents`, one byte. -/
def escapeByte (b : UInt8) : Bytes :=
  if b = 0x22 then [0x5c, 0x22]
  else if b = 0x5c then [0x5c, 0x5c]
  else if b = 0x08 then [0x5c, 0x62]
  else if b = 0x09 then [0x5c, 0x74]
  else if b = 0x0a then [0x5c, 0x6e]
  else if b = 0x0c then [0x5c, 0x66]
  else if b = 0x0d then [0x5c, 0x72]
  else if b < 0x20 then [0x5c, 0x75, 0x30, 0x30] ++ strBytes (Hex.encode [b])
  else [b]

/-- A text of the canonical form. -/
def string (s : String) : Bytes := [0x22] ++ (strBytes s).flatMap escapeByte ++ [0x22]

/-- A number of the canonical form. -/
def number (n : Nat) : Bytes := strBytes (toString n)

/-- Elements between brackets, separated by commas. -/
def array (elements : List Bytes) : Bytes := [0x5b] ++ [0x2c].intercalate elements ++ [0x5d]

end Json

/-! ## Event ids (`event/mod.rs`, `event/id.rs`) -/

/-- `canonical_bytes`. -/
def canonicalBytes (pubkey : PublicKey) (createdAt : Timestamp) (kind : Kind) (tags : Tags) (content : String) :
    Bytes :=
  Json.array
    [Json.number 0, Json.string pubkey.toHex, Json.number createdAt.toNat, Json.number kind.val.toNat,
      Json.array (tags.items.map (fun tag => Json.array (tag.values.map Json.string))), Json.string content]

/-- `EventId::compute_from_canonical`. -/
def EventId.computeFromCanonical (crypto : Crypto) (canonical : Bytes) : EventId :=
  ⟨crypto.sha256 canonical, crypto.sha256_size canonical⟩

/-- `compute_event_id`. -/
def computeEventId (crypto : Crypto) (pubkey : PublicKey) (createdAt : Timestamp) (kind : Kind) (tags : Tags)
    (content : String) : EventId :=
  .computeFromCanonical crypto (canonicalBytes pubkey createdAt kind tags content)

/-! ## Verification (`event/event.rs`) -/

inductive EventError where
  | invalidId
  | invalidSignature
  deriving DecidableEq, Repr

/-- `Display` of `EventError`. -/
def EventError.text : EventError → String
  | .invalidId => "event id does not match the canonical serialization"
  | .invalidSignature => "event signature verification failed"

namespace Event

variable (crypto : Crypto)

/-- `Event::verify_id`. -/
def verifyId (event : Event) : Bool :=
  decide (computeEventId crypto event.pubkey event.createdAt event.kind event.tags event.content = event.id)

/-- `Event::verify_signature`. -/
def verifySignature (event : Event) : Bool := crypto.verifySchnorr event.sig event.id.bytes event.pubkey

/-- `Event::verify`: the id first. -/
def verify (event : Event) : Except EventError Unit :=
  if event.verifyId crypto = false then .error .invalidId
  else if event.verifySignature crypto = false then .error .invalidSignature
  else .ok ()

/-- Verification pins the id to the contents and the signature to the id. -/
theorem verify_ok_iff {crypto : Crypto} {event : Event} : event.verify crypto = .ok () ↔
    computeEventId crypto event.pubkey event.createdAt event.kind event.tags event.content = event.id ∧
      crypto.verifySchnorr event.sig event.id.bytes event.pubkey = true := by
  rw [verify]
  split
  · rename_i h
    simp [verifyId] at h
    simp [h]
  · split
    · rename_i h h'
      simp [verifySignature] at h'
      simp [h']
    · rename_i h h'
      simp [verifyId, verifySignature] at h h'
      simp [h, h']

end Event

/-! ## Sample values

A note with its real id and signature (the secret key is 3), and a copy of it that claims the same id for
other contents. The sample primitives know the digests of these two and the one signature. -/

namespace Sample

/-- The bytes of a hex text. -/
def hexBytes (s : String) : Bytes := (Hex.decodePairs (strBytes s)).getD []

/-- The key of the author. -/
def carol : PublicKey :=
  ⟨hexBytes "f9308a019258c31049344f85f89d5229b531c845836f99b08601f113bce036f9", by decide +kernel,
    by decide +kernel⟩

/-- A note with its id and signature. -/
def genuine : Event where
  id := ⟨hexBytes "f44acf71593c8d269e2e3d40545650f0356d54e4ab83a4645923580f7eb98f93", by decide +kernel⟩
  pubkey := carol
  createdAt := 1700000000
  kind := ⟨1⟩
  tags := ⟨[]⟩
  content := "genuine"
  sig :=
    ⟨hexBytes ("ca3c1be3392d02021a153f93c90835d7677eaafea84ecebfe410be40839021e5" ++
      "98d8700d1c6feca7aa21bbfdb86f046da92bf080226bcd8a6d66051b923157ac"), by decide +kernel⟩

/-- The same with other words. -/
def forged : Event := { genuine with content := "forged" }

/-- A note with the id and the signature of `genuine` and this content, as `serde_json` writes it. -/
def noteText (content : String) : String :=
  "\x7b\"id\":\"f44acf71593c8d269e2e3d40545650f0356d54e4ab83a4645923580f7eb98f93\"," ++
    "\"pubkey\":\"f9308a019258c31049344f85f89d5229b531c845836f99b08601f113bce036f9\"," ++
    "\"created_at\":1700000000,\"kind\":1,\"tags\":[],\"content\":\"" ++ content ++ "\"," ++
    "\"sig\":\"ca3c1be3392d02021a153f93c90835d7677eaafea84ecebfe410be40839021e5" ++
    "98d8700d1c6feca7aa21bbfdb86f046da92bf080226bcd8a6d66051b923157ac\"\x7d"

/-- The canonical form of a note of `carol`'s with this content. -/
def canonicalText (content : String) : String :=
  "[0,\"f9308a019258c31049344f85f89d5229b531c845836f99b08601f113bce036f9\",1700000000,1,[],\"" ++ content ++
    "\"]"

/-- The digests of both, and a signature that is good for the first. -/
def crypto : Crypto where
  sha256 b :=
    if b = strBytes (canonicalText "genuine") then genuine.id.bytes
    else if b = strBytes (canonicalText "forged") then
      hexBytes "458bd9853b8ee79336a10a34a48e025d79c09f8e83114859060d4f2b4ddf205c"
    else List.replicate 32 0
  sha256_size b := by
    split
    · exact genuine.id.size
    · split
      · decide +kernel
      · decide
  verifySchnorr sig message pubkey := sig = genuine.sig ∧ message = genuine.id.bytes ∧ pubkey = genuine.pubkey

example : forged.verify crypto = .error .invalidId := by decide +kernel

end Sample

end Nula
