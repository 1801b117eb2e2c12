import Nula.Core.Verify
import Nula.Lib.Json

/-!
# `Core.Signing` — keys, unsigned events, encrypted payloads, events as JSON

Signing an event (`event/unsigned.rs`, `event/builder.rs`, `key/keys.rs`), the NIP-04 and NIP-44 payloads
(`nips/nip04.rs`, `nips/nip44.rs`) and the JSON of events (`serde` on `event/event.rs` and
`event/unsigned.rs`). The curve and the ciphers come from crates outside the repository; with their randomness
as an argument they are functions, and a parameter.
-/

namespace Nula

/-! ## Keys (`key/keys.rs`, `key/secret_key.rs`) -/

/-- The order of the curve's group. -/
def curveOrder : Nat := 0xFFFFFFFFFFFFFFFFFFFFFFFFFFFFFFFEBAAEDCE6AF48A03BBFD25E8CD0364141

/-- The bytes are a secret scalar. -/
def isSecretScalar (b : Bytes) : Bool := decide (0 < ofBe b) && decide (ofBe b < curveOrder)

/-- A secret key, with the length and the range that every constructor of the source checks. -/
structure SecretKey where
  bytes : Bytes
  size : bytes.length = 32
  scalar : isSecretScalar bytes = true

theorem SecretKey.bytes_inj (a b : SecretKey) : a.bytes = b.bytes ↔ a = b := by
  cases a
  cases b
  rw [SecretKey.mk.injEq]

instance : DecidableEq SecretKey := fun a b => decidable_of_iff (a.bytes = b.bytes) (SecretKey.bytes_inj a b)

inductive SecretKeyError where
  | invalidLength (len : Nat)
  | invalidScalar
  | rng (text : String)
  deriving DecidableEq, Repr

/-- `Display` of `SecretKeyError`. -/
def SecretKeyError.text : SecretKeyError → String
  | .invalidLength len => "invalid length: expected 32 bytes, got " ++ toString len
  | .invalidScalar => "not a valid secp256k1 scalar"
  | .rng text => "entropy unavailable: " ++ text

/-- `SecretKey::from_slice`. -/
def SecretKey.fromSlice (b : Bytes) : Except SecretKeyError SecretKey :=
  if h : b.length = 32 then
    if hs : isSecretScalar b = true then .ok ⟨b, h, hs⟩ else .error .invalidScalar
  else .error (.invalidLength b.length)

structure Keys where
  secretKey : SecretKey
  publicKey : PublicKey
  deriving DecidableEq

/-- The hash, the signature scheme and the two ciphers. -/
structure KeyCrypto extends Crypto where
  /-- `Keypair::sign_schnorr`; the second argument is its randomness. -/
  signSchnorr : SecretKey → Bytes → Bytes → Signature
  /-- `nip44::encrypt_inner` on a text it pads; the third argument is the nonce. -/
  nip44Seal : SecretKey → PublicKey → Bytes → String → String
  nip44Open : SecretKey → PublicKey → String → Except String String
  /-- `nip04::encrypt`; the third argument is the initialisation vector. -/
  nip04Seal : SecretKey → PublicKey → Bytes → String → String
  nip04Open : SecretKey → PublicKey → String → Except String String

/-- The curve as well. -/
structure Curve extends KeyCrypto where
  /-- `Keypair::from_secret_key` and `x_only_public_key`. -/
  xOnlyPublicKey : SecretKey → PublicKey

/-- `Keys::from_secret_key`. -/
def Keys.fromSecretKey (crypto : Curve) (secret : SecretKey) : Keys := ⟨secret, crypto.xOnlyPublicKey secret⟩

/-- `Keys::generate`, from what `SecretKey::generate` gives. -/
def Keys.generate (crypto : Curve) (secret : Except SecretKeyError SecretKey) : Except SecretKeyError Keys :=
  secret.map (fromSecretKey crypto)

/-! ## Encrypted payloads (`nips/nip44.rs`, `nips/nip04.rs`) -/

/-- What the random source of the system gives: bytes, or the text of its error. -/
abbrev Entropy := Except String Bytes

namespace Nip44

def minPlaintextBytes : Nat := 1

def maxPlaintextBytes : Nat := 65535

/-- `Nip44Error`, as far as it is told apart here. -/
inductive Nip44Error where
  | emptyPlaintext
  | plaintextTooLong (len : Nat)
  | rng (text : String)
  /-- What `decrypt` refuses, by its text. -/
  | payload (text : String)
  deriving DecidableEq, Repr

/-- `Display` of `Nip44Error`. -/
def Nip44Error.text : Nip44Error → String
  | .emptyPlaintext => "plaintext is empty"
  | .plaintextTooLong len =>
      "plaintext too long: " ++ toString len ++ " bytes (max " ++ toString maxPlaintextBytes ++ ")"
  | .rng text => "entropy source failed: " ++ text
  | .payload text => text

/-- `pad` accepts a text of this many bytes. -/
def pad (len : Nat) : Except Nip44Error Unit :=
  if len < minPlaintextBytes then .error .emptyPlaintext
  else if maxPlaintextBytes < len then .error (.plaintextTooLong len)
  else .ok ()

/-- `nip44::encrypt`: the nonce first. -/
def encrypt (crypto : KeyCrypto) (entropy : Entropy) (secret : SecretKey) (peer : PublicKey) (plaintext : String) :
    Except Nip44Error String :=
  match entropy with
  | .error text => .error (.rng text)
  | .ok nonce =>
      match pad (strBytes plaintext).length with
      | .error e => .error e
      | .ok () => .ok (crypto.nip44Seal secret peer nonce plaintext)

/-- `nip44::decrypt`. -/
def decrypt (crypto : KeyCrypto) (secret : SecretKey) (peer : PublicKey) (payload : String) :
    Except Nip44Error String :=
  (crypto.nip44Open secret peer payload).mapError .payload

/-- A text that can be encrypted. -/
def Fits (plaintext : String) : Prop :=
  minPlaintextBytes ≤ (strBytes plaintext).length ∧ (strBytes plaintext).length ≤ maxPlaintextBytes

instance (plaintext : String) : Decidable (Fits plaintext) := by
  unfold Fits
  infer_instance

/-- Encryption succeeds on the texts that fit, given a nonce. -/
theorem encrypt_eq_ok_iff {crypto : KeyCrypto} {entropy : Entropy} {secret : SecretKey} {peer : PublicKey}
    {plaintext sealed : String} : encrypt crypto entropy secret peer plaintext = .ok sealed ↔
      ∃ nonce, entropy = .ok nonce ∧ Fits plaintext ∧ crypto.nip44Seal secret peer nonce plaintext = sealed := by
  cases entropy with
  | error text => simp [encrypt]
  | ok nonce =>
      rw [encrypt, pad]
      by_cases hmin : (strBytes plaintext).length < minPlaintextBytes
      · simp [Fits, if_pos hmin, Nat.not_le.mpr hmin]
      · by_cases hmax : maxPlaintextBytes < (strBytes plaintext).length
        · simp [Fits, if_neg hmin, if_pos hmax, Nat.not_le.mpr hmax]
        · simp [Fits, if_neg hmin, if_neg hmax, Nat.not_lt.mp hmin, Nat.not_lt.mp hmax]

/-- A short text fits, whatever its characters are. -/
theorem fits_of_length {v : JsonValue} (hpos : 0 < (Json.writeValue v).length)
    (hle : (Json.writeValue v).length ≤ 16000) : Fits (Json.codec.write v) := by
  have hbytes : strBytes (Json.codec.write v) = (Json.writeValue v).flatMap String.utf8EncodeChar := strBytes_ofList _
  rw [Fits, hbytes]
  have hlow := length_le_utf8 (Json.writeValue v)
  have hhigh := length_utf8_le (Json.writeValue v)
  exact ⟨hpos.trans_le hlow, hhigh.trans ((Nat.mul_le_mul_left 4 hle).trans (by decide))⟩

end Nip44

namespace Nip04

/-- `Nip04Error`, by its text. -/
abbrev Nip04Error := String

/-- `nip04::encrypt`. -/
def encrypt (crypto : KeyCrypto) (entropy : Entropy) (secret : SecretKey) (peer : PublicKey) (plaintext : String) :
    Except Nip04Error String :=
  entropy.map (fun iv => crypto.nip04Seal secret peer iv plaintext)

/-- `nip04::decrypt`. -/
def decrypt (crypto : KeyCrypto) (secret : SecretKey) (peer : PublicKey) (payload : String) :
    Except Nip04Error String :=
  crypto.nip04Open secret peer payload

end Nip04

/-! ## Unsigned events (`event/unsigned.rs`) -/

inductive UnsignedEventError where
  | signerMismatch
  deriving DecidableEq, Repr

/-- `Display` of `UnsignedEventError`. -/
def UnsignedEventError.text : UnsignedEventError → String
  | .signerMismatch => "signer public key does not match event pubkey"

/-- An event whose `id` has been computed but no signature attached. -/
structure UnsignedEvent where
  id : EventId
  pubkey : PublicKey
  createdAt : Timestamp
  kind : Kind
  tags : Tags
  content : String
  deriving DecidableEq

namespace UnsignedEvent

/-- `UnsignedEvent::new`. -/
def new (crypto : Crypto) (pubkey : PublicKey) (createdAt : Timestamp) (kind : Kind) (tags : Tags)
    (content : String) : UnsignedEvent :=
  ⟨computeEventId crypto pubkey createdAt kind tags content, pubkey, createdAt, kind, tags, content⟩

/-- `UnsignedEvent::compute_id`. -/
def computeId (crypto : Crypto) (u : UnsignedEvent) : EventId :=
  computeEventId crypto u.pubkey u.createdAt u.kind u.tags u.content

/-- `UnsignedEvent::sign_with_keys`: the id is computed anew. -/
def signWithKeys (crypto : KeyCrypto) (aux : Bytes) (keys : Keys) (u : UnsignedEvent) :
    Except UnsignedEventError Event :=
  if keys.publicKey ≠ u.pubkey then .error .signerMismatch
  else
    let id := u.computeId crypto.toCrypto
    .ok ⟨id, u.pubkey, u.createdAt, u.kind, u.tags, u.content, crypto.signSchnorr keys.secretKey aux id.bytes⟩

end UnsignedEvent

/-! ## Signers (`signer.rs`) -/

inductive SignerError where
  | authorMismatch (e : UnsignedEventError)
  | rejected (message : String) (code : Option String)
  | backend (text : String)
  | unsupported (name : String)
  deriving DecidableEq, Repr

/-! `impl NostrSigner for Keys`; the NIP-04 methods stand behind the feature `nip04`. -/

namespace Keys

variable (crypto : KeyCrypto) (keys : Keys)

/-- `sign_event` of the keys. -/
def signEvent (aux : Bytes) (unsigned : UnsignedEvent) : Except SignerError Event :=
  (unsigned.signWithKeys crypto aux keys).mapError .authorMismatch

/-- `nip04_encrypt` of the keys; `nip04` is the feature. -/
def nip04Encrypt (nip04 : Bool) (entropy : Entropy) (peer : PublicKey) (plaintext : String) :
    Except SignerError String :=
  if nip04 then (Nip04.encrypt crypto entropy keys.secretKey peer plaintext).mapError .backend
  else .error (.unsupported "nip04_encrypt")

/-- `nip04_decrypt` of the keys. -/
def nip04Decrypt (nip04 : Bool) (peer : PublicKey) (ciphertext : String) : Except SignerError String :=
  if nip04 then (Nip04.decrypt crypto keys.secretKey peer ciphertext).mapError .backend
  else .error (.unsupported "nip04_decrypt")

/-- `nip44_encrypt` of the keys. -/
def nip44Encrypt (entropy : Entropy) (peer : PublicKey) (plaintext : String) : Except SignerError String :=
  (Nip44.encrypt crypto entropy keys.secretKey peer plaintext).mapError (fun e => .backend e.text)

/-- `nip44_decrypt` of the keys. -/
def nip44Decrypt (peer : PublicKey) (payload : String) : Except SignerError String :=
  (Nip44.decrypt crypto keys.secretKey peer payload).mapError (fun e => .backend e.text)

end Keys

/-! ## Building events (`event/builder.rs`) -/

/-- `Timestamp::now`: the seconds, or the text of `TimestampError`. -/
abbrev Clock := Except String Timestamp

inductive EventBuilderError where
  | clock (text : String)
  | signer (e : UnsignedEventError)
  deriving DecidableEq, Repr

structure EventBuilder where
  kind : Kind
  content : String
  tags : Tags
  createdAt : Option Timestamp

namespace EventBuilder

/-- `EventBuilder::new`. -/
def new (kind : Kind) (content : String) : EventBuilder := ⟨kind, content, ⟨[]⟩, none⟩

/-- `EventBuilder::tag`. -/
def tag (t : Tag) (b : EventBuilder) : EventBuilder := { b with tags := ⟨b.tags.items ++ [t]⟩ }

/-- `EventBuilder::build_unsigned`. -/
def buildUnsigned (crypto : Crypto) (clock : Clock) (pubkey : PublicKey) (b : EventBuilder) :
    Except EventBuilderError UnsignedEvent :=
  match b.createdAt with
  | some ts => .ok (.new crypto pubkey ts b.kind b.tags b.content)
  | none =>
      match clock with
      | .error text => .error (.clock text)
      | .ok now => .ok (.new crypto pubkey now b.kind b.tags b.content)

/-- `EventBuilder::sign_with_keys`. -/
def signWithKeys (crypto : KeyCrypto) (clock : Clock) (aux : Bytes) (keys : Keys) (b : EventBuilder) :
    Except EventBuilderError Event :=
  match b.buildUnsigned crypto.toCrypto clock keys.publicKey with
  | .error e => .error e
  | .ok unsigned => (unsigned.signWithKeys crypto aux keys).mapError .signer

/-- With a clock the builder cannot fail: the author is the signer. -/
theorem signWithKeys_ok (crypto : KeyCrypto) (now : Timestamp) (aux : Bytes) (keys : Keys) (b : EventBuilder) :
    ∃ event, b.signWithKeys crypto (.ok now) aux keys = .ok event ∧
      event.pubkey = keys.publicKey ∧ event.kind = b.kind ∧ event.tags = b.tags ∧ event.content = b.content := by
  have hself : ∀ u : UnsignedEvent, u.pubkey = keys.publicKey →
      ∃ event, (u.signWithKeys crypto aux keys).mapError EventBuilderError.signer = .ok event ∧
        event.pubkey = u.pubkey ∧ event.kind = u.kind ∧ event.tags = u.tags ∧ event.content = u.content := by
    intro u hu
    rw [UnsignedEvent.signWithKeys, if_neg (by rw [hu]; exact not_not.mpr rfl)]
    exact ⟨_, rfl, rfl, rfl, rfl, rfl⟩
  rw [signWithKeys, buildUnsigned]
  cases b.createdAt with
  | none => exact hself _ rfl
  | some ts => exact hself _ rfl

/-- **What is built** has the author's key, the builder's kind, tags and content, the time of the builder or of the
    clock, and the id of all these. -/
theorem buildUnsigned_eq_ok {crypto : Crypto} {clock : Clock} {pubkey : PublicKey} {b : EventBuilder}
    {unsigned : UnsignedEvent} (h : b.buildUnsigned crypto clock pubkey = .ok unsigned) :
    unsigned.pubkey = pubkey ∧ unsigned.kind = b.kind ∧ unsigned.tags = b.tags ∧ unsigned.content = b.content := by
  unfold buildUnsigned at h
  split at h
  · cases h
    exact ⟨rfl, rfl, rfl, rfl⟩
  · split at h
    · cases h
    · cases h
      exact ⟨rfl, rfl, rfl, rfl⟩

/-- What the builder signs keeps its parts, and carries its id and a signature of the signer's. -/
theorem signWithKeys_eq_ok {crypto : KeyCrypto} {clock : Clock} {aux : Bytes} {keys : Keys} {b : EventBuilder}
    {event : Event} (h : b.signWithKeys crypto clock aux keys = .ok event) :
    event.pubkey = keys.publicKey ∧ event.kind = b.kind ∧ event.tags = b.tags ∧ event.content = b.content ∧
      computeEventId crypto.toCrypto event.pubkey event.createdAt event.kind event.tags event.content = event.id ∧
      event.sig = crypto.signSchnorr keys.secretKey aux event.id.bytes := by
  rw [signWithKeys] at h
  cases hbuild : b.buildUnsigned crypto.toCrypto clock keys.publicKey with
  | error e =>
      rw [hbuild] at h
      cases h
  | ok unsigned =>
      rw [hbuild] at h
      obtain ⟨hpubkey, hkind, htags, hcontent⟩ := buildUnsigned_eq_ok hbuild
      simp only [UnsignedEvent.signWithKeys, if_neg (not_not.mpr hpubkey.symm)] at h
      cases h
      exact ⟨hpubkey, hkind, htags, hcontent, rfl, rfl⟩

/-- With a time of its own the builder needs no clock. -/
theorem signWithKeys_at {crypto : KeyCrypto} {clock : Clock} {aux : Bytes} {keys : Keys} {b : EventBuilder}
    {ts : Timestamp} (h : b.createdAt = some ts) : b.signWithKeys crypto clock aux keys =
      .ok ⟨computeEventId crypto.toCrypto keys.publicKey ts b.kind b.tags b.content, keys.publicKey, ts, b.kind, b.tags,
        b.content, crypto.signSchnorr keys.secretKey aux
          (computeEventId crypto.toCrypto keys.publicKey ts b.kind b.tags b.content).bytes⟩ := by
  unfold signWithKeys buildUnsigned
  rw [h]
  simp only [UnsignedEvent.new, UnsignedEvent.signWithKeys, UnsignedEvent.computeId, ne_eq, not_true_eq_false, if_false]
  rfl

theorem signWithKeys_now {crypto : KeyCrypto} {now : Timestamp} {aux : Bytes} {keys : Keys} {b : EventBuilder}
    (h : b.createdAt = none) : b.signWithKeys crypto (.ok now) aux keys =
      .ok ⟨computeEventId crypto.toCrypto keys.publicKey now b.kind b.tags b.content, keys.publicKey, now, b.kind,
        b.tags, b.content, crypto.signSchnorr keys.secretKey aux
          (computeEventId crypto.toCrypto keys.publicKey now b.kind b.tags b.content).bytes⟩ := by
  unfold signWithKeys buildUnsigned
  rw [h]
  simp only [UnsignedEvent.new, UnsignedEvent.signWithKeys, UnsignedEvent.computeId, ne_eq, not_true_eq_false, if_false]
  rfl

/-- Without a clock nothing is signed, as the time is missing. -/
theorem signWithKeys_clock (crypto : KeyCrypto) (text : String) (aux : Bytes) (keys : Keys) (kind : Kind)
    (content : String) (t : Tag) :
    ((new kind content).tag t).signWithKeys crypto (.error text) aux keys = .error (.clock text) := rfl

end EventBuilder

/-- `Tag::p`. -/
def Tag.p (pubkey : PublicKey) : Tag := ⟨["p", pubkey.toHex], List.cons_ne_nil _ _⟩

/-! ## JSON -/

theorem isWhitespace_of_visible {c : Char} (h : Json.Visible c) : isWhitespace c = false := by
  obtain ⟨hlow, hhigh⟩ := h
  simp only [isWhitespace, Bool.or_eq_false_iff, Bool.and_eq_false_iff, decide_eq_false_iff_not, beq_eq_false_iff_ne]
  omega

/-- A text with visible ends is not trimmed. -/
theorem trim_of_visible {s : String}
    (h : ∀ c, (s.toList.head? = some c ∨ s.toList.getLast? = some c) → Json.Visible c) : trim s = s := by
  have hfront : s.toList.dropWhile isWhitespace = s.toList := by
    cases hs : s.toList with
    | nil => rfl
    | cons c cs =>
        have hc := isWhitespace_of_visible (h c (Or.inl (by rw [hs]; rfl)))
        rw [List.dropWhile_cons_of_neg (by simp [hc])]
  have hback : s.toList.reverse.dropWhile isWhitespace = s.toList.reverse := by
    cases hs : s.toList.reverse with
    | nil => rfl
    | cons c cs =>
        have hlast : s.toList.getLast? = some c := by
          rw [← List.head?_reverse, hs]
          rfl
        have hc := isWhitespace_of_visible (h c (Or.inr hlast))
        rw [List.dropWhile_cons_of_neg (by simp [hc])]
  rw [trim, trimChars, hfront, hback, List.reverse_reverse, String.ofList_toList]

namespace Hex

/-- Hex digits stand in a JSON string as they are. -/
theorem escaped_encode (b : Bytes) : (encode b).toList.any Json.escaped = false := by
  rw [encode, String.toList_ofList, List.any_flatMap, List.any_eq_false]
  intro x _
  have hdigit : ∀ n : UInt8, n < 16 → Json.escaped (digitChar n) = false := by decide +kernel
  obtain ⟨hdiv, hmod, -⟩ := nibbles x
  simp [hdigit _ hdiv, hdigit _ hmod]

end Hex

theorem EventId.parse_toHex (id : EventId) : EventId.parse id.toHex = .ok id := by
  rw [EventId.parse, EventId.toHex, Hex.decode_encode]
  simp only [EventId.fromSlice, id.size, dite_true]

/-- `Signature::from_str`. -/
def Signature.parse (s : String) : Option Signature :=
  match Hex.decodeToSlice 64 (strBytes s) with
  | .error _ => none
  | .ok b => if h : b.length = 64 then some ⟨b, h⟩ else none

/-- The hex of a signature. -/
def Signature.toHex (sig : Signature) : String := Hex.encode sig.bytes

theorem Signature.parse_toHex (sig : Signature) : Signature.parse sig.toHex = some sig := by
  rw [Signature.parse, Signature.toHex, Hex.decodeToSlice_encode sig.size]
  simp only [sig.size, dite_true]

namespace Json

/-! The fields of events. Ids and keys are lent from the text (`<&str>::deserialize`). -/

/-- An id is read from a text that need not be copied. -/
def eventId (c : JsonContent) : Option EventId := c.lent.bind (fun s => (EventId.parse s).toOption)

/-- So is a public key. -/
def publicKey (c : JsonContent) : Option PublicKey := c.lent.bind (fun s => (PublicKey.parse s).toOption)

/-- A signature is read from a text. -/
def signature (c : JsonContent) : Option Signature := c.text.bind Signature.parse

/-- A kind is a number of 16 bits. -/
def kind (c : JsonContent) : Option Kind :=
  c.number.bind (fun n => if n.toNat < 2 ^ 16 then some ⟨n.toUInt16⟩ else none)

/-- A tag is the array of its values. -/
def tagValue (t : Tag) : JsonValue := .array (t.values.map .string)

/-- A tag without a head is refused. -/
def tag (c : JsonContent) : Option Tag :=
  (c.list JsonContent.text).bind (fun values => if h : values ≠ [] then some ⟨values, h⟩ else none)

/-- Tags are an array of tags, none of which is empty. -/
def tags (c : JsonContent) : Option Tags := (c.list tag).map Tags.mk

theorem eventId_content (id : EventId) : eventId (JsonValue.string id.toHex).content = some id := by
  rw [eventId, JsonContent.lent_content (s := id.toHex) (Hex.escaped_encode id.bytes), Option.bind_some,
    EventId.parse_toHex]
  rfl

theorem publicKey_content (pk : PublicKey) : publicKey (JsonValue.string pk.toHex).content = some pk := by
  rw [publicKey, JsonContent.lent_content (s := pk.toHex) (Hex.escaped_encode pk.bytes), Option.bind_some,
    PublicKey.parse_toHex]
  rfl

theorem signature_content (sig : Signature) : signature (JsonValue.string sig.toHex).content = some sig := by
  rw [signature, JsonContent.text_content, Option.bind_some, Signature.parse_toHex]

theorem kind_content (k : Kind) : kind (JsonValue.number k.val.toUInt64).content = some k := by
  have hlt : k.val.toUInt64.toNat < 2 ^ 16 := by
    rw [UInt16.toNat_toUInt64]
    exact k.val.toNat_lt
  rw [kind, JsonValue.content, JsonContent.number, Option.bind_some, if_pos hlt, UInt16.toUInt16_toUInt64]

theorem tag_content (t : Tag) : tag (tagValue t).content = some t := by
  rw [tag, tagValue, JsonContent.list_content JsonContent.text_content, Option.bind_some, dif_pos t.nonempty]

theorem depth_tags (t : Tags) : (JsonValue.array (t.items.map tagValue)).depth ≤ 2 := by
  apply depth_array_le
  intro v hv
  obtain ⟨tag, -, rfl⟩ := List.mem_map.mp hv
  apply depth_array_le
  intro v hv
  obtain ⟨s, -, rfl⟩ := List.mem_map.mp hv
  exact le_rfl

theorem tags_content (t : Tags) : tags (JsonValue.array (t.items.map tagValue)).content = some t := by
  rw [tags, JsonContent.list_content tag_content]
  rfl

end Json

namespace UnsignedEvent

/-- The fields in wire order. -/
def toJson (u : UnsignedEvent) : JsonValue :=
  .object [("id", .string u.id.toHex), ("pubkey", .string u.pubkey.toHex), ("created_at", .number u.createdAt),
    ("kind", .number u.kind.val.toUInt64), ("tags", .array (u.tags.items.map Json.tagValue)),
    ("content", .string u.content)]

/-- `UnsignedEvent`, from its members. -/
def ofContent (c : JsonContent) : Option UnsignedEvent := do
  let members ← Json.record ["id", "pubkey", "created_at", "kind", "tags", "content"] c
  return {
    id := ← Json.required members "id" Json.eventId
    pubkey := ← Json.required members "pubkey" Json.publicKey
    createdAt := ← Json.required members "created_at" JsonContent.number
    kind := ← Json.required members "kind" Json.kind
    tags := ← Json.required members "tags" Json.tags
    content := ← Json.required members "content" JsonContent.text }

/-- An unsigned event is read back from its JSON. -/
theorem ofContent_toJson (u : UnsignedEvent) : ofContent u.toJson.content = some u := by
  simp [ofContent, toJson, JsonValue.content_object, Json.record, Json.required, Json.member,
    Json.eventId_content, Json.publicKey_content, JsonContent.number_content, Json.kind_content,
    Json.tags_content, JsonContent.text_content]

/-- An unsigned event is not nested too deep for the parser. -/
theorem depth_toJson (u : UnsignedEvent) : u.toJson.depth ≤ Json.maxDepth := by
  have htags := Json.depth_tags u.tags
  have hall : u.toJson.depth ≤ 3 := by
    apply depth_object_le
    simp only [List.forall_mem_cons, JsonValue.depth]
    exact ⟨by decide, by decide, by decide, by decide, htags, by decide, List.forall_mem_nil _⟩
  exact hall.trans (by decide)

variable (json : JsonCodec)

/-- `JsonUtil::try_to_json`. -/
def asJson (u : UnsignedEvent) : String := json.write u.toJson

/-- `JsonUtil::from_json`. -/
def fromJson (text : String) : Option UnsignedEvent := (json.read text).bind ofContent

/-- **An unsigned event comes back from its text**, member by member. -/
theorem fromJson_asJson (u : UnsignedEvent) : fromJson json (u.asJson json) = some u := by
  rw [fromJson, asJson, json.read_write _ u.depth_toJson, Option.bind_some, ofContent_toJson]

end UnsignedEvent

namespace Event

/-- `Event`, as an object. -/
def toJson (e : Event) : JsonValue :=
  .object [("id", .string e.id.toHex), ("pubkey", .string e.pubkey.toHex), ("created_at", .number e.createdAt),
    ("kind", .number e.kind.val.toUInt64), ("tags", .array (e.tags.items.map Json.tagValue)),
    ("content", .string e.content), ("sig", .string e.sig.toHex)]

/-- `Event`, from its members. -/
def ofContent (c : JsonContent) : Option Event := do
  let members ← Json.record ["id", "pubkey", "created_at", "kind", "tags", "content", "sig"] c
  return {
    id := ← Json.required members "id" Json.eventId
    pubkey := ← Json.required members "pubkey" Json.publicKey
    createdAt := ← Json.required members "created_at" JsonContent.number
    kind := ← Json.required members "kind" Json.kind
    tags := ← Json.required members "tags" Json.tags
    content := ← Json.required members "content" JsonContent.text
    sig := ← Json.required members "sig" Json.signature }

/-- An event is read back from its JSON. -/
theorem ofContent_toJson (e : Event) : ofContent e.toJson.content = some e := by
  simp [ofContent, toJson, JsonValue.content_object, Json.record, Json.required, Json.member,
    Json.eventId_content, Json.publicKey_content, JsonContent.number_content, Json.kind_content,
    Json.tags_content, JsonContent.text_content, Json.signature_content]

theorem depth_le (e : Event) : e.toJson.depth ≤ 3 := by
  have htags := Json.depth_tags e.tags
  apply depth_object_le
  simp only [List.forall_mem_cons, JsonValue.depth]
  exact ⟨by decide, by decide, by decide, by decide, htags, by decide, by decide, List.forall_mem_nil _⟩

/-- An event is not nested too deep for the parser. -/
theorem depth_toJson (e : Event) : e.toJson.depth ≤ Json.maxDepth := e.depth_le.trans (by decide)

variable (json : JsonCodec)

/-- `JsonUtil::try_to_json`. -/
def asJson (e : Event) : String := json.write e.toJson

/-- `JsonUtil::from_json`. -/
def fromJson (text : String) : Option Event := (json.read text).bind ofContent

/-- **An event comes back from its text**, member by member. -/
theorem fromJson_asJson (e : Event) : fromJson json (e.asJson json) = some e := by
  rw [fromJson, asJson, json.read_write _ e.depth_toJson, Option.bind_some, ofContent_toJson]

end Event

/-! ## The size of what is written -/

theorem Hex.length_encode (b : Bytes) : (Hex.encode b).toList.length = 2 * b.length := by
  rw [Hex.encode, String.toList_ofList]
  induction b with
  | nil => rfl
  | cons x xs ih =>
      simp only [List.flatMap_cons, List.length_append, ih, List.length_cons, List.length_nil]
      omega

/-- Hex digits are written as they are. -/
theorem Json.length_writeString_encode (b : Bytes) : (Json.writeString (Hex.encode b)).length = 2 * b.length + 2 := by
  have hplain : ∀ cs : List Char, cs.any Json.escaped = false → cs.flatMap Json.escape = cs := by
    intro cs
    induction cs with
    | nil => exact fun _ => rfl
    | cons c cs ih =>
        intro h
        obtain ⟨hc, hcs⟩ := Bool.or_eq_false_iff.mp h
        rw [List.flatMap_cons, Json.escape_plain hc, ih hcs]
        rfl
  rw [Json.writeString, hplain _ (Hex.escaped_encode b)]
  simp only [List.length_cons, List.length_append, List.length_nil, Hex.length_encode]

/-- How long the names of the members are when they are written. -/
theorem length_names : (Json.writeString "id").length = 4 ∧ (Json.writeString "pubkey").length = 8 ∧
    (Json.writeString "created_at").length = 12 ∧ (Json.writeString "kind").length = 6 ∧
    (Json.writeString "tags").length = 6 ∧ (Json.writeString "content").length = 9 ∧
    (Json.writeString "sig").length = 5 := by decide

/-- All but the tags and the content of an unsigned event has a bounded size. -/
theorem UnsignedEvent.length_writeValue_le (u : UnsignedEvent) : 0 < (Json.writeValue u.toJson).length ∧
    (Json.writeValue u.toJson).length ≤
      (Json.writeValue (.array (u.tags.items.map Json.tagValue))).length + 6 * u.content.toList.length + 300 := by
  have hid := Json.length_writeString_encode u.id.bytes
  have hpubkey := Json.length_writeString_encode u.pubkey.bytes
  have hcontent := Json.length_writeString_le u.content
  rw [u.id.size] at hid
  rw [u.pubkey.size] at hpubkey
  have htime := Json.length_writeNumber_le u.createdAt.toNat_lt
  have hkind := Json.length_writeNumber_le u.kind.val.toUInt64.toNat_lt
  obtain ⟨hn1, hn2, hn3, hn4, hn5, hn6, -⟩ := length_names
  simp only [UnsignedEvent.toJson, Json.writeValue, Json.writeMembers, List.length_cons, List.length_append,
    EventId.toHex, PublicKey.toHex, List.length_nil]
  omega

/-- **How long an event is at most**, when it is written: its tags, its content, each byte of which takes six at most,
    and what every event has. -/
theorem Event.length_writeValue_le (e : Event) : 0 < (Json.writeValue e.toJson).length ∧
    (Json.writeValue e.toJson).length ≤
      (Json.writeValue (.array (e.tags.items.map Json.tagValue))).length + 6 * e.content.toList.length + 450 := by
  have hid := Json.length_writeString_encode e.id.bytes
  have hpubkey := Json.length_writeString_encode e.pubkey.bytes
  have hcontent := Json.length_writeString_le e.content
  have hsig := Json.length_writeString_encode e.sig.bytes
  rw [e.id.size] at hid
  rw [e.pubkey.size] at hpubkey
  rw [e.sig.size] at hsig
  have htime := Json.length_writeNumber_le e.createdAt.toNat_lt
  have hkind := Json.length_writeNumber_le e.kind.val.toUInt64.toNat_lt
  obtain ⟨hn1, hn2, hn3, hn4, hn5, hn6, hn7⟩ := length_names
  simp only [Event.toJson, Json.writeValue, Json.writeMembers, List.length_cons, List.length_append,
    EventId.toHex, PublicKey.toHex, Signature.toHex, List.length_nil]
  omega

end Nula
