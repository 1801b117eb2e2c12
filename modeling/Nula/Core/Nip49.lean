import Nula.Core.Nip19
import Nula.Core.Str
import Nula.Lib.Checked
import Nula.Lib.Decoder

/-!
# `Core.Nip49` — encrypted secret keys

The `ncryptsec` payload of `nips/nip49.rs`: a version, the cost of scrypt, a salt, a nonce, what the author declares of
the key, and the sealed key. The cost is capped where a key is encrypted. `fromPayloadBytes_parts` says what the decoder
makes of the parts of a payload, and `capped_iff` when a key obtained in any way stays inside the cap.
-/

namespace Nula.Nip49

/-! ## The crates -/

/-- What the repository uses of the crates `bech32`, `unicode_normalization`, `scrypt` and `chacha20poly1305`; errors
    are their texts. -/
structure Crates extends Nip19.Bech32Crate where
  /-- `Hrp::parse` succeeds. -/
  parseHrp : String → Bool
  nfkc : String → String
  /-- `ScryptParams::new`, with `SCRYPT_R` and `SCRYPT_P`. -/
  newParams : UInt8 → Except String Unit
  /-- `scrypt` of a password and a salt, into 32 bytes. -/
  scrypt : Bytes → Octets 16 → UInt8 → Except String (Octets 32)
  /-- `XChaCha20Poly1305::encrypt` under a key: the nonce, the associated data, the message. -/
  encryptAead : Octets 32 → Octets 24 → Bytes → Bytes → Option Bytes
  decryptAead : Octets 32 → Octets 24 → Bytes → Bytes → Option Bytes

def hrp : String := "ncryptsec"

/-- `VERSION_BYTE`: the only version there is. -/
def versionByte : UInt8 := 2

def saltBytes : Nat := 16

def nonceBytes : Nat := 24

def secretBytes : Nat := 32

/-- `TAG_BYTES`: the tag of Poly1305. -/
def tagBytes : Nat := 16

/-- `CIPHERTEXT_BYTES`: the secret and its tag. -/
def ciphertextBytes : Nat := secretBytes + tagBytes

/-- `PAYLOAD_BYTES`: version, cost, salt, nonce, key security and ciphertext. -/
def payloadBytes : Nat := 1 + 1 + saltBytes + nonceBytes + 1 + ciphertextBytes

/-- `MAX_LOG_N`: beyond it, deriving the key takes too much memory. -/
def maxLogN : UInt8 := 30

/-- What the repository relies on: the laws of bech32, that `ncryptsec` is a prefix and a text of at most 1023
    characters is written, and the tag of 16 bytes behind what is sealed. -/
structure Crates.Lawful (crates : Crates) : Prop where
  bech32 : crates.toBech32Crate.Lawful
  parseHrp : crates.parseHrp hrp = true
  encode : ∀ data : Bytes, hrp.length + 7 + (8 * data.length + 4) / 5 ≤ 1023 → ∃ text, crates.encode hrp data = .ok text
  sealed : ∀ {key nonce aad message ciphertext}, crates.encryptAead key nonce aad message = some ciphertext →
    ciphertext.length = message.length + tagBytes

/-! ## Encrypted keys -/

/-- `Nip49Error`; the texts of the crates are carried as they come. -/
inductive Nip49Error where
  | invalidParams (logN : UInt8) (message : String)
  | logNTooLarge (logN : UInt8)
  | scrypt (text : String)
  | aead
  | invalidLength (got : Nat)
  | unsupportedVersion (version : UInt8)
  | invalidKeySecurity (byte : UInt8)
  | decode (text : String)
  | encode (text : String)
  | unexpectedHrp (hrp : String)
  | secretKey (e : SecretKeyError)
  | rng (text : String)
  deriving DecidableEq, Repr

/-- `KeySecurity`: whether the key was ever handled insecurely, as far as the client knows. -/
inductive KeySecurity where
  | weak
  | strong
  | untracked
  deriving DecidableEq, Repr

namespace KeySecurity

/-- `security as u8`. -/
def asByte : KeySecurity → UInt8
  | .weak => 0
  | .strong => 1
  | .untracked => 2

def fromByte (byte : UInt8) : Except Nip49Error KeySecurity :=
  if byte = 0 then .ok .weak
  else if byte = 1 then .ok .strong
  else if byte = 2 then .ok .untracked
  else .error (.invalidKeySecurity byte)

theorem fromByte_asByte (security : KeySecurity) : fromByte security.asByte = .ok security := by
  cases security <;> rfl

theorem fromByte_ok_iff : ∀ byte : UInt8, (∃ security, fromByte byte = .ok security) ↔ byte ≤ 2 := by
  intro byte
  rw [fromByte]
  split_ifs with hzero hone htwo
  · exact iff_of_true ⟨_, rfl⟩ (by rw [hzero]; decide)
  · exact iff_of_true ⟨_, rfl⟩ (by rw [hone]; decide)
  · exact iff_of_true ⟨_, rfl⟩ (by rw [htwo]; decide)
  · refine iff_of_false (fun ⟨_, h⟩ => by cases h) (fun hle => ?_)
    have hnat : byte.toNat ≤ 2 := UInt8.le_iff_toNat_le.mp hle
    simp only [← UInt8.toNat_inj] at hzero hone htwo
    have hcases : byte.toNat = 0 ∨ byte.toNat = 1 ∨ byte.toNat = 2 := by omega
    rcases hcases with h | h | h
    · exact hzero h
    · exact hone h
    · exact htwo h

end KeySecurity

/-- `EncryptedSecretKey`: the parts of the payload, each of its own length. -/
structure EncryptedSecretKey where
  logN : UInt8
  salt : Octets 16
  nonce : Octets 24
  security : KeySecurity
  ciphertext : Octets 48
  deriving DecidableEq

/-- `<[u8; n]>::try_from`. -/
def toOctets (n : Nat) (b : Bytes) : Option (Octets n) := if h : b.length = n then some ⟨b, h⟩ else none

/-- `split_first_chunk`. -/
def splitFirstChunk (n : Nat) (b : Bytes) : Option (Octets n × Bytes) :=
  (toOctets n (b.take n)).map (fun chunk => (chunk, b.drop n))

/-- `first_chunk`. -/
def firstChunk (n : Nat) (b : Bytes) : Option (Octets n) := toOctets n (b.take n)

/-- `Option::expect`, in code that also returns errors. -/
def expect {α : Type} (text : String) (x : Option α) : Fallible Nip49Error α := (Checked.expect text x : Checked α)

/-- The byte of an array at a position. -/
def byteAt {n : Nat} (b : Octets n) (i : Fin n) : UInt8 := b.1.get ⟨i, by rw [b.2]; exact i.2⟩

/-- What a crate returns. -/
def returned {ε α : Type} (wrap : ε → Nip49Error) (x : Except ε α) : Fallible Nip49Error α :=
  ExceptT.mk (.ok (x.mapError wrap))

section Codec

variable (crates : Crates)

/-- `derive_symmetric_key`. -/
def deriveSymmetricKey (password : String) (salt : Octets 16) (logN : UInt8) : Fallible Nip49Error (Octets 32) := do
  let normalized := crates.nfkc password
  returned (.invalidParams logN) (crates.newParams logN)
  returned .scrypt (crates.scrypt (strBytes normalized) salt logN)

/-- `EncryptedSecretKey::encrypt_with`. -/
def encryptWith (secret : SecretKey) (password : String) (logN : UInt8) (security : KeySecurity)
    (salt : Octets 16) (nonce : Octets 24) : Fallible Nip49Error EncryptedSecretKey :=
  if maxLogN < logN then throw (.logNTooLarge logN)
  else do
    let symKey ← deriveSymmetricKey crates password salt logN
    match crates.encryptAead symKey nonce [security.asByte] secret.bytes with
    | none => throw .aead
    | some ct => do
        let ciphertext ← expect "XChaCha20-Poly1305 always emits plaintext+16 bytes" (toOctets 48 ct)
        return ⟨logN, salt, nonce, security, ciphertext⟩

/-- `EncryptedSecretKey::encrypt`, with what the random source gives: the salt first. -/
def encrypt (secret : SecretKey) (password : String) (logN : UInt8) (security : KeySecurity)
    (salt : Except String (Octets 16)) (nonce : Except String (Octets 24)) :
    Fallible Nip49Error EncryptedSecretKey := do
  let salt ← returned .rng salt
  let nonce ← returned .rng nonce
  encryptWith crates secret password logN security salt nonce

/-- `EncryptedSecretKey::decrypt`. -/
def decrypt (k : EncryptedSecretKey) (password : String) : Fallible Nip49Error SecretKey := do
  let symKey ← deriveSymmetricKey crates password k.salt k.logN
  match crates.decryptAead symKey k.nonce [k.security.asByte] k.ciphertext.1 with
  | none => throw .aead
  | some plaintext =>
      match toOctets 32 plaintext with
      | none => throw (.invalidLength plaintext.length)
      | some secretArray => returned .secretKey (SecretKey.fromSlice secretArray.1)

/-- `to_payload_bytes`. -/
def toPayloadBytes (k : EncryptedSecretKey) : Fallible Nip49Error (Octets 91) :=
  let buf := versionByte :: k.logN :: (k.salt.1 ++ (k.nonce.1 ++ k.security.asByte :: k.ciphertext.1))
  expect "PAYLOAD_BYTES = 1 + 1 + SALT_BYTES + NONCE_BYTES + 1 + CIPHERTEXT_BYTES" (toOctets 91 buf)

/-- `from_payload_bytes`. -/
def fromPayloadBytes (bytes : Bytes) : Fallible Nip49Error EncryptedSecretKey :=
  if bytes.length ≠ payloadBytes then throw (.invalidLength bytes.length)
  else do
    let (head, rest) ← expect "PAYLOAD_BYTES >= 2 (version + log_n)" (splitFirstChunk 2 bytes)
    -- the version is checked before anything else is read
    let version := byteAt head 0
    let logN := byteAt head 1
    if version ≠ versionByte then throw (.unsupportedVersion version)
    else do
      let (salt, rest) ← expect "PAYLOAD_BYTES leaves SALT_BYTES after the 2-byte header" (splitFirstChunk 16 rest)
      let (nonce, rest) ← expect "PAYLOAD_BYTES leaves NONCE_BYTES after the salt" (splitFirstChunk 24 rest)
      let (aadChunk, ciphertextSlice) ← expect "PAYLOAD_BYTES leaves >= 1 byte after the nonce" (splitFirstChunk 1 rest)
      let security ← returned id (KeySecurity.fromByte (byteAt aadChunk 0))
      let ciphertext ← expect "PAYLOAD_BYTES leaves CIPHERTEXT_BYTES after the AAD byte" (firstChunk 48 ciphertextSlice)
      return ⟨logN, salt, nonce, security, ciphertext⟩

/-- `EncryptedSecretKey::to_bech32`. -/
def toBech32 (k : EncryptedSecretKey) : Fallible Nip49Error String := do
  let bytes ← toPayloadBytes k
  let hrp ← expect "HRP is statically valid" (if crates.parseHrp hrp then some hrp else none)
  returned .encode (crates.encode hrp bytes.1)

/-- `EncryptedSecretKey::from_bech32`. -/
def fromBech32 (input : String) : Fallible Nip49Error EncryptedSecretKey := do
  let parsed ← returned .decode (crates.decode input)
  let found := Nip19.toLowercase parsed.1
  if found ≠ hrp then throw (.unexpectedHrp found)
  else fromPayloadBytes parsed.2

end Codec

/-! ## The parts of a payload -/

theorem toOctets_self {n : Nat} (b : Octets n) : toOctets n b.1 = some b := dif_pos b.2

/-- A chunk is split off a payload that begins with it. -/
theorem splitFirstChunk_append {n : Nat} (chunk : Octets n) (rest : Bytes) :
    splitFirstChunk n (chunk.1 ++ rest) = some (chunk, rest) := by
  rw [splitFirstChunk, List.take_left' chunk.2, List.drop_left' chunk.2, toOctets_self]
  rfl

theorem firstChunk_self {n : Nat} (chunk : Octets n) : firstChunk n chunk.1 = some chunk := by
  rw [firstChunk, List.take_of_length_le (Nat.le_of_eq chunk.2), toOctets_self]

/-- An `expect` on something that is there does not panic. -/
theorem expect_bind {α β : Type} {text : String} {x : Option α} {a : α} {f : α → Fallible Nip49Error β}
    (h : x = some a) : (expect text x >>= f).run = (f a).run := by
  rw [h]
  exact Fallible.bind_lift rfl

theorem returned_bind_ok {ε α β : Type} {wrap : ε → Nip49Error} {x : Except ε α} {a : α} {f : α → Fallible Nip49Error β}
    (h : x = .ok a) : (returned wrap x >>= f).run = (f a).run := by
  rw [h]
  exact Fallible.bind_ok rfl

/-- `?` on an error is the end, with the error wrapped. -/
theorem returned_bind_error {ε α β : Type} {wrap : ε → Nip49Error} {x : Except ε α} {e : ε}
    {f : α → Fallible Nip49Error β} (h : x = .error e) : (returned wrap x >>= f).run = .ok (.error (wrap e)) := by
  rw [h]
  rfl

/-- The bytes of a payload, from its parts. -/
def assemble (version logN : UInt8) (salt : Octets 16) (nonce : Octets 24) (aad : UInt8) (ciphertext : Octets 48) :
    Bytes :=
  version :: logN :: (salt.1 ++ (nonce.1 ++ aad :: ciphertext.1))

section Parts

variable (version logN : UInt8) (salt : Octets 16) (nonce : Octets 24) (aad : UInt8) (ciphertext : Octets 48)

/-- The parts together have the length of a payload. -/
theorem length_assemble : (assemble version logN salt nonce aad ciphertext).length = payloadBytes := by
  simp [assemble, salt.2, nonce.2, ciphertext.2, payloadBytes, saltBytes, nonceBytes, ciphertextBytes, secretBytes,
    tagBytes]

/-- The byte of the key security stands behind the nonce, where the associated data is taken from. -/
theorem assemble_security : (assemble version logN salt nonce aad ciphertext)[42]? = some aad := by
  have hsplit : assemble version logN salt nonce aad ciphertext =
      (version :: logN :: (salt.1 ++ nonce.1)) ++ aad :: ciphertext.1 := by
    simp [assemble]
  have hlength : (version :: logN :: (salt.1 ++ nonce.1)).length = 42 := by
    simp [salt.2, nonce.2]
  rw [hsplit, List.getElem?_append_right (Nat.le_of_eq hlength), hlength]
  rfl

/-- What the decoder makes of the parts. -/
theorem fromPayloadBytes_parts :
    (fromPayloadBytes (assemble version logN salt nonce aad ciphertext)).run =
      .ok (if version ≠ versionByte then .error (.unsupportedVersion version)
        else (KeySecurity.fromByte aad).map (fun security => ⟨logN, salt, nonce, security, ciphertext⟩)) := by
  have hlength := length_assemble version logN salt nonce aad ciphertext
  rw [fromPayloadBytes, if_neg (not_not.mpr hlength)]
  have hhead : splitFirstChunk 2 (assemble version logN salt nonce aad ciphertext) =
      some (⟨[version, logN], rfl⟩, _) := splitFirstChunk_append ⟨[version, logN], rfl⟩ _
  refine (expect_bind hhead).trans ?_
  show (if version ≠ versionByte then _ else _ : Fallible Nip49Error EncryptedSecretKey).run = _
  split
  · rfl
  refine (expect_bind (splitFirstChunk_append salt _)).trans ?_
  refine (expect_bind (splitFirstChunk_append nonce _)).trans ?_
  refine (expect_bind (splitFirstChunk_append ⟨[aad], rfl⟩ ciphertext.1)).trans ?_
  show (returned id (KeySecurity.fromByte aad) >>= _).run = _
  cases hsecurity : KeySecurity.fromByte aad with
  | error e => exact returned_bind_error rfl
  | ok security =>
      refine (returned_bind_ok rfl).trans ?_
      exact expect_bind (firstChunk_self ciphertext)

end Parts

/-- A text of 91 bytes has its parts. -/
theorem exists_parts {bytes : Bytes} (h : bytes.length = payloadBytes) :
    ∃ version logN salt nonce aad ciphertext, bytes = assemble version logN salt nonce aad ciphertext := by
  have hlength : bytes.length = 91 := h
  obtain ⟨version, bytes, rfl⟩ := List.exists_cons_of_length_eq_add_one hlength
  obtain ⟨logN, bytes, rfl⟩ := List.exists_cons_of_length_eq_add_one (Nat.succ.inj hlength)
  rw [List.length_cons, List.length_cons] at hlength
  have htail : ((bytes.drop 16).drop 24).length = 48 + 1 := by
    simp only [List.length_drop]
    omega
  obtain ⟨aad, rest, hrest⟩ := List.exists_cons_of_length_eq_add_one htail
  have hciphertext : rest.length = 48 := by
    rw [hrest] at htail
    exact Nat.succ.inj htail
  refine ⟨version, logN, ⟨bytes.take 16, by rw [List.length_take]; omega⟩,
    ⟨(bytes.drop 16).take 24, by rw [List.length_take, List.length_drop]; omega⟩, aad, ⟨rest, hciphertext⟩, ?_⟩
  rw [assemble]
  dsimp only
  rw [← hrest, List.take_append_drop, List.take_append_drop]

/-! ## The cap -/

/-- The bytes are a payload of this version. -/
def WellFormed (bytes : Bytes) : Prop :=
  bytes.length = payloadBytes ∧ bytes[0]? = some versionByte ∧ ∃ aad ∈ bytes[42]?, aad ≤ 2

/-- Its cost is inside the cap. -/
def CostWithin (bytes : Bytes) : Prop := ∀ logN ∈ bytes[1]?, logN ≤ maxLogN

/-- The decoder reaches none of its `expect`s; it reads the payloads of this version, with the cost they name. A
    payload of the right length falls into its parts, and the decoder reads those; any other is refused at once. -/
theorem fromPayloadBytes_exact (bytes : Bytes) :
    (∃ r, (fromPayloadBytes bytes).run = .ok r) ∧
      (∀ k, (fromPayloadBytes bytes).run = .ok (.ok k) → bytes[1]? = some k.logN) ∧
      ((∃ k, (fromPayloadBytes bytes).run = .ok (.ok k)) ↔ WellFormed bytes) := by
  by_cases hlength : bytes.length = payloadBytes
  · obtain ⟨version, logN, salt, nonce, aad, ciphertext, rfl⟩ := exists_parts hlength
    have hrun := fromPayloadBytes_parts version logN salt nonce aad ciphertext
    have hwell : WellFormed (assemble version logN salt nonce aad ciphertext) ↔ version = versionByte ∧ aad ≤ 2 := by
      rw [WellFormed, assemble_security, and_iff_right hlength]
      simp [assemble]
    rw [hrun, hwell]
    refine ⟨⟨_, rfl⟩, ?_, ?_⟩
    · intro k hk
      by_cases hversion : version = versionByte
      · rw [if_neg (not_not.mpr hversion)] at hk
        cases hsecurity : KeySecurity.fromByte aad with
        | error e =>
            rw [hsecurity] at hk
            cases hk
        | ok security =>
            rw [hsecurity] at hk
            cases hk
            rfl
      · rw [if_pos hversion] at hk
        cases hk
    · by_cases hversion : version = versionByte
      · rw [if_neg (not_not.mpr hversion), ← KeySecurity.fromByte_ok_iff]
        cases hsecurity : KeySecurity.fromByte aad <;> simp [hversion, Except.map]
      · rw [if_pos hversion]
        simp [hversion]
  · have hrun : (fromPayloadBytes bytes).run = .ok (.error (.invalidLength bytes.length)) := by
      rw [fromPayloadBytes, if_pos hlength]
      rfl
    rw [hrun]
    refine ⟨⟨_, rfl⟩, fun k h => ?_, iff_of_false ?_ (fun h => hlength h.1)⟩
    · cases h
    · rintro ⟨k, h⟩
      cases h

/-- The ways to obtain an encrypted key. -/
inductive Origin where
  | encrypt (secret : SecretKey) (password : String) (logN : UInt8) (security : KeySecurity)
      (salt : Except String (Octets 16)) (nonce : Except String (Octets 24))
  | encryptWith (secret : SecretKey) (password : String) (logN : UInt8) (security : KeySecurity)
      (salt : Octets 16) (nonce : Octets 24)
  | fromBech32 (input : String)

section Cap

variable (crates : Crates)

/-- What the origin of a key computes. -/
def Origin.run : Origin → Fallible Nip49Error EncryptedSecretKey
  | .encrypt secret password logN security salt nonce =>
      Nip49.encrypt crates secret password logN security salt nonce
  | .encryptWith secret password logN security salt nonce =>
      Nip49.encryptWith crates secret password logN security salt nonce
  | .fromBech32 input => Nip49.fromBech32 crates input

/-- A text that is read holds a payload whose cost is inside the cap. -/
def Origin.Within : Origin → Prop
  | .fromBech32 input => ∀ found data, crates.decode input = .ok (found, data) → Nip19.toLowercase found = hrp →
      WellFormed data → CostWithin data
  | _ => True

/-- The key is written, and read back from what is written. -/
def RoundTrips (k : EncryptedSecretKey) : Prop :=
  ∃ text, (toBech32 crates k).run = .ok (.ok text) ∧ (fromBech32 crates text).run = .ok (.ok k)

/-- Writing the payload does not panic, and yields the parts in their order. -/
theorem toPayloadBytes_run (k : EncryptedSecretKey) : ∃ bytes, (toPayloadBytes k).run = .ok (.ok bytes) ∧
    bytes.1 = assemble versionByte k.logN k.salt k.nonce k.security.asByte k.ciphertext := by
  have hlength : (assemble versionByte k.logN k.salt k.nonce k.security.asByte k.ciphertext).length = 91 :=
    length_assemble _ _ _ _ _ _
  refine ⟨⟨_, hlength⟩, ?_, rfl⟩
  have hoctets := toOctets_self (⟨_, hlength⟩ : Octets 91)
  rw [toPayloadBytes]
  show (expect _ (toOctets 91 (assemble versionByte k.logN k.salt k.nonce k.security.asByte k.ciphertext))).run = _
  rw [hoctets]
  rfl

variable (laws : crates.Lawful)

include laws

/-- **An encrypted key comes back from its text.** The parts have fixed lengths, so each is split off where it was
    put. -/
theorem roundTrips (k : EncryptedSecretKey) : RoundTrips crates k := by
  obtain ⟨bytes, hbytes, hparts⟩ := toPayloadBytes_run k
  have hbound : hrp.length + 7 + (8 * bytes.1.length + 4) / 5 ≤ 1023 := by
    rw [bytes.2]
    decide
  obtain ⟨text, htext⟩ := laws.encode bytes.1 hbound
  have hlower : Nip19.toLowercase hrp = hrp := by decide
  refine ⟨text, ?_, ?_⟩
  · refine (Fallible.bind_ok hbytes).trans ?_
    refine (expect_bind (if_pos laws.parseHrp)).trans ?_
    show Except.ok ((crates.encode hrp bytes.1).mapError _) = _
    rw [htext]
    rfl
  · refine (returned_bind_ok (laws.bech32.decode_encode hlower htext)).trans ?_
    show (if Nip19.toLowercase hrp ≠ hrp then _ else fromPayloadBytes bytes.1).run = _
    rw [if_neg (not_not.mpr hlower), hparts, fromPayloadBytes_parts, if_neg (not_not.mpr rfl),
      KeySecurity.fromByte_asByte]
    rfl

/-- What `encrypt_with` returns has a cost inside the cap, and its `expect` is not reached. -/
theorem encryptWith_within (secret : SecretKey) (password : String) (logN : UInt8) (security : KeySecurity)
    (salt : Octets 16) (nonce : Octets 24) :
    Safe (encryptWith crates secret password logN security salt nonce) (fun k => k.logN ≤ maxLogN) := by
  rw [encryptWith]
  split
  · exact Safe.throw _ _
  rename_i hcap
  have hderive : Safe (deriveSymmetricKey crates password salt logN) (fun _ => True) :=
    Safe.bind ⟨_, rfl, fun _ _ => trivial⟩ (fun _ _ => ⟨_, rfl, fun _ _ => trivial⟩)
  refine hderive.bind (fun symKey _ => ?_)
  split
  · exact Safe.throw _ _
  rename_i ct hct
  have hlength : ct.length = 48 := by
    rw [laws.sealed hct, secret.size]
    rfl
  have hoctets : toOctets 48 ct = some ⟨ct, hlength⟩ := dif_pos hlength
  have hreturn : Safe (Pure.pure ⟨logN, salt, nonce, security, ⟨ct, hlength⟩⟩ : Fallible Nip49Error EncryptedSecretKey)
      (fun k => k.logN ≤ maxLogN) := Safe.pure (UInt8.not_lt.mp hcap)
  obtain ⟨r, hrun, hwithin⟩ := hreturn
  exact ⟨r, (expect_bind hoctets).trans hrun, hwithin⟩

/-- What is encrypted has a cost within the cap. -/
theorem encrypt_within (secret : SecretKey) (password : String) (logN : UInt8) (security : KeySecurity)
    (salt : Except String (Octets 16)) (nonce : Except String (Octets 24)) :
    Safe (encrypt crates secret password logN security salt nonce) (fun k => k.logN ≤ maxLogN) :=
  Safe.bind ⟨_, rfl, fun _ _ => trivial⟩ (fun salt _ => Safe.bind ⟨_, rfl, fun _ _ => trivial⟩ (fun nonce _ =>
    encryptWith_within crates laws secret password logN security salt nonce))

omit laws in
/-- A text is read when it holds a payload, and the cost is what the payload says. The prefix is checked after the
    checksum, and behind it the text is one of `from_payload_bytes`. -/
theorem fromBech32_exact (input : String) : (∃ r, (fromBech32 crates input).run = .ok r) ∧
    ((∀ k, (fromBech32 crates input).run = .ok (.ok k) → k.logN ≤ maxLogN) ↔
      (Origin.fromBech32 input).Within crates) := by
  cases hdecode : crates.decode input with
  | error text =>
      have hrun : (fromBech32 crates input).run = .ok (.error (.decode text)) := returned_bind_error hdecode
      rw [hrun]
      refine ⟨⟨_, rfl⟩, iff_of_true (fun k h => ?_) (fun found data h => ?_)⟩
      · cases h
      · rw [hdecode] at h
        cases h
  | ok parsed =>
      obtain ⟨found, data⟩ := parsed
      have hrun : (fromBech32 crates input).run =
          (if Nip19.toLowercase found ≠ hrp then throw (.unexpectedHrp (Nip19.toLowercase found))
            else fromPayloadBytes data : Fallible Nip49Error EncryptedSecretKey).run := by
        rw [fromBech32, returned_bind_ok hdecode]
      have hwithin : (Origin.fromBech32 input).Within crates ↔
          (Nip19.toLowercase found = hrp → WellFormed data → CostWithin data) := by
        constructor
        · intro h
          exact h found data hdecode
        · intro h found' data' hdecode'
          cases hdecode.symm.trans hdecode'
          exact h
      obtain ⟨hnoPanic, hcost, haccepted⟩ := fromPayloadBytes_exact data
      rw [hrun, hwithin]
      split
      · rename_i hother
        refine ⟨⟨_, rfl⟩, iff_of_true (fun k h => ?_) (fun h => absurd h hother)⟩
        cases h
      · rename_i hsame
        refine ⟨hnoPanic, ?_⟩
        constructor
        · intro h _ hwell logN hlogN
          obtain ⟨k, hk⟩ := haccepted.mpr hwell
          rw [hcost k hk] at hlogN
          cases hlogN
          exact h k hk
        · intro h k hk
          exact h (not_not.mp hsame) (haccepted.mp ⟨k, hk⟩) k.logN (hcost k hk)

/-- **When encrypted keys stay inside the cap.** No `expect` is reached. A key that is obtained in any way is read back
    from what is written for it; its cost is inside the cap, and the payload decoder accepts only costs inside it,
    exactly when the text or the payload that is read names no larger cost.

    Every function is `Safe`: it reaches no `expect` and what it returns is within the cap, but for the decoder,
    which takes the cost from the payload as it is (`fromPayloadBytes_exact`). -/
theorem capped_iff (origin : Origin) (bytes : Bytes) :
    ((∃ r, (origin.run crates).run = .ok r) ∧
        (∀ k, (origin.run crates).run = .ok (.ok k) → k.logN ≤ maxLogN ∧ RoundTrips crates k) ↔
      origin.Within crates) ∧
    ((∃ r, (fromPayloadBytes bytes).run = .ok r) ∧
        ((∃ k, (fromPayloadBytes bytes).run = .ok (.ok k)) ↔ WellFormed bytes ∧ CostWithin bytes) ↔
      (WellFormed bytes → CostWithin bytes)) := by
  constructor
  · have hsafe : ∀ x : Fallible Nip49Error EncryptedSecretKey, Safe x (fun k => k.logN ≤ maxLogN) →
        (∃ r, x.run = .ok r) ∧ ∀ k, x.run = .ok (.ok k) → k.logN ≤ maxLogN ∧ RoundTrips crates k := by
      intro x hx
      refine ⟨hx.imp (fun _ h => h.1), fun k hk => ?_⟩
      have hcap := hx.of_run hk
      exact ⟨hcap, roundTrips crates laws k⟩
    cases origin with
    | encrypt secret password logN security salt nonce =>
        exact iff_of_true (hsafe _ (encrypt_within crates laws secret password logN security salt nonce)) trivial
    | encryptWith secret password logN security salt nonce =>
        exact iff_of_true (hsafe _ (encryptWith_within crates laws secret password logN security salt nonce)) trivial
    | fromBech32 input =>
        obtain ⟨hnoPanic, hexact⟩ := fromBech32_exact crates input
        rw [← hexact]
        constructor
        · rintro ⟨-, h⟩ k hk
          exact (h k hk).1
        · intro h
          exact ⟨hnoPanic, fun k hk => ⟨h k hk, roundTrips crates laws k⟩⟩
  · obtain ⟨hnoPanic, -, haccepted⟩ := fromPayloadBytes_exact bytes
    rw [haccepted]
    constructor
    · rintro ⟨-, h⟩ hwell
      exact (h.mp hwell).2
    · intro h
      exact ⟨hnoPanic, fun hwell => ⟨hwell, h hwell⟩, And.left⟩

end Cap

/-! Two payloads, one of them with a cost above the cap. -/

namespace Sample

/-- A key of the given cost. -/
def key (logN : UInt8) : EncryptedSecretKey :=
  ⟨logN, ⟨List.replicate 16 0, by decide⟩, ⟨List.replicate 24 0, by decide⟩, .strong, ⟨List.replicate 48 7, by decide⟩⟩

/-- Its payload. -/
def payload (logN : UInt8) : Bytes :=
  versionByte :: logN :: (List.replicate 16 0 ++ (List.replicate 24 0 ++ 1 :: List.replicate 48 7))

/-- The text of the key of cost 16. -/
def affordable : String :=
  "ncryptsec1qggqqqqqqqqqqqqqqqqqqqqqqqqqqqqqqqqqqqqqqqqqqqqqqqqqqqqqqqqqqqqqqqqqzpc8qurswpc8qurswpc8qurswpc" ++
    "8qurswpc8qurswpc8qurswpc8qurswpc8qurswpc8qurswpc8qu3phk49"

/-- The text of the key of cost 40, beyond the cap. -/
def costly : String :=
  "ncryptsec1qg5qqqqqqqqqqqqqqqqqqqqqqqqqqqqqqqqqqqqqqqqqqqqqqqqqqqqqqqqqqqqqqqqqzpc8qurswpc8qurswpc8qurswpc" ++
    "8qurswpc8qurswpc8qurswpc8qurswpc8qurswpc8qurswpc8quzwsrd5"

/-- The text of a payload; of any but the two, in hex behind a colon. -/
def write (data : Bytes) : String :=
  if data = payload 16 then affordable
  else if data = payload 40 then costly
  else "ncryptsec1:" ++ Hex.encode data

/-- A decoder that knows the two texts, and reads anything else as hex. -/
def read (s : String) : Except String (String × Bytes) :=
  match s.toList.drop 10 with
  | ':' :: rest =>
      match Hex.decode (strBytes (String.ofList rest)) with
      | .ok data => .ok (hrp, data)
      | .error _ => .error "invalid character"
  | _ =>
      if s = affordable then .ok (hrp, payload 16)
      else if s = costly then .ok (hrp, payload 40)
      else .error "invalid character"

theorem length_derived : (List.replicate 32 (0 : UInt8)).length = 32 := by decide

/-- Crates that decrypt nothing, over the decoder. -/
def crates : Crates where
  encode prefixOf data := if prefixOf = hrp then .ok (write data) else .error "unknown prefix"
  decode := read
  parseHrp s := s = hrp
  nfkc s := s
  newParams logN := if logN < 64 then .ok () else .error "invalid scrypt parameters"
  scrypt _ _ _ := .ok ⟨List.replicate 32 0, length_derived⟩
  encryptAead _ _ _ message := some (message ++ List.replicate 16 0)
  decryptAead _ _ _ ciphertext := some (ciphertext.take 32)

/-- Neither text has a colon. -/
theorem colon_not_mem {s : String} (h : s = affordable ∨ s = costly) : ':' ∉ s.toList := by
  intro hmem
  have hbytes : (58 : UInt8) ∉ strBytes s := by
    rcases h with rfl | rfl
    · decide
    · decide
  rw [← String.ofList_toList (s := s), strBytes_ofList] at hbytes
  exact hbytes (List.mem_flatMap.mpr ⟨':', hmem, by decide⟩)

theorem costly_ne_affordable : costly ≠ affordable := by decide

theorem read_of_known {s : String} (h : s = affordable ∨ s = costly) :
    read s = if s = affordable then .ok (hrp, payload 16) else .ok (hrp, payload 40) := by
  unfold read
  split
  · rename_i rest hdrop
    have hmem : ':' ∈ s.toList.drop 10 := by simp [hdrop]
    exact absurd (List.mem_of_mem_drop hmem) (colon_not_mem h)
  · rcases h with rfl | rfl
    · rw [if_pos rfl, if_pos rfl]
    · rw [if_neg costly_ne_affordable, if_neg costly_ne_affordable, if_pos rfl]

theorem read_write (data : Bytes) : read (write data) = .ok (hrp, data) := by
  rw [write]
  split
  · rename_i hsame
    rw [hsame, read_of_known (Or.inl rfl), if_pos rfl]
  split
  · rename_i hsame
    rw [hsame, read_of_known (Or.inr rfl), if_neg costly_ne_affordable]
  · have hdrop : ("ncryptsec1:" ++ Hex.encode data).toList.drop 10 = ':' :: (Hex.encode data).toList := by
      rw [String.toList_append]
      rfl
    simp only [read, hdrop, String.ofList_toList, Hex.decode_encode]

/-- The codec of the example obeys the laws: it reads back what it writes, and writes nothing under another prefix. -/
theorem crates_lawful : crates.Lawful where
  bech32 :=
    { decode_encode := by
        intro prefixOf data s _ h
        rw [crates] at h
        dsimp only at h
        split at h
        · rename_i hknown
          cases h
          rw [hknown]
          exact read_write data
        · cases h
      prefixed := by
        intro prefixOf data s h
        rw [crates] at h
        dsimp only at h
        split at h
        · rename_i hknown
          cases h
          have hhead : (hrp ++ "1").toList <+: "ncryptsec1:".toList := List.isPrefixOf_iff_prefix.mp (by decide)
          rw [hknown, write]
          split_ifs
          · exact toList_prefix (by decide +kernel) (by decide)
          · exact toList_prefix (by decide +kernel) (by decide)
          · refine hhead.trans ?_
            rw [String.toList_append]
            exact List.prefix_append _ _
        · cases h }
  parseHrp := by decide
  encode data _ := by
    have hwrite : (if hrp = hrp then .ok (write data) else .error "unknown prefix" : Except String String) =
        .ok (write data) := if_pos rfl
    exact ⟨write data, hwrite⟩
  sealed h := by
    cases h
    rw [List.length_append, List.length_replicate]
    rfl

/-- The payload of cost `logN` is accepted, whatever the cost. -/
theorem fromPayloadBytes_payload (logN : UInt8) : (fromPayloadBytes (payload logN)).run = .ok (.ok (key logN)) :=
  fromPayloadBytes_parts versionByte logN (key logN).salt (key logN).nonce 1 (key logN).ciphertext

/-- What the two texts are read as. -/
theorem fromBech32_known {s : String} {logN : UInt8} (h : crates.decode s = .ok (hrp, payload logN)) :
    (fromBech32 crates s).run = .ok (.ok (key logN)) := by
  have hlower : Nip19.toLowercase hrp = hrp := by decide
  rw [fromBech32, returned_bind_ok h]
  show (if Nip19.toLowercase hrp ≠ hrp then _ else fromPayloadBytes (payload logN)).run = _
  rw [if_neg (not_not.mpr hlower)]
  exact fromPayloadBytes_payload logN

theorem decode_affordable : crates.decode affordable = .ok (hrp, payload 16) := by
  have hdecode : crates.decode = read := rfl
  rw [hdecode, read_of_known (Or.inl rfl), if_pos rfl]

theorem decode_costly : crates.decode costly = .ok (hrp, payload 40) := by
  have hdecode : crates.decode = read := rfl
  rw [hdecode, read_of_known (Or.inr rfl), if_neg costly_ne_affordable]

end Sample

open Nula.Nip49.Sample in
theorem capped_iff_affordable :
    (fromBech32 crates affordable).run = .ok (.ok (key 16)) ∧ RoundTrips crates (key 16) := by
  have hread : (fromBech32 crates affordable).run = .ok (.ok (key 16)) := fromBech32_known decode_affordable
  have hcapped := (capped_iff crates crates_lawful (.fromBech32 affordable) (payload 16)).1.mpr (by
    intro found data hdecode _ _ logN hlogN
    cases decode_affordable.symm.trans hdecode
    cases hlogN
    decide)
  exact ⟨hread, (hcapped.2 (key 16) hread).2⟩

open Nula.Nip49.Sample in
/-- A text brings in a cost above the cap. -/
theorem costly_accepted : (fromPayloadBytes (payload 40)).run = .ok (.ok (key 40)) ∧
    (fromBech32 crates costly).run = .ok (.ok (key 40)) ∧ ¬(key 40).logN ≤ maxLogN := by
  refine ⟨?_, ?_, ?_⟩
  · exact fromPayloadBytes_payload 40
  · exact fromBech32_known decode_costly
  · decide

end Nula.Nip49
