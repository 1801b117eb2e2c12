import Nula.Core.Signing
import Nula.Lib.Base64
import Nula.Lib.Checked
import Nula.Lib.Decoder

/-!
# `Core.Nip44` — the NIP-44 v2 payload (`nips/nip44.rs`)

A payload is a version byte, a nonce, the encrypted padded text and a tag over nonce and ciphertext, in base64.
`Core.Signing` takes the sealing and the opening of a text as they are; here they are what the code makes of the
primitives: the stream cipher xors its keystream, the tag is compared with the one computed anew. Whatever
could panic is `Checked`, with `usize` at 64 bits.

## Contents
- **Padding.** `paddedLength` and its bounds, `pad` and `unpad`.
- **Payloads.** `encryptInner` and `decryptWithConversationKey`.
- **Exactness.** `framing_exact`.
-/

namespace Nula.Nip44.V2

/-- The primitives from the crates `hkdf`, `chacha20`, `hmac`, `secp256k1` and `base64`. -/
structure Primitives where
  /-- `ConversationKey::derive`: the curve and HKDF-Extract. -/
  derive : SecretKey → PublicKey → Octets 32
  /-- HKDF-Expand of a conversation key and a nonce. -/
  expand : Octets 32 → Octets 32 → Octets 76
  /-- The byte of the keystream at a position. -/
  keystream : Bytes → Bytes → Nat → UInt8
  /-- HMAC-SHA256 of a message under a key. -/
  hmac : Bytes → Bytes → Octets 32
  base64 : Base64Engine

def version : UInt8 := 2

def nonceBytes : Nat := 32

def hmacBytes : Nat := 32

/-- `VERSION_BYTE`: the length of the version. -/
def versionByte : Nat := 1

/-- `MIN_PAYLOAD_BYTES`: a payload of one byte, padded to 32. -/
def minPayloadBytes : Nat := 99

/-- `MAX_PAYLOAD_BYTES`: a payload of 65535 bytes, padded to 65536. -/
def maxPayloadBytes : Nat := 65603

/-- `MIN_PAYLOAD_CHARS`, in base64. -/
def minPayloadChars : Nat := 132

/-- `MAX_PAYLOAD_CHARS`, in base64. -/
def maxPayloadChars : Nat := 87472

inductive Nip44Error where
  | emptyPlaintext
  | plaintextTooLong (len : Nat)
  | payloadTooShort (len : Nat)
  | payloadTooLong (len : Nat)
  | decodedTooShort (len : Nat)
  | decodedTooLong (len : Nat)
  | unsupportedVersion (byte : UInt8)
  | invalidBase64 (text : String)
  | invalidMac
  | invalidPadding
  | invalidUtf8
  | rng (text : String)
  deriving DecidableEq, Repr

/-! ## Padding -/

/-- `usize::leading_zeros`. -/
def leadingZeros (x : Nat) : Nat := if x = 0 then 64 else 63 - Nat.log2 x

/-- `log2_floor`. -/
def log2Floor (x : Nat) : Checked Nat := if x = 0 then .ok 0 else Checked.sub (64 - 1) (leadingZeros x)

/-- `padded_length`. -/
def paddedLength (len : Nat) : Checked Nat :=
  if len ≤ 32 then .ok 32
  else do
    let last ← Checked.sub len 1
    let exponent ← log2Floor last
    let nextPower ← Checked.oneShl (exponent + 1)
    let chunk := if nextPower ≤ 256 then 32 else nextPower / 8
    let last ← Checked.sub len 1
    Checked.mul chunk (last / chunk + 1)

/-- `Vec::resize` with zeros. -/
def resize (out : Bytes) (len : Nat) : Bytes := out.take len ++ List.replicate (len - out.length) 0

/-- `u16::to_be_bytes`. -/
def toBeBytes (n : UInt16) : Bytes := [(n >>> 8).toUInt8, n.toUInt8]

/-- `u16::from_be_bytes`. -/
def fromBeBytes (hi lo : UInt8) : UInt16 := hi.toUInt16 <<< 8 ||| lo.toUInt16

/-- `pad`. -/
def pad (plaintext : Bytes) : Fallible Nip44Error Bytes :=
  let len := plaintext.length
  if len < minPlaintextBytes then throw .emptyPlaintext
  else if maxPlaintextBytes < len then throw (.plaintextTooLong len)
  else do
    let paddedLen ← paddedLength len
    let out := toBeBytes (UInt16.ofNat len) ++ plaintext
    return resize out (← Checked.add 2 paddedLen)

/-- `unpad`. -/
def unpad (padded : Bytes) : Fallible Nip44Error Bytes :=
  match padded with
  | hi :: lo :: _ =>
      let len := (fromBeBytes hi lo).toNat
      if len < minPlaintextBytes then throw .invalidPadding
      else if maxPlaintextBytes < len then throw .invalidPadding
      else do
        let paddedLen ← paddedLength len
        -- the padding must be the one that the length calls for
        let expectedLen ← Checked.add 2 paddedLen
        if padded.length ≠ expectedLen then throw .invalidPadding
        else do
          let stop ← Checked.add 2 len
          if stop ≤ padded.length then return (padded.take stop).drop 2 else throw .invalidPadding
  | _ => throw .invalidPadding

/-- The floor of the logarithm is found, and is the power of two below. -/
theorem log2Floor_ok {x : Nat} (h : x ≠ 0) (hx : x < 2 ^ 63) :
    ∃ e, log2Floor x = .ok e ∧ e ≤ 62 ∧ 2 ^ e ≤ x ∧ x < 2 ^ (e + 1) := by
  have hlog : x.log2 < 63 := (Nat.log2_lt h).mpr hx
  refine ⟨x.log2, ?_, by omega, Nat.log2_self_le h, Nat.lt_log2_self⟩
  rw [log2Floor, if_neg h, leadingZeros, if_neg h, Checked.sub_ok (by omega)]
  congr 1
  omega

/-- The chunk that divides the next power of two. -/
def chunkOf (e : Nat) : Nat := if 2 ^ (e + 1) ≤ 256 then 32 else 2 ^ (e + 1) / 8

/-- A chunk has at least 32 bytes and divides the next power of two. -/
theorem chunkOf_spec {e : Nat} (h : 5 ≤ e) : 32 ≤ chunkOf e ∧ ∃ k, 2 ^ (e + 1) = chunkOf e * k := by
  have hpow : 2 ^ (e + 1) = 2 ^ (e - 5) * 64 := by
    rw [show e + 1 = e - 5 + 6 by omega, Nat.pow_add]
  rw [chunkOf]
  split
  · exact ⟨Nat.le_refl _, 2 ^ (e - 5) * 2, by omega⟩
  · exact ⟨by omega, 8, by omega⟩

/-- The first multiple of the chunk that reaches `len`. -/
theorem paddedLength_ok {len : Nat} (h : 32 < len) (hlen : len ≤ 2 ^ 63) :
    ∃ e, 5 ≤ e ∧ e ≤ 62 ∧ 2 ^ e ≤ len - 1 ∧ len - 1 < 2 ^ (e + 1) ∧
      paddedLength len = .ok (chunkOf e * ((len - 1) / chunkOf e + 1)) ∧
      len ≤ chunkOf e * ((len - 1) / chunkOf e + 1) ∧
      chunkOf e * ((len - 1) / chunkOf e + 1) ≤ 2 ^ (e + 1) := by
  obtain ⟨e, hlog, he, hle, hlt⟩ := log2Floor_ok (x := len - 1) (by omega) (by omega)
  have hfive : 5 ≤ e := by
    by_contra hlow
    have := Nat.pow_le_pow_right (n := 2) (by decide) (show e + 1 ≤ 5 by omega)
    omega
  obtain ⟨hchunk, k, hk⟩ := chunkOf_spec hfive
  have hreach : len ≤ chunkOf e * ((len - 1) / chunkOf e + 1) := by
    have := Nat.lt_mul_div_succ (len - 1) (show 0 < chunkOf e by omega)
    omega
  have hbound : chunkOf e * ((len - 1) / chunkOf e + 1) ≤ 2 ^ (e + 1) := by
    rw [hk]
    apply Nat.mul_le_mul_left
    exact Nat.div_lt_of_lt_mul (by omega)
  refine ⟨e, hfive, he, hle, hlt, ?_, hreach, hbound⟩
  have hpow := Nat.pow_le_pow_right (n := 2) (by decide) (show e + 1 ≤ 63 by omega)
  have hmul : Checked.mul (chunkOf e) ((len - 1) / chunkOf e + 1) =
      .ok (chunkOf e * ((len - 1) / chunkOf e + 1)) := Checked.mul_ok (by omega)
  rw [paddedLength, if_neg (by omega), Checked.sub_ok (by omega)]
  change (log2Floor (len - 1) >>= _) = _
  rw [hlog]
  change (Checked.oneShl (e + 1) >>= _) = _
  rw [Checked.oneShl_ok (by omega)]
  exact hmul

/-- Padding a length a slice can have: no overflow, nothing is cut off, and longer texts are not padded to less. -/
theorem paddedLength_spec {len : Nat} (h : len ≤ 2 ^ 63) :
    ∃ n, paddedLength len = .ok n ∧ len ≤ n ∧ 32 ≤ n ∧ n ≤ 2 ^ 63 := by
  by_cases hshort : len ≤ 32
  · exact ⟨32, by rw [paddedLength, if_pos hshort], hshort, Nat.le_refl _, by decide⟩
  · obtain ⟨e, -, he, -, -, hok, hreach, hbound⟩ := paddedLength_ok (Nat.lt_of_not_le hshort) h
    have hpow := Nat.pow_le_pow_right (n := 2) (by decide) (show e + 1 ≤ 63 by omega)
    exact ⟨_, hok, hreach, by omega, by omega⟩

/-- **Longer texts are padded to no less.** Within one power of two the chunk is the same; the next power of two is a
    multiple of it. -/
theorem paddedLength_mono {len len' n n' : Nat} (h : len ≤ len') (hlen' : len' ≤ 2 ^ 63)
    (hn : paddedLength len = .ok n) (hn' : paddedLength len' = .ok n') : n ≤ n' := by
  obtain ⟨_, hok', hreach', hmin', -⟩ := paddedLength_spec hlen'
  cases hn'.symm.trans hok'
  by_cases hshort : len ≤ 32
  · rw [paddedLength, if_pos hshort] at hn
    cases hn
    exact hmin'
  · obtain ⟨e, -, -, hle, hlt, hok, -, hbound⟩ := paddedLength_ok (Nat.lt_of_not_le hshort) (by omega)
    obtain ⟨e', -, -, hle', hlt', hok', -, -⟩ := paddedLength_ok (show 32 < len' by omega) hlen'
    cases hn.symm.trans hok
    cases hn'.symm.trans hok'
    rcases Nat.lt_trichotomy e e' with hless | rfl | hmore
    · -- the shorter text stays below the power of two the longer one is past
      have := Nat.pow_le_pow_right (n := 2) (by decide) (show e + 1 ≤ e' by omega)
      omega
    · exact Nat.mul_le_mul_left _ (Nat.succ_le_succ (Nat.div_le_div_right (by omega)))
    · have := Nat.pow_le_pow_right (n := 2) (by decide) (show e' + 1 ≤ e by omega)
      omega

/-- Every length a text may have is padded to at most `2 ^ 16`. -/
theorem paddedLength_plaintext {len : Nat} (h : len ≤ maxPlaintextBytes) :
    ∃ n, paddedLength len = .ok n ∧ len ≤ n ∧ 32 ≤ n ∧ n ≤ 65536 := by
  rw [maxPlaintextBytes] at h
  have hlen : len ≤ 65536 := by omega
  have hfull : paddedLength 65536 = .ok 65536 := by decide +kernel
  obtain ⟨n, hok, hreach, hmin, -⟩ := paddedLength_spec (hlen.trans (by decide))
  exact ⟨n, hok, hreach, hmin, paddedLength_mono hlen (by decide) hok hfull⟩

/-- The prefix is read back. -/
theorem fromBeBytes_toBeBytes (n : UInt16) : fromBeBytes (n >>> 8).toUInt8 n.toUInt8 = n := by
  apply UInt16.toNat_inj.mp
  have hlt := n.toNat_lt
  have hhi : (n >>> 8).toNat = n.toNat / 2 ^ 8 := by
    simp [UInt16.toNat_shiftRight, Nat.shiftRight_eq_div_pow]
  have hshift : ((n >>> 8).toUInt8.toUInt16 <<< 8).toNat = (n.toNat / 2 ^ 8) <<< 8 := by
    simp only [UInt16.toNat_shiftLeft, UInt8.toNat_toUInt16, UInt16.toNat_toUInt8, hhi, UInt16.reduceToNat,
      Nat.reduceMod, Nat.shiftLeft_eq]
    omega
  have hlow : n.toUInt8.toUInt16.toNat = n.toNat % 2 ^ 8 := by
    rw [UInt8.toNat_toUInt16, UInt16.toNat_toUInt8]
  rw [fromBeBytes, UInt16.toNat_or, hshift, hlow, ← Nat.shiftLeft_add_eq_or_of_lt (Nat.mod_lt _ (by decide)),
    Nat.shiftLeft_eq]
  omega

/-- What `pad` makes of a text: the length, the text, zeros. -/
def padding (plaintext : Bytes) (n : Nat) : Bytes :=
  toBeBytes (UInt16.ofNat plaintext.length) ++ (plaintext ++ List.replicate (n - plaintext.length) 0)

/-- A padded text has two bytes of length in front. -/
theorem length_padding {plaintext : Bytes} {n : Nat} (h : plaintext.length ≤ n) :
    (padding plaintext n).length = 2 + n := by
  simp only [padding, toBeBytes, List.length_append, List.length_cons, List.length_nil, List.length_replicate]
  omega

theorem pad_ok {plaintext : Bytes} {n : Nat} (hmin : minPlaintextBytes ≤ plaintext.length)
    (hmax : plaintext.length ≤ maxPlaintextBytes) (hn : paddedLength plaintext.length = .ok n) :
    (pad plaintext).run = .ok (.ok (padding plaintext n)) := by
  obtain ⟨n', hn', hreach, -, hbound⟩ := paddedLength_plaintext hmax
  cases hn.symm.trans hn'
  have hresize : resize (toBeBytes (UInt16.ofNat plaintext.length) ++ plaintext) (2 + n) = padding plaintext n := by
    have hlen : (toBeBytes (UInt16.ofNat plaintext.length) ++ plaintext).length = 2 + plaintext.length := by
      simp [toBeBytes]
      omega
    rw [resize, hlen, List.take_of_length_le (by omega), padding, List.append_assoc,
      show 2 + n - (2 + plaintext.length) = n - plaintext.length by omega]
  rw [pad]
  dsimp only
  rw [if_neg (Nat.not_lt.mpr hmin), if_neg (Nat.not_lt.mpr hmax), Fallible.bind_lift hn,
    Fallible.bind_lift (Checked.add_ok (by omega)), hresize]
  rfl

theorem pad_error {plaintext : Bytes}
    (h : ¬ (minPlaintextBytes ≤ plaintext.length ∧ plaintext.length ≤ maxPlaintextBytes)) :
    ∃ e, (pad plaintext).run = .ok (.error e) := by
  rw [pad]
  dsimp only
  by_cases hmin : plaintext.length < minPlaintextBytes
  · rw [if_pos hmin]
    exact ⟨_, rfl⟩
  · rw [if_neg hmin, if_pos (Nat.lt_of_not_le (fun hmax => h ⟨Nat.not_lt.mp hmin, hmax⟩))]
    exact ⟨_, rfl⟩

/-- The text `unpad` returns has the length its buffer was padded for. -/
structure Unpadded (padded text : Bytes) : Prop where
  min : minPlaintextBytes ≤ text.length
  max : text.length ≤ maxPlaintextBytes
  exact : ∃ n, paddedLength text.length = .ok n ∧ padded.length = 2 + n

/-- Unpadding does not panic on any buffer, and yields what the length in front says. The sums stay small because the
    bound on the length is checked before them. -/
theorem unpad_safe (padded : Bytes) : Safe (unpad padded) (Unpadded padded) := by
  unfold unpad
  split
  · rename_i hi lo tail
    dsimp only
    split
    · exact Safe.throw _ _
    split
    · exact Safe.throw _ _
    rename_i hmin hmax
    obtain ⟨n, hn, hreach, -, hbound⟩ := paddedLength_plaintext (Nat.not_lt.mp hmax)
    rw [maxPlaintextBytes] at hmax
    refine Safe.bind_lift hn (Safe.bind_lift (Checked.add_ok (by omega)) ?_)
    split
    · exact Safe.throw _ _
    rename_i hlen
    refine Safe.bind_lift (Checked.add_ok (by omega)) ?_
    split
    · rename_i hstop
      have htext : (((hi :: lo :: tail).take (2 + (fromBeBytes hi lo).toNat)).drop 2).length =
          (fromBeBytes hi lo).toNat := by
        rw [List.length_drop, List.length_take, Nat.min_eq_left hstop]
        omega
      refine Safe.pure ⟨?_, ?_, ?_⟩
      · rw [htext]
        exact Nat.not_lt.mp hmin
      · rw [htext, maxPlaintextBytes]
        omega
      · rw [htext]
        exact ⟨n, hn, not_not.mp hlen⟩
    · exact Safe.throw _ _
  · exact Safe.throw _ _

/-- **A text comes back from its padding**: the length in front is that of the text, and the zeros behind it are as
    many as they should be. -/
theorem unpad_padding {plaintext : Bytes} {n : Nat} (hmin : minPlaintextBytes ≤ plaintext.length)
    (hmax : plaintext.length ≤ maxPlaintextBytes) (hn : paddedLength plaintext.length = .ok n) :
    (unpad (padding plaintext n)).run = .ok (.ok plaintext) := by
  obtain ⟨n', hn', hreach, -, hbound⟩ := paddedLength_plaintext hmax
  cases hn.symm.trans hn'
  have hprefix : (UInt16.ofNat plaintext.length).toNat = plaintext.length := by
    rw [maxPlaintextBytes] at hmax
    rw [UInt16.toNat_ofNat']
    exact Nat.mod_eq_of_lt (by omega)
  have hlen := length_padding hreach
  have hbuf : padding plaintext n = (UInt16.ofNat plaintext.length >>> 8).toUInt8 ::
      (UInt16.ofNat plaintext.length).toUInt8 :: (plaintext ++ List.replicate (n - plaintext.length) 0) := rfl
  rw [hbuf] at hlen ⊢
  rw [unpad]
  rw [fromBeBytes_toBeBytes, hprefix, if_neg (Nat.not_lt.mpr hmin), if_neg (Nat.not_lt.mpr hmax),
    Fallible.bind_lift hn, Fallible.bind_lift (Checked.add_ok (by omega)), if_neg (not_not.mpr hlen),
    Fallible.bind_lift (Checked.add_ok (by omega)), if_pos (by omega)]
  have htake : (((UInt16.ofNat plaintext.length >>> 8).toUInt8 :: (UInt16.ofNat plaintext.length).toUInt8 ::
      (plaintext ++ List.replicate (n - plaintext.length) 0)).take (2 + plaintext.length)).drop 2 = plaintext := by
    rw [Nat.add_comm, List.take_succ_cons, List.take_succ_cons, List.take_left]
    rfl
  rw [htake]
  rfl

/-! ## Payloads -/

/-- `MessageKeys`: the 76 bytes, cut at 32 and 44. -/
structure MessageKeys where
  chachaKey : Bytes
  chachaNonce : Bytes
  hmacKey : Bytes

section Payloads

variable (prims : Primitives)

/-- `MessageKeys::derive`. -/
def MessageKeys.derive (key nonce : Octets 32) : MessageKeys :=
  let okm := (prims.expand key nonce).1
  ⟨okm.take 32, (okm.drop 32).take 12, okm.drop 44⟩

/-- `StreamCipher::apply_keystream`. -/
def applyKeystream (mks : MessageKeys) (buffer : Bytes) : Bytes :=
  buffer.mapIdx (fun i byte => byte ^^^ prims.keystream mks.chachaKey mks.chachaNonce i)

/-- `compute_hmac`. -/
def computeHmac (mks : MessageKeys) (nonce : Octets 32) (ciphertext : Bytes) : Octets 32 :=
  prims.hmac mks.hmacKey (nonce.1 ++ ciphertext)

/-- `verify_hmac`. -/
def verifyHmac (mks : MessageKeys) (nonce : Octets 32) (ciphertext tag : Bytes) : Bool :=
  decide (tag = (computeHmac prims mks nonce ciphertext).1)

/-- `encrypt_inner`. -/
def encryptInner (key : Octets 32) (plaintext : String) (nonce : Octets 32) : Fallible Nip44Error String := do
  let mks := MessageKeys.derive prims key nonce
  let buffer ← pad (strBytes plaintext)
  let buffer := applyKeystream prims mks buffer
  let hmac := computeHmac prims mks nonce buffer
  return prims.base64.encode (version :: (nonce.1 ++ (buffer ++ hmac.1)))

/-- `encrypt`: the nonce first. -/
def encrypt (entropy : Except String (Octets 32)) (secret : SecretKey) (peer : PublicKey) (plaintext : String) :
    Fallible Nip44Error String :=
  match entropy with
  | .error text => throw (.rng text)
  | .ok nonce => encryptInner prims (prims.derive secret peer) plaintext nonce

/-- `str::starts_with`, a character. -/
def startsWith (s : String) (c : Char) : Bool := s.toList.head? == some c

/-- The payload as bytes, as `decrypt_with_conversation_key` accepts it. -/
def decodeChecked (payload : String) : Fallible Nip44Error Bytes :=
  let plen := (strBytes payload).length
  if plen < minPayloadChars then throw (.payloadTooShort plen)
  else if maxPayloadChars < plen then throw (.payloadTooLong plen)
  else if startsWith payload '#' then throw (.unsupportedVersion 0x23)
  else
    -- `#` stands for a version that is yet to come
    match prims.base64.decode payload with
    | .error text => throw (.invalidBase64 text)
    | .ok bytes =>
        if bytes.length < minPayloadBytes then throw (.decodedTooShort bytes.length)
        else if maxPayloadBytes < bytes.length then throw (.decodedTooLong bytes.length)
        else return bytes

/-- A payload in its parts. -/
structure Parts where
  nonce : Octets 32
  ciphertext : Bytes
  mac : Bytes

/-- `<[u8; 32]>::try_from`. -/
def toOctets32 (b : Bytes) : Option (Octets 32) := if h : b.length = 32 then some ⟨b, h⟩ else none

/-- Carve `version || nonce || ciphertext || mac`. -/
def carve (bytes : Bytes) : Fallible Nip44Error Parts := do
  let (versionSlice, rest) ← Checked.splitAt bytes versionByte
  let first : Checked UInt8 :=
    Checked.expect "VERSION_BYTE = 1, slice is non-empty after MIN_PAYLOAD_BYTES check" versionSlice.head?
  let byte ← first
  if byte ≠ version then throw (.unsupportedVersion byte)
  else do
    let (nonceSlice, bodyWithMac) ← Checked.splitAt rest nonceBytes
    let array : Checked (Octets 32) := Checked.expect "NONCE_BYTES = 32 by construction" (toOctets32 nonceSlice)
    let nonce ← array
    -- the code is the tail, whatever is left in front of it is ciphertext
    let macStart ← Checked.sub bodyWithMac.length hmacBytes
    let (ciphertext, mac) ← Checked.splitAt bodyWithMac macStart
    return ⟨nonce, ciphertext, mac⟩

/-- The buffer `decrypt_with_conversation_key` unpads. -/
def decryptedBuffer (key : Octets 32) (payload : String) : Fallible Nip44Error Bytes := do
  let bytes ← decodeChecked prims payload
  let parts ← carve bytes
  let mks := MessageKeys.derive prims key parts.nonce
  if verifyHmac prims mks parts.nonce parts.ciphertext parts.mac = false then throw .invalidMac
  else return applyKeystream prims mks parts.ciphertext

/-- `decrypt_with_conversation_key`. -/
def decryptWithConversationKey (key : Octets 32) (payload : String) : Fallible Nip44Error String := do
  let buffer ← decryptedBuffer prims key payload
  let unpadded ← unpad buffer
  match fromUtf8 unpadded with
  | some text => return text
  | none => throw .invalidUtf8

/-- `decrypt`. -/
def decrypt (secret : SecretKey) (peer : PublicKey) (payload : String) : Fallible Nip44Error String :=
  decryptWithConversationKey prims (prims.derive secret peer) payload

/-! ### The parts of a payload -/

theorem length_applyKeystream (mks : MessageKeys) (buffer : Bytes) :
    (applyKeystream prims mks buffer).length = buffer.length := by
  simp [applyKeystream]

/-- The keystream twice is no change. -/
theorem applyKeystream_twice (mks : MessageKeys) (buffer : Bytes) :
    applyKeystream prims mks (applyKeystream prims mks buffer) = buffer := by
  apply List.ext_getElem
  · simp [applyKeystream]
  · intro i h₁ h₂
    simp [applyKeystream]

/-- The alphabet of base64 is ASCII, so its characters are its bytes. -/
theorem strBytes_base64 (b : Bytes) : (strBytes (prims.base64.encode b)).length = (b.length + 2) / 3 * 4 := by
  have hone {cs : List Char} (h : ∀ c ∈ cs, c.isAlphanum = true ∨ c = '+' ∨ c = '/' ∨ c = '=') :
      (cs.flatMap String.utf8EncodeChar).length = cs.length := by
    induction cs with
    | nil => rfl
    | cons c cs ih =>
        obtain ⟨hc, hcs⟩ := List.forall_mem_cons.mp h
        have hascii : c.val ≤ 127 := by
          rcases hc with hc | rfl | rfl | rfl
          · simp only [Char.isAlphanum, Char.isAlpha, Char.isUpper, Char.isLower, Char.isDigit, Bool.or_eq_true,
              Bool.and_eq_true, decide_eq_true_eq, UInt32.le_iff_toNat_le, ge_iff_le] at hc ⊢
            simp at hc ⊢
            omega
          · decide
          · decide
          · decide
        rw [List.flatMap_cons, List.length_append, String.length_utf8EncodeChar, Char.utf8Size_eq_one_iff.mpr hascii,
          ih hcs, List.length_cons, Nat.add_comm]
  rw [← String.ofList_toList (s := prims.base64.encode b), strBytes_ofList, hone (prims.base64.alphabet_encode b),
    prims.base64.length_encode]

/-- No base64 begins with the `#` of a future version. -/
theorem startsWith_base64 (b : Bytes) : startsWith (prims.base64.encode b) '#' = false := by
  rw [startsWith, beq_eq_false_iff_ne]
  intro h
  have := prims.base64.alphabet_encode b '#' (List.mem_of_mem_head? h)
  revert this
  decide

/-- A payload of an admissible length comes back from its base64. -/
theorem decodeChecked_encode {bytes : Bytes} (hmin : minPayloadBytes ≤ bytes.length)
    (hmax : bytes.length ≤ maxPayloadBytes) :
    (decodeChecked prims (prims.base64.encode bytes)).run = .ok (.ok bytes) := by
  have hlen := strBytes_base64 prims bytes
  have hshort : ¬ (strBytes (prims.base64.encode bytes)).length < minPayloadChars := by
    rw [minPayloadBytes] at hmin
    rw [hlen, minPayloadChars]
    omega
  have hlong : ¬ maxPayloadChars < (strBytes (prims.base64.encode bytes)).length := by
    rw [maxPayloadBytes] at hmax
    rw [hlen, maxPayloadChars]
    omega
  rw [decodeChecked, if_neg hshort, if_neg hlong, startsWith_base64, if_neg Bool.false_ne_true,
    prims.base64.decode_encode]
  dsimp only
  rw [if_neg (Nat.not_lt.mpr hmin), if_neg (Nat.not_lt.mpr hmax)]
  rfl

/-- Decoding does not panic, and what it yields is long enough to be cut. -/
theorem decodeChecked_safe (payload : String) :
    Safe (decodeChecked prims payload) (fun bytes => minPayloadBytes ≤ bytes.length) := by
  rw [decodeChecked]
  split
  · exact Safe.throw _ _
  split
  · exact Safe.throw _ _
  split
  · exact Safe.throw _ _
  split
  · exact Safe.throw _ _
  split
  · exact Safe.throw _ _
  rename_i hmin
  split
  · exact Safe.throw _ _
  · exact Safe.pure (Nat.not_lt.mp hmin)

/-- The bounds prove every split in range. -/
theorem carve_safe {bytes : Bytes} (h : minPayloadBytes ≤ bytes.length) : Safe (carve bytes) (fun _ => True) := by
  rw [minPayloadBytes] at h
  rw [carve]
  refine Safe.bind_lift (Checked.splitAt_ok (by rw [versionByte]; omega)) ?_
  cases bytes with
  | nil => simp at h
  | cons byte rest =>
      rw [List.length_cons] at h
      refine Safe.bind_lift (a := byte) rfl ?_
      split
      · exact Safe.throw _ _
      change Safe (liftM (Checked.splitAt rest nonceBytes) >>= _) _
      refine Safe.bind_lift (Checked.splitAt_ok (by rw [nonceBytes]; omega)) ?_
      have hnonce : (rest.take nonceBytes).length = 32 := by
        rw [List.length_take, nonceBytes]
        omega
      refine Safe.bind_lift (a := ⟨rest.take nonceBytes, hnonce⟩) (by rw [toOctets32, dif_pos hnonce]; rfl) ?_
      have hbody : (rest.drop nonceBytes).length = rest.length - 32 := List.length_drop
      refine Safe.bind_lift (Checked.sub_ok (by rw [hbody, hmacBytes]; omega)) ?_
      exact Safe.bind_lift (Checked.splitAt_ok (Nat.sub_le _ _)) (Safe.pure trivial)

theorem carve_parts (nonce mac : Octets 32) (ciphertext : Bytes) :
    (carve (version :: (nonce.1 ++ (ciphertext ++ mac.1)))).run = .ok (.ok ⟨nonce, ciphertext, mac.1⟩) := by
  have hversion : Checked.splitAt (version :: (nonce.1 ++ (ciphertext ++ mac.1))) versionByte =
      .ok ([version], nonce.1 ++ (ciphertext ++ mac.1)) := Checked.splitAt_append [version] _
  have hfirst : Checked.expect "VERSION_BYTE = 1, slice is non-empty after MIN_PAYLOAD_BYTES check" [version].head? =
      .ok version := rfl
  have hsplit := Checked.splitAt_append nonce.1 (ciphertext ++ mac.1)
  rw [nonce.2] at hsplit
  have harray : Checked.expect "NONCE_BYTES = 32 by construction" (toOctets32 nonce.1) = .ok nonce := by
    rw [toOctets32, dif_pos nonce.2]
    rfl
  have hsub : Checked.sub (ciphertext ++ mac.1).length hmacBytes = .ok ciphertext.length := by
    rw [Checked.sub_ok (by rw [List.length_append, mac.2, hmacBytes]; omega), List.length_append, mac.2, hmacBytes,
      Nat.add_sub_cancel]
  rw [carve, Fallible.bind_lift hversion]
  dsimp only
  rw [Fallible.bind_lift hfirst, if_neg (not_not.mpr rfl), nonceBytes, Fallible.bind_lift hsplit]
  dsimp only
  rw [Fallible.bind_lift harray, Fallible.bind_lift hsub,
    Fallible.bind_lift (Checked.splitAt_append ciphertext mac.1)]
  rfl

/-! ### Exactness -/

variable (key : Octets 32)

/-- Every text that can be encrypted becomes a payload of this shape. -/
theorem encryptInner_ok {plaintext : String} (nonce : Octets 32)
    (hmin : minPlaintextBytes ≤ (strBytes plaintext).length) (hmax : (strBytes plaintext).length ≤ maxPlaintextBytes)
    {n : Nat} (hn : paddedLength (strBytes plaintext).length = .ok n) :
    let mks := MessageKeys.derive prims key nonce
    let ciphertext := applyKeystream prims mks (padding (strBytes plaintext) n)
    (encryptInner prims key plaintext nonce).run = .ok (.ok (prims.base64.encode
      (version :: (nonce.1 ++ (ciphertext ++ (computeHmac prims mks nonce ciphertext).1))))) := by
  intro mks ciphertext
  rw [encryptInner, Fallible.bind_ok (pad_ok hmin hmax hn)]
  rfl

/-- A text of another length is refused before anything is encrypted. -/
theorem encryptInner_error {plaintext : String} (nonce : Octets 32)
    (h : ¬ (minPlaintextBytes ≤ (strBytes plaintext).length ∧ (strBytes plaintext).length ≤ maxPlaintextBytes)) :
    ∃ e, (encryptInner prims key plaintext nonce).run = .ok (.error e) := by
  obtain ⟨e, he⟩ := pad_error h
  refine ⟨e, ?_⟩
  rw [encryptInner, ExceptT.run_bind, he]
  rfl

theorem encrypt_error {plaintext : String} (entropy : Except String (Octets 32)) (secret : SecretKey)
    (peer : PublicKey)
    (h : ¬ (minPlaintextBytes ≤ (strBytes plaintext).length ∧ (strBytes plaintext).length ≤ maxPlaintextBytes)) :
    ∃ e, (encrypt prims entropy secret peer plaintext).run = .ok (.error e) := by
  cases entropy with
  | error text => exact ⟨_, rfl⟩
  | ok nonce => exact encryptInner_error prims _ nonce h

/-- The round trip, and the length of the payload. The payload is put together from its parts; the checks on its
    length hold by arithmetic, and decryption then undoes one layer after the other. -/
theorem decrypt_encryptInner {plaintext : String} (nonce : Octets 32)
    (hmin : minPlaintextBytes ≤ (strBytes plaintext).length)
    (hmax : (strBytes plaintext).length ≤ maxPlaintextBytes) :
    ∃ payload, (encryptInner prims key plaintext nonce).run = .ok (.ok payload) ∧
      minPayloadChars ≤ (strBytes payload).length ∧ (strBytes payload).length ≤ maxPayloadChars ∧
      (decryptWithConversationKey prims key payload).run = .ok (.ok plaintext) := by
  obtain ⟨n, hn, hreach, hfloor, hbound⟩ := paddedLength_plaintext hmax
  have hseal := encryptInner_ok prims key nonce hmin hmax hn
  dsimp only at hseal
  set mks := MessageKeys.derive prims key nonce
  set ciphertext := applyKeystream prims mks (padding (strBytes plaintext) n) with hciphertext
  set mac := computeHmac prims mks nonce ciphertext
  have hlen : (version :: (nonce.1 ++ (ciphertext ++ mac.1))).length = 67 + n := by
    simp only [List.length_cons, List.length_append, nonce.2, mac.2]
    rw [hciphertext, length_applyKeystream, length_padding hreach]
    omega
  have hchars := strBytes_base64 prims (version :: (nonce.1 ++ (ciphertext ++ mac.1)))
  rw [hlen] at hchars
  refine ⟨_, hseal, ?_, ?_, ?_⟩
  · rw [hchars, minPayloadChars]
    omega
  · rw [hchars, maxPayloadChars]
    omega
  · have hmin' : minPayloadBytes ≤ (version :: (nonce.1 ++ (ciphertext ++ mac.1))).length := by
      rw [hlen, minPayloadBytes]
      omega
    have hmax' : (version :: (nonce.1 ++ (ciphertext ++ mac.1))).length ≤ maxPayloadBytes := by
      rw [hlen, maxPayloadBytes]
      omega
    have hopen := decodeChecked_encode prims hmin' hmax'
    have hmac : verifyHmac prims mks nonce ciphertext mac.1 = true := decide_eq_true rfl
    have hbuffer : (decryptedBuffer prims key (prims.base64.encode
        (version :: (nonce.1 ++ (ciphertext ++ mac.1))))).run = .ok (.ok (padding (strBytes plaintext) n)) := by
      rw [decryptedBuffer, Fallible.bind_ok hopen, Fallible.bind_ok (carve_parts nonce mac ciphertext)]
      dsimp only
      rw [hmac, if_neg (by simp), hciphertext, applyKeystream_twice]
      rfl
    rw [decryptWithConversationKey, Fallible.bind_ok hbuffer, Fallible.bind_ok (unpad_padding hmin hmax hn),
      fromUtf8_strBytes]
    rfl

/-- **Decryption does not panic on any payload**: each cut is within a length that was checked. -/
theorem decryptedBuffer_safe (payload : String) : Safe (decryptedBuffer prims key payload) (fun _ => True) := by
  refine (decodeChecked_safe prims payload).bind (fun bytes hbytes => (carve_safe hbytes).bind (fun parts _ => ?_))
  dsimp only
  split
  · exact Safe.throw _ _
  · exact Safe.pure trivial

/-- What decryption returns was padded exactly. The buffer may be anything that the checks let through, so what is
    known of the text comes from `unpad` alone. -/
theorem decrypt_safe (payload : String) : Safe (decryptWithConversationKey prims key payload) (fun text =>
    minPlaintextBytes ≤ (strBytes text).length ∧ (strBytes text).length ≤ maxPlaintextBytes ∧
      ∃ buffer n, (decryptedBuffer prims key payload).run = .ok (.ok buffer) ∧
        paddedLength (strBytes text).length = .ok n ∧ buffer.length = 2 + n) := by
  obtain ⟨r, hrun, -⟩ := decryptedBuffer_safe prims key payload
  cases r with
  | error e =>
      refine ⟨.error e, ?_, ?_⟩
      · rw [decryptWithConversationKey, ExceptT.run_bind, hrun]
        rfl
      · rintro text ⟨⟩
  | ok buffer =>
      have htail : Safe (unpad buffer >>= fun unpadded =>
          match fromUtf8 unpadded with
          | some text => (return text : Fallible Nip44Error String)
          | none => throw .invalidUtf8) (fun text =>
            minPlaintextBytes ≤ (strBytes text).length ∧ (strBytes text).length ≤ maxPlaintextBytes ∧
              ∃ n, paddedLength (strBytes text).length = .ok n ∧ buffer.length = 2 + n) := by
        refine (unpad_safe buffer).bind (fun unpadded hunpadded => ?_)
        split
        · rename_i text htext
          have htext := strBytes_of_fromUtf8 htext
          exact Safe.pure ⟨htext ▸ hunpadded.min, htext ▸ hunpadded.max, htext ▸ hunpadded.exact⟩
        · exact Safe.throw _ _
      obtain ⟨r, hr, hP⟩ := htail
      refine ⟨r, ?_, fun text htext => ?_⟩
      · rw [decryptWithConversationKey, Fallible.bind_ok hrun]
        exact hr
      · obtain ⟨hmin, hmax, n, hn, hlen⟩ := hP text htext
        exact ⟨hmin, hmax, buffer, n, hrun, hn, hlen⟩

end Payloads

/-- **Exactness.** Every text of 1 to 65535 bytes becomes a payload of 132 to 87472 characters that is decrypted
to it, and no other text is encrypted; on no string does decryption panic, and what it returns filled its buffer as
padding asks; padding never cuts, never shrinks a longer text below a shorter one, and has a floor.

Encryption joins the parts at fixed lengths and decryption cuts them there (`decrypt_encryptInner`); safety is
carried through each function by `Safe`, and the padding scheme is settled by arithmetic (`paddedLength_spec`). -/
theorem framing_exact (prims : Primitives) (key : Octets 32) :
    (∀ (nonce : Octets 32) (plaintext : String), 1 ≤ (strBytes plaintext).length →
      (strBytes plaintext).length ≤ 65535 →
      ∃ payload, (encryptInner prims key plaintext nonce).run = .ok (.ok payload) ∧
        132 ≤ (strBytes payload).length ∧ (strBytes payload).length ≤ 87472 ∧
        (decryptWithConversationKey prims key payload).run = .ok (.ok plaintext)) ∧
    (∀ entropy secret peer plaintext,
      ¬ (1 ≤ (strBytes plaintext).length ∧ (strBytes plaintext).length ≤ 65535) →
      ∃ e, (encrypt prims entropy secret peer plaintext).run = .ok (.error e)) ∧
    (∀ payload, ∃ r, (decryptWithConversationKey prims key payload).run = .ok r ∧ ∀ text, r = .ok text →
      1 ≤ (strBytes text).length ∧ (strBytes text).length ≤ 65535 ∧
        ∃ buffer n, (decryptedBuffer prims key payload).run = .ok (.ok buffer) ∧
          paddedLength (strBytes text).length = .ok n ∧ buffer.length = 2 + n) ∧
    (∀ len len', len ≤ len' → len' ≤ 2 ^ 63 →
      ∃ n n', paddedLength len = .ok n ∧ paddedLength len' = .ok n' ∧ n ≤ n' ∧ len ≤ n ∧ 32 ≤ n) := by
  refine ⟨fun nonce plaintext => decrypt_encryptInner prims key nonce, fun entropy secret peer plaintext =>
    encrypt_error prims entropy secret peer, decrypt_safe prims key, ?_⟩
  intro len len' hle hbound
  obtain ⟨n, hn, hreach, hfloor, -⟩ := paddedLength_spec (hle.trans hbound)
  obtain ⟨n', hn', -⟩ := paddedLength_spec hbound
  exact ⟨n, n', hn, hn', paddedLength_mono hle hbound hn hn', hreach, hfloor⟩

namespace Sample

open Nula.Sample

/-- A published vector: the conversation key of the secret keys 1 and 2, the nonce 1 and the text `a`. -/
def key : Octets 32 :=
  ⟨hexBytes "c41c775356fd92eadc63ff5a0dc1da211b268cbea22316767095b2871ea1412d", by decide +kernel⟩

theorem length_nonce : (List.replicate 31 (0 : UInt8) ++ [1]).length = 32 := by decide

/-- The nonce of the vector. -/
def nonce : Octets 32 := ⟨List.replicate 31 0 ++ [1], length_nonce⟩

/-- The keys that are drawn from it. -/
def expanded : Octets 76 :=
  ⟨hexBytes ("63e64ca552c6a0664d4f6402c033fd698f43d531520e177d7c5c84357feafd1a1f58294fc1d270dc407146ca" ++
    "b3bd1176db3c377f82fd03162d0f3a9a323cace39fb89970b9f32395476e1a08"), by decide +kernel⟩

/-- The key stream that is laid over the padded text. -/
def keystream : Bytes := hexBytes "79ec67e5548ad3ff58ca920e6c0b4329f6040230f7e6e5641f20741780f0adc35a09"

/-- The encrypted text. -/
def ciphertext : Bytes := hexBytes "79ed06e5548ad3ff58ca920e6c0b4329f6040230f7e6e5641f20741780f0adc35a09"

/-- Its code. -/
def mac : Octets 32 :=
  ⟨hexBytes "794259929a02bb06ad8e8cf709ee4ccc567e9d514cdf5781af27a3e905e55b1b", by decide +kernel⟩

/-- The payload of the vector. -/
def payload : String :=
  "AgAAAAAAAAAAAAAAAAAAAAAAAAAAAAAAAAAAAAAAAAABee0G5VSK0/9YypIObAtDKfYEAjD35uVkHyB0F4DwrcNaCXlCWZKaArsGrY6M" ++
    "9wnuTMxWfp1RTN9Xga8no+kF5Vsb"

/-- Primitives that know the values of the vector. -/
def prims : Primitives where
  derive _ _ := key
  expand k n := if k = key ∧ n = nonce then expanded else ⟨List.replicate 76 0, by decide⟩
  keystream k n i := if k = expanded.1.take 32 ∧ n = (expanded.1.drop 32).take 12 then keystream.getD i 0 else 0
  hmac k message :=
    if k = expanded.1.drop 44 ∧ message = nonce.1 ++ ciphertext then mac else ⟨List.replicate 32 0, by decide⟩
  base64 := Base64.standard

end Sample

theorem framing_exact_vector : ∃ payload,
    (encryptInner Sample.prims Sample.key "a" Sample.nonce).run = .ok (.ok payload) ∧
      132 ≤ (strBytes payload).length ∧ (strBytes payload).length ≤ 87472 ∧
      (decryptWithConversationKey Sample.prims Sample.key payload).run = .ok (.ok "a") :=
  (framing_exact Sample.prims Sample.key).1 Sample.nonce "a" (by decide) (by decide)

end Nula.Nip44.V2
