import Nula.Core.Canonical
import Nula.Core.Nips
import Nula.Core.Signing
import Nula.Lib.Yields

/-!
# `Core.GiftWrap` — gift wraps (`nips/nip59.rs`) and private messages (`nips/nip17.rs`)

A rumor is an unsigned event. Its author encrypts it to one reader in a seal, which the author signs, and a key
made for the purpose encrypts the seal to the same reader in a wrap. Whoever holds the reader's secret key takes
the two layers off again.

## Contents
- **Layers.** `createSeal`, `createGiftWrap`, `unwrap`, and what an unwrapped rumor was inside (`unwrap_eq_ok_iff`).
- **Private messages.** `buildChatMessageRumor`, `wrapForMany`, and that every wrap delivers (`delivered_wrapFor`).
- **Rumors' ids.** When an unwrapped rumor carries its own id (`deliver_and_attest`).
-/

namespace Nula

/-- `Kind::SEAL`. -/
def Kind.seal : Kind := ⟨13⟩

/-- `Kind::PRIVATE_DIRECT_MESSAGE`. -/
def Kind.privateDirectMessage : Kind := ⟨14⟩

theorem TagKind.asStr_cons_ne_nil (head : TagKind) (args : List String) : head.asStr :: args ≠ [] :=
  List.cons_ne_nil _ _

/-- `Tag::with`. -/
def Tag.ofKind (head : TagKind) (args : List String) : Tag := ⟨head.asStr :: args, head.asStr_cons_ne_nil args⟩

/-! ## Layers -/

namespace Nip59

/-- `Nip59Error`, with the texts of what failed under it. -/
inductive Nip59Error where
  | clock (text : String)
  | rng (text : String)
  | nip44 (e : Nip44.Nip44Error)
  | json
  | internal (text : String)
  | event (e : EventError)
  | unexpectedKind (expected got : UInt16)
  | pubkeyMismatch
  deriving DecidableEq, Repr

/-- `Timestamps`. -/
structure Timestamps where
  rumor : Timestamp
  «seal» : Timestamp
  wrap : Timestamp

/-- What the seal draws. The builder has its time from the caller and does not read the clock. -/
structure SealDraws where
  clock : Clock
  nonce : Entropy
  aux : Bytes

/-- What the wrap draws: its own secret key as well. -/
structure WrapDraws extends SealDraws where
  secret : Except SecretKeyError SecretKey

/-- What one recipient's wrap draws: for its seal, and for the wrap around it. -/
structure Draws where
  «seal» : SealDraws
  wrap : WrapDraws

section

variable (crypto : Curve) (json : JsonCodec)

/-- The `map_err` of both layers; `what` names the layer. -/
def signingError (what : String) : EventBuilderError → Nip59Error
  | .clock text => .clock text
  | .signer e => .internal (what ++ " signing failed unexpectedly: " ++ e.text)

/-- `create_seal`. -/
def createSeal (draws : SealDraws) (sender : Keys) (recipient : PublicKey) (rumor : UnsignedEvent)
    (sealCreatedAt : Timestamp) : Except Nip59Error Event :=
  match Nip44.encrypt crypto.toKeyCrypto draws.nonce sender.secretKey recipient (rumor.asJson json) with
  | .error e => .error (.nip44 e)
  | .ok ciphertext =>
      ({ EventBuilder.new .seal ciphertext with createdAt := some sealCreatedAt }.signWithKeys
        crypto.toKeyCrypto draws.clock draws.aux sender).mapError (signingError "seal")

/-- The `p` tag of a wrap. -/
def recipientTag (recipient : PublicKey) (relayHint : Option RelayUrl) : Tag :=
  .ofKind (.singleLetter (.lowercase .P)) (match relayHint with
    | none => [recipient.toHex]
    | some url => [recipient.toHex, url.asStr])

/-- `create_gift_wrap`. -/
def createGiftWrap (draws : WrapDraws) (sealed : Event) (recipient : PublicKey) (relayHint : Option RelayUrl)
    (wrapCreatedAt : Timestamp) : Except Nip59Error Event :=
  match Keys.generate crypto draws.secret with
  | .error (.rng text) => .error (.rng text)
  | .error other => .error (.internal ("ephemeral key generation failed: " ++ other.text))
  | .ok ephemeral =>
      -- the wrap is made with a key of its own, which is thrown away
      match Nip44.encrypt crypto.toKeyCrypto draws.nonce ephemeral.secretKey recipient (sealed.asJson json) with
      | .error e => .error (.nip44 e)
      | .ok ciphertext =>
          (({ EventBuilder.new .giftWrap ciphertext with createdAt := some wrapCreatedAt }.tag
            (recipientTag recipient relayHint)).signWithKeys crypto.toKeyCrypto draws.clock draws.aux
              ephemeral).mapError (signingError "wrap")

/-- `unwrap`: the outer signature is not looked at. -/
def unwrap (recipient : Keys) (giftWrap : Event) : Except Nip59Error UnsignedEvent :=
  if giftWrap.kind ≠ .giftWrap then .error (.unexpectedKind Kind.giftWrap.val giftWrap.kind.val)
  else
    match Nip44.decrypt crypto.toKeyCrypto recipient.secretKey giftWrap.pubkey giftWrap.content with
    | .error e => .error (.nip44 e)
    | .ok sealJson =>
    match Event.fromJson json sealJson with
    | none => .error .json
    | some sealed =>
    -- from here on it is the seal that counts
    if sealed.kind ≠ .seal then .error (.unexpectedKind Kind.seal.val sealed.kind.val)
    else
      match sealed.verify crypto.toCrypto with
      | .error e => .error (.event e)
      | .ok () =>
      match Nip44.decrypt crypto.toKeyCrypto recipient.secretKey sealed.pubkey sealed.content with
      | .error e => .error (.nip44 e)
      | .ok rumorJson =>
      match UnsignedEvent.fromJson json rumorJson with
      | none => .error .json
      -- the rumor is unsigned: its author must be who signed the seal
      | some rumor => if rumor.pubkey ≠ sealed.pubkey then .error .pubkeyMismatch else .ok rumor

/-! What a wrap has inside, for the holder of a secret key. -/

/-- The wrap decrypts to this event. -/
def Contains (recipient : Keys) (giftWrap sealed : Event) : Prop :=
  ∃ text, Nip44.decrypt crypto.toKeyCrypto recipient.secretKey giftWrap.pubkey giftWrap.content = .ok text ∧
    Event.fromJson json text = some sealed

/-- The seal decrypts to this rumor. -/
def Encloses (recipient : Keys) (sealed : Event) (rumor : UnsignedEvent) : Prop :=
  ∃ text, Nip44.decrypt crypto.toKeyCrypto recipient.secretKey sealed.pubkey sealed.content = .ok text ∧
    UnsignedEvent.fromJson json text = some rumor

/-- A seal that its author signed, around a rumor of the same author. -/
structure Attests (recipient : Keys) (sealed : Event) (rumor : UnsignedEvent) : Prop where
  kind : sealed.kind = .seal
  verifies : sealed.verify crypto.toCrypto = .ok ()
  encloses : Encloses crypto json recipient sealed rumor
  author : rumor.pubkey = sealed.pubkey

/-- A rumor comes out of a gift wrap with a seal inside that attests it, and of nothing else. Forwards the checks are
    peeled off one at a time, in the order of the source; backwards each of them is passed. -/
theorem unwrap_eq_ok_iff {recipient : Keys} {giftWrap : Event} {rumor : UnsignedEvent} :
    unwrap crypto json recipient giftWrap = .ok rumor ↔ giftWrap.kind = .giftWrap ∧
      ∃ sealed, Contains crypto json recipient giftWrap sealed ∧ Attests crypto json recipient sealed rumor := by
  constructor
  · intro h
    unfold unwrap at h
    split at h
    · cases h
    rename_i hkind
    split at h
    · cases h
    rename_i sealJson hopen
    split at h
    · cases h
    rename_i sealed hsealed
    split at h
    · cases h
    rename_i hsealKind
    split at h
    · cases h
    rename_i hverify
    split at h
    · cases h
    rename_i rumorJson hrumorJson
    split at h
    · cases h
    rename_i inner hinner
    split at h
    · cases h
    rename_i hauthor
    cases h
    exact ⟨not_not.mp hkind, sealed, ⟨sealJson, hopen, hsealed⟩,
      ⟨not_not.mp hsealKind, hverify, ⟨rumorJson, hrumorJson, hinner⟩, not_not.mp hauthor⟩⟩
  · rintro ⟨hkind, sealed, ⟨sealJson, hopen, hsealed⟩, hsealKind, hverify, ⟨rumorJson, hrumorJson, hrumor⟩, hauthor⟩
    simp only [unwrap, if_neg (not_not.mpr hkind), hopen, hsealed, if_neg (not_not.mpr hsealKind), hverify,
      hrumorJson, hrumor, if_neg (not_not.mpr hauthor)]

end

/-! ### What is sealed and wrapped comes out -/

/-- The law of BIP-340, and that of NIP-44 between two key pairs. -/
structure Lawful (crypto : Curve) : Prop where
  verify_sign : ∀ secret aux message, message.length = 32 →
    crypto.verifySchnorr (crypto.signSchnorr secret aux message) message (crypto.xOnlyPublicKey secret) = true
  open_seal : ∀ sender recipient nonce text, Nip44.Fits text →
    crypto.nip44Open recipient (crypto.xOnlyPublicKey sender)
      (crypto.nip44Seal sender (crypto.xOnlyPublicKey recipient) nonce text) = .ok text

section

variable {crypto : Curve} (json : JsonCodec) (laws : Lawful crypto)

include laws

/-- The reader opens what was encrypted. -/
theorem decrypt_of_encrypt {entropy : Entropy} {sender recipient : SecretKey} {text ciphertext : String}
    (h : Nip44.encrypt crypto.toKeyCrypto entropy sender (crypto.xOnlyPublicKey recipient) text = .ok ciphertext) :
    Nip44.decrypt crypto.toKeyCrypto recipient (crypto.xOnlyPublicKey sender) ciphertext = .ok text := by
  obtain ⟨nonce, -, hfits, rfl⟩ := Nip44.encrypt_eq_ok_iff.mp h
  rw [Nip44.decrypt, laws.open_seal sender recipient nonce text hfits]
  rfl

/-- What the builder signs verifies. -/
theorem verify_of_signWithKeys {clock : Clock} {aux : Bytes} {secret : SecretKey} {b : EventBuilder} {event : Event}
    (h : b.signWithKeys crypto.toKeyCrypto clock aux (Keys.fromSecretKey crypto secret) = .ok event) :
    event.verify crypto.toCrypto = .ok () := by
  obtain ⟨hpubkey, -, -, -, hid, hsig⟩ := EventBuilder.signWithKeys_eq_ok h
  refine Event.verify_ok_iff.mpr ⟨hid, ?_⟩
  rw [hsig, hpubkey]
  exact laws.verify_sign secret aux event.id.bytes event.id.size

variable {sender recipient : SecretKey} {rumor : UnsignedEvent}

/-- A seal attests its rumor to the reader, if the author of the rumor made it. -/
theorem attests_createSeal {draws : SealDraws} {sealCreatedAt : Timestamp} {sealed : Event}
    (hauthor : rumor.pubkey = crypto.xOnlyPublicKey sender)
    (h : createSeal crypto json draws (Keys.fromSecretKey crypto sender) (crypto.xOnlyPublicKey recipient) rumor
      sealCreatedAt = .ok sealed) :
    Attests crypto json (Keys.fromSecretKey crypto recipient) sealed rumor := by
  unfold createSeal at h
  split at h
  · cases h
  rename_i ciphertext hseal
  have hsign := mapError_ok_iff.mp h
  obtain ⟨hpubkey, hkind, -, hcontent, -, -⟩ := EventBuilder.signWithKeys_eq_ok hsign
  refine ⟨hkind, verify_of_signWithKeys laws hsign, ⟨_, ?_, rumor.fromJson_asJson json⟩, hauthor.trans hpubkey.symm⟩
  rw [hpubkey, hcontent]
  exact decrypt_of_encrypt laws hseal

omit laws in
/-- A seal has no tags and one payload. -/
theorem contents_createSeal {draws : SealDraws} {keys : Keys} {reader : PublicKey} {sealCreatedAt : Timestamp}
    {sealed : Event} (h : createSeal crypto json draws keys reader rumor sealCreatedAt = .ok sealed) :
    sealed.tags = ⟨[]⟩ ∧ ∀ nonce, draws.nonce = .ok nonce →
      sealed.content = crypto.nip44Seal keys.secretKey reader nonce (rumor.asJson json) := by
  unfold createSeal at h
  split at h
  · cases h
  rename_i ciphertext hseal
  obtain ⟨-, -, htags, hcontent, -, -⟩ := EventBuilder.signWithKeys_eq_ok (mapError_ok_iff.mp h)
  obtain ⟨nonce, hnonce, -, rfl⟩ := Nip44.encrypt_eq_ok_iff.mp hseal
  refine ⟨htags, fun other hother => ?_⟩
  cases hnonce.symm.trans hother
  exact hcontent

/-- A wrap around a seal yields the rumor the seal attests. -/
theorem unwrap_createGiftWrap {draws : WrapDraws} {relayHint : Option RelayUrl} {wrapCreatedAt : Timestamp}
    {sealed giftWrap : Event} (hattests : Attests crypto json (Keys.fromSecretKey crypto recipient) sealed rumor)
    (h : createGiftWrap crypto json draws sealed (crypto.xOnlyPublicKey recipient) relayHint wrapCreatedAt =
      .ok giftWrap) :
    unwrap crypto json (Keys.fromSecretKey crypto recipient) giftWrap = .ok rumor := by
  unfold createGiftWrap at h
  split at h
  · cases h
  · cases h
  rename_i ephemeral hgenerate
  split at h
  · cases h
  rename_i ciphertext hwrap
  obtain ⟨hpubkey, hkind, -, hcontent, -, -⟩ := EventBuilder.signWithKeys_eq_ok (mapError_ok_iff.mp h)
  obtain ⟨secret, rfl⟩ : ∃ secret, ephemeral = Keys.fromSecretKey crypto secret := by
    cases hsecret : draws.secret with
    | error e =>
        rw [hsecret] at hgenerate
        cases hgenerate
    | ok secret =>
        rw [hsecret] at hgenerate
        cases hgenerate
        exact ⟨secret, rfl⟩
  refine (unwrap_eq_ok_iff crypto json).mpr ⟨hkind, sealed, ⟨_, ?_, sealed.fromJson_asJson json⟩, hattests⟩
  rw [hpubkey, hcontent]
  exact decrypt_of_encrypt laws hwrap

omit laws in
/-- A wrap is of its kind and names whom it is for. -/
theorem address_createGiftWrap {draws : WrapDraws} {reader : PublicKey} {relayHint : Option RelayUrl}
    {wrapCreatedAt : Timestamp} {sealed giftWrap : Event}
    (h : createGiftWrap crypto json draws sealed reader relayHint wrapCreatedAt = .ok giftWrap) :
    giftWrap.kind = .giftWrap ∧ giftWrap.tags = ⟨[recipientTag reader relayHint]⟩ := by
  unfold createGiftWrap at h
  split at h
  · cases h
  · cases h
  split at h
  · cases h
  obtain ⟨-, hkind, htags, -, -, -⟩ := EventBuilder.signWithKeys_eq_ok (mapError_ok_iff.mp h)
  exact ⟨hkind, htags⟩

end

end Nip59

/-! ## Private messages -/

namespace Nip17

open Nip59

inductive Nip17Error where
  | noRecipients
  | wrap (e : Nip59Error)
  deriving DecidableEq, Repr

/-- `Recipient`: who is to get the message, and a relay to find them on. -/
structure Recipient where
  publicKey : PublicKey
  relayHint : Option RelayUrl

/-- `ReplyTo`: the message that is answered. -/
structure ReplyTo where
  eventId : EventId
  relayHint : Option RelayUrl

section

variable (crypto : Curve) (json : JsonCodec)

/-- `build_chat_message_rumor`. -/
def buildChatMessageRumor (sender : Keys) (recipients : List Recipient) (message : String) (createdAt : Timestamp)
    (subject : Option String) (replyTo : Option ReplyTo) : UnsignedEvent :=
  let mentions := recipients.map (fun r => recipientTag r.publicKey r.relayHint)
  let reply := replyTo.map (fun reply =>
    -- Without a hint the marker still stands in the fourth place.
    Tag.ofKind (.singleLetter (.lowercase .E))
      [reply.eventId.toHex, (reply.relayHint.map RelayUrl.asStr).getD "", "reply"])
  let title := subject.map (fun title => Tag.ofKind (.fromWire "subject") [title])
  .new crypto.toCrypto sender.publicKey createdAt .privateDirectMessage
    ⟨mentions ++ reply.toList ++ title.toList⟩ message

/-- `wrap_for`. -/
def wrapFor (draws : Draws) (sender : Keys) (recipient : Recipient) (rumor : UnsignedEvent)
    (timestamps : Timestamps) : Except Nip59Error Event := do
  let sealed ← createSeal crypto json draws.seal sender recipient.publicKey rumor timestamps.seal
  createGiftWrap crypto json draws.wrap sealed recipient.publicKey recipient.relayHint timestamps.wrap

/-- The loop of `wrap_for_many`, with the draws from the `n`-th on; its body is that of `wrap_for`. -/
def wrapEach (draws : Nat → Draws) (sender : Keys) (rumor : UnsignedEvent) (timestamps : Timestamps) :
    Nat → List Recipient → Except Nip59Error (List Event)
  | _, [] => .ok []
  | n, recipient :: rest => do
      let wrap ← wrapFor crypto json (draws n) sender recipient rumor timestamps
      let wraps ← wrapEach draws sender rumor timestamps (n + 1) rest
      return wrap :: wraps

/-- `wrap_for_many`: the sender's own copy first. -/
def wrapForMany (draws : Nat → Draws) (sender : Keys) (recipients : List Recipient) (rumor : UnsignedEvent)
    (timestamps : Timestamps) : Except Nip17Error (List Event) :=
  if recipients = [] then .error .noRecipients
  else Except.mapError .wrap do
    let selfSeal ← createSeal crypto json (draws 0).seal sender sender.publicKey rumor timestamps.seal
    let own ← createGiftWrap crypto json (draws 0).wrap selfSeal sender.publicKey none timestamps.wrap
    let wraps ← wrapEach crypto json draws sender rumor timestamps 1 recipients
    return own :: wraps

/-- The wrap is addressed to the recipient, and every holder of the recipient's secret key takes the rumor out. -/
structure Delivered (rumor : UnsignedEvent) (recipient : Recipient) (giftWrap : Event) : Prop where
  kind : giftWrap.kind = .giftWrap
  tags : giftWrap.tags = ⟨[recipientTag recipient.publicKey recipient.relayHint]⟩
  unwraps : ∀ secret, crypto.xOnlyPublicKey secret = recipient.publicKey →
    unwrap crypto json (Keys.fromSecretKey crypto secret) giftWrap = .ok rumor

end

section

variable {crypto : Curve} (json : JsonCodec) (laws : Lawful crypto) {draws : Nat → Draws} {sender : SecretKey}
  {rumor : UnsignedEvent} {timestamps : Timestamps} (hauthor : rumor.pubkey = crypto.xOnlyPublicKey sender)

include laws hauthor

/-- **One wrap is delivered.** It opens with the recipient's key to the seal, and the seal opens to the rumor: each of
    the two layers is decrypted with the conversation key of the pair that encrypted it, which both sides agree on. -/
theorem delivered_wrapFor {draws : Draws} {recipient : Recipient} {giftWrap : Event}
    (h : wrapFor crypto json draws (Keys.fromSecretKey crypto sender) recipient rumor timestamps = .ok giftWrap) :
    Delivered crypto json rumor recipient giftWrap := by
  obtain ⟨sealed, hseal, hwrap⟩ := bind_ok_iff.mp h
  obtain ⟨hkind, htags⟩ := address_createGiftWrap json hwrap
  refine ⟨hkind, htags, fun secret hsecret => ?_⟩
  rw [← hsecret] at hseal hwrap
  exact unwrap_createGiftWrap json laws (attests_createSeal json laws hauthor hseal) hwrap

theorem delivered_wrapEach {recipients : List Recipient} {n : Nat} {wraps : List Event}
    (h : wrapEach crypto json draws (Keys.fromSecretKey crypto sender) rumor timestamps n recipients = .ok wraps) :
    List.Forall₂ (Delivered crypto json rumor) recipients wraps := by
  induction recipients generalizing n wraps with
  | nil =>
      cases h
      exact .nil
  | cons recipient rest ih =>
      obtain ⟨wrap, hwrap, h⟩ := bind_ok_iff.mp h
      obtain ⟨wraps, hwraps, h⟩ := bind_ok_iff.mp h
      cases h
      exact .cons (delivered_wrapFor json laws hauthor hwrap) (ih hwraps)

/-- One wrap for the sender, then one for each recipient in order; each delivers the rumor. -/
theorem delivered_wrapForMany {recipients : List Recipient} {wraps : List Event}
    (h : wrapForMany crypto json draws (Keys.fromSecretKey crypto sender) recipients rumor timestamps = .ok wraps) :
    List.Forall₂ (Delivered crypto json rumor) (⟨crypto.xOnlyPublicKey sender, none⟩ :: recipients) wraps := by
  unfold wrapForMany at h
  split at h
  · cases h
  obtain ⟨selfSeal, hseal, h⟩ := bind_ok_iff.mp (mapError_ok_iff.mp h)
  obtain ⟨own, hown, h⟩ := bind_ok_iff.mp h
  obtain ⟨rest, hrest, h⟩ := bind_ok_iff.mp h
  cases h
  have hself : wrapFor crypto json (draws 0) (Keys.fromSecretKey crypto sender)
      ⟨crypto.xOnlyPublicKey sender, none⟩ rumor timestamps = .ok own := bind_ok_iff.mpr ⟨selfSeal, hseal, hown⟩
  exact .cons (delivered_wrapFor json laws hauthor hself) (delivered_wrapEach json laws hauthor hrest)

end

/-! ### What can fail -/

section

variable {crypto : Curve} (json : JsonCodec)

/-- The sources of randomness work. -/
structure Working (draws : Draws) : Prop where
  sealNonce : ∃ nonce, draws.seal.nonce = .ok nonce
  secret : ∃ secret, draws.wrap.secret = .ok secret
  wrapNonce : ∃ nonce, draws.wrap.nonce = .ok nonce

/-- A seal is made when there is randomness and the rumor fits into an encryption. -/
theorem createSeal_ok {draws : SealDraws} {sender : Keys} {recipient : PublicKey} {rumor : UnsignedEvent}
    {sealCreatedAt : Timestamp} (hnonce : ∃ nonce, draws.nonce = .ok nonce) (hfits : Nip44.Fits (rumor.asJson json)) :
    ∃ sealed, createSeal crypto json draws sender recipient rumor sealCreatedAt = .ok sealed := by
  obtain ⟨nonce, hnonce⟩ := hnonce
  have hencrypt : Nip44.encrypt crypto.toKeyCrypto draws.nonce sender.secretKey recipient (rumor.asJson json) =
      .ok (crypto.nip44Seal sender.secretKey recipient nonce (rumor.asJson json)) :=
    Nip44.encrypt_eq_ok_iff.mpr ⟨nonce, hnonce, hfits, rfl⟩
  rw [createSeal, hencrypt]
  exact ⟨_, mapError_ok_iff.mpr (EventBuilder.signWithKeys_at rfl)⟩

/-- A wrap is made when there are a key and randomness, and the seal fits. -/
theorem createGiftWrap_ok {draws : WrapDraws} {sealed : Event} {recipient : PublicKey}
    {relayHint : Option RelayUrl} {wrapCreatedAt : Timestamp} (hsecret : ∃ secret, draws.secret = .ok secret)
    (hnonce : ∃ nonce, draws.nonce = .ok nonce) (hfits : Nip44.Fits (sealed.asJson json)) :
    ∃ giftWrap, createGiftWrap crypto json draws sealed recipient relayHint wrapCreatedAt = .ok giftWrap := by
  obtain ⟨secret, hsecret⟩ := hsecret
  obtain ⟨nonce, hnonce⟩ := hnonce
  have hgenerate : Keys.generate crypto draws.secret = .ok (Keys.fromSecretKey crypto secret) := by
    rw [hsecret]
    rfl
  have hencrypt : Nip44.encrypt crypto.toKeyCrypto draws.nonce (Keys.fromSecretKey crypto secret).secretKey recipient
      (sealed.asJson json) = .ok (crypto.nip44Seal secret recipient nonce (sealed.asJson json)) :=
    Nip44.encrypt_eq_ok_iff.mpr ⟨nonce, hnonce, hfits, rfl⟩
  rw [createGiftWrap, hgenerate]
  dsimp only
  rw [hencrypt]
  exact ⟨_, mapError_ok_iff.mpr (EventBuilder.signWithKeys_at rfl)⟩

variable {draws : Nat → Draws} {sender : Keys} {rumor : UnsignedEvent} {timestamps : Timestamps}

/-- The wraps are made when the draws work and both layers fit for every recipient. -/
theorem wrapEach_ok {recipients : List Recipient} (hdraws : ∀ n, Working (draws n))
    (hrumor : Nip44.Fits (rumor.asJson json))
    (hseal : ∀ n, ∀ recipient ∈ recipients, ∀ sealed, createSeal crypto json (draws n).seal sender
      recipient.publicKey rumor timestamps.seal = .ok sealed → Nip44.Fits (sealed.asJson json)) (n : Nat) :
    ∃ wraps, wrapEach crypto json draws sender rumor timestamps n recipients = .ok wraps := by
  induction recipients generalizing n with
  | nil => exact ⟨[], rfl⟩
  | cons recipient rest ih =>
      obtain ⟨sealed, hsealed⟩ := createSeal_ok json (hdraws n).sealNonce hrumor
      obtain ⟨wrap, hwrap⟩ := createGiftWrap_ok json (hdraws n).secret (hdraws n).wrapNonce
        (hseal n recipient List.mem_cons_self sealed hsealed)
      obtain ⟨wraps, hwraps⟩ := ih (fun m r hr => hseal m r (List.mem_cons_of_mem _ hr)) (n + 1)
      exact ⟨wrap :: wraps, bind_ok_iff.mpr ⟨wrap, bind_ok_iff.mpr ⟨sealed, hsealed, hwrap⟩,
        bind_ok_iff.mpr ⟨wraps, hwraps, rfl⟩⟩⟩

/-- Given randomness, only a rumor or a seal that is too long is not wrapped. -/
theorem wrapForMany_ok {recipients : List Recipient} (hne : recipients ≠ []) (hdraws : ∀ n, Working (draws n))
    (hrumor : Nip44.Fits (rumor.asJson json))
    (hseal : ∀ n, ∀ recipient ∈ (⟨sender.publicKey, none⟩ : Recipient) :: recipients, ∀ sealed,
      createSeal crypto json (draws n).seal sender recipient.publicKey rumor timestamps.seal = .ok sealed →
        Nip44.Fits (sealed.asJson json)) :
    ∃ wraps, wrapForMany crypto json draws sender recipients rumor timestamps = .ok wraps := by
  obtain ⟨sealed, hsealed⟩ := createSeal_ok json (hdraws 0).sealNonce hrumor
  obtain ⟨own, hown⟩ := createGiftWrap_ok json (hdraws 0).secret (hdraws 0).wrapNonce
    (hseal 0 _ List.mem_cons_self sealed hsealed)
  obtain ⟨wraps, hwraps⟩ := wrapEach_ok json hdraws hrumor (fun n r hr => hseal n r (List.mem_cons_of_mem _ hr)) 1
  rw [wrapForMany, if_neg hne]
  exact ⟨own :: wraps, mapError_ok_iff.mpr (bind_ok_iff.mpr ⟨sealed, hsealed,
    bind_ok_iff.mpr ⟨own, hown, bind_ok_iff.mpr ⟨wraps, hwraps, rfl⟩⟩⟩)⟩

end

end Nip17

/-! ## Rumors' ids -/

namespace Nip59

section

variable (crypto : Curve) (json : JsonCodec) (recipient : Keys) (giftWrap : Event)

/-- What comes out of the wrap is attested inside by a seal of its author's, and has the id of its fields. -/
def Authentic : Prop :=
  ∀ rumor, unwrap crypto json recipient giftWrap = .ok rumor →
    (∃ sealed, Contains crypto json recipient giftWrap sealed ∧ Attests crypto json recipient sealed rumor) ∧
      rumor.id = rumor.computeId crypto.toCrypto

/-- A rumor attested inside was sealed with the id of its fields. -/
def SealedWithItsId : Prop :=
  giftWrap.kind = .giftWrap → ∀ sealed rumor, Contains crypto json recipient giftWrap sealed →
    Attests crypto json recipient sealed rumor → rumor.id = rumor.computeId crypto.toCrypto

/-- **What is unwrapped is authentic exactly if it was sealed with its own id.** Unwrapping verifies the seal and
    compares the rumor's author with its signer; an id that is not the rumor's digest goes through unseen. -/
theorem authentic_iff :
    Authentic crypto json recipient giftWrap ↔ SealedWithItsId crypto json recipient giftWrap := by
  constructor
  · intro h hkind sealed rumor hcontains hattests
    exact (h rumor ((unwrap_eq_ok_iff crypto json).mpr ⟨hkind, sealed, hcontains, hattests⟩)).2
  · intro h rumor hunwrap
    obtain ⟨hkind, sealed, hcontains, hattests⟩ := (unwrap_eq_ok_iff crypto json).mp hunwrap
    exact ⟨⟨sealed, hcontains, hattests⟩, h hkind sealed rumor hcontains hattests⟩

end

/-- **Private messages are delivered, and what is unwrapped is authentic when its author sealed the right id.**

    A wrap is two layers of encryption, each opened with the conversation key it was sealed with
    (`delivered_wrapFor`). What unwraps is what the two layers hold (`unwrap_eq_ok_iff`), so all that is left to
    ask is whether the rumor has its own id. -/
theorem deliver_and_attest {crypto : Curve} (json : JsonCodec) (laws : Lawful crypto) :
    (∀ (draws : Nat → Draws) (sender : SecretKey) (recipients : List Nip17.Recipient) (rumor : UnsignedEvent)
      (timestamps : Timestamps) (wraps : List Event), rumor.pubkey = crypto.xOnlyPublicKey sender →
        Nip17.wrapForMany crypto json draws (Keys.fromSecretKey crypto sender) recipients rumor timestamps =
          .ok wraps →
        List.Forall₂ (Nip17.Delivered crypto json rumor) (⟨crypto.xOnlyPublicKey sender, none⟩ :: recipients)
          wraps) ∧
    ∀ (recipient : Keys) (giftWrap : Event),
      Authentic crypto json recipient giftWrap ↔ SealedWithItsId crypto json recipient giftWrap :=
  ⟨fun _ _ _ _ _ _ hauthor h => Nip17.delivered_wrapForMany json laws hauthor h, authentic_iff crypto json⟩

/-! ### Sample values

Carol (secret key 3) wraps a note to herself with the key 5. Mallory (2) seals a message with the id of that note
and wraps it to carol with the key 7. The primitives know these two runs; elsewhere a cipher puts a mark before
the text, and one signature is good for everything. -/

namespace Sample

open Nula.Sample

/-- The key of who forges a message. -/
def mallory : PublicKey :=
  ⟨hexBytes "c6047f9441ed7d6d3045406e95c07cd85c778e4b8cef3ca7abac09b95c709ee5", by decide +kernel, by decide +kernel⟩

/-- The one-time key of the genuine wrap. -/
def noteEphemeral : PublicKey :=
  ⟨hexBytes "2f8bde4d1a07209355b4a7250a5c5128e88b84bddc619ab7cba8d569b240efe4", by decide +kernel, by decide +kernel⟩

/-- The one-time key of the forged wrap. -/
def forgedEphemeral : PublicKey :=
  ⟨hexBytes "5cbdf0646e5db4eaa398f365f2ea7a0e3d419b7e0330e39ce92bddedcac4f9bc", by decide +kernel, by decide +kernel⟩

/-- The secret key of this one is 1. -/
def dave : PublicKey :=
  ⟨hexBytes "79be667ef9dcbbac55a06295ce870b07029bfcdb2dce28d959f2815b16f81798", by decide +kernel, by decide +kernel⟩

/-- The id of the note, which the forged rumor takes over. -/
def noteId : EventId := ⟨hexBytes "4f0ef2d20b1bbb6ff31dfe2e2ca9a0cb21fa718336329315969e9d448c016fb6", by decide +kernel⟩

/-- A message, with its own id. -/
def note : UnsignedEvent := ⟨noteId, carol, 1700000000, .privateDirectMessage, ⟨[.p carol]⟩, "note"⟩

/-- The message encrypted, a text of the length that the padding gives it. -/
def noteCiphertext : String :=
  "AgEBAQEBAQEBAQEBAQEBAQEBAQEBAQEBAQEBAQEBAQEBFBXyQPxdHI085nzlpYsGPusEe2Hj7e6ou4tsEiYPPZgqo3Mb9Sj/B3TqyzhG5dbE" ++
    "EGKjMgZvDfpdTsWc7SL26G2JqKGdcj6QCRM5vQieDxsnimccaxHRk+kYBS7Fo61/8dK5FsLCEwZsMMUc3XsA9V9O/fh83KJZJSvrpstOTFXo" ++
    "KqFZON8ZnsK91N4x95nmZvb+Z2MVEjddptKBZps8lxVoQ/AZdPDOPnp80qDH36mNaWxQPZmYhfhY8e4N6XoDdejhoAW6RfJX/BVGpA6tbGko" ++
    "dQYcsC5MWQ0UdB5XYtB4n95BYHQ6qrfkeViNuDmnXTSvNUXs42y0VwTmrCefalw+uOcF/Dfh7Be9ylr+wokufb8CYDmGLVQaBS9zNlrHbDVX" ++
    "+anqs9PjELYzJkzrm1A6YLvIqp6wCb8yBbXBL+OtKQoBvKAYNGdapjjWrMzGY9pIF/EEVjTRIsnEbxVIuWPT"

/-- The seal of the message. -/
def noteSeal : Event where
  id := ⟨hexBytes "802e0c322458e5581b1d4db0b216a989bf7aa686328d6fde7fda2b42561a6c95", by decide +kernel⟩
  pubkey := carol
  createdAt := 1700000000
  kind := .seal
  tags := ⟨[]⟩
  content := noteCiphertext
  sig := ⟨hexBytes ("85afc09184bd80fca428faed2e3930dfc74f709550cd61f57605d9322631cb49" ++
    "dc9621d2bbeb80a6e6664e0dab4e7920e6f4ec662fedd5b07092c2aaa844a377"), by decide +kernel⟩

/-- The seal encrypted. -/
def noteSealCiphertext : String :=
  "AgEBAQEBAQEBAQEBAQEBAQEBAQEBAQEBAQEBAQEBAQEB5g1uOAuY0txugvRNcXWBv8OseO6Y5W2fGJJ6w0fFCpgQ5a794rxhm4g1dV+gCHeZ" ++
    "xywIXqyHAtr+biqxCupOD9+J/uF+FE4D0VgsN1tKkdIGLCC7PZzK25FwbA2amTSh1hclheXBVGRlr7BX5LTRE6h5GN3OZbR/HQcMGjK1r3r2" ++
    "MwOWO8hv/1m0/X9NqgOoLLNAEqF1TjOs2/aJDiZRSB5oyFimbhAxNHLHUcWbune4ipym3+zwzOdUW0D5B7R6zMTk/8DWTqCf/vniyy16bMcq" ++
    "07RxhLmqCgkDfPV/gcQwcmFg/Jl0jM5ySPgriqF9X2yDYgGzIwQVpJ7A2w8RPgwnX2Rd04cuEIl07f4VNbC/xQcorrh9IFpPOW86ZFD8Y8X7" ++
    "XvuPyhSmFOOl7t2g293WO/DeERnzhahefqHgVAAR9AVTTSbkXi6/RtDF55Q6vmjXfalmhr32Bsq1Fe9h0fpN5Gw9XpZt6IfMOEb7sbWe4Twn" ++
    "w3f5d1DLLxhsGrvUTI1VMHQNCzhQRVtFjw0VzbX7cHhhP+WNreNKbuJW/5GXnSAH/U9ElCpqClq2v/XjGcHebF1kFK9GKGslgKg6FN9XWBoI" ++
    "STjF+jrq98ru7lAVe07SEuUflN+k4aEAVBWAl4W6EgZR1FTNa0n1I+xlNPyZYHm4ae+hNgpnUfC41TjT5iS90D/CYVTMkeWzDWjBuGpCcX6q" ++
    "EpT2WDCLC1ETd4OsX8HTweqC56IjkZKNSihGRrN6YOVt6VeSAixdnBOzn+d9og+yD7WHtqvZWwkPR+TNqS6x2N/pYa2zZCsiTp4HmHgXroFQ" ++
    "sjon66drVvd0COdUaYnD6yRPiWkPi1vxy4HG5LkxT2up3+WUIniBa8VZNevHnrfRZR5iG/4rlhjiUT1V5XpS3nwHDcbdI86GKooL1XZeIXnc" ++
    "Mgm4qvgDF9ciOroaolF4pZpDvfIiCZi4OEFMnI+d5JDGCYXoA3KpcZKgSHKbI6eaMkLbeWa/6hg0+PC0KRciypnqsySuFNc1XQdorcivsKWj" ++
    "TKG5TRzci6Pc0RIeuFBz0jbQx4C8/c0LtCAz6g5OXL2raQyZ1HeeC7BIE3+NQnkej1NJDidLPV4RXyjLkPlus+ZqbYCVt9hnOPf+n3N/4icj" ++
    "IOIelGQWjTVmIm99vBohSKMdzGXZE7NlbPl7GOz2ogDSqKXVpNxi+6qDdYx8rYSL2GUwpyJGk5EWYuRZEeVQNIGx1fzajx8k"

/-- The wrap of the message. -/
def noteWrap : Event where
  id := ⟨hexBytes "03493e9c80148dc0c8a315dfad2e8feb14179b71f62b84ed256cafd0bbfa498b", by decide +kernel⟩
  pubkey := noteEphemeral
  createdAt := 1700000000
  kind := .giftWrap
  tags := ⟨[.p carol]⟩
  content := noteSealCiphertext
  sig := ⟨hexBytes ("21314ef23da241b21df267866d3e93052f0581adc86858dc621653882d58f0e6" ++
    "25a49fa29ab046262f62e02fad5d0a68d2f9f492a57d1c304005221aa1933103"), by decide +kernel⟩

/-- Another message under the id of the first. -/
def forged : UnsignedEvent := ⟨noteId, mallory, 1700000000, .privateDirectMessage, ⟨[.p carol]⟩, "forged"⟩

/-- What the id of `forged` should be. -/
def forgedId : EventId :=
  ⟨hexBytes "e32d9de3bf025592a7609b9f4a866fd5cd1e7ef4510850f8ab7d22727fbffc22", by decide +kernel⟩

/-- The forged message encrypted. -/
def forgedCiphertext : String :=
  "AgEBAQEBAQEBAQEBAQEBAQEBAQEBAQEBAQEBAQEBAQEB35i9iRpPMCo62s4vWjXPRjjFWsfEiYIkBnrCK3pLeWz4FQbvudACZ6wLtFtBBWdj" ++
    "r7IB7imUTBxWuiZUgyeL82KieK8oW1Wy8khFWEAdc59B9kZQ1K2x7ukVRMRbEusgNDsK29kzA4r3M7ElZ63osTh+K2ggk8SHqoRk7k6FNa6m" ++
    "z0RN3Jg0pL1Jm3hObNcJby6m5bVlk7Yxh/yW0qAYRktL2ESruWp0MsPDoYuMMBoANn5DZ4pKcKl4n+K6ORfl+PS2kXOsfzdsEo7GuxEYal7W" ++
    "8ZjegNJOtyUWGPJBToqrPiar2/WbJUt9VD0rEWg9IwYc9apjfIHm0A4zsyHgpuQ32RQpZEFTatP24SNDPkAWuqYQjFIyUe3DVaduuwwkzXjc" ++
    "jwY0l3ClKe8B9LLm4F9287PQnnlMgssZna099Idu2yt5g3rhR2mA9pnagYL8mNiumGg+x5CxRCHv7TheB/lq"

/-- Its seal, which its author signs. -/
def forgedSeal : Event where
  id := ⟨hexBytes "a1085027d25486b60932e174863d71004bc1ffce73a515a10bbc04891afb90d6", by decide +kernel⟩
  pubkey := mallory
  createdAt := 1700000000
  kind := .seal
  tags := ⟨[]⟩
  content := forgedCiphertext
  sig := ⟨hexBytes ("81c83eff99f13e34bd7be303dd4bdf216c51bf1bc9872e339fce83bd74640769" ++
    "34da7ec130e6222568150f0023ff2a6538a72278d87092ee62eb9236c0eb192a"), by decide +kernel⟩

/-- The forged seal encrypted. -/
def forgedSealCiphertext : String :=
  "AgEBAQEBAQEBAQEBAQEBAQEBAQEBAQEBAQEBAQEBAQEBtbkMkYThwAuuC+2TjPZBAlCd/l8xd7yWKjouTFB445NBB4nVt7qMMtzjh2YmOehY" ++
    "Dn7qhaSPo6sATd5+IJU1hi9KkGW7OjxWbB8IHMBNgvedDp0tO6fL4t7QcJAnsZHrnhFBb0XLeQEBregVCC3818AK/ha3cj++17NwKgsIpp6Z" ++
    "hNdDGTvRM9SfBEN1A4d5NA/KEnf4/ng90YnDvKVEImsqjoxPaxN+0yeVAQIfn4iOtiQm2KMprgGXeIu9KW17Unspt17rG7Us6nxEbkw8MBuu" ++
    "i4wZtBzCo81Uc8H+kN1Gt2Nd7n7L5H4gFNLHtQkD+opEwlaEimpRLyZ2CeLmQoU0AggvPBfNyz4Y2UDO8l3IkT6NKGOwToC8cKavprALZBAW" ++
    "EPNhsxoxthSj8EqWvxbd3c3DAzfVbnzMd+kLa9f5Kx0GOPJ9N2GkzGSuu7HVZKtF25oIO0jkLFtl4Juo92bF6WA9Tap6dHdvQ+GGdJ87jC3M" ++
    "nW51VgPV8hC/94UfR8GAlqaOLUgdUG/gWLPCA3UNODBKs+RZXf9qDEdntHKpWOfamfHoOSgd6ZeGI6kozHy/vw43nguHiOn+e2rKklvwK4wu" ++
    "n4rOW+NS9NbX9S1SxUMF1jMlTiGyNBtfmDPitf1yti/2cwslItFXqciRBzjp31xsGYj9P8cw8y08n7wx+yI4SQL0T+/LKim2kI8Ea1E5aAlU" ++
    "XAiFmEqhi2GS9Bh+iM/LtKx/jR7trBgxH5orj++4QRl0tTP6DkAt8fXpxF0TZ/KC7A3RxnUov2VpFHdikYiJg/UuHSi1rsRpb0qDijec0cul" ++
    "TF73I3646NWi+ADK/alUTrndCuESl/jg4qvIMWGRs0TYq0gCXW+bo2+v9JUPoyvZAemMPdlm2XKozAGVm53qG6KkJaP6HLG447nOV0b5POhW" ++
    "Qx6eKXTyOqe+PgeRewc0lTs24fcoKyF1woqrhrl4/4nJR+c4AvaDbfMCiAb5pzuhqVWAyP0siTdLoL0Zo2i5Yn3yKmmlz+VZBXFosSOoCrOD" ++
    "MXuSdVOD4d9avyG1m0Wn70UbmLStIyTpA/1RklyRf3uYjL+P6yCH3clxmw4gZSgE14RpZ6vSGRwsgQlhCmTmehBjga8aw5LgPsiI6lDBgQQN" ++
    "dYbFbxPOrqUdF6hoQ+BUxjQKnndGoexishGYcsav490tRa8hG8wHjVeie/6SLZSxyY5lxJx6p+7coLgSV5b+01v90xZo2BND"

/-- Its wrap. -/
def forgedWrap : Event where
  id := ⟨hexBytes "d6469e0abe628ca94fe09a29b8e0e6b99f7bd9054e502448fe71eafae2e9f697", by decide +kernel⟩
  pubkey := forgedEphemeral
  createdAt := 1700000000
  kind := .giftWrap
  tags := ⟨[.p carol]⟩
  content := forgedSealCiphertext
  sig := ⟨hexBytes ("889de438b3a9f16fe4a2dd5c5563f438ba9b942b5db4e446b1f51354ebcb2177" ++
    "4d0448351f61103a3822ae5703841eb057b69a11999602dc79c99e96684e7c5e"), by decide +kernel⟩

theorem length_secret (n : UInt8) : (List.replicate 31 (0 : UInt8) ++ [n]).length = 32 := by simp

theorem lastByte_ne_zero (n : UInt8) : (if n = 0 then 1 else n) ≠ 0 := by
  split
  · decide
  · assumption

theorem scalar_secret {n : UInt8} (h : n ≠ 0) : isSecretScalar (List.replicate 31 0 ++ [n]) = true := by
  have hvalue : ofBe (List.replicate 31 0 ++ [n]) = n.toNat := by
    rw [ofBe_append_singleton, show ofBe (List.replicate 31 0) = 0 by decide, Nat.zero_mul, Nat.zero_add]
  have hpos : 0 < n.toNat := Nat.pos_of_ne_zero (fun hzero => h (UInt8.toNat_inj.mp hzero))
  have hbound : n.toNat < curveOrder := n.toNat_lt.trans (by decide)
  rw [isSecretScalar, hvalue, decide_eq_true hpos, decide_eq_true hbound]
  rfl

/-- A small secret, at least one. -/
def secret (n : UInt8) : SecretKey :=
  ⟨List.replicate 31 0 ++ [if n = 0 then 1 else n], length_secret _, scalar_secret (lastByte_ne_zero n)⟩

/-- The public keys of the four secrets in the example. -/
def publicKeyOf (s : SecretKey) : PublicKey :=
  if s = secret 3 then carol
  else if s = secret 2 then mallory
  else if s = secret 5 then noteEphemeral
  else if s = secret 7 then forgedEphemeral
  else dave

/-- What this key encrypts to carol, with a nonce of ones, and the payload. -/
def encrypted (sender : PublicKey) : Option (String × String) :=
  if sender = carol then some (note.asJson Json.codec, noteCiphertext)
  else if sender = mallory then some (forged.asJson Json.codec, forgedCiphertext)
  else if sender = noteEphemeral then some (noteSeal.asJson Json.codec, noteSealCiphertext)
  else if sender = forgedEphemeral then some (forgedSeal.asJson Json.codec, forgedSealCiphertext)
  else none

/-- The canonical form of an event. -/
def canonicalOf (e : Event) : Bytes := canonicalBytes e.pubkey e.createdAt e.kind e.tags e.content

/-- The events in the example. -/
def known : List Event := [noteSeal, noteWrap, forgedSeal, forgedWrap]

/-- The digests of the canonical forms, as SHA-256 gives them. -/
def digests : List (Bytes × EventId) :=
  known.map (fun e => (canonicalOf e, e.id)) ++
    [(canonicalBytes forged.pubkey forged.createdAt forged.kind forged.tags forged.content, forgedId)]

theorem length_goodForAll : (List.replicate 64 (0 : UInt8)).length = 64 := by simp

/-- A signature that the sample curve takes for good. -/
def goodForAll : Signature := ⟨List.replicate 64 0, length_goodForAll⟩

/-- A payload without its mark. -/
def unmark (payload : String) : String := String.ofList (payload.toList.drop 1)

/-- A curve that knows the keys, digests and ciphertexts of the example, and marks any other plaintext. -/
def curve : Curve where
  sha256 b := ((digests.find? (fun d => d.1 = b)).map (fun d => d.2.bytes)).getD (List.replicate 32 0)
  sha256_size b := by
    cases digests.find? (fun d => d.1 = b) with
    | none => simp
    | some d => exact d.2.size
  verifySchnorr sig message pubkey :=
    sig = goodForAll || known.any (fun e => e.sig = sig && e.id.bytes = message && e.pubkey = pubkey)
  signSchnorr s _ message :=
    ((known.find? (fun e => e.id.bytes = message && e.pubkey = publicKeyOf s)).map Event.sig).getD goodForAll
  nip44Seal s peer nonce text :=
    match encrypted (publicKeyOf s) with
    | some (plain, payload) =>
        if peer = carol ∧ nonce = List.replicate 32 1 ∧ text = plain then payload else "#" ++ text
    | none => "#" ++ text
  nip44Open s peer payload :=
    match encrypted peer with
    | some (plain, known) => if s = secret 3 ∧ payload = known then .ok plain else .ok (unmark payload)
    | none => .ok (unmark payload)
  nip04Seal _ _ _ text := text
  nip04Open _ _ payload := .ok payload
  xOnlyPublicKey := publicKeyOf

/-- The five keys are different ones. -/
theorem nodup_keys : [carol, mallory, noteEphemeral, forgedEphemeral, dave].Nodup := by decide

theorem ne_carol : mallory ≠ carol ∧ noteEphemeral ≠ carol ∧ forgedEphemeral ≠ carol ∧ dave ≠ carol := by
  have hcarol := (List.nodup_cons.mp nodup_keys).1
  refine ⟨?_, ?_, ?_, ?_⟩ <;> rintro h <;> exact hcarol (by simp [← h])

theorem ne_mallory : carol ≠ mallory ∧ noteEphemeral ≠ mallory ∧ forgedEphemeral ≠ mallory := by
  have hmallory := (List.nodup_cons.mp (List.nodup_cons.mp nodup_keys).2).1
  refine ⟨ne_carol.1.symm, ?_, ?_⟩ <;> rintro h <;> exact hmallory (by simp [← h])

theorem forgedEphemeral_ne_noteEphemeral : forgedEphemeral ≠ noteEphemeral := by
  have hnote := (List.nodup_cons.mp (List.nodup_cons.mp (List.nodup_cons.mp nodup_keys).2).2).1
  rintro h
  exact hnote (by simp [← h])

/-- Only one secret has the recipient's public key. -/
theorem publicKeyOf_eq_carol {s : SecretKey} (h : publicKeyOf s = carol) : s = secret 3 := by
  obtain ⟨hmallory, hnote, hforged, hdave⟩ := ne_carol
  unfold publicKeyOf at h
  split at h
  · assumption
  · split at h
    · exact absurd h hmallory
    · split at h
      · exact absurd h hnote
      · split at h
        · exact absurd h hforged
        · exact absurd h hdave

theorem unmark_mark (text : String) : unmark ("#" ++ text) = text := by
  have hmark : ("#" ++ text).toList = '#' :: text.toList := by simp
  rw [unmark, hmark, List.drop_one, List.tail_cons, String.ofList_toList]

/-- The known payloads begin with an `A`, which no marked text does. -/
theorem head?_payload : ∀ payload ∈ [noteCiphertext, forgedCiphertext, noteSealCiphertext, forgedSealCiphertext],
    (strBytes payload).head? = some 65 := by decide

/-- No payload of theirs begins with the mark. -/
theorem mark_ne {sender : PublicKey} {plain payload : String} (h : encrypted sender = some (plain, payload))
    (text : String) : "#" ++ text ≠ payload := by
  have hpayload : payload ∈ [noteCiphertext, forgedCiphertext, noteSealCiphertext, forgedSealCiphertext] := by
    unfold encrypted at h
    split_ifs at h
    all_goals
      obtain ⟨-, rfl⟩ := Prod.mk.inj (Option.some.inj h)
      simp
  have hfirst := head?_payload payload hpayload
  rintro rfl
  have hmark : strBytes "#" = [35] := by rfl
  rw [strBytes_append, hmark] at hfirst
  exact absurd hfirst (by simp)

/-- **The sample curve meets the documented laws**: what it encrypts it decrypts, and what it signs it verifies. -/
theorem curve_lawful : Lawful curve where
  verify_sign s aux message _ := by
    change (decide (curve.signSchnorr s aux message = goodForAll) || known.any (fun e =>
      e.sig = curve.signSchnorr s aux message && e.id.bytes = message && e.pubkey = publicKeyOf s)) = true
    cases hknown : known.find? (fun e => e.id.bytes = message && e.pubkey = publicKeyOf s) with
    | none =>
        have hsign : curve.signSchnorr s aux message = goodForAll := by simp [curve, hknown]
        simp [hsign]
    | some e =>
        have hsign : curve.signSchnorr s aux message = e.sig := by simp [curve, hknown]
        have hmatch := List.find?_some hknown
        rw [hsign, Bool.or_eq_true, List.any_eq_true]
        refine Or.inr ⟨e, List.mem_of_find?_eq_some hknown, ?_⟩
        simpa using hmatch
  open_seal sender recipient nonce text _ := by
    cases hencrypted : encrypted (publicKeyOf sender) with
    | none => simp [curve, hencrypted, unmark_mark]
    | some e =>
        obtain ⟨plain, payload⟩ := e
        have hmark := mark_ne hencrypted text
        by_cases hhit : publicKeyOf recipient = carol ∧ nonce = List.replicate 32 1 ∧ text = plain
        · have hseal : curve.nip44Seal sender (curve.xOnlyPublicKey recipient) nonce text = payload := by
            simp only [curve, hencrypted]
            exact if_pos hhit
          have hopen : curve.nip44Open recipient (curve.xOnlyPublicKey sender) payload = .ok plain := by
            simp only [curve, hencrypted]
            exact if_pos ⟨publicKeyOf_eq_carol hhit.1, trivial⟩
          rw [hseal, hopen, hhit.2.2]
        · simp only [curve, hencrypted, if_neg hhit, hmark, and_false, if_false, unmark_mark]

/-- Carol's keys. -/
def keys : Keys := Keys.fromSecretKey curve (secret 3)

/-- What is drawn for a wrap. -/
def draws : Draws :=
  ⟨⟨.ok 1700000000, .ok (List.replicate 32 1), []⟩,
    ⟨⟨.ok 1700000000, .ok (List.replicate 32 1), []⟩, .ok (secret 5)⟩⟩

/-- The times of rumor, seal and wrap. -/
def timestamps : Timestamps := ⟨1700000000, 1700000000, 1700000000⟩

theorem fits_note : Nip44.Fits (note.asJson Json.codec) := by
  obtain ⟨hpos, hle⟩ := note.length_writeValue_le
  have htags : (Json.writeValue (.array (note.tags.items.map Json.tagValue))).length ≤ 500 := by
    have hname : (Json.writeString "p").length = 3 := by decide
    have hkey := Json.length_writeString_encode carol.bytes
    rw [carol.size] at hkey
    simp [note, Tag.p, Json.tagValue, Json.writeValue, Json.writeElements, PublicKey.toHex, hname, hkey]
  have hcontent : note.content.toList.length ≤ 10 := by decide
  exact Nip44.fits_of_length hpos (by omega)

/-- A seal of a short text fits. -/
theorem fits_seal {e : Event} (htags : e.tags = ⟨[]⟩) (hlength : (strBytes e.content).length ≤ 2500) :
    Nip44.Fits (e.asJson Json.codec) := by
  obtain ⟨hpos, hle⟩ := e.length_writeValue_le
  have hchars := length_toList_le e.content
  have hnone : (Json.writeValue (.array (e.tags.items.map Json.tagValue))).length = 2 := by
    rw [htags]
    rfl
  exact Nip44.fits_of_length hpos (by omega)

/-- The seal's content is short enough for the wrap. -/
theorem length_noteCiphertext : (strBytes noteCiphertext).length ≤ 2500 := by decide +kernel

theorem publicKeyOf_carol : publicKeyOf (secret 3) = carol := if_pos rfl

theorem encrypted_carol : encrypted carol = some (note.asJson Json.codec, noteCiphertext) := if_pos rfl

theorem wrapForMany_note : ∃ wraps, Nip17.wrapForMany curve Json.codec (fun _ => draws) keys [⟨carol, none⟩] note
    timestamps = .ok wraps := by
  have hself : curve.nip44Seal (secret 3) carol (List.replicate 32 1) (note.asJson Json.codec) = noteCiphertext := by
    simp only [curve, publicKeyOf_carol, encrypted_carol]
    exact if_pos ⟨trivial, trivial, trivial⟩
  refine Nip17.wrapForMany_ok Json.codec (List.cons_ne_nil _ _)
    (fun _ => ⟨⟨_, rfl⟩, ⟨secret 5, rfl⟩, ⟨_, rfl⟩⟩) fits_note ?_
  intro _ recipient hrecipient sealed hsealed
  have hcarol : recipient.publicKey = carol := by
    rcases List.mem_cons.mp hrecipient with rfl | hrecipient
    · exact publicKeyOf_carol
    · rw [List.mem_singleton.mp hrecipient]
  obtain ⟨htags, hcontent⟩ := contents_createSeal Json.codec hsealed
  refine fits_seal htags ?_
  rw [hcontent (List.replicate 32 1) rfl, hcarol]
  exact (congrArg (fun s => (strBytes s).length) hself).trans_le length_noteCiphertext

/-- The digest of the forged seal, which no key but mallory's made. -/
theorem sha256_forgedSeal : curve.sha256 (canonicalOf forgedSeal) = forgedSeal.id.bytes := by
  have hother : ∀ e : Event, e.pubkey ≠ mallory → ¬(canonicalOf e = canonicalOf forgedSeal) :=
    fun e hne hsame => hne ((canonicalBytes_inj _ _ _ _ _ _ _ _ _ _).mp hsame).1
  have hfind : digests.find? (fun d => d.1 = canonicalOf forgedSeal) =
      some (canonicalOf forgedSeal, forgedSeal.id) := by
    rw [digests, known, List.map_cons, List.map_cons, List.map_cons, List.cons_append, List.cons_append,
      List.cons_append, List.find?_cons_of_neg (by simpa using hother noteSeal ne_mallory.1),
      List.find?_cons_of_neg (by simpa using hother noteWrap ne_mallory.2.1), List.find?_cons_of_pos (by simp)]
  unfold curve
  dsimp only
  rw [hfind, Option.map_some, Option.getD_some]

/-- **The forged message unwraps**, though its id is not its own. -/
theorem unwrap_forged : unwrap curve Json.codec keys forgedWrap = .ok forged := by
  have hverify : forgedSeal.verify curve.toCrypto = .ok () := by
    have hsigned : curve.verifySchnorr forgedSeal.sig forgedSeal.id.bytes forgedSeal.pubkey = true := by
      simp only [curve, Bool.or_eq_true, List.any_eq_true]
      exact Or.inr ⟨forgedSeal, by simp [known], by simp⟩
    refine Event.verify_ok_iff.mpr ⟨?_, hsigned⟩
    exact EventId.mk.injEq .. ▸ sha256_forgedSeal
  have houter : encrypted forgedEphemeral = some (forgedSeal.asJson Json.codec, forgedSealCiphertext) := by
    rw [encrypted, if_neg ne_carol.2.2.1, if_neg ne_mallory.2.2, if_neg forgedEphemeral_ne_noteEphemeral, if_pos rfl]
  have hinner : encrypted mallory = some (forged.asJson Json.codec, forgedCiphertext) := by
    rw [encrypted, if_neg ne_carol.1, if_pos rfl]
  have houterOpen : curve.nip44Open (secret 3) forgedEphemeral forgedSealCiphertext =
      .ok (forgedSeal.asJson Json.codec) := by
    simp only [curve, houter]
    exact if_pos ⟨trivial, trivial⟩
  have hinnerOpen : curve.nip44Open (secret 3) mallory forgedCiphertext = .ok (forged.asJson Json.codec) := by
    simp only [curve, hinner]
    exact if_pos ⟨trivial, trivial⟩
  have hsealed : Nip44.decrypt curve.toKeyCrypto keys.secretKey forgedWrap.pubkey forgedWrap.content =
      .ok (forgedSeal.asJson Json.codec) := mapError_ok_iff.mpr houterOpen
  have hrumor : Nip44.decrypt curve.toKeyCrypto keys.secretKey forgedSeal.pubkey forgedSeal.content =
      .ok (forged.asJson Json.codec) := mapError_ok_iff.mpr hinnerOpen
  exact (unwrap_eq_ok_iff curve Json.codec).mpr ⟨rfl, forgedSeal, ⟨_, hsealed, Event.fromJson_asJson _ forgedSeal⟩,
    ⟨rfl, hverify, ⟨_, hrumor, UnsignedEvent.fromJson_asJson _ forged⟩, rfl⟩⟩

end Sample

/-- The message is wrapped for its recipient and delivered. -/
theorem deliver_and_attest_note : ∃ wraps, Nip17.wrapForMany Sample.curve Json.codec (fun _ => Sample.draws)
    Sample.keys [⟨Sample.carol, none⟩] Sample.note Sample.timestamps = .ok wraps ∧
      List.Forall₂ (Nip17.Delivered Sample.curve Json.codec Sample.note)
        [⟨Sample.curve.xOnlyPublicKey (Sample.secret 3), none⟩, ⟨Sample.carol, none⟩] wraps := by
  obtain ⟨wraps, hwraps⟩ := Sample.wrapForMany_note
  exact ⟨wraps, hwraps, (deliver_and_attest Json.codec Sample.curve_lawful).1 (fun _ => Sample.draws)
    (Sample.secret 3) _ Sample.note Sample.timestamps wraps Sample.publicKeyOf_carol.symm hwraps⟩

/-- Mallory's message comes out with the id of carol's note. -/
theorem borrowed_id : ¬Authentic Sample.curve Json.codec Sample.keys Sample.forgedWrap := by
  intro h
  have hid := (h Sample.forged Sample.unwrap_forged).2
  have hcompute : Sample.forged.computeId Sample.curve.toCrypto = Sample.forgedId := by decide +kernel
  rw [hcompute] at hid
  revert hid
  decide +kernel

end Nip59

end Nula
