import Nula.Core.Nip44
import Nula.Core.Nip51

/-!
# `Core.PrivateList` — the private items of a list

The other half of `nips/nip51.rs`: private items are written as JSON, encrypted to their author, and carried in the
content of the event. Whoever opens them takes the payload out of the list first, and does not put it back.

## Contents
- **Items as text.** `deserializeItems_serializeItems`.
- **Private items.** `encryptPrivate` and `decryptPrivate`.
- **What a payload holds.** `Holds`; `decryptPrivate_of_holds` and `decryptPrivate_of_not_holds`.
- **All or nothing.** `encryptPrivate_holds`, and from it `private_items_iff`.
-/

namespace Nula

namespace Nip51

/-! ## Items as text -/

/-- `TagError`, of the constructor. -/
inductive TagError where
  | empty
  deriving DecidableEq

/-- `Tag::new`. -/
def newTag (values : List String) : Except TagError Tag :=
  if h : values ≠ [] then .ok ⟨values, h⟩ else .error .empty

/-- `serde_json::Error`: of the reader, or made by `CustomError::custom`. -/
inductive JsonError where
  | reader
  | tag (e : TagError)
  | item (e : ListItemError)
  deriving DecidableEq

section Text

variable (json : JsonCodec) (urls : UrlCrate)

/-- `serialize_items`. -/
def serializeItems (items : List ListItem) : String :=
  json.write (.array ((items.map ListItem.toTag).map Json.tagValue))

/-- `serde_json::from_str`, of lists of strings. -/
def readRows (text : String) : Option (List (List String)) :=
  (json.read text).bind (fun c => c.list (fun row => row.list JsonContent.text))

/-- One list of strings of `deserialize_items`. -/
def readItem (values : List String) : Except JsonError ListItem := do
  let tag ← (newTag values).mapError .tag
  (ListItem.fromTag urls tag).mapError .item

/-- `deserialize_items`. -/
def deserializeItems (text : String) : Except JsonError (List ListItem) :=
  match readRows json text with
  | none => .error .reader
  | some rows => rows.mapM (readItem urls)

variable {urls}

/-- The items of a list come back as the rows of their tags. -/
theorem readRows_serializeItems (items : List ListItem) :
    readRows json (serializeItems json items) = some (items.map (fun item => item.toTag.values)) := by
  have hdepth : (JsonValue.array ((items.map ListItem.toTag).map Json.tagValue)).depth ≤ Json.maxDepth :=
    (Json.depth_tags ⟨items.map ListItem.toTag⟩).trans (by decide)
  have hrow : ∀ values : List String, (JsonValue.array (values.map .string)).content.list JsonContent.text =
      some values := JsonContent.list_content JsonContent.text_content
  have hrows := JsonContent.list_content hrow (items.map (fun item => item.toTag.values))
  rw [readRows, serializeItems, json.read_write _ hdepth, Option.bind_some, ← hrows, List.map_map, List.map_map]
  rfl

/-- Items are read back from their text. -/
theorem deserializeItems_serializeItems (laws : RelayUrl.Lawful urls) (hempty : ∀ url, urls.parse "" ≠ .ok url)
    {items : List ListItem} (h : ∀ item ∈ items, item.Proper urls) :
    deserializeItems json urls (serializeItems json items) = .ok items := by
  have hitem : ∀ item ∈ items, readItem urls item.toTag.values = .ok item := by
    intro item hmem
    have htag : newTag item.toTag.values = .ok item.toTag := dif_pos item.toTag.nonempty
    rw [readItem, htag]
    exact mapError_ok_iff.mpr (fromTag_toTag laws hempty (h item hmem))
  rw [deserializeItems, readRows_serializeItems]
  refine mapM_ok_iff.mpr (List.forall₂_map_left_iff.mpr ?_)
  exact List.forall₂_same.mpr hitem

end Text

/-! ## Private items -/

inductive ListEncryptionError where
  | noPayload
  | encrypt (e : Nip44.V2.Nip44Error)
  | decrypt (e : Nip44.V2.Nip44Error)
  | invalidJson (e : JsonError)
  | nip04Unavailable
  | nip04 (e : Nip04.Nip04Error)
  deriving DecidableEq

/-- The mark of a payload of NIP-04. -/
def Legacy (payload : String) : Prop := "?iv=".toList <:+: payload.toList

instance (payload : String) : Decidable (Legacy payload) := inferInstanceAs (Decidable (_ <:+: _))

/-- What a list is opened with: the primitives of NIP-44, the feature `nip04`, JSON and urls. -/
structure Crates where
  prims : Nip44.V2.Primitives
  nip04 : Option KeyCrypto
  json : JsonCodec
  urls : UrlCrate

namespace Nip51List

variable (crates : Crates) (secret : SecretKey) (owner : PublicKey)

/-- `List::encrypt_private`. -/
def encryptPrivate (entropy : Except String (Octets 32)) (list : Nip51List) :
    Fallible ListEncryptionError (Option String) :=
  if list.privateItems = [] then return none
  else
    (Nip44.V2.encrypt crates.prims entropy secret owner (serializeItems crates.json list.privateItems)).adapt .encrypt
      >>= fun payload => return some payload

/-- `decrypt_nip04`. -/
def decryptNip04 (payload : String) : Except ListEncryptionError String :=
  match crates.nip04 with
  | some crypto => (Nip04.decrypt crypto secret owner payload).mapError .nip04
  | none => .error .nip04Unavailable

/-- The text of a payload, by the cipher it is marked with. -/
def openPayload (payload : String) : Fallible ListEncryptionError String :=
  if Legacy payload then ExceptT.mk (.ok (decryptNip04 crates secret owner payload))
  else (Nip44.V2.decrypt crates.prims secret owner payload).adapt .decrypt

/-- `List::decrypt_private`: the payload is taken before it is looked at. -/
def decryptPrivate (list : Nip51List) : Checked (Except ListEncryptionError Unit × Nip51List) :=
  let taken := { list with encryptedPayload := none }
  match list.encryptedPayload with
  | none => .ok (.error .noPayload, taken)
  | some payload => (openPayload crates secret owner payload).run.map (fun
      | .error e => (.error e, taken)
      | .ok text =>
          match deserializeItems crates.json crates.urls text with
          | .error e => (.error (.invalidJson e), taken)
          | .ok items => (.ok (), { taken with privateItems := items }))

end Nip51List

/-- `EventBuilder::list_with_private_items`. -/
def listWithPrivateItems (crates : Crates) (secret : SecretKey) (owner : PublicKey)
    (entropy : Except String (Octets 32)) (list : Nip51List) : Fallible ListEncryptionError EventBuilder := do
  let payload ← list.encryptPrivate crates secret owner entropy
  return list.toPublicTags.foldl (fun builder tag => builder.tag tag) (.new list.kind (payload.getD ""))

/-! ## What a payload holds -/

section Holds

variable (crates : Crates) (secret : SecretKey) (owner : PublicKey)

/-- A payload deciphers to a text: by NIP-04 if it is marked so, which takes the feature, and else by NIP-44. -/
def Deciphers (payload text : String) : Prop :=
  if Legacy payload then ∃ crypto ∈ crates.nip04, Nip04.decrypt crypto secret owner payload = .ok text
  else (Nip44.V2.decrypt crates.prims secret owner payload).run = .ok (.ok text)

/-- A payload holds items: its text is a JSON list of lists of strings, each the values of the tag of an item. -/
def Holds (payload : String) (items : List ListItem) : Prop :=
  ∃ text rows, Deciphers crates secret owner payload text ∧ readRows crates.json text = some rows ∧
    List.Forall₂ (fun values item => ∃ h : values ≠ [], ListItem.fromTag crates.urls ⟨values, h⟩ = .ok item) rows items

/-- A payload is looked at without a panic, and yields the text it deciphers to. -/
theorem openPayload_run (payload : String) : ∃ r, (Nip51List.openPayload crates secret owner payload).run = .ok r ∧
    ∀ text, r = .ok text ↔ Deciphers crates secret owner payload text := by
  unfold Nip51List.openPayload Deciphers
  by_cases hlegacy : Legacy payload
  · rw [if_pos hlegacy]
    refine ⟨_, rfl, ?_⟩
    intro text
    rw [if_pos hlegacy, Nip51List.decryptNip04]
    cases crates.nip04 with
    | none => simp
    | some crypto => simp [mapError_ok_iff]
  · rw [if_neg hlegacy]
    obtain ⟨r, hrun, -⟩ := Nip44.V2.decrypt_safe crates.prims (crates.prims.derive secret owner) payload
    refine ⟨r.mapError .decrypt, Fallible.run_adapt hrun, ?_⟩
    intro text
    have hdecrypt : (Nip44.V2.decrypt crates.prims secret owner payload).run = .ok r := hrun
    rw [if_neg hlegacy, mapError_ok_iff, hdecrypt, Except.ok.injEq]

variable {crates secret owner}

/-- A row is read as an item exactly if it is not empty and its tag is one. -/
theorem readItem_eq_ok {urls : UrlCrate} {values : List String} {item : ListItem} :
    readItem urls values = .ok item ↔ ∃ h : values ≠ [], ListItem.fromTag urls ⟨values, h⟩ = .ok item := by
  rw [readItem, newTag]
  by_cases hvalues : values ≠ []
  · rw [dif_pos hvalues, exists_prop_of_true hvalues]
    exact mapError_ok_iff
  · rw [dif_neg hvalues]
    constructor
    · intro h
      cases h
    · rintro ⟨h, -⟩
      exact absurd h hvalues

/-- **A plaintext is read exactly if each of its rows is**, in their order. -/
theorem deserializeItems_eq_ok {json : JsonCodec} {urls : UrlCrate} {text : String} {items : List ListItem} :
    deserializeItems json urls text = .ok items ↔ ∃ rows, readRows json text = some rows ∧
      List.Forall₂ (fun values item => ∃ h : values ≠ [], ListItem.fromTag urls ⟨values, h⟩ = .ok item) rows items := by
  rw [deserializeItems]
  cases hrows : readRows json text with
  | none => simp
  | some rows =>
      simp only [Option.some.injEq, exists_eq_left', mapM_ok_iff, readItem_eq_ok]

/-- An attempt on a payload that holds items puts them in its place. -/
theorem decryptPrivate_of_holds {list : Nip51List} {payload : String} {items : List ListItem}
    (hpayload : list.encryptedPayload = some payload) (hholds : Holds crates secret owner payload items) :
    list.decryptPrivate crates secret owner =
      .ok (.ok (), { list with encryptedPayload := none, privateItems := items }) := by
  obtain ⟨text, rows, hdeciphers, hrows, hall⟩ := hholds
  obtain ⟨r, hrun, htext⟩ := openPayload_run crates secret owner payload
  obtain rfl := (htext text).mpr hdeciphers
  have hitems := deserializeItems_eq_ok.mpr ⟨rows, hrows, hall⟩
  unfold Nip51List.decryptPrivate
  rw [hpayload]
  dsimp only
  rw [hrun]
  show Except.ok _ = _
  dsimp only
  rw [hitems]

/-- An attempt on any other payload fails, and the payload is gone. -/
theorem decryptPrivate_of_not_holds {list : Nip51List} {payload : String}
    (hpayload : list.encryptedPayload = some payload) (hnone : ¬∃ items, Holds crates secret owner payload items) :
    ∃ e, list.decryptPrivate crates secret owner = .ok (.error e, { list with encryptedPayload := none }) := by
  obtain ⟨r, hrun, htext⟩ := openPayload_run crates secret owner payload
  unfold Nip51List.decryptPrivate
  rw [hpayload]
  dsimp only
  rw [hrun]
  cases r with
  | error e => exact ⟨e, rfl⟩
  | ok text =>
      cases hitems : deserializeItems crates.json crates.urls text with
      | error e =>
          refine ⟨.invalidJson e, ?_⟩
          show Except.ok _ = _
          dsimp only
          rw [hitems]
      | ok items =>
          obtain ⟨rows, hrows, hall⟩ := deserializeItems_eq_ok.mp hitems
          exact absurd ⟨items, text, rows, (htext text).mp rfl, hrows, hall⟩ hnone

end Holds

/-! ## All or nothing -/

/-- An attempt that fails leaves the list as it was. -/
def KeepsOnError (crates : Crates) (secret : SecretKey) (owner : PublicKey) (list : Nip51List) : Prop :=
  ∀ e list', list.decryptPrivate crates secret owner = .ok (.error e, list') → list' = list

section AllOrNothing

variable {crates : Crates} {secret : SecretKey} {owner : PublicKey} {list : Nip51List}

theorem decryptPrivate_returns : ∃ result, list.decryptPrivate crates secret owner = .ok result := by
  cases hpayload : list.encryptedPayload with
  | none =>
      rw [Nip51List.decryptPrivate, hpayload]
      exact ⟨_, rfl⟩
  | some payload =>
      by_cases hholds : ∃ items, Holds crates secret owner payload items
      · obtain ⟨items, hholds⟩ := hholds
        exact ⟨_, decryptPrivate_of_holds hpayload hholds⟩
      · obtain ⟨e, hrun⟩ := decryptPrivate_of_not_holds hpayload hholds
        exact ⟨_, hrun⟩

/-- A list is kept exactly if its payload, if it has one, opens. -/
theorem keeps_iff_opens : KeepsOnError crates secret owner list ↔
    ∀ payload ∈ list.encryptedPayload, ∃ items, Holds crates secret owner payload items := by
  constructor
  · intro hkeeps payload hpayload
    by_contra hnone
    obtain ⟨e, hrun⟩ := decryptPrivate_of_not_holds hpayload hnone
    have hsame := congrArg Nip51List.encryptedPayload (hkeeps e _ hrun)
    rw [hpayload] at hsame
    cases hsame
  · intro hopens e list' hrun
    cases hpayload : list.encryptedPayload with
    | none =>
        -- there was nothing to take
        rw [Nip51List.decryptPrivate, hpayload] at hrun
        cases hrun
        rw [← hpayload]
    | some payload =>
        obtain ⟨items, hholds⟩ := hopens payload hpayload
        rw [decryptPrivate_of_holds hpayload hholds] at hrun
        cases hrun

/-- What is encrypted has no mark of NIP-04: the mark is not in the alphabet of base64. -/
theorem not_legacy_base64 (engine : Base64Engine) (bytes : Bytes) : ¬Legacy (engine.encode bytes) := by
  intro h
  have hmark : '?' ∈ (engine.encode bytes).toList := h.subset (by decide)
  have halphabet := engine.alphabet_encode bytes '?' hmark
  revert halphabet
  decide

/-- What NIP-44 encrypts is not empty, is not marked as NIP-04, and is decrypted to its text. -/
theorem encrypt_eq_ok {prims : Nip44.V2.Primitives} {entropy : Except String (Octets 32)} {text payload : String}
    (h : (Nip44.V2.encrypt prims entropy secret owner text).run = .ok (.ok payload)) :
    payload ≠ "" ∧ ¬Legacy payload ∧ (Nip44.V2.decrypt prims secret owner payload).run = .ok (.ok text) := by
  have hfits : Nip44.minPlaintextBytes ≤ (strBytes text).length ∧
      (strBytes text).length ≤ Nip44.maxPlaintextBytes := by
    by_contra hlength
    obtain ⟨e, he⟩ := Nip44.V2.encrypt_error prims entropy secret owner hlength
    rw [h] at he
    cases he
  cases entropy with
  | error text => cases h
  | ok nonce =>
      obtain ⟨hmin, hmax⟩ := hfits
      have hseal : (Nip44.V2.encryptInner prims (prims.derive secret owner) text nonce).run = .ok (.ok payload) := h
      obtain ⟨sealed, hsealed, hlong, -, hopen⟩ :=
        Nip44.V2.decrypt_encryptInner prims (prims.derive secret owner) nonce hmin hmax
      obtain ⟨n, hn, -⟩ := Nip44.V2.paddedLength_plaintext hmax
      have hbase64 := Nip44.V2.encryptInner_ok prims (prims.derive secret owner) nonce hmin hmax hn
      rw [hseal] at hsealed
      cases hsealed
      refine ⟨?_, ?_, hopen⟩
      · rintro rfl
        revert hlong
        decide
      · dsimp only at hbase64
        rw [hseal] at hbase64
        cases hbase64
        exact not_legacy_base64 _ _

/-- What a list writes holds its private items. -/
theorem encryptPrivate_holds (laws : RelayUrl.Lawful crates.urls) (hempty : ∀ url, crates.urls.parse "" ≠ .ok url)
    {entropy : Except String (Octets 32)} {written : Option String} (hprivate : list.privateItems ≠ [])
    (hproper : ∀ item ∈ list.privateItems, item.Proper crates.urls)
    (h : (list.encryptPrivate crates secret owner entropy).run = .ok (.ok written)) :
    ∃ payload, written = some payload ∧ payload ≠ "" ∧ Holds crates secret owner payload list.privateItems := by
  rw [Nip51List.encryptPrivate, if_neg hprivate] at h
  obtain ⟨payload, hpayload, hwritten⟩ := Fallible.bind_eq_ok h
  cases hwritten
  obtain ⟨hne, hmark, hopen⟩ := encrypt_eq_ok (Fallible.adapt_eq_ok hpayload)
  have hitems := deserializeItems_serializeItems crates.json laws hempty hproper
  obtain ⟨rows, hrows, hall⟩ := deserializeItems_eq_ok.mp hitems
  refine ⟨payload, rfl, hne, _, rows, ?_, hrows, hall⟩
  rw [Deciphers, if_neg hmark]
  exact hopen

theorem content_foldl_tag (tags : List Tag) (builder : EventBuilder) :
    (tags.foldl (fun builder tag => builder.tag tag) builder).content = builder.content := by
  induction tags generalizing builder with
  | nil => rfl
  | cons tag tags ih => exact ih (builder.tag tag)

/-- A list that is read from an event has its content for the payload. -/
theorem fromEvent_payload {urls : UrlCrate} {event : Event} (h : Nip51List.fromEvent urls event = .ok list)
    (hcontent : event.content ≠ "") : list.encryptedPayload = some event.content := by
  obtain ⟨read, -, rfl⟩ := map_ok_iff.mp h
  rw [if_pos hcontent]

/-- **All or nothing.** An attempt returns, and leaves the list as it was when it fails, exactly if there is no payload
    or it holds items; and a list that was read from an event with private items yields them to the same keys.

    The payload is taken out before it is decrypted, so a failure keeps the list exactly if there was none
    (`keeps_iff_opens`); what encryption makes holds the items (`encryptPrivate_holds`), and what holds items opens
    to them (`decryptPrivate_of_holds`). -/
theorem private_items_iff (laws : RelayUrl.Lawful crates.urls) (hempty : ∀ url, crates.urls.parse "" ≠ .ok url)
    (secret : SecretKey) (owner : PublicKey) (list : Nip51List) :
    (∃ result, list.decryptPrivate crates secret owner = .ok result) ∧
    (KeepsOnError crates secret owner list ↔
      ∀ payload ∈ list.encryptedPayload, ∃ items, Holds crates secret owner payload items) ∧
    ∀ (entropy : Except String (Octets 32)) (original : Nip51List) (builder : EventBuilder)
      (createdAt : Option Timestamp) (crypto : KeyCrypto) (clock : Clock) (aux : Bytes) (keys : Keys) (event : Event),
      original.privateItems ≠ [] → (∀ item ∈ original.privateItems, item.Proper crates.urls) →
      (listWithPrivateItems crates secret owner entropy original).run = .ok (.ok builder) →
      { builder with createdAt := createdAt }.signWithKeys crypto clock aux keys = .ok event →
      Nip51List.fromEvent crates.urls event = .ok list →
      list.decryptPrivate crates secret owner =
        .ok (.ok (), { list with encryptedPayload := none, privateItems := original.privateItems }) := by
  refine ⟨decryptPrivate_returns, keeps_iff_opens, ?_⟩
  intro entropy original builder createdAt crypto clock aux keys event hprivate hproper hbuild hsign hread
  obtain ⟨written, hencrypt, hbuilder⟩ := Fallible.bind_eq_ok hbuild
  obtain ⟨payload, rfl, hne, hholds⟩ := encryptPrivate_holds laws hempty hprivate hproper hencrypt
  cases hbuilder
  obtain ⟨-, -, -, hcontent, -⟩ := EventBuilder.signWithKeys_eq_ok hsign
  have hevent : event.content = payload := hcontent.trans (content_foldl_tag original.toPublicTags _)
  have hpayload := fromEvent_payload hread (hevent ▸ hne)
  rw [hevent] at hpayload
  exact decryptPrivate_of_holds hpayload hholds

end AllOrNothing

end Nip51

/-! The interests of carol, who has the secret key 3: one private topic, sealed with the nonce 1 for herself. A
stranger, who has the secret key 1, tries to open it. -/

namespace Sample

open Nip51 Nip44.V2

/-- The owner's conversation key with themselves. -/
def ownKey : Octets 32 :=
  ⟨hexBytes "fc5e31fe0006369674bb81fb7aab0a54241d5ac42f631399d51a8ed0f888c300", by decide +kernel⟩

/-- The keys of the message. -/
def ownExpanded : Octets 76 :=
  ⟨hexBytes ("0fd45f5eb58fc342113195d92d8a7d3dc07643fb771fe63d34788af29bb2b01e43232c9b829952d8efd0a3b9" ++
    "0e1040b19f91109ff07fc8bea4de017cd3dbd32d09dd49b92458e76a85ed6574"), by decide +kernel⟩

/-- The key stream. -/
def ownKeystream : Bytes := hexBytes "29bb134122c19384a48853c8748adb28c520e742e6ae00f9609ee01d8bc39c2a7f66"

/-- The code of the message. -/
def ownMac : Octets 32 :=
  ⟨hexBytes "d8ff7764a590fdc2e07f49765e1440f11f0de1012e05957c4b6573e29975c953", by decide +kernel⟩

/-- The payload of the interests. -/
def ownPayload : String :=
  "AgAAAAAAAAAAAAAAAAAAAAAAAAAAAAAAAAAAAAAAAAABKbZIGgC1saiG/DapVteGKMUg50LmrgD5YJ7gHYvDnCp/Ztj/d2SlkP3C4H9J" ++
    "dl4UQPEfDeEBLgWVfEtlc+KZdclT"

/-- Somebody else's secret key. -/
def strangerSecret : SecretKey := ⟨List.replicate 31 0 ++ [1], Nip44.V2.Sample.length_nonce, by decide⟩

/-- Their public key, which is the generator. -/
def strangerBytes : Bytes := hexBytes "79be667ef9dcbbac55a06295ce870b07029bfcdb2dce28d959f2815b16f81798"

theorem strangerBytes_valid : strangerBytes.length = 32 ∧ isXOnlyPoint strangerBytes = true := by decide +kernel

/-- Somebody else. -/
def stranger : PublicKey := ⟨strangerBytes, strangerBytes_valid.1, strangerBytes_valid.2⟩

/-- Their conversation key with the owner. -/
def strangerKey : Octets 32 :=
  ⟨hexBytes "3b4610cb7189beb9cc29eb3716ecc6102f1247e8f3101a03a1787d8908aeb54e", by decide +kernel⟩

/-- The keys of the message, as they are drawn from it. -/
def strangerExpanded : Octets 76 :=
  ⟨hexBytes ("8122298571e2e750b96e9a3d29872675314b7c9c70e981767609b2edc2e2125d675718c71b8adc2f1e17cad3" ++
    "c1314fb11e7d2a4d8253d8c31d6e3bdc31540df2c1ab0010cdbf02f3be1c775a"), by decide +kernel⟩

/-- The code that they find, which is another. -/
def strangerMac : Octets 32 :=
  ⟨hexBytes "04b985f923080fb3172a58f98e472086c83f2d596410dfc7d2948e033100d155", by decide +kernel⟩

/-- Primitives that know the values of the two pairs of keys. -/
def listPrims : Primitives where
  derive secret _ := if secret = strangerSecret then strangerKey else ownKey
  expand k _ := if k = strangerKey then strangerExpanded else ownExpanded
  keystream k n i :=
    if k = ownExpanded.1.take 32 ∧ n = (ownExpanded.1.drop 32).take 12 then ownKeystream.getD i 0 else 0
  hmac k _ := if k = strangerExpanded.1.drop 44 then strangerMac else ownMac
  base64 := Base64.standard

/-- The primitives of the example. -/
def listCrates : Crates := ⟨listPrims, none, Json.codec, hintUrls⟩

/-- A list with a private hashtag. -/
def interests : Nip51List := { Nip51List.new ⟨10015⟩ with privateItems := [.hashtag "tea"] }

/-- The interests as they are read from their event. -/
def sealedInterests : Nip51List := { Nip51List.new ⟨10015⟩ with encryptedPayload := some ownPayload }

end Sample

open Sample Nip51 in
theorem Nip51.private_items_interests : sealedInterests.decryptPrivate listCrates carolKeys.secretKey carol =
    .ok (.ok (), { sealedInterests with encryptedPayload := none, privateItems := interests.privateItems }) := by
  have hseal : (interests.encryptPrivate listCrates carolKeys.secretKey carol (.ok Nip44.V2.Sample.nonce)).run =
      .ok (.ok (some ownPayload)) := by decide +kernel
  have hbuild : (listWithPrivateItems listCrates carolKeys.secretKey carol (.ok Nip44.V2.Sample.nonce) interests).run =
      .ok (.ok (.new ⟨10015⟩ ownPayload)) := by
    rw [listWithPrivateItems, Fallible.bind_ok hseal]
    rfl
  obtain ⟨event, hsigned, -, hkind, htags, hcontent⟩ :=
    EventBuilder.signWithKeys_ok retractionCrypto 0 [] carolKeys (EventBuilder.new ⟨10015⟩ ownPayload)
  have hread : Nip51List.fromEvent hintUrls event = .ok sealedInterests := by
    rw [Nip51List.fromEvent, hkind, htags, hcontent]
    decide +kernel
  refine (private_items_iff hintUrls_lawful (fun url h => by cases h) carolKeys.secretKey carol sealedInterests).2.2
    (.ok Nip44.V2.Sample.nonce) interests _ none retractionCrypto (.ok 0) [] carolKeys event ?_ ?_ hbuild hsigned hread
  · decide
  · intro item hitem
    obtain rfl := List.mem_singleton.mp hitem
    trivial

open Sample Nip51 in
/-- After an attempt with the wrong key the right one has nothing to open. -/
theorem Nip51.wrong_key_loses_payload : ∃ taken,
    sealedInterests.decryptPrivate listCrates strangerSecret stranger = .ok (.error (.decrypt .invalidMac), taken) ∧
      taken ≠ sealedInterests ∧
      taken.decryptPrivate listCrates carolKeys.secretKey carol = .ok (.error .noPayload, taken) :=
  ⟨Nip51List.new ⟨10015⟩, by decide +kernel, by decide +kernel, by decide +kernel⟩

end Nula
