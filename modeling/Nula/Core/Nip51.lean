import Nula.Core.Nip10
import Nula.Lib.Batch
import Nula.Lib.Yields

/-!
# `Core.Nip51` — lists and what a rewrite keeps of them

Lists and sets (`nips/nip51.rs`): their metadata, and their items, which are tags of nine known heads or any other tag.
A tag is read into a fixed number of columns. What it has beyond them is gone when the list is written again.

## Contents
- **Items.** `ListItem`, `toTag` and `fromTag`; `fromTag_toTag`, an item is read back from its tag.
- **Lists.** `toPublicTags` and `fromTagsAndContent`.
- **Rewriting.** `kept_iff`, when a tag keeps its values, and from it `rewrite_keeps_iff`.
-/

namespace Nula

namespace Nip51

/-! ## Items -/

/-- `ListItem`. -/
inductive ListItem where
  | pubkey (pubkey : PublicKey) (relayHint : Option RelayUrl) (petname : Option String)
  | event (id : EventId) (relayHint : Option RelayUrl)
  | address (coordinate : Coordinate) (relayHint : Option RelayUrl)
  | hashtag (text : String)
  | word (text : String)
  | relay (url : RelayUrl)
  /-- A blob server; the url is not looked at. -/
  | server (url : String)
  | emoji (shortcode : String) (url : String)
  | group (id : String) (relay : RelayUrl) (name : Option String)
  | other (tag : Tag)
  deriving DecidableEq

/-- `ListItemError`. -/
inductive ListItemError where
  | missingValue (head : String)
  | invalidPublicKey (e : PublicKeyError)
  | invalidEventId (e : EventIdError)
  | invalidCoordinate (e : CoordinateError)
  | invalidRelayUrl (e : RelayUrlError)
  deriving DecidableEq

/-- `letter_tag`. -/
def letterTag (alphabet : Alphabet) (args : List String) : Tag := .withArgs (.singleLetter (.lowercase alphabet)) args

/-- `custom_tag`. -/
def customTag (name : String) (args : List String) : Tag := .withArgs (.custom name) args

theorem kind_customTag {name : String} (h : TagKind.fromWire name = .custom name) (args : List String) :
    (customTag name args).kind = .custom name := h

/-- `relay_hint_value`. -/
def relayHintValue (hint : Option RelayUrl) : String := (hint.map RelayUrl.asStr).getD ""

/-- The arguments of an `e` or `a` tag: what it points to, and the relay hint, if there is one. -/
def pointerArgs (target : String) (hint : Option RelayUrl) : List String :=
  target :: (hint.map RelayUrl.asStr).toList

/-- `ListItem::to_tag`. -/
def ListItem.toTag : ListItem → Tag
  | .pubkey pk relayHint petname => letterTag .P (pk.toHex :: relayHintValue relayHint :: petname.toList)
  | .event id relayHint => letterTag .E (pointerArgs id.toHex relayHint)
  | .address coordinate relayHint => letterTag .A (pointerArgs coordinate.toWire relayHint)
  | .hashtag text => letterTag .T [text]
  | .word text => customTag "word" [text]
  | .relay url => customTag "relay" [url.asStr]
  | .server url => customTag "server" [url]
  | .emoji shortcode url => customTag "emoji" [shortcode, url]
  | .group id url name => customTag "group" (id :: url.asStr :: name.toList)
  | .other tag => tag

/-- A column that must be there. -/
def column (tag : Tag) (i : Nat) (head : String) : Except ListItemError String :=
  match tag.values[i]? with
  | some value => .ok value
  | none => .error (.missingValue head)

section Parse

variable (urls : UrlCrate)

/-- `parse_pubkey`. -/
def parsePubkey (tag : Tag) : Except ListItemError ListItem := do
  let pkHex ← column tag 1 "p"
  let pubkey ← (PublicKey.parse pkHex).mapError .invalidPublicKey
  let relayHint ← (RelayUrl.hint urls tag.values[2]?).mapError .invalidRelayUrl
  .ok (.pubkey pubkey relayHint tag.values[3]?)

/-- `parse_event` and `parse_address`, for a target, the head of its tag and the items that point to it. -/
def parsePointer {α : Type} (head : String) (parse : String → Except ListItemError α)
    (item : α → Option RelayUrl → ListItem) (tag : Tag) : Except ListItemError ListItem := do
  let text ← column tag 1 head
  let target ← parse text
  let relayHint ← (RelayUrl.hint urls tag.values[2]?).mapError .invalidRelayUrl
  .ok (item target relayHint)

/-- `parse_event`. -/
def parseEvent : Tag → Except ListItemError ListItem :=
  parsePointer urls "e" (fun text => (EventId.parse text).mapError .invalidEventId) .event

/-- `parse_address`. -/
def parseAddress : Tag → Except ListItemError ListItem :=
  parsePointer urls "a" (fun text => (Coordinate.parse text).mapError .invalidCoordinate) .address

/-- `parse_hashtag`, `parse_word` and `parse_server`, for the head and the items with a text. -/
def parseText (head : String) (item : String → ListItem) (tag : Tag) : Except ListItemError ListItem :=
  (column tag 1 head).map item

/-- `parse_hashtag`. -/
def parseHashtag : Tag → Except ListItemError ListItem := parseText "t" .hashtag

/-- `parse_word`. -/
def parseWord : Tag → Except ListItemError ListItem := parseText "word" .word

/-- `parse_server`. -/
def parseServer : Tag → Except ListItemError ListItem := parseText "server" .server

/-- `parse_relay`. -/
def parseRelay (tag : Tag) : Except ListItemError ListItem := do
  let urlStr ← column tag 1 "relay"
  let url ← (RelayUrl.parse urls urlStr).mapError .invalidRelayUrl
  .ok (.relay url)

/-- `parse_emoji`. -/
def parseEmoji (tag : Tag) : Except ListItemError ListItem := do
  let shortcode ← column tag 1 "emoji"
  let url ← column tag 2 "emoji"
  .ok (.emoji shortcode url)

/-- `parse_group`. -/
def parseGroup (tag : Tag) : Except ListItemError ListItem := do
  let id ← column tag 1 "group"
  let relayStr ← column tag 2 "group"
  let relay ← (RelayUrl.parse urls relayStr).mapError .invalidRelayUrl
  .ok (.group id relay tag.values[3]?)

/-- `ListItem::from_tag`. -/
def ListItem.fromTag (tag : Tag) : Except ListItemError ListItem :=
  match tag.kind with
  | .singleLetter ⟨.P, false⟩ => parsePubkey urls tag
  | .singleLetter ⟨.E, false⟩ => parseEvent urls tag
  | .singleLetter ⟨.A, false⟩ => parseAddress urls tag
  | .singleLetter ⟨.T, false⟩ => parseHashtag tag
  | .custom "word" => parseWord tag
  | .custom "relay" => parseRelay urls tag
  | .custom "server" => parseServer tag
  | .custom "emoji" => parseEmoji tag
  | .custom "group" => parseGroup urls tag
  | _ => .ok (.other tag)

end Parse

/-- The kinds of tags that have items of their own. -/
def knownKinds : List TagKind :=
  [.singleLetter (.lowercase .P), .singleLetter (.lowercase .E), .singleLetter (.lowercase .A),
    .singleLetter (.lowercase .T), .custom "word", .custom "relay", .custom "server", .custom "emoji",
    .custom "group"]

/-- An item of a typed variant whose relays were parsed, or an unknown tag. -/
def ListItem.Proper (urls : UrlCrate) : ListItem → Prop
  | .pubkey _ relayHint _ => ∀ url ∈ relayHint, RelayUrl.Parsed urls url
  | .event _ relayHint => ∀ url ∈ relayHint, RelayUrl.Parsed urls url
  | .address _ relayHint => ∀ url ∈ relayHint, RelayUrl.Parsed urls url
  | .relay url => RelayUrl.Parsed urls url
  | .group _ url _ => RelayUrl.Parsed urls url
  | .other tag => tag.kind ∉ knownKinds
  | _ => True

section Codec

variable {urls : UrlCrate} (laws : RelayUrl.Lawful urls) (hempty : ∀ url, urls.parse "" ≠ .ok url)
include laws hempty

/-- A hint comes back from the arguments of a pointer, an absent one as absent. -/
theorem hint_pointerArgs (target : String) {hint : Option RelayUrl} (h : ∀ url ∈ hint, RelayUrl.Parsed urls url) :
    RelayUrl.hint urls (pointerArgs target hint)[1]? = .ok hint := by
  cases hint with
  | none => rfl
  | some url => exact RelayUrl.hint_some laws hempty (h url rfl)

/-- **A pointer comes back from its arguments**, with its hint. -/
theorem parsePointer_pointerArgs {α : Type} (head : TagKind) (name : String) {parse : String → Except ListItemError α}
    (item : α → Option RelayUrl → ListItem) {target : String} {a : α} {hint : Option RelayUrl}
    (hparse : parse target = .ok a) (h : ∀ url ∈ hint, RelayUrl.Parsed urls url) :
    parsePointer urls name parse item (.withArgs head (pointerArgs target hint)) = .ok (item a hint) := by
  have hhint := hint_pointerArgs laws hempty target h
  show (do
    let a ← parse target
    let relayHint ← (RelayUrl.hint urls (pointerArgs target hint)[1]?).mapError ListItemError.invalidRelayUrl
    Except.ok (item a relayHint)) = _
  rw [hparse, hhint]
  rfl

/-- **An item is read back from its tag.** One case for each kind of item: the name of the tag finds the branch, and
    the columns are read back by the laws of what stands in them. -/
theorem fromTag_toTag {item : ListItem} (h : item.Proper urls) : ListItem.fromTag urls item.toTag = .ok item := by
  cases item with
  | pubkey pk relayHint petname =>
      have hkind : (letterTag .P (pk.toHex :: relayHintValue relayHint :: petname.toList)).kind =
          .singleLetter ⟨.P, false⟩ := Tag.kind_letter .P _
      have hpetname : petname.toList[0]? = petname := by cases petname <;> rfl
      rw [ListItem.fromTag, ListItem.toTag, hkind]
      show (do
        let pk ← (PublicKey.parse pk.toHex).mapError ListItemError.invalidPublicKey
        let relayHint ← (RelayUrl.hint urls (some (relayHintValue relayHint))).mapError ListItemError.invalidRelayUrl
        Except.ok (ListItem.pubkey pk relayHint petname.toList[0]?)) = _
      rw [PublicKey.parse_toHex, relayHintValue, RelayUrl.hint_getD laws hempty h, hpetname]
      rfl
  | event id relayHint =>
      have hkind : (letterTag .E (pointerArgs id.toHex relayHint)).kind = .singleLetter ⟨.E, false⟩ :=
        Tag.kind_letter .E _
      have hparse : (EventId.parse id.toHex).mapError ListItemError.invalidEventId = .ok id := by
        rw [EventId.parse_toHex]
        rfl
      rw [ListItem.fromTag, ListItem.toTag, hkind]
      exact parsePointer_pointerArgs laws hempty _ "e" ListItem.event hparse h
  | address coordinate relayHint =>
      have hkind : (letterTag .A (pointerArgs coordinate.toWire relayHint)).kind = .singleLetter ⟨.A, false⟩ :=
        Tag.kind_letter .A _
      have hparse : (Coordinate.parse coordinate.toWire).mapError ListItemError.invalidCoordinate =
          .ok coordinate := by
        rw [Coordinate.parse_toWire]
        rfl
      rw [ListItem.fromTag, ListItem.toTag, hkind]
      exact parsePointer_pointerArgs laws hempty _ "a" ListItem.address hparse h
  | hashtag text =>
      have hkind : (letterTag .T [text]).kind = .singleLetter ⟨.T, false⟩ := Tag.kind_letter .T _
      rw [ListItem.fromTag, ListItem.toTag, hkind]
      rfl
  | word text =>
      rw [ListItem.fromTag, ListItem.toTag, kind_customTag (by decide)]
      rfl
  | relay url =>
      obtain ⟨s, hs⟩ := h
      rw [ListItem.fromTag, ListItem.toTag, kind_customTag (by decide)]
      show (do
        let url ← (RelayUrl.parse urls url.asStr).mapError ListItemError.invalidRelayUrl
        Except.ok (ListItem.relay url)) = _
      rw [RelayUrl.parse_asStr laws hs]
      rfl
  | server url =>
      rw [ListItem.fromTag, ListItem.toTag, kind_customTag (by decide)]
      rfl
  | emoji shortcode url =>
      rw [ListItem.fromTag, ListItem.toTag, kind_customTag (by decide)]
      rfl
  | group id url name =>
      obtain ⟨s, hs⟩ := h
      have hname : name.toList[0]? = name := by cases name <;> rfl
      rw [ListItem.fromTag, ListItem.toTag, kind_customTag (by decide)]
      show (do
        let url ← (RelayUrl.parse urls url.asStr).mapError ListItemError.invalidRelayUrl
        Except.ok (ListItem.group id url name.toList[0]?)) = _
      rw [RelayUrl.parse_asStr laws hs, hname]
      rfl
  | other tag =>
      have hunknown : tag.kind ∉ knownKinds := h
      show ListItem.fromTag urls tag = _
      unfold ListItem.fromTag
      split
      case h_10 => rfl
      all_goals
        rename_i hkind
        rw [hkind] at hunknown
        exact absurd (by decide) hunknown

end Codec

/-! ## Lists -/

/-- `List`. -/
structure Nip51List where
  kind : Kind
  identifier : Option String
  title : Option String
  description : Option String
  image : Option String
  publicItems : List ListItem
  privateItems : List ListItem
  /-- The content of an event that nobody has decrypted yet. -/
  encryptedPayload : Option String
  deriving DecidableEq

/-- `ListError`, without what nothing here raises. -/
inductive ListError where
  | invalidItem (e : ListItemError)
  deriving DecidableEq

namespace Nip51List

/-- `List::new`. -/
def new (kind : Kind) : Nip51List := ⟨kind, none, none, none, none, [], [], none⟩

/-- `List::public_item`. -/
def publicItem (item : ListItem) (list : Nip51List) : Nip51List :=
  { list with publicItems := list.publicItems ++ [item] }

/-- The tags of the metadata. -/
def metadataTags (list : Nip51List) : List Tag :=
  (list.identifier.map Tag.d).toList ++ ((list.title.map (fun title => customTag "title" [title])).toList ++
    ((list.image.map (fun image => customTag "image" [image])).toList ++
      (list.description.map (fun desc => customTag "description" [desc])).toList))

/-- `List::to_public_tags`. -/
def toPublicTags (list : Nip51List) : List Tag := list.metadataTags ++ list.publicItems.map ListItem.toTag

variable (urls : UrlCrate)

/-- One tag of the loop of `from_tags_and_content`. -/
def addTag (list : Nip51List) (tag : Tag) : Except ListError Nip51List :=
  match tag.kind with
  | .singleLetter ⟨.D, false⟩ => .ok { list with identifier := tag.values[1]? }
  | .custom "title" => .ok { list with title := tag.values[1]? }
  | .custom "description" => .ok { list with description := tag.values[1]? }
  | .custom "image" => .ok { list with image := tag.values[1]? }
  | _ => ((ListItem.fromTag urls tag).mapError ListError.invalidItem).map
      (fun item => { list with publicItems := list.publicItems ++ [item] })

/-- `List::from_tags_and_content`. -/
def fromTagsAndContent (kind : Kind) (tags : Tags) (content : String) : Except ListError Nip51List :=
  (tags.items.foldlM (addTag urls) (new kind)).map
    (fun list => if content ≠ "" then { list with encryptedPayload := some content } else list)

/-- `List::from_event`. -/
def fromEvent (event : Event) : Except ListError Nip51List :=
  fromTagsAndContent urls event.kind event.tags event.content

end Nip51List

/-! ## What a rewrite keeps -/

/-- The text of a relay url as it is written, if it is one. -/
def canonicalText (urls : UrlCrate) (s : String) : String :=
  match RelayUrl.parse urls s with
  | .ok url => url.asStr
  | .error _ => s

/-- The column of a tag that holds a relay url. -/
def relayColumn : TagKind → Option Nat
  | .singleLetter ⟨.P, false⟩ => some 2
  | .singleLetter ⟨.E, false⟩ => some 2
  | .singleLetter ⟨.A, false⟩ => some 2
  | .custom "relay" => some 1
  | .custom "group" => some 2
  | _ => none

/-- The values of a tag, with the relay url as it is written. -/
def canonicalValues (urls : UrlCrate) (tag : Tag) : List String :=
  match relayColumn tag.kind with
  | some i => tag.values.modify i (canonicalText urls)
  | none => tag.values

/-- A tag keeps its head and, in their order, all of its values. -/
structure Kept (urls : UrlCrate) (old new : Tag) : Prop where
  name : new.name = old.name
  values : (canonicalValues urls old).Sublist new.values

/-- What an item tag may have to come back whole: no more columns than its item, and keys, ids and coordinates in the
    text that is written for them. -/
def Lossless (tag : Tag) : Prop :=
  match tag.kind with
  | .singleLetter ⟨.P, false⟩ => tag.len ≤ 4 ∧ ∃ pk : PublicKey, tag.values[1]? = some pk.toHex
  | .singleLetter ⟨.E, false⟩ =>
      (tag.len ≤ 3 ∧ tag.values[2]? ≠ some "") ∧ ∃ id : EventId, tag.values[1]? = some id.toHex
  | .singleLetter ⟨.A, false⟩ =>
      (tag.len ≤ 3 ∧ tag.values[2]? ≠ some "") ∧ ∃ coord : Coordinate, tag.values[1]? = some coord.toWire
  | .singleLetter ⟨.T, false⟩ => tag.len ≤ 2
  | .custom "word" => tag.len ≤ 2
  | .custom "relay" => tag.len ≤ 2
  | .custom "server" => tag.len ≤ 2
  | .custom "emoji" => tag.len ≤ 3
  | .custom "group" => tag.len ≤ 4
  | _ => True

theorem column_eq_ok {tag : Tag} {i : Nat} {head value : String} (h : column tag i head = .ok value) :
    tag.values[i]? = some value := by
  unfold column at h
  split at h
  · rename_i hvalue
    cases h
    exact hvalue
  · cases h

/-- A tag with a first value. -/
theorem values_eq {tag : Tag} {value : String} (h : tag.values[1]? = some value) :
    ∃ rest, tag.values = tag.name :: value :: rest := by
  obtain ⟨values, hne⟩ := tag
  cases values with
  | nil => exact absurd rfl hne
  | cons name values =>
      cases values with
      | nil => cases h
      | cons first rest =>
          cases h
          exact ⟨rest, rfl⟩

/-- Only nothing can be put behind a list without making it longer. -/
theorem append_sublist_self {α : Type} {l rest : List α} : (l ++ rest).Sublist l ↔ rest = [] := by
  constructor
  · intro h
    have hle := h.length_le
    rw [List.length_append] at hle
    exact List.length_eq_zero_iff.mp (by omega)
  · rintro rfl
    rw [List.append_nil]

/-- A hint that is there and not empty is a relay's url. -/
theorem hint_eq_some {urls : UrlCrate} {s : String} {hint : Option RelayUrl} (hs : s ≠ "")
    (h : RelayUrl.hint urls (some s) = .ok hint) : ∃ url, RelayUrl.parse urls s = .ok url ∧ hint = some url := by
  rw [RelayUrl.hint, optionalColumn, if_pos hs] at h
  cases hparse : RelayUrl.parse urls s with
  | error e =>
      rw [hparse] at h
      cases h
  | ok url =>
      rw [hparse] at h
      cases h
      exact ⟨url, rfl, rfl⟩

/-- The text that stands for a relay hint. -/
theorem hint_text {urls : UrlCrate} (hempty : ∀ url, urls.parse "" ≠ .ok url) {s : String} {hint : Option RelayUrl}
    (h : RelayUrl.hint urls (some s) = .ok hint) : relayHintValue hint = canonicalText urls s := by
  by_cases hs : s = ""
  · rw [RelayUrl.hint, optionalColumn, if_neg (not_not.mpr hs)] at h
    cases h
    have herror : ∃ e, RelayUrl.parse urls "" = .error e := by
      cases hparse : RelayUrl.parse urls "" with
      | error e => exact ⟨e, rfl⟩
      | ok url =>
          obtain ⟨inner, -, hinner, -⟩ := RelayUrl.parse_eq_ok_iff.mp hparse
          exact absurd hinner (hempty inner)
    obtain ⟨e, he⟩ := herror
    rw [canonicalText, hs, he]
    rfl
  · obtain ⟨url, hurl, rfl⟩ := hint_eq_some hs h
    rw [canonicalText, hurl]
    rfl

section Kept

variable {urls : UrlCrate} {tag : Tag} {item : ListItem}

/-- A tag without a relay column keeps itself. -/
theorem Kept.refl (h : relayColumn tag.kind = none) : Kept urls tag tag := by
  refine ⟨rfl, ?_⟩
  rw [canonicalValues, h]

/-- A tag whose canonical values begin with all that is written keeps them if there are no more. -/
theorem kept_append_iff {args rest : List String} {head : TagKind} (hname : tag.name = head.asStr)
    (hvalues : canonicalValues urls tag = head.asStr :: args ++ rest) :
    Kept urls tag (.withArgs head args) ↔ rest = [] := by
  constructor
  · intro h
    have hsub := h.values
    rw [hvalues] at hsub
    exact append_sublist_self.mp hsub
  · rintro rfl
    refine ⟨hname.symm, ?_⟩
    rw [hvalues, List.append_nil]
    exact List.Sublist.refl _

/-- **A text item keeps its tag** exactly if nothing follows the text. -/
theorem kept_text_iff {head : TagKind} {text : String} {rest : List String} (hname : tag.name = head.asStr)
    (hcolumn : relayColumn tag.kind = none) (hvalues : tag.values = tag.name :: text :: rest) :
    Kept urls tag (.withArgs head [text]) ↔ tag.len ≤ 2 := by
  have hcanonical : canonicalValues urls tag = head.asStr :: [text] ++ rest := by
    rw [canonicalValues, hcolumn]
    dsimp only
    rw [hvalues, hname]
    rfl
  rw [kept_append_iff hname hcanonical, Tag.len, hvalues, ← List.length_eq_zero_iff]
  simp only [List.length_cons]
  omega

theorem kept_parseText_iff (head : TagKind) {name : String} {make : String → ListItem} (hname : tag.name = head.asStr)
    (hcolumn : relayColumn tag.kind = none) (hmake : ∀ text, (make text).toTag = .withArgs head [text])
    (h : parseText name make tag = .ok item) : Kept urls tag item.toTag ↔ tag.len ≤ 2 := by
  unfold parseText at h
  cases hcol : column tag 1 name with
  | error e =>
      rw [hcol] at h
      cases h
  | ok text =>
      rw [hcol] at h
      cases h
      obtain ⟨rest, hvalues⟩ := values_eq (column_eq_ok hcol)
      rw [hmake]
      exact kept_text_iff hname hcolumn hvalues

theorem canonicalText_of_parse {s : String} {url : RelayUrl} (h : RelayUrl.parse urls s = .ok url) :
    canonicalText urls s = url.asStr := by
  rw [canonicalText, h]

/-- A relay keeps its tag exactly if nothing follows its url, as far as the url's spelling goes. -/
theorem kept_relay_iff {text : String} {rest : List String} {url : RelayUrl} (hkind : tag.kind = .custom "relay")
    (hname : tag.name = "relay") (hvalues : tag.values = tag.name :: text :: rest)
    (hurl : RelayUrl.parse urls text = .ok url) :
    Kept urls tag (ListItem.relay url).toTag ↔ tag.len ≤ 2 := by
  have hcanonical : canonicalValues urls tag = "relay" :: [url.asStr] ++ rest := by
    rw [canonicalValues, hkind, hvalues, hname, ← canonicalText_of_parse hurl]
    rfl
  have hkept : Kept urls tag (ListItem.relay url).toTag ↔ rest = [] := kept_append_iff hname hcanonical
  rw [hkept, Tag.len, hvalues, ← List.length_eq_zero_iff]
  simp only [List.length_cons]
  omega

/-- An emoji keeps its tag exactly if nothing follows its url, such as the set it is from. -/
theorem kept_emoji_iff {shortcode url : String} (hkind : tag.kind = .custom "emoji") (hname : tag.name = "emoji")
    (hshortcode : tag.values[1]? = some shortcode) (hurl : tag.values[2]? = some url) :
    Kept urls tag (ListItem.emoji shortcode url).toTag ↔ tag.len ≤ 3 := by
  obtain ⟨rest, hvalues⟩ := values_eq hshortcode
  rw [hvalues] at hurl
  obtain _ | ⟨second, rest⟩ := rest
  · cases hurl
  cases hurl
  have hcanonical : canonicalValues urls tag = "emoji" :: [shortcode, url] ++ rest := by
    rw [canonicalValues, hkind, hvalues, hname]
    rfl
  have hkept : Kept urls tag (ListItem.emoji shortcode url).toTag ↔ rest = [] := kept_append_iff hname hcanonical
  rw [hkept, Tag.len, hvalues, ← List.length_eq_zero_iff]
  simp only [List.length_cons]
  omega

/-- A group keeps its tag exactly if nothing follows its relay but its name. -/
theorem kept_group_iff {id text : String} {url : RelayUrl} (hkind : tag.kind = .custom "group")
    (hname : tag.name = "group") (hid : tag.values[1]? = some id) (htext : tag.values[2]? = some text)
    (hurl : RelayUrl.parse urls text = .ok url) :
    Kept urls tag (ListItem.group id url tag.values[3]?).toTag ↔ tag.len ≤ 4 := by
  obtain ⟨rest, hvalues⟩ := values_eq hid
  rw [hvalues] at htext
  obtain _ | ⟨second, rest⟩ := rest
  · cases htext
  cases htext
  have hcanonical : canonicalValues urls tag = "group" :: id :: url.asStr :: rest := by
    rw [canonicalValues, hkind, hvalues, hname, ← canonicalText_of_parse hurl]
    rfl
  obtain _ | ⟨name, rest⟩ := rest
  · have hkept : Kept urls tag (ListItem.group id url none).toTag ↔ ([] : List String) = [] :=
      kept_append_iff hname hcanonical
    have hnone : tag.values[3]? = none := by rw [hvalues]; rfl
    rw [hnone, hkept, Tag.len, hvalues]
    simp
  · have hkept : Kept urls tag (ListItem.group id url (some name)).toTag ↔ rest = [] :=
      kept_append_iff hname hcanonical
    have hsome : tag.values[3]? = some name := by rw [hvalues]; rfl
    rw [hsome, hkept, Tag.len, hvalues, ← List.length_eq_zero_iff]
    simp only [List.length_cons]
    omega

/-- The first value can only be kept in its own place where the others fill theirs. -/
theorem first_kept {head v v' : String} {rest rest' : List String}
    (h : (head :: v :: rest).Sublist (head :: v' :: rest')) (hplace : ¬(v :: rest).Sublist rest') : v = v' := by
  rcases List.sublist_cons_iff.mp (List.cons_sublist_cons.mp h) with hskip | ⟨r, hr, -⟩
  · exact absurd hskip hplace
  · exact (List.cons.inj hr).1

/-- A pointer keeps its values if its target is spelt as it is written, its hint is not empty, and nothing follows.
    Three cases, as the column of the hint is missing, empty or read: only in the last is there anything to compare
    behind the target. -/
theorem kept_pointer_iff {head : TagKind} {text text' : String} {hint : Option RelayUrl}
    (hname : tag.name = head.asStr) (hcolumn : relayColumn tag.kind = some 2)
    (htext : tag.values[1]? = some text) (hhint : RelayUrl.hint urls tag.values[2]? = .ok hint) :
    Kept urls tag (.withArgs head (pointerArgs text' hint)) ↔
      (tag.len ≤ 3 ∧ tag.values[2]? ≠ some "") ∧ text = text' := by
  obtain ⟨rest, hvalues⟩ := values_eq htext
  have hcanonical : canonicalValues urls tag = head.asStr :: text :: rest.modify 0 (canonicalText urls) := by
    rw [canonicalValues, hcolumn]
    dsimp only
    rw [hvalues, hname]
    rfl
  obtain _ | ⟨second, rest⟩ := rest
  · have hnone : tag.values[2]? = none := by rw [hvalues]; rfl
    rw [hnone] at hhint ⊢
    cases hhint
    constructor
    · intro h
      have hsub := h.values
      rw [hcanonical] at hsub
      refine ⟨⟨by rw [Tag.len, hvalues]; simp, by simp⟩, first_kept hsub ?_⟩
      simp
    · rintro ⟨-, rfl⟩
      have hwhole : Kept urls tag (.withArgs head [text]) ↔ ([] : List String) = [] := kept_append_iff hname hcanonical
      exact hwhole.mpr rfl
  · have hsecond : tag.values[2]? = some second := by rw [hvalues]; rfl
    have hlength : tag.len = rest.length + 3 := by rw [Tag.len, hvalues]; rfl
    rw [hsecond] at hhint
    by_cases hs : second = ""
    · -- an empty hint is no hint, and its column is not written
      rw [hs, RelayUrl.hint, optionalColumn, if_neg (not_not.mpr rfl)] at hhint
      cases hhint
      constructor
      · intro h
        have hle := h.values.length_le
        rw [hcanonical] at hle
        exact absurd hle (by simp [pointerArgs, Tag.withArgs])
      · rintro ⟨⟨-, hne⟩, -⟩
        exact absurd (by rw [hsecond, hs]) hne
    · obtain ⟨url, hurl, rfl⟩ := hint_eq_some hs hhint
      have hrest : canonicalValues urls tag = head.asStr :: text :: url.asStr :: rest := by
        rw [hcanonical, ← canonicalText_of_parse hurl]
        rfl
      constructor
      · intro h
        have hsub : (head.asStr :: text :: url.asStr :: rest).Sublist [head.asStr, text', url.asStr] := hrest ▸ h.values
        have hle := hsub.length_le
        simp only [List.length_cons, List.length_nil] at hle
        refine ⟨⟨by omega, by simp [hsecond, hs]⟩, first_kept hsub ?_⟩
        intro hplace
        have hshort := hplace.length_le
        simp only [List.length_cons, List.length_nil] at hshort
        omega
      · rintro ⟨⟨hlen, -⟩, rfl⟩
        have hwhole : Kept urls tag (.withArgs head [text, url.asStr]) ↔ rest = [] := kept_append_iff hname hrest
        exact hwhole.mpr (List.length_eq_zero_iff.mp (by omega))

/-- A public key keeps its values if it is spelt as it is written and nothing follows the petname. A key without a
    hint gets an empty column, which no column of the tag can stand for. -/
theorem kept_pubkey_iff (hempty : ∀ url, urls.parse "" ≠ .ok url) {text : String} {pk : PublicKey}
    {hint : Option RelayUrl} (hkind : tag.kind = .singleLetter ⟨.P, false⟩) (hname : tag.name = "p")
    (htext : tag.values[1]? = some text) (hpk : PublicKey.parse text = .ok pk)
    (hhint : RelayUrl.hint urls tag.values[2]? = .ok hint) :
    Kept urls tag (ListItem.pubkey pk hint tag.values[3]?).toTag ↔ tag.len ≤ 4 ∧ text = pk.toHex := by
  obtain ⟨rest, hvalues⟩ := values_eq htext
  have hlength : tag.len = rest.length + 2 := by rw [Tag.len, hvalues]; rfl
  have hcanonical : canonicalValues urls tag = "p" :: text :: rest.modify 0 (canonicalText urls) := by
    rw [canonicalValues, hkind, hvalues, hname]
    rfl
  obtain _ | ⟨second, rest⟩ := rest
  · -- the column that is added is empty, so it cannot stand for the key
    have hnone : tag.values[2]? = none := by rw [hvalues]; rfl
    have hnone' : tag.values[3]? = none := by rw [hvalues]; rfl
    rw [hnone] at hhint
    cases hhint
    rw [hnone']
    have hnonempty : text ≠ "" := by
      rintro rfl
      cases hpk
    constructor
    · intro h
      have hsub : ["p", text].Sublist ["p", pk.toHex, ""] := hcanonical ▸ h.values
      refine ⟨by rw [hlength]; decide, first_kept hsub ?_⟩
      intro hplace
      exact hnonempty (List.mem_singleton.mp (List.singleton_sublist.mp hplace))
    · rintro ⟨-, rfl⟩
      refine ⟨hname.symm, ?_⟩
      rw [hcanonical]
      exact List.sublist_append_left ["p", pk.toHex] [""]
  · have hsecond : tag.values[2]? = some second := by rw [hvalues]; rfl
    rw [hsecond] at hhint
    have hrest : canonicalValues urls tag = "p" :: text :: relayHintValue hint :: rest := by
      rw [hcanonical, hint_text hempty hhint]
      rfl
    have hthird : tag.values[3]? = rest[0]? := by rw [hvalues]; rfl
    have hnew : (ListItem.pubkey pk hint tag.values[3]?).toTag.values =
        "p" :: pk.toHex :: relayHintValue hint :: rest[0]?.toList := by rw [hthird]; rfl
    have hshort : rest[0]?.toList.length = min 1 rest.length := by
      cases rest with
      | nil => rfl
      | cons name rest => simp
    constructor
    · intro h
      have hsub := h.values
      rw [hrest, hnew] at hsub
      have hle := hsub.length_le
      simp only [List.length_cons] at hle hlength
      refine ⟨by omega, first_kept hsub ?_⟩
      intro hplace
      have hle' := hplace.length_le
      simp only [List.length_cons] at hle'
      omega
    · rintro ⟨hlen, rfl⟩
      refine ⟨hname.symm, ?_⟩
      have hall : rest[0]?.toList = rest := by
        obtain _ | ⟨name, _ | ⟨more, rest⟩⟩ := rest
        · rfl
        · rfl
        · simp only [List.length_cons] at hlength
          omega
      rw [hrest, hnew, hall]

/-- A text that parses is spelt as something is written exactly if it is spelt as what it parses to. -/
theorem spelt_iff {ε α : Type} {parse : String → Except ε α} {write : α → String}
    (hwrite : ∀ a, parse (write a) = .ok a) {text : String} {a : α} (h : parse text = .ok a) :
    (∃ b, some text = some (write b)) ↔ text = write a := by
  constructor
  · rintro ⟨b, hb⟩
    have htext := Option.some.inj hb
    rw [htext, hwrite b] at h
    cases h
    exact htext
  · intro htext
    exact ⟨a, congrArg some htext⟩

/-- A pointer of an item keeps its values as `Lossless` says, for the kind of its head. -/
theorem kept_target_iff {ε α : Type} (head : TagKind) {name : String} {parse : String → Except ε α}
    {raise : ε → ListItemError} {write : α → String} {make : α → Option RelayUrl → ListItem}
    (hwrite : ∀ a, parse (write a) = .ok a)
    (hmake : ∀ a hint, (make a hint).toTag = .withArgs head (pointerArgs (write a) hint))
    (hname : tag.name = head.asStr) (hcolumn : relayColumn tag.kind = some 2)
    (h : parsePointer urls name (fun text => (parse text).mapError raise) make tag = .ok item) :
    Kept urls tag item.toTag ↔
      (tag.len ≤ 3 ∧ tag.values[2]? ≠ some "") ∧ ∃ a, tag.values[1]? = some (write a) := by
  obtain ⟨text, hcol, h⟩ := bind_ok_iff.mp h
  obtain ⟨a, ha, h⟩ := bind_ok_iff.mp h
  obtain ⟨hint, hhint, h⟩ := bind_ok_iff.mp h
  cases h
  have htext := column_eq_ok hcol
  have hspelt := spelt_iff hwrite (mapError_ok_iff.mp ha)
  rw [hmake, kept_pointer_iff hname hcolumn htext (mapError_ok_iff.mp hhint), htext, hspelt]

/-- **A tag is kept exactly if it is lossless.** One case for each branch of `from_tag`, each with the lemma on its
    kind of item. -/
theorem kept_iff (hempty : ∀ url, urls.parse "" ≠ .ok url) (h : ListItem.fromTag urls tag = .ok item) :
    Kept urls tag item.toTag ↔ Lossless tag := by
  unfold ListItem.fromTag at h
  unfold Lossless
  split at h
  · rename_i hkind
    have hname : tag.name = "p" := (Tag.kind_eq_iff (by decide)).mp hkind
    obtain ⟨text, hcol, h⟩ := bind_ok_iff.mp h
    obtain ⟨pk, hpk, h⟩ := bind_ok_iff.mp h
    obtain ⟨hint, hhint, h⟩ := bind_ok_iff.mp h
    cases h
    have htext := column_eq_ok hcol
    have hparse := mapError_ok_iff.mp hpk
    rw [kept_pubkey_iff hempty hkind hname htext hparse (mapError_ok_iff.mp hhint), htext,
      ← spelt_iff PublicKey.parse_toHex hparse]
  · rename_i hkind
    have hname : tag.name = "e" := (Tag.kind_eq_iff (by decide)).mp hkind
    refine kept_target_iff (.singleLetter (.lowercase .E)) EventId.parse_toHex ?_ hname ?_ h
    · exact fun _ _ => rfl
    · rw [hkind]
      rfl
  · rename_i hkind
    have hname : tag.name = "a" := (Tag.kind_eq_iff (by decide)).mp hkind
    refine kept_target_iff (.singleLetter (.lowercase .A)) Coordinate.parse_toWire ?_ hname ?_ h
    · exact fun _ _ => rfl
    · rw [hkind]
      rfl
  · rename_i hkind
    have hname : tag.name = "t" := (Tag.kind_eq_iff (by decide)).mp hkind
    exact kept_parseText_iff (.singleLetter (.lowercase .T)) hname (by rw [hkind]; rfl) (fun _ => rfl) h
  · rename_i hkind
    have hname : tag.name = "word" := (Tag.kind_eq_iff (by decide)).mp hkind
    exact kept_parseText_iff (.custom "word") hname (by rw [hkind]; rfl) (fun _ => rfl) h
  · rename_i hkind
    have hname : tag.name = "relay" := (Tag.kind_eq_iff (by decide)).mp hkind
    obtain ⟨text, hcol, h⟩ := bind_ok_iff.mp h
    obtain ⟨url, hurl, h⟩ := bind_ok_iff.mp h
    cases h
    obtain ⟨rest, hvalues⟩ := values_eq (column_eq_ok hcol)
    exact kept_relay_iff hkind hname hvalues (mapError_ok_iff.mp hurl)
  · rename_i hkind
    have hname : tag.name = "server" := (Tag.kind_eq_iff (by decide)).mp hkind
    exact kept_parseText_iff (.custom "server") hname (by rw [hkind]; rfl) (fun _ => rfl) h
  · rename_i hkind
    have hname : tag.name = "emoji" := (Tag.kind_eq_iff (by decide)).mp hkind
    obtain ⟨shortcode, hshortcode, h⟩ := bind_ok_iff.mp h
    obtain ⟨url, hurl, h⟩ := bind_ok_iff.mp h
    cases h
    exact kept_emoji_iff hkind hname (column_eq_ok hshortcode) (column_eq_ok hurl)
  · rename_i hkind
    have hname : tag.name = "group" := (Tag.kind_eq_iff (by decide)).mp hkind
    obtain ⟨id, hid, h⟩ := bind_ok_iff.mp h
    obtain ⟨text, htext, h⟩ := bind_ok_iff.mp h
    obtain ⟨url, hurl, h⟩ := bind_ok_iff.mp h
    cases h
    exact kept_group_iff hkind hname (column_eq_ok hid) (column_eq_ok htext) (mapError_ok_iff.mp hurl)
  · rename_i hp he ha ht hword hrelay hserver hemoji hgroup
    cases h
    have hcolumn : relayColumn tag.kind = none := by
      unfold relayColumn
      split
      · exact absurd ‹_› hp
      · exact absurd ‹_› he
      · exact absurd ‹_› ha
      · exact absurd ‹_› hrelay
      · exact absurd ‹_› hgroup
      · rfl
    exact iff_of_true (Kept.refl hcolumn) trivial

end Kept

/-! ### The whole list -/

/-- The kinds of the metadata tags. -/
def metaKinds : List TagKind :=
  [.singleLetter (.lowercase .D), .custom "title", .custom "description", .custom "image"]

/-- The tags that are read as items. -/
def itemTags (tags : List Tag) : List Tag := tags.filter (fun tag => tag.kind ∉ metaKinds)

/-- No two tags for one part of the metadata, and one value in each. -/
def SingleMetadata (tags : List Tag) : Prop :=
  ∀ kind ∈ metaKinds, (tags.filter (fun tag => tag.kind = kind)).length ≤ 1 ∧
    ∀ tag ∈ tags, tag.kind = kind → tag.len = 2

/-- Tags lose nothing: each keeps its values, and the items also their order. -/
structure Preserved (urls : UrlCrate) (tags new : List Tag) : Prop where
  metadata : ∀ tag ∈ tags, tag.kind ∈ metaKinds → ∃ tag' ∈ new, Kept urls tag tag'
  items : ∃ kept : List Tag, kept.Sublist new ∧ List.Forall₂ (Kept urls) (itemTags tags) kept

namespace Nip51List

/-- The part of the metadata that a kind of tag holds. -/
def metadata (list : Nip51List) : TagKind → Option String
  | .singleLetter ⟨.D, false⟩ => list.identifier
  | .custom "title" => list.title
  | .custom "description" => list.description
  | .custom "image" => list.image
  | _ => none

section Read

variable {urls : UrlCrate} {list list' : Nip51List} {tag : Tag}

/-- One step: a metadata tag overwrites its part, any other becomes the next item. -/
theorem addTag_cases (h : addTag urls list tag = .ok list') :
    (tag.kind ∈ metaKinds ∧ list'.publicItems = list.publicItems ∧
      ∀ kind ∈ metaKinds, list'.metadata kind = if tag.kind = kind then tag.values[1]? else list.metadata kind) ∨
    (tag.kind ∉ metaKinds ∧ ∃ item, ListItem.fromTag urls tag = .ok item ∧
      list' = { list with publicItems := list.publicItems ++ [item] }) := by
  unfold addTag at h
  split at h
  case h_5 hd htitle hdesc himage =>
    obtain ⟨item, hitem, rfl⟩ := map_ok_iff.mp h
    right
    refine ⟨?_, item, mapError_ok_iff.mp hitem, rfl⟩
    simp only [metaKinds, List.mem_cons, List.not_mem_nil, or_false]
    rintro (hkind | hkind | hkind | hkind)
    · exact hd hkind
    · exact htitle hkind
    · exact hdesc hkind
    · exact himage hkind
  all_goals
    rename_i hkind
    cases h
    left
    rw [hkind]
    refine ⟨by decide, rfl, ?_⟩
    intro kind hmem
    simp only [metaKinds, List.mem_cons, List.not_mem_nil, or_false] at hmem
    rcases hmem with rfl | rfl | rfl | rfl
    all_goals rfl

/-- A run: the other tags become the items, in their order, and each part of the metadata is that of its last tag. By
    induction on the tags: each is of the metadata, and then the items stay, or an item, and then the metadata stays. -/
theorem foldlM_addTag {tags : List Tag} (h : tags.foldlM (addTag urls) list = .ok list') :
    (∃ items, List.Forall₂ (fun tag item => ListItem.fromTag urls tag = .ok item) (itemTags tags) items ∧
      list'.publicItems = list.publicItems ++ items) ∧
    ∀ kind ∈ metaKinds, list'.metadata kind =
      (tags.filter (fun tag => tag.kind = kind)).foldl (fun _ tag => tag.values[1]?) (list.metadata kind) := by
  induction tags generalizing list with
  | nil =>
      cases h
      exact ⟨⟨[], .nil, (List.append_nil _).symm⟩, fun _ _ => rfl⟩
  | cons tag tags ih =>
      rw [List.foldlM_cons] at h
      obtain ⟨mid, hmid, hrest⟩ := bind_ok_iff.mp h
      obtain ⟨⟨items, hread, hitems⟩, hmetadata⟩ := ih hrest
      rcases addTag_cases hmid with ⟨hmeta, hsame, hset⟩ | ⟨hmeta, item, hitem, rfl⟩
      · have hskip : itemTags (tag :: tags) = itemTags tags := List.filter_cons_of_neg (by simpa using hmeta)
        refine ⟨⟨items, hskip ▸ hread, hsame ▸ hitems⟩, ?_⟩
        intro kind hkind
        rw [hmetadata kind hkind, hset kind hkind]
        by_cases heq : tag.kind = kind
        · rw [if_pos heq, List.filter_cons_of_pos (by simpa using heq), List.foldl_cons]
        · rw [if_neg heq, List.filter_cons_of_neg (by simpa using heq)]
      · have htake : itemTags (tag :: tags) = tag :: itemTags tags := List.filter_cons_of_pos (by simpa using hmeta)
        refine ⟨⟨item :: items, ?_, ?_⟩, ?_⟩
        · rw [htake]
          exact .cons hitem hread
        · rw [hitems, List.append_assoc]
          rfl
        · intro kind hkind
          have hne : tag.kind ≠ kind := by
            rintro rfl
            exact hmeta hkind
          rw [hmetadata kind hkind, List.filter_cons_of_neg (by simpa using hne)]
          rfl

/-- What a parsed list was read from: its items from the tags that are items, in their order, and its metadata from
    the others. -/
theorem fromEvent_ok {event : Event} (h : fromEvent urls event = .ok list) :
    List.Forall₂ (fun tag item => ListItem.fromTag urls tag = .ok item) (itemTags event.tags.items) list.publicItems ∧
    ∀ kind ∈ metaKinds, list.metadata kind =
      (event.tags.items.filter (fun tag => tag.kind = kind)).foldl (fun _ tag => tag.values[1]?) none := by
  obtain ⟨read, hread, rfl⟩ := map_ok_iff.mp h
  obtain ⟨⟨items, hitems, hpublic⟩, hmetadata⟩ := foldlM_addTag hread
  have hsame : (if event.content ≠ "" then { read with encryptedPayload := some event.content } else read).publicItems =
      items := by
    rw [apply_ite Nip51List.publicItems, ite_self]
    exact hpublic
  have hmeta : ∀ kind, (if event.content ≠ "" then { read with encryptedPayload := some event.content }
      else read).metadata kind = read.metadata kind := by
    intro kind
    split
    · rfl
    · rfl
  refine ⟨hsame ▸ hitems, ?_⟩
  intro kind hkind
  rw [hmeta, hmetadata kind hkind]
  congr 1
  simp only [metaKinds, List.mem_cons, List.not_mem_nil, or_false] at hkind
  rcases hkind with rfl | rfl | rfl | rfl
  all_goals rfl

/-- What is there is written, under its own kind. -/
theorem mem_metadataTags {kind : TagKind} {value : String} (h : list.metadata kind = some value) :
    .withArgs kind [value] ∈ list.metadataTags := by
  simp only [metadataTags, List.mem_append, Option.mem_toList, Option.map_eq_some_iff]
  unfold metadata at h
  split at h
  · exact .inl ⟨value, h, rfl⟩
  · exact .inr (.inl ⟨value, h, rfl⟩)
  · exact .inr (.inr (.inr ⟨value, h, rfl⟩))
  · exact .inr (.inr (.inl ⟨value, h, rfl⟩))
  · cases h

end Read

end Nip51List

section Rewrite

variable {urls : UrlCrate} {list : Nip51List} {tags kept : List Tag}

theorem kind_metadataTags {tag : Tag} (h : tag ∈ list.metadataTags) : tag.kind ∈ metaKinds := by
  simp only [Nip51List.metadataTags, List.mem_append, Option.mem_toList, Option.map_eq_some_iff] at h
  rcases h with ⟨id, -, rfl⟩ | ⟨title, -, rfl⟩ | ⟨image, -, rfl⟩ | ⟨desc, -, rfl⟩
  · have hkind : (Tag.d id).kind = .singleLetter (.lowercase .D) := Tag.kind_letter .D _
    rw [hkind]
    decide
  · rw [kind_customTag (by decide)]
    decide
  · rw [kind_customTag (by decide)]
    decide
  · rw [kind_customTag (by decide)]
    decide

/-- Tags of items can only be found among the tags of the items. -/
theorem sublist_items (hsub : kept.Sublist list.toPublicTags) (hkinds : ∀ tag ∈ kept, tag.kind ∉ metaKinds) :
    kept.Sublist (list.publicItems.map ListItem.toTag) := by
  have hfilter := hsub.filter (fun tag => decide (tag.kind ∉ metaKinds))
  have hall : kept.filter (fun tag => decide (tag.kind ∉ metaKinds)) = kept :=
    List.filter_eq_self.mpr (fun tag htag => decide_eq_true (hkinds tag htag))
  have hnone : list.metadataTags.filter (fun tag => decide (tag.kind ∉ metaKinds)) = [] := by
    apply List.filter_eq_nil_iff.mpr
    intro tag htag
    simpa using kind_metadataTags htag
  rw [hall, Nip51List.toPublicTags, List.filter_append, hnone, List.nil_append] at hfilter
  exact hfilter.trans List.filter_sublist

/-- A metadata tag of one value that is alone of its kind is written as it was. Being alone, it is the last of its
    kind, so its value is the one that is kept. -/
theorem metadata_kept {tag : Tag} (hsingle : SingleMetadata tags) (htag : tag ∈ tags) (hkind : tag.kind ∈ metaKinds)
    (hread : list.metadata tag.kind =
      (tags.filter (fun t => t.kind = tag.kind)).foldl (fun _ t => t.values[1]?) none) :
    tag ∈ list.toPublicTags := by
  obtain ⟨hcount, hlen⟩ := hsingle tag.kind hkind
  have hmem : tag ∈ tags.filter (fun t => t.kind = tag.kind) :=
    List.mem_filter.mpr ⟨htag, decide_eq_true rfl⟩
  obtain ⟨only, honly⟩ := List.length_eq_one_iff.mp (Nat.le_antisymm hcount (List.length_pos_of_mem hmem))
  rw [honly] at hmem hread
  obtain rfl := List.mem_singleton.mp hmem
  have hlen := hlen tag htag rfl
  have hlt : 1 < tag.values.length := by
    rw [Tag.len] at hlen
    omega
  have hvalue : tag.values[1]? = some tag.values[1] := List.getElem?_eq_getElem hlt
  have hsome : list.metadata tag.kind = some tag.values[1] := by
    rw [hread, ← hvalue]
    rfl
  have hsame : Tag.withArgs tag.kind [tag.values[1]] = tag := by
    obtain ⟨rest, hvalues⟩ := values_eq hvalue
    have hrest : rest = [] := by
      rw [Tag.len, hvalues] at hlen
      simpa using hlen
    rw [hrest] at hvalues
    apply Tag.values_injective
    show (TagKind.fromWire tag.name).asStr :: [tag.values[1]] = tag.values
    rw [TagKind.asStr_fromWire, ← hvalues]
  have hwritten := Nip51List.mem_metadataTags hsome
  rw [hsame] at hwritten
  exact List.mem_append_left _ hwritten

/-- **A rewrite keeps a list exactly if its item tags are lossless.**

    Item tags and metadata tags are told apart by their kinds, so the tags that are kept must be the items' own,
    one by one, and a tag is kept by its item exactly if it is lossless (`kept_iff`). -/
theorem rewrite_keeps_iff {event : Event} (hempty : ∀ url, urls.parse "" ≠ .ok url)
    (hread : Nip51List.fromEvent urls event = .ok list) (hsingle : SingleMetadata event.tags.items) :
    (Preserved urls event.tags.items list.toPublicTags ↔ ∀ tag ∈ itemTags event.tags.items, Lossless tag) ∧
    ∀ item, (list.publicItem item).toPublicTags = list.toPublicTags ++ [item.toTag] := by
  obtain ⟨hitems, hmetadata⟩ := Nip51List.fromEvent_ok hread
  refine ⟨⟨?_, ?_⟩, ?_⟩
  · intro h
    obtain ⟨kept, hsub, hkept⟩ := h.items
    have hkinds : ∀ tag ∈ kept, tag.kind ∉ metaKinds := by
      intro tag htag
      obtain ⟨old, hold, hsame⟩ := Batch.exists_of_forall₂ hkept.flip htag
      have hkind : tag.kind = old.kind := by rw [Tag.kind, Tag.kind, hsame.name]
      rw [hkind]
      simpa using (List.mem_filter.mp hold).2
    have hwhole : kept = list.publicItems.map ListItem.toTag := by
      apply (sublist_items hsub hkinds).eq_of_length
      rw [List.length_map, ← hitems.length_eq, ← hkept.length_eq]
    rw [hwhole, List.forall₂_map_right_iff] at hkept
    have hboth : List.Forall₂ (fun tag item => Lossless tag ∧ ListItem.fromTag urls tag = .ok item)
        (itemTags event.tags.items) list.publicItems :=
      hkept.mp (fun _ _ hkept hitem => ⟨(kept_iff hempty hitem).mp hkept, hitem⟩) hitems
    exact ((List.forall₂_and_left _ _).mp hboth).1
  · intro h
    refine ⟨?_, ?_⟩
    · intro tag htag hkind
      have hcolumn : relayColumn tag.kind = none := by
        simp only [metaKinds, List.mem_cons, List.not_mem_nil, or_false] at hkind
        rcases hkind with hkind | hkind | hkind | hkind
        all_goals
          rw [hkind]
          rfl
      exact ⟨tag, metadata_kept hsingle htag hkind (hmetadata tag.kind hkind), Kept.refl hcolumn⟩
    · refine ⟨list.publicItems.map ListItem.toTag, List.sublist_append_right _ _, ?_⟩
      rw [List.forall₂_map_right_iff]
      have hboth := (List.forall₂_and_left _ _).mpr ⟨h, hitems⟩
      exact hboth.imp (fun _ _ hboth => (kept_iff hempty hboth.2).mpr hboth.1)
  · intro item
    simp [Nip51List.toPublicTags, Nip51List.publicItem, Nip51List.metadataTags]

end Rewrite

end Nip51

/-! A set of friends, and an emoji list that names the set of its emoji. -/

namespace Sample

open Nip51

/-- A list of friends, all of whose tags are items or metadata. -/
def friends : Event :=
  event 1 bob 1700000000 30000
    [["d", "friends"], ["p", bob.toHex, hint.asStr, "bob"], ["title", "Friends"], ["t", "tea"]]

/-- What it parses to. -/
def friendsList : Nip51List :=
  ⟨⟨30000⟩, some "friends", some "Friends", none, none, [.pubkey bob (some hint) (some "bob"), .hashtag "tea"], [],
    none⟩

/-- An emoji with the set it is from. -/
def emoji : Event :=
  event 1 bob 1700000000 10030 [["emoji", "tea", "https://e.example/tea.png", "30030:" ++ bob.toHex ++ ":cups"]]

/-- What it parses to, without the set. -/
def emojiList : Nip51List :=
  ⟨⟨10030⟩, none, none, none, none, [.emoji "tea" "https://e.example/tea.png"], [], none⟩

end Sample

open Sample Nip51 in
theorem Nip51.rewrite_keeps_friends : Preserved hintUrls friends.tags.items friendsList.toPublicTags := by
  have hread : Nip51List.fromEvent hintUrls friends = .ok friendsList := by decide +kernel
  have hsingle : ∀ kind ∈ metaKinds, (friends.tags.items.filter (fun tag => tag.kind = kind)).length ≤ 1 ∧
      ∀ tag ∈ friends.tags.items, tag.kind = kind → tag.len = 2 := by decide +kernel
  have hitems : itemTags friends.tags.items = friendsList.publicItems.map ListItem.toTag := by decide +kernel
  refine (rewrite_keeps_iff (fun url h => by cases h) hread hsingle).1.mpr ?_
  rw [hitems]
  intro tag htag
  rcases List.mem_pair.mp htag with rfl | rfl
  · exact ⟨by decide, bob, rfl⟩
  · show (letterTag .T ["tea"]).len ≤ 2
    decide

open Sample Nip51 in
/-- The set of the emoji is not written again. -/
theorem Nip51.emoji_set_dropped : Nip51List.fromEvent hintUrls emoji = .ok emojiList ∧
    SingleMetadata emoji.tags.items ∧ ¬Preserved hintUrls emoji.tags.items emojiList.toPublicTags := by
  have hsingle : ∀ kind ∈ metaKinds, (emoji.tags.items.filter (fun tag => tag.kind = kind)).length ≤ 1 ∧
      ∀ tag ∈ emoji.tags.items, tag.kind = kind → tag.len = 2 := by decide +kernel
  have hitems : itemTags emoji.tags.items = emoji.tags.items := by decide +kernel
  have hwritten : emojiList.toPublicTags = [customTag "emoji" ["tea", "https://e.example/tea.png"]] := by decide +kernel
  refine ⟨by decide +kernel, hsingle, ?_⟩
  intro h
  obtain ⟨kept, hsub, hkept⟩ := h.items
  rw [hwritten] at hsub
  rw [hitems] at hkept
  obtain _ | ⟨hfirst, -⟩ := hkept
  have hnew := List.mem_singleton.mp (hsub.subset List.mem_cons_self)
  have hshort := hfirst.values.length_le
  rw [hnew] at hshort
  revert hshort
  decide +kernel

end Nula
