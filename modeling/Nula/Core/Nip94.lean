import Nula.Core.Nips
import Nula.Core.Spelling
import Nula.Core.TagList
import Nula.Lib.Yields

/-!
# `Core.Nip94` — file metadata

What is known of a file, as a bundle and as the tags of an event (`nips/nip94.rs`), with the types that its columns
rest on: urls with a base (`types/url.rs`), pixel dimensions (`types/image.rs`) and hashes. Every column has a tag of
its own, and a reader takes the first tag of a name.

## Contents
- **The columns.** `Url.parseBase`, `ImageDimensions.parse_text` and `parseSha256_toHex`, each read back from its text.
- **The tags.** `fromTags_toTags_iff`, when the bundle comes back from its tags.
-/

namespace Nula

/-! ## Absolute urls (`types/url.rs`) -/

inductive UrlError where
  | parse (text : String)
  | relative (input : String)
  deriving DecidableEq, Repr

/-- The URL crate, with `cannot_be_a_base`. -/
structure BaseUrlCrate extends UrlCrate where
  cannotBeABase : Url → Bool

namespace Url

variable (urls : BaseUrlCrate)

/-- `Url::parse`. -/
def parseBase (input : String) : Except UrlError Url :=
  match urls.parse input with
  | .error text => .error (.parse text)
  | .ok inner => if urls.cannotBeABase inner = true then .error (.relative input) else .ok inner

/-- A url that `Url::parse` gives. `From<url::Url>` takes any, also one that cannot be a base, whose text
    `Url::parse` refuses. -/
def Based (url : Url) : Prop := ∃ input, parseBase urls input = .ok url

variable {urls}

/-- A url is read back from its text. -/
theorem parseBase_serialization (hreparse : ∀ s url, urls.parse s = .ok url → urls.parse url.serialization = .ok url)
    {url : Url} (h : Based urls url) : parseBase urls url.serialization = .ok url := by
  obtain ⟨input, hinput⟩ := h
  rw [parseBase] at hinput
  cases hparse : urls.parse input with
  | error text =>
      rw [hparse] at hinput
      cases hinput
  | ok inner =>
      simp only [hparse] at hinput
      split at hinput
      · cases hinput
      · rename_i hbase
        cases hinput
        simp only [parseBase, hreparse input _ hparse, if_neg hbase]

end Url

/-! ## Pixel dimensions (`types/image.rs`) -/

/-- `ImageError`, without what is wrong with a number. -/
inductive ImageError where
  | invalidFormat (s : String)
  | parseInt
  | zero
  deriving DecidableEq, Repr

/-- The fields are public: nothing but `new` keeps zero out. -/
structure ImageDimensions where
  width : UInt32
  height : UInt32
  deriving DecidableEq, Repr

namespace ImageDimensions

/-- `ImageDimensions::new`. -/
def new (width height : UInt32) : Except ImageError ImageDimensions :=
  if width = 0 ∨ height = 0 then .error .zero else .ok ⟨width, height⟩

/-- `Display` of `ImageDimensions`. -/
def text (dim : ImageDimensions) : String := toString dim.width.toNat ++ "x" ++ toString dim.height.toNat

/-- `str::parse::<u32>`. -/
def parseU32 (s : String) : Option UInt32 := (parseUnsigned (2 ^ 32 - 1) s).map UInt32.ofNat

/-- `ImageDimensions::from_str`. -/
def parse (s : String) : Except ImageError ImageDimensions :=
  match splitOnce 'x' s.toList with
  | none => .error (.invalidFormat s)
  | some (lhs, rhs) =>
      -- both numbers must be there
      if lhs = [] ∨ rhs = [] then .error (.invalidFormat s)
      else
        match parseU32 (String.ofList lhs) with
        | none => .error .parseInt
        | some width =>
            match parseU32 (String.ofList rhs) with
            | none => .error .parseInt
            | some height => new width height

/-- Neither side is zero, as the type promises. -/
def Proper (dim : ImageDimensions) : Prop := dim.width ≠ 0 ∧ dim.height ≠ 0

instance (dim : ImageDimensions) : Decidable dim.Proper := inferInstanceAs (Decidable (_ ∧ _))

theorem parseU32_toString (n : UInt32) : parseU32 (toString n.toNat) = some n := by
  have hle : n.toNat ≤ 2 ^ 32 - 1 := Nat.le_pred_of_lt n.toNat_lt
  rw [parseU32, parseUnsigned_toString hle, Option.map_some, UInt32.ofNat_toNat]

theorem toString_ne_nil (n : Nat) : (toString n).toList ≠ [] := by
  have hlist : (toString n).toList = Nat.toDigits 10 n := Nat.toList_repr
  rw [hlist]
  exact Nat.toDigits_ne_nil

/-- Dimensions are read back from their text unless a side is zero. -/
theorem parse_text (dim : ImageDimensions) :
    parse dim.text = if dim.Proper then .ok dim else .error .zero := by
  have hlist : dim.text.toList = (toString dim.width.toNat).toList ++ 'x' :: (toString dim.height.toNat).toList := by
    simp [text]
  have hx : 'x' ∉ (toString dim.width.toNat).toList := by
    intro h
    have hdigits : (toString dim.width.toNat).toList = Nat.toDigits 10 dim.width.toNat := Nat.toList_repr
    have hdigit := Decimal.isDigit_toDigits 'x' (hdigits ▸ h)
    cases hdigit
  have hsides : ¬((toString dim.width.toNat).toList = [] ∨ (toString dim.height.toNat).toList = []) := by
    rintro (h | h)
    · exact toString_ne_nil _ h
    · exact toString_ne_nil _ h
  unfold parse
  rw [hlist, splitOnce_append hx]
  simp only [if_neg hsides, String.ofList_toList, parseU32_toString]
  rw [new]
  by_cases hproper : dim.Proper
  · rw [if_pos hproper, if_neg (not_or.mpr hproper)]
  · rw [if_neg hproper, if_pos (by simpa [Proper, or_iff_not_imp_left] using hproper)]

end ImageDimensions

/-! ## Hashes -/

/-- `[u8; 32]`. -/
structure Sha256 where
  bytes : Bytes
  size : bytes.length = 32

theorem Sha256.bytes_inj (a b : Sha256) : a.bytes = b.bytes ↔ a = b := by
  cases a
  cases b
  rw [Sha256.mk.injEq]

instance : DecidableEq Sha256 := fun a b => decidable_of_iff (a.bytes = b.bytes) (Sha256.bytes_inj a b)

/-- The hex of a hash. -/
def Sha256.toHex (hash : Sha256) : String := Hex.encode hash.bytes

/-- `parse_sha256`, with the errors of the module that it stands in. -/
def parseSha256 {ε : Type} (invalidLength : Nat → ε) (invalidHex : HexError → ε) (input : String) :
    Except ε Sha256 :=
  if (strBytes input).length ≠ 64 then .error (invalidLength (strBytes input).length)
  else
    match Hex.decodeToSlice 32 (strBytes input) with
    | .error e => .error (invalidHex e)
    | .ok bytes => if h : bytes.length = 32 then .ok ⟨bytes, h⟩ else .error (invalidLength bytes.length)

theorem parseSha256_toHex {ε : Type} (invalidLength : Nat → ε) (invalidHex : HexError → ε) (hash : Sha256) :
    parseSha256 invalidLength invalidHex hash.toHex = .ok hash := by
  have hlen := (Hex.decodePairs_encode hash.bytes).2
  rw [hash.size] at hlen
  rw [parseSha256, Sha256.toHex, if_neg (not_not.mpr hlen), Hex.decodeToSlice_encode hash.size]
  simp only [hash.size, dite_true]

/-! ## File metadata (`nips/nip94.rs`) -/

/-- A thumbnail or a preview, with the hash of its bytes. -/
structure FileVariant where
  url : Url
  hash : Option Sha256
  deriving DecidableEq

structure FileMetadata where
  url : Option Url
  mimeType : Option String
  hash : Option Sha256
  originalHash : Option Sha256
  size : Option UInt64
  dim : Option ImageDimensions
  magnet : Option String
  torrentInfohash : Option String
  blurhash : Option String
  thumb : Option FileVariant
  previewImage : Option FileVariant
  summary : Option String
  alt : Option String
  fallbackUrls : List Url
  service : Option String
  deriving DecidableEq

/-- `FileMetadataError`, without the error of an event of another kind. -/
inductive FileMetadataError where
  | missingUrl
  | missingMimeType
  | missingHash
  | invalidUrl (e : UrlError)
  | invalidHash (e : HexError)
  | invalidHashLength (len : Nat)
  | invalidSize (raw : String)
  | invalidDim (e : ImageError)
  deriving DecidableEq, Repr

namespace FileMetadata

/-! ### Reading -/

/-- `custom_value`. -/
def customValue (tags : Tags) (name : String) : Option String :=
  (tags.items.find? (fun tag => tag.name = name)).bind Tag.content

/-- `single_value`. -/
def singleValue (tags : Tags) (letter : Alphabet) : Option String :=
  (tags.findFirst (.singleLetter (.lowercase letter))).bind Tag.content

/-- `ok_or`. -/
def orElse {α : Type} (e : FileMetadataError) : Option α → Except FileMetadataError α
  | some a => .ok a
  | none => .error e

/-- A column that may be missing. -/
def ifPresent {α : Type} (parse : String → Except FileMetadataError α) :
    Option String → Except FileMetadataError (Option α)
  | some raw => (parse raw).map some
  | none => .ok none

/-- `parse_sha256`. -/
def parseHash : String → Except FileMetadataError Sha256 := parseSha256 .invalidHashLength .invalidHash

/-- The size in bytes. -/
def parseSize (raw : String) : Except FileMetadataError UInt64 :=
  match parseU64 raw with
  | some size => .ok size
  | none => .error (.invalidSize raw)

/-- The dimensions. -/
def parseDim (raw : String) : Except FileMetadataError ImageDimensions :=
  (ImageDimensions.parse raw).mapError .invalidDim

/-- The hash of a variant, in a column that may be missing or empty. -/
def variantHash : Option String → Except FileMetadataError (Option Sha256) := optionalColumn parseHash

section Read

variable (urls : BaseUrlCrate)

/-- A url. -/
def parseUrl (raw : String) : Except FileMetadataError Url := (Url.parseBase urls raw).mapError .invalidUrl

/-- `parse_variant`. -/
def parseVariant (tags : Tags) (name : String) : Except FileMetadataError (Option FileVariant) :=
  match tags.findFirst (.custom name) with
  | none => .ok none
  | some tag =>
      match tag.values[1]? with
      | none => .ok none
      | some urlStr => do
          let url ← parseUrl urls urlStr
          let hash ← variantHash tag.values[2]?
          .ok (some ⟨url, hash⟩)

/-- The `fallback` tags, in order. -/
def fallbacks (tags : Tags) : List String :=
  (tags.items.filter (fun tag => tag.kind = .custom "fallback")).filterMap Tag.content

/-- `FileMetadata::from_tags`. -/
def fromTags (tags : Tags) : Except FileMetadataError FileMetadata := do
  let urlStr ← orElse .missingUrl (customValue tags "url")
  let url ← parseUrl urls urlStr
  let mimeType ← orElse .missingMimeType (singleValue tags .M)
  let hashHex ← orElse .missingHash (singleValue tags .X)
  let hash ← parseHash hashHex
  -- from here on a column may be missing, and is refused if it is there and cannot be read
  let originalHash ← ifPresent parseHash (customValue tags "ox")
  let size ← ifPresent parseSize (customValue tags "size")
  let dim ← ifPresent parseDim (customValue tags "dim")
  let thumb ← parseVariant urls tags "thumb"
  let previewImage ← parseVariant urls tags "image"
  let fallbackUrls ← (fallbacks tags).mapM (parseUrl urls)
  .ok
    { url := some url
      mimeType := some mimeType
      hash := some hash
      originalHash := originalHash
      size := size
      dim := dim
      magnet := customValue tags "magnet"
      torrentInfohash := singleValue tags .I
      blurhash := customValue tags "blurhash"
      thumb := thumb
      previewImage := previewImage
      summary := customValue tags "summary"
      alt := customValue tags "alt"
      fallbackUrls := fallbackUrls
      service := customValue tags "service" }

end Read

/-! ### Writing -/

/-- `custom`. -/
def custom (name : String) (args : List String) : Tag := .withArgs (.custom name) args

/-- `letter`. -/
def letter (alphabet : Alphabet) (args : List String) : Tag := .withArgs (.singleLetter (.lowercase alphabet)) args

@[simp] theorem content_custom (name : String) (args : List String) : (custom name args).content = args.head? :=
  Tag.content_withArgs _ args

@[simp] theorem content_letter (alphabet : Alphabet) (args : List String) :
    (letter alphabet args).content = args.head? :=
  Tag.content_withArgs _ args

/-- `variant_tag`. -/
def variantTag (name : String) (variant : FileVariant) : Tag :=
  custom name (variant.url.serialization :: (variant.hash.map Sha256.toHex).toList)

/-- The tags of the columns that may be missing, in their order. -/
def optionalTags (m : FileMetadata) : List Tag :=
  (m.originalHash.map (fun ox => custom "ox" [ox.toHex])).toList ++
    (m.size.map (fun size => custom "size" [toString size.toNat])).toList ++
    (m.dim.map (fun dim => custom "dim" [dim.text])).toList ++
    (m.magnet.map (fun magnet => custom "magnet" [magnet])).toList ++
    (m.torrentInfohash.map (fun infohash => letter .I [infohash])).toList ++
    (m.blurhash.map (fun blurhash => custom "blurhash" [blurhash])).toList ++
    (m.thumb.map (variantTag "thumb")).toList ++
    (m.previewImage.map (variantTag "image")).toList ++
    (m.summary.map (fun summary => custom "summary" [summary])).toList ++
    (m.alt.map (fun alt => custom "alt" [alt])).toList ++
    m.fallbackUrls.map (fun fallback => custom "fallback" [fallback.serialization]) ++
    (m.service.map (fun service => custom "service" [service])).toList

/-- `FileMetadata::to_tags`. -/
def toTags (m : FileMetadata) : Except FileMetadataError (List Tag) := do
  let url ← orElse .missingUrl m.url
  let mime ← orElse .missingMimeType m.mimeType
  let hash ← orElse .missingHash m.hash
  .ok ([custom "url" [url.serialization], letter .M [mime], letter .X [hash.toHex]] ++ m.optionalTags)

/-! ### The round trip -/

/-- The tags of a name. -/
def named (name : String) (tags : List Tag) : List Tag := tags.filter (fun tag => tag.name = name)

theorem named_append (name : String) (tags tags' : List Tag) :
    named name (tags ++ tags') = named name tags ++ named name tags' :=
  List.filter_append _ _

/-- Tags of one name are found under it, and under no other. -/
theorem named_map {α : Type} (tag : α → Tag) {own : String} (hown : ∀ a, (tag a).name = own) (name : String)
    (l : List α) : named name (l.map tag) = if own = name then l.map tag else [] := by
  by_cases h : own = name
  · rw [if_pos h, named, List.filter_eq_self]
    intro t ht
    obtain ⟨a, -, rfl⟩ := List.mem_map.mp ht
    exact decide_eq_true ((hown a).trans h)
  · rw [if_neg h, named, List.filter_eq_nil_iff]
    intro t ht hname
    obtain ⟨a, -, rfl⟩ := List.mem_map.mp ht
    exact h ((hown a).symm.trans (of_decide_eq_true hname))

/-- **A column has its own tag**: an optional field is found under its own name and under no other. -/
theorem named_column {α : Type} {tag : α → Tag} {own : String} (hown : ∀ a, (tag a).name = own) (name : String)
    (a : Option α) : named name (a.map tag).toList = if own = name then (a.map tag).toList else [] := by
  cases a with
  | none =>
      split
      · rfl
      · rfl
  | some a => exact named_map _ hown name [a]

theorem filter_kind (tags : List Tag) {kind : TagKind} {name : String} (h : TagKind.fromWire name = kind) :
    tags.filter (fun tag => tag.kind = kind) = named name tags := by
  have hsame : ∀ tag : Tag, decide (tag.kind = kind) = decide (tag.name = name) := fun tag =>
    decide_eq_decide.mpr (Tag.kind_eq_iff h)
  rw [named, funext hsame]

/-- The value of a name is that of the first tag of the name. -/
theorem customValue_eq (tags : Tags) (name : String) :
    customValue tags name = (named name tags.items).head?.bind Tag.content := by
  rw [customValue, named, List.head?_filter]

/-- The first tag of a kind is the first of its name. -/
theorem findFirst_eq (tags : Tags) {kind : TagKind} {name : String} (h : TagKind.fromWire name = kind) :
    tags.findFirst kind = (named name tags.items).head? := by
  rw [Tags.findFirst, ← filter_kind tags.items h, List.head?_filter]

/-- The tags of the bundle. -/
def rendered (url mime hash : String) (m : FileMetadata) : Tags :=
  ⟨[custom "url" [url], letter .M [mime], letter .X [hash]] ++ m.optionalTags⟩

section Columns

variable {α : Type} (name own : String) (args : α → List String)

/-- A field with a name of its own is found under it. -/
theorem named_custom (a : Option α) : named name (a.map (fun a => custom own (args a))).toList =
    if own = name then (a.map (fun a => custom own (args a))).toList else [] := by
  have hown : ∀ a, (custom own (args a)).name = own := fun _ => rfl
  exact named_column hown name a

/-- The torrent's hash is found under its letter. -/
theorem named_infohash (a : Option α) : named name (a.map (fun a => letter .I (args a))).toList =
    if "i" = name then (a.map (fun a => letter .I (args a))).toList else [] := by
  have hown : ∀ a, (letter .I (args a)).name = "i" := fun _ => by rfl
  exact named_column hown name a

theorem named_variant (variant : Option FileVariant) : named name (variant.map (variantTag own)).toList =
    if own = name then (variant.map (variantTag own)).toList else [] := by
  have hown : ∀ variant, (variantTag own variant).name = own := fun _ => rfl
  exact named_column hown name variant

theorem named_customs (l : List α) : named name (l.map (fun a => custom own (args a))) =
    if own = name then l.map (fun a => custom own (args a)) else [] := by
  have hown : ∀ a, (custom own (args a)).name = own := fun _ => rfl
  exact named_map _ hown name l

/-- The three required fields are found under their names. -/
theorem named_required (url mime hash : String) :
    named name [custom "url" [url], letter .M [mime], letter .X [hash]] =
      (if "url" = name then [custom "url" [url]] else []) ++ ((if "m" = name then [letter .M [mime]] else []) ++
        (if "x" = name then [letter .X [hash]] else [])) := by
  have hurl := named_map (fun url => custom "url" [url]) (fun _ => rfl) name [url]
  have hm : named name [letter .M [mime]] = if "m" = name then [letter .M [mime]] else [] :=
    named_map (fun mime => letter .M [mime]) (fun _ => by rfl) name [mime]
  have hx : named name [letter .X [hash]] = if "x" = name then [letter .X [hash]] else [] :=
    named_map (fun hash => letter .X [hash]) (fun _ => by rfl) name [hash]
  show named name ([custom "url" [url]] ++ ([letter .M [mime]] ++ [letter .X [hash]])) = _
  rw [named_append, named_append, hm, hx]
  exact congrArg (· ++ _) hurl

end Columns

theorem content_customs {α : Type} (own : String) (text : α → String) (a : Option α) :
    (a.map (fun a => custom own [text a])).bind Tag.content = a.map text := by
  cases a <;> rfl

theorem content_infohash (a : Option String) : (a.map (fun a => letter .I [a])).bind Tag.content = a := by
  cases a <;> rfl

/-- Every column is found where it was written. The tags are searched by their names, and no two columns share one. -/
theorem columns_rendered (url mime hash : String) (m : FileMetadata) :
    customValue (rendered url mime hash m) "url" = some url ∧
    singleValue (rendered url mime hash m) .M = some mime ∧
    singleValue (rendered url mime hash m) .X = some hash ∧
    customValue (rendered url mime hash m) "ox" = m.originalHash.map Sha256.toHex ∧
    customValue (rendered url mime hash m) "size" = m.size.map (fun size => toString size.toNat) ∧
    customValue (rendered url mime hash m) "dim" = m.dim.map ImageDimensions.text ∧
    customValue (rendered url mime hash m) "magnet" = m.magnet ∧
    singleValue (rendered url mime hash m) .I = m.torrentInfohash ∧
    customValue (rendered url mime hash m) "blurhash" = m.blurhash ∧
    (rendered url mime hash m).findFirst (.custom "thumb") = m.thumb.map (variantTag "thumb") ∧
    (rendered url mime hash m).findFirst (.custom "image") = m.previewImage.map (variantTag "image") ∧
    customValue (rendered url mime hash m) "summary" = m.summary ∧
    customValue (rendered url mime hash m) "alt" = m.alt ∧
    fallbacks (rendered url mime hash m) = m.fallbackUrls.map Url.serialization ∧
    customValue (rendered url mime hash m) "service" = m.service := by
  have hm : TagKind.fromWire "m" = .singleLetter (.lowercase .M) := by decide
  have hx : TagKind.fromWire "x" = .singleLetter (.lowercase .X) := by decide
  have hi : TagKind.fromWire "i" = .singleLetter (.lowercase .I) := by decide
  have hthumb : TagKind.fromWire "thumb" = .custom "thumb" := by decide
  have himage : TagKind.fromWire "image" = .custom "image" := by decide
  have hfallback : TagKind.fromWire "fallback" = .custom "fallback" := by decide
  have hall : ∀ name, named name (rendered url mime hash m).items = _ := fun name => by
    simp only [rendered, optionalTags, named_append, named_required, named_custom, named_infohash, named_variant,
      named_customs]
    rfl
  simp only [customValue_eq, singleValue, findFirst_eq _ hm, findFirst_eq _ hx, findFirst_eq _ hi,
    findFirst_eq _ hthumb, findFirst_eq _ himage, fallbacks, filter_kind _ hfallback, hall]
  refine ⟨?_, ?_, ?_, ?_, ?_, ?_, ?_, ?_, ?_, ?_, ?_, ?_, ?_, ?_, ?_⟩
  all_goals simp [Function.comp_def, content_customs, content_infohash]

/-- **Dimensions are read back exactly if no side is zero.** -/
theorem ifPresent_parseDim (dim : Option ImageDimensions) :
    ifPresent parseDim (dim.map ImageDimensions.text) =
      if ∀ d ∈ dim, d.Proper then .ok dim else .error (.invalidDim .zero) := by
  cases dim with
  | none => rfl
  | some dim =>
      show (parseDim dim.text).map some = _
      rw [parseDim, ImageDimensions.parse_text]
      by_cases hproper : dim.Proper
      · rw [if_pos hproper, if_pos (fun d hd => Option.some.inj hd ▸ hproper)]
        rfl
      · rw [if_neg hproper, if_neg (fun hall => hproper (hall dim rfl))]
        rfl

/-- The urls of the bundle were parsed. -/
structure Based (urls : BaseUrlCrate) (m : FileMetadata) : Prop where
  url : ∀ url ∈ m.url, Url.Based urls url
  thumb : ∀ variant ∈ m.thumb, Url.Based urls variant.url
  previewImage : ∀ variant ∈ m.previewImage, Url.Based urls variant.url
  fallbackUrls : ∀ url ∈ m.fallbackUrls, Url.Based urls url

section RoundTrip

variable {urls : BaseUrlCrate} (hreparse : ∀ s url, urls.parse s = .ok url → urls.parse url.serialization = .ok url)
include hreparse

theorem parseUrl_serialization {url : Url} (h : Url.Based urls url) : parseUrl urls url.serialization = .ok url := by
  rw [parseUrl, Url.parseBase_serialization hreparse h]
  rfl

/-- A variant comes back from its tag, with its hash. -/
theorem parseVariant_variantTag {tags : Tags} {name : String} {variant : Option FileVariant}
    (hfind : tags.findFirst (.custom name) = variant.map (variantTag name))
    (hbased : ∀ v ∈ variant, Url.Based urls v.url) : parseVariant urls tags name = .ok variant := by
  rw [parseVariant, hfind]
  obtain _ | ⟨url, _ | hash⟩ := variant
  · rfl
  · have hurl := parseUrl_serialization hreparse (hbased _ rfl)
    show (do let url ← parseUrl urls url.serialization; _) = _
    rw [hurl]
    rfl
  · have hurl := parseUrl_serialization hreparse (hbased _ rfl)
    have hhash : parseHash hash.toHex = .ok hash := parseSha256_toHex _ _ hash
    have hhex : hash.toHex ≠ "" := by
      intro hempty
      rw [hempty] at hhash
      cases hhash
    have hcolumn : variantHash (some hash.toHex) = .ok (some hash) := by
      rw [variantHash, optionalColumn, if_pos hhex, hhash]
      rfl
    show (do
      let url ← parseUrl urls url.serialization
      let hash ← variantHash (some hash.toHex)
      Except.ok (some (FileVariant.mk url hash))) = _
    rw [hurl, hcolumn]
    rfl

theorem mapM_parseUrl {l : List Url} (hbased : ∀ url ∈ l, Url.Based urls url) :
    (l.map Url.serialization).mapM (parseUrl urls) = .ok l := by
  rw [mapM_ok_iff, List.forall₂_map_left_iff, List.forall₂_same]
  intro url hurl
  exact parseUrl_serialization hreparse (hbased url hurl)

/-- What is read of the tags of a bundle. With the columns in hand, each part is parsed back by its own law; the
    dimensions alone can fail. -/
theorem fromTags_rendered {url : Url} {mime : String} {hash : Sha256} {m : FileMetadata} (hurl : m.url = some url)
    (hmime : m.mimeType = some mime) (hhash : m.hash = some hash) (hbased : m.Based urls) :
    fromTags urls (rendered url.serialization mime hash.toHex m) =
      if ∀ d ∈ m.dim, d.Proper then .ok m else .error (.invalidDim .zero) := by
  obtain ⟨hcurl, hcmime, hchash, hcox, hcsize, hcdim, hcmagnet, hcinfohash, hcblurhash, hcthumb, hcimage, hcsummary,
    hcalt, hcfallback, hcservice⟩ := columns_rendered url.serialization mime hash.toHex m
  have hparsed := parseUrl_serialization hreparse (hbased.url url hurl)
  have hhashed : parseHash hash.toHex = .ok hash := parseSha256_toHex _ _ hash
  have hox : ifPresent parseHash (m.originalHash.map Sha256.toHex) = .ok m.originalHash := by
    cases m.originalHash with
    | none => rfl
    | some ox =>
        show (parseHash ox.toHex).map some = _
        rw [parseHash, parseSha256_toHex]
        rfl
  have hsize : ifPresent parseSize (m.size.map (fun size => toString size.toNat)) = .ok m.size := by
    cases m.size with
    | none => rfl
    | some size =>
        show (parseSize (toString size.toNat)).map some = _
        rw [parseSize, parseU64_toString]
        rfl
  have hthumb := parseVariant_variantTag hreparse hcthumb hbased.thumb
  have himage := parseVariant_variantTag hreparse hcimage hbased.previewImage
  have hfallback := mapM_parseUrl hreparse hbased.fallbackUrls
  unfold fromTags
  rw [hcurl, hcmime, hchash, hcox, hcsize, hcdim, hcmagnet, hcinfohash, hcblurhash, hthumb, himage, hcsummary, hcalt,
    hcfallback, hcservice, hox, hsize, hfallback, ifPresent_parseDim]
  by_cases hproper : ∀ d ∈ m.dim, d.Proper
  · simp only [orElse, bind, Except.bind, hparsed, hhashed, if_pos hproper]
    rw [← hurl, ← hmime, ← hhash]
  · simp only [orElse, bind, Except.bind, hparsed, hhashed, if_neg hproper]

/-- **File metadata comes back from its tags** exactly if its dimensions are not zero. -/
theorem fromTags_toTags_iff {m : FileMetadata} (hurl : m.url.isSome = true) (hmime : m.mimeType.isSome = true)
    (hhash : m.hash.isSome = true) (hbased : m.Based urls) :
    ∃ tags, m.toTags = .ok tags ∧ (fromTags urls ⟨tags⟩ = .ok m ↔ ∀ d ∈ m.dim, d.Proper) := by
  obtain ⟨url, hurl⟩ := Option.isSome_iff_exists.mp hurl
  obtain ⟨mime, hmime⟩ := Option.isSome_iff_exists.mp hmime
  obtain ⟨hash, hhash⟩ := Option.isSome_iff_exists.mp hhash
  refine ⟨(rendered url.serialization mime hash.toHex m).items, ?_, ?_⟩
  · rw [toTags, hurl, hmime, hhash]
    rfl
  · show fromTags urls (rendered url.serialization mime hash.toHex m) = .ok m ↔ _
    rw [fromTags_rendered hreparse hurl hmime hhash hbased]
    split
    · rename_i hproper
      exact iff_of_true rfl hproper
    · rename_i hzero
      exact iff_of_false (fun h => by cases h) hzero

end RoundTrip

end FileMetadata

end Nula
