import Nula.Core.Nip10
import Nula.Core.Nip94

/-!
# `Core.Nip92` — media attachments

The metadata of a file inside an `imeta` tag (`nips/nip92.rs`): every entry is a key, a space and a value. The columns
are those of `Core.Nip94` but for the torrent's hash and the hashes of thumbnails and previews, which have no key here.

## Contents
- **The tag.** `toTag` and `fromTag`; `applyField_ok`, what one entry does, and `readFields_ok`, what all of them do.
- **The round trip.** `fromTag_toTag`, and from all of it `media_round_trips_iff`.
-/

namespace Nula

namespace Nip92

/-- `MediaAttachment`: a file that a note shows, by its `imeta` tag. -/
structure MediaAttachment where
  url : Option Url
  mimeType : Option String
  hash : Option Sha256
  originalHash : Option Sha256
  size : Option UInt64
  dim : Option ImageDimensions
  magnet : Option String
  blurhash : Option String
  alt : Option String
  summary : Option String
  thumb : Option FileVariant
  image : Option FileVariant
  fallbackUrls : List Url
  service : Option String
  /-- Unknown keys with their values, in insertion order. -/
  extraFields : List (String × String)
  deriving DecidableEq

inductive MediaAttachmentError where
  | wrongTag
  | missingUrl
  | missingOtherField
  | malformedField (raw : String)
  | invalidSize (raw : String)
  | invalidHashLength (len : Nat)
  | invalidHashHex (e : HexError)
  | invalidUrl (e : UrlError)
  | invalidDim (e : ImageError)
  deriving DecidableEq, Repr

/-- `is_known_key`. -/
def isKnownKey (key : String) : Bool :=
  key ∈ ["url", "m", "x", "ox", "size", "dim", "magnet", "blurhash", "alt", "summary", "thumb", "image", "fallback",
    "service"]

namespace MediaAttachment

/-- `MediaAttachment::default`. -/
def empty : MediaAttachment :=
  ⟨none, none, none, none, none, none, none, none, none, none, none, none, [], none, []⟩

/-- `MediaAttachment::new`. -/
def new (url : Url) : MediaAttachment := { empty with url := some url }

/-- `MediaAttachment::extra`: known keys are dropped. -/
def extra (key value : String) (a : MediaAttachment) : MediaAttachment :=
  if isKnownKey key = true then a else { a with extraFields := a.extraFields ++ [(key, value)] }

/-- An attachment built with its setters. Each of the others sets a column of its own. -/
inductive Built : MediaAttachment → Prop where
  | new (url : Url) : Built (new url)
  | set {a b : MediaAttachment} : Built a → b.url = a.url → b.extraFields = a.extraFields → Built b
  | extra {a : MediaAttachment} (key value : String) : Built a → Built (a.extra key value)

/-! ## Writing -/

/-- An entry: the key, a space and the value. -/
def field (key value : String) : String := key ++ " " ++ value

/-- `push_optional`, as the entries that it pushes. -/
def pushOptional (key : String) (value : Option String) : List String := (value.map (field key)).toList

/-- The entries besides the url, in their order. -/
def otherFields (a : MediaAttachment) : List String :=
  pushOptional "m" a.mimeType ++ (pushOptional "x" (a.hash.map Sha256.toHex) ++
    (pushOptional "ox" (a.originalHash.map Sha256.toHex) ++
      (pushOptional "size" (a.size.map (fun size => toString size.toNat)) ++
        (pushOptional "dim" (a.dim.map ImageDimensions.text) ++ (pushOptional "magnet" a.magnet ++
          (pushOptional "blurhash" a.blurhash ++ (pushOptional "alt" a.alt ++ (pushOptional "summary" a.summary ++
            (pushOptional "thumb" (a.thumb.map (fun thumb => thumb.url.serialization)) ++
              (pushOptional "image" (a.image.map (fun image => image.url.serialization)) ++
                (a.fallbackUrls.map (fun fb => field "fallback" fb.serialization) ++
                  (pushOptional "service" a.service ++
                    a.extraFields.map (fun (k, v) => field k v)))))))))))))

/-- `MediaAttachment::to_tag`. -/
def toTag (a : MediaAttachment) : Except MediaAttachmentError Tag :=
  match a.url with
  | none => .error .missingUrl
  | some url =>
      if a.otherFields = [] then .error .missingOtherField
      else .ok (.withArgs (TagKind.fromWire "imeta") (field "url" url.serialization :: a.otherFields))

/-! ## Reading -/

/-- `split_field`. -/
def splitField (raw : String) : Except MediaAttachmentError (String × String) :=
  match splitOnce ' ' raw.toList with
  | some (key, value) => .ok (String.ofList key, String.ofList value)
  | none => .error (.malformedField raw)

/-- `parse_sha256`. -/
def parseHash : String → Except MediaAttachmentError Sha256 := parseSha256 .invalidHashLength .invalidHashHex

/-- The size in bytes. -/
def parseSize (raw : String) : Except MediaAttachmentError UInt64 :=
  match parseU64 raw with
  | some size => .ok size
  | none => .error (.invalidSize raw)

/-- The dimensions. -/
def parseDim (raw : String) : Except MediaAttachmentError ImageDimensions :=
  (ImageDimensions.parse raw).mapError .invalidDim

section Read

variable (urls : BaseUrlCrate)

/-- A url. -/
def parseUrl (raw : String) : Except MediaAttachmentError Url := (Url.parseBase urls raw).mapError .invalidUrl

/-- `apply_field`. -/
def applyField (out : MediaAttachment) (key value : String) : Except MediaAttachmentError MediaAttachment :=
  match key with
  | "url" => (parseUrl urls value).map (fun url => { out with url := some url })
  | "m" => .ok { out with mimeType := some value }
  | "x" => (parseHash value).map (fun hash => { out with hash := some hash })
  | "ox" => (parseHash value).map (fun hash => { out with originalHash := some hash })
  | "size" => (parseSize value).map (fun size => { out with size := some size })
  | "dim" => (parseDim value).map (fun dim => { out with dim := some dim })
  | "magnet" => .ok { out with magnet := some value }
  | "blurhash" => .ok { out with blurhash := some value }
  | "alt" => .ok { out with alt := some value }
  | "summary" => .ok { out with summary := some value }
  -- a variant loses the hash that it may have in a NIP-94 event
  | "thumb" => (parseUrl urls value).map (fun url => { out with thumb := some ⟨url, none⟩ })
  | "image" => (parseUrl urls value).map (fun url => { out with image := some ⟨url, none⟩ })
  | "fallback" => (parseUrl urls value).map (fun url => { out with fallbackUrls := out.fallbackUrls ++ [url] })
  | "service" => .ok { out with service := some value }
  -- a key of no meaning is kept as it came
  | other => .ok { out with extraFields := out.extraFields ++ [(other, value)] }

/-- One entry of the loop of `from_tag`, with the count of the entries besides the url. -/
def readField (read : MediaAttachment × Nat) (entry : String) :
    Except MediaAttachmentError (MediaAttachment × Nat) := do
  let (key, value) ← splitField entry
  let attachment ← applyField urls read.1 key value
  .ok (attachment, if key ≠ "url" then read.2 + 1 else read.2)

/-- `MediaAttachment::from_tag`. -/
def fromTag (tag : Tag) : Except MediaAttachmentError MediaAttachment :=
  if tag.name ≠ "imeta" then .error .wrongTag
  else do
    let (attachment, otherFieldCount) ← (tag.values.drop 1).foldlM (readField urls) (empty, 0)
    if attachment.url = none then .error .missingUrl
    else if otherFieldCount = 0 then .error .missingOtherField
    else .ok attachment

end Read

/-! ## File metadata -/

/-- `MediaAttachment::from_file_metadata`. -/
def fromFileMetadata (m : FileMetadata) : MediaAttachment where
  url := m.url
  mimeType := m.mimeType
  hash := m.hash
  originalHash := m.originalHash
  size := m.size
  dim := m.dim
  magnet := m.magnet
  blurhash := m.blurhash
  alt := m.alt
  summary := m.summary
  thumb := m.thumb
  image := m.previewImage
  fallbackUrls := m.fallbackUrls
  service := m.service
  -- a NIP-94 event says no further fields
  extraFields := []

/-- `MediaAttachment::to_file_metadata`. -/
def toFileMetadata (a : MediaAttachment) : FileMetadata where
  url := a.url
  mimeType := a.mimeType
  hash := a.hash
  originalHash := a.originalHash
  size := a.size
  dim := a.dim
  magnet := a.magnet
  -- no entry of an `imeta` tag says it
  torrentInfohash := none
  blurhash := a.blurhash
  thumb := a.thumb
  previewImage := a.image
  summary := a.summary
  alt := a.alt
  fallbackUrls := a.fallbackUrls
  service := a.service

/-- Only the hash of the torrent is lost on the way. -/
theorem toFileMetadata_fromFileMetadata_iff (m : FileMetadata) :
    (fromFileMetadata m).toFileMetadata = m ↔ m.torrentInfohash = none := by
  constructor
  · intro h
    exact (congrArg FileMetadata.torrentInfohash h).symm
  · intro h
    obtain ⟨url, mimeType, hash, originalHash, size, dim, magnet, torrentInfohash, rest⟩ := m
    cases h
    rfl

/-! ## What is read -/

/-- What the entries of a tag can say: no hash of a thumbnail or a preview, and no side of zero. -/
structure Sayable (a : MediaAttachment) : Prop where
  dim : ∀ d ∈ a.dim, d.Proper
  thumb : ∀ variant ∈ a.thumb, variant.hash = none
  image : ∀ variant ∈ a.image, variant.hash = none

theorem proper_of_parseDim {raw : String} {dim : ImageDimensions} (h : parseDim raw = .ok dim) : dim.Proper := by
  rw [parseDim, mapError_ok_iff] at h
  unfold ImageDimensions.parse at h
  split at h
  · cases h
  split at h
  · cases h
  split at h
  · cases h
  split at h
  · cases h
  unfold ImageDimensions.new at h
  split at h
  · cases h
  · rename_i hzero
    cases h
    exact not_or.mp hzero

section Reading

variable {urls : BaseUrlCrate}

/-- One entry sets the url or leaves it, and keeps what is sayable so. One case for each key of the `match`. -/
theorem applyField_ok {out out' : MediaAttachment} {key value : String}
    (h : applyField urls out key value = .ok out') :
    (out'.url.isSome = true ↔ out.url.isSome = true ∨ key = "url") ∧ (Sayable out → Sayable out') := by
  unfold applyField at h
  split at h
  · obtain ⟨url, -, rfl⟩ := map_ok_iff.mp h
    exact ⟨by simp, fun hout => ⟨hout.dim, hout.thumb, hout.image⟩⟩
  · cases h
    exact ⟨by simp, fun hout => ⟨hout.dim, hout.thumb, hout.image⟩⟩
  · obtain ⟨hash, -, rfl⟩ := map_ok_iff.mp h
    exact ⟨by simp, fun hout => ⟨hout.dim, hout.thumb, hout.image⟩⟩
  · obtain ⟨hash, -, rfl⟩ := map_ok_iff.mp h
    exact ⟨by simp, fun hout => ⟨hout.dim, hout.thumb, hout.image⟩⟩
  · obtain ⟨size, -, rfl⟩ := map_ok_iff.mp h
    exact ⟨by simp, fun hout => ⟨hout.dim, hout.thumb, hout.image⟩⟩
  · obtain ⟨dim, hdim, rfl⟩ := map_ok_iff.mp h
    refine ⟨by simp, fun hout => ⟨fun d hd => ?_, hout.thumb, hout.image⟩⟩
    cases hd
    exact proper_of_parseDim hdim
  · cases h
    exact ⟨by simp, fun hout => ⟨hout.dim, hout.thumb, hout.image⟩⟩
  · cases h
    exact ⟨by simp, fun hout => ⟨hout.dim, hout.thumb, hout.image⟩⟩
  · cases h
    exact ⟨by simp, fun hout => ⟨hout.dim, hout.thumb, hout.image⟩⟩
  · cases h
    exact ⟨by simp, fun hout => ⟨hout.dim, hout.thumb, hout.image⟩⟩
  · obtain ⟨url, -, rfl⟩ := map_ok_iff.mp h
    refine ⟨by simp, fun hout => ⟨hout.dim, fun variant hvariant => ?_, hout.image⟩⟩
    cases hvariant
    rfl
  · obtain ⟨url, -, rfl⟩ := map_ok_iff.mp h
    refine ⟨by simp, fun hout => ⟨hout.dim, hout.thumb, fun variant hvariant => ?_⟩⟩
    cases hvariant
    rfl
  · obtain ⟨url, -, rfl⟩ := map_ok_iff.mp h
    exact ⟨by simp, fun hout => ⟨hout.dim, hout.thumb, hout.image⟩⟩
  · cases h
    exact ⟨by simp, fun hout => ⟨hout.dim, hout.thumb, hout.image⟩⟩
  · rename_i hother _ _ _ _ _ _ _ _ _ _ _ _ _
    cases h
    exact ⟨⟨Or.inl, fun h => h.resolve_right hother⟩, fun hout => ⟨hout.dim, hout.thumb, hout.image⟩⟩

/-- The key of an entry, if it has one. -/
def keyOf (entry : String) : Option String := (splitField entry).toOption.map Prod.fst

/-- The keys of the entries of a tag. -/
def keys (tag : Tag) : List String := (tag.values.drop 1).filterMap keyOf

/-- What the loop counts of the keys it has seen. By induction on the entries, with `applyField_ok` for one. -/
theorem readFields_ok {entries : List String} {read read' : MediaAttachment × Nat}
    (h : entries.foldlM (readField urls) read = .ok read') :
    (read'.1.url.isSome = true ↔ read.1.url.isSome = true ∨
      "url" ∈ entries.filterMap keyOf) ∧
    read'.2 = read.2 + ((entries.filterMap keyOf).filter (fun key => key ≠ "url")).length ∧
    (Sayable read.1 → Sayable read'.1) := by
  induction entries generalizing read with
  | nil =>
      cases h
      simp
  | cons entry entries ih =>
      rw [List.foldlM_cons, bind_ok_iff] at h
      obtain ⟨middle, hmiddle, hrest⟩ := h
      obtain ⟨hurl, hcount, hsayable⟩ := ih hrest
      rw [readField, bind_ok_iff] at hmiddle
      obtain ⟨⟨key, value⟩, hsplit, hmiddle⟩ := hmiddle
      obtain ⟨attachment, happly, hmiddle⟩ := bind_ok_iff.mp hmiddle
      cases hmiddle
      obtain ⟨hset, hkeep⟩ := applyField_ok happly
      have hkey : keyOf entry = some key := by
        rw [keyOf, hsplit]
        rfl
      rw [List.filterMap_cons_some hkey]
      refine ⟨?_, ?_, fun hread => hsayable (hkeep hread)⟩
      · rw [hurl, hset, List.mem_cons, or_assoc, eq_comm (a := key)]
      · rw [hcount]
        by_cases hu : key = "url"
        · simp [hu]
        · simp [hu]
          omega

/-- What an accepted tag has, and what can be read of it. -/
theorem fromTag_ok {tag : Tag} {a : MediaAttachment} (h : fromTag urls tag = .ok a) :
    "url" ∈ keys tag ∧ (keys tag).filter (fun key => key ≠ "url") ≠ [] ∧ Sayable a := by
  unfold fromTag at h
  split at h
  · cases h
  obtain ⟨⟨attachment, otherFieldCount⟩, hread, h⟩ := bind_ok_iff.mp h
  obtain ⟨hurl, hcount, hsayable⟩ := readFields_ok hread
  simp only at h
  split at h
  · cases h
  rename_i hsome
  split at h
  · cases h
  rename_i hothers
  cases h
  refine ⟨?_, ?_, ?_⟩
  · rcases hurl.mp (Option.isSome_iff_ne_none.mpr hsome) with hempty | hkey
    · cases hempty
    · exact hkey
  · intro hnil
    have hzero : otherFieldCount = 0 := hcount.trans ((Nat.zero_add _).trans (congrArg List.length hnil))
    exact hothers hzero
  · exact hsayable ⟨(fun d hd => by cases hd), (fun v hv => by cases hv), (fun v hv => by cases hv)⟩

/-! ## The round trip -/

/-- A field is split at its first blank, behind the key. -/
theorem splitField_field {key : String} (hkey : ' ' ∉ key.toList) (value : String) :
    splitField (field key value) = .ok (key, value) := by
  have hlist : (field key value).toList = key.toList ++ ' ' :: value.toList := by
    simp [field]
  rw [splitField, hlist, splitOnce_append hkey]
  simp only [String.ofList_toList]

theorem readField_field {key value : String} {out out' : MediaAttachment} (n : Nat) (hkey : ' ' ∉ key.toList)
    (happly : applyField urls out key value = .ok out') :
    readField urls (out, n) (field key value) = .ok (out', if key ≠ "url" then n + 1 else n) := by
  rw [readField, splitField_field hkey]
  simp only [bind, Except.bind, happly]

variable (urls) in
/-- The entries make one attachment of another, and none of them is the url. -/
def Reads (out : MediaAttachment) (entries : List String) (out' : MediaAttachment) : Prop :=
  ∀ n, entries.foldlM (readField urls) (out, n) = .ok (out', n + entries.length)

/-- A key that ends at the first space and is not that of the url. -/
def Plain (key : String) : Prop := ' ' ∉ key.toList ∧ key ≠ "url"

instance (key : String) : Decidable (Plain key) := inferInstanceAs (Decidable (_ ∧ _))

theorem Reads.append {out mid out' : MediaAttachment} {entries entries' : List String} (h : Reads urls out entries mid)
    (h' : Reads urls mid entries' out') : Reads urls out (entries ++ entries') out' := by
  intro n
  rw [foldlM_append_of_ok (h n), h', List.length_append, Nat.add_assoc]

theorem reads_field {key value : String} {out out' : MediaAttachment} (hkey : Plain key)
    (happly : applyField urls out key value = .ok out') : Reads urls out [field key value] out' := by
  intro n
  rw [List.foldlM_cons, readField_field n hkey.1 happly, if_pos hkey.2]
  rfl

/-- A column is read into its place. -/
theorem reads_column {key : String} {α : Type} {text : α → String} {a : Option α} {out : MediaAttachment}
    (put : Option α → MediaAttachment) (hkey : Plain key) (hnone : put none = out)
    (happly : ∀ v ∈ a, applyField urls out key (text v) = .ok (put (some v))) :
    Reads urls out (pushOptional key (a.map text)) (put a) := by
  cases a with
  | none =>
      intro n
      rw [hnone]
      rfl
  | some v => exact reads_field hkey (happly v rfl)

/-- **An optional text is read back**: absent it is not written, and present it is put where its key says. -/
theorem reads_text {key : String} {a : Option String} {out : MediaAttachment} (put : Option String → MediaAttachment)
    (hkey : Plain key) (hnone : put none = out)
    (happly : ∀ v, applyField urls out key v = .ok (put (some v))) : Reads urls out (pushOptional key a) (put a) := by
  have h : Reads urls out (pushOptional key (a.map id)) (put a) := reads_column put hkey hnone (fun v _ => happly v)
  rwa [Option.map_id] at h

/-- Entries that each add to a list add all of it. -/
theorem reads_list {β : Type} (render : β → String × String) (put : MediaAttachment → List β → MediaAttachment)
    (hnil : ∀ out, put out [] = out) (hcons : ∀ out v l, put out (v :: l) = put (put out [v]) l) {l : List β}
    (hkey : ∀ v ∈ l, Plain (render v).1)
    (happly : ∀ v ∈ l, ∀ out, applyField urls out (render v).1 (render v).2 = .ok (put out [v]))
    (out : MediaAttachment) :
    Reads urls out (l.map (fun v => field (render v).1 (render v).2)) (put out l) := by
  induction l generalizing out with
  | nil =>
      intro n
      rw [hnil]
      rfl
  | cons v l ih =>
      obtain ⟨hv, hl⟩ := List.forall_mem_cons.mp hkey
      obtain ⟨hav, hal⟩ := List.forall_mem_cons.mp happly
      rw [hcons]
      exact (reads_field hv (hav out)).append (ih hl hal (put out [v]))

/-- A key that is not known is kept with its value. -/
theorem applyField_unknown {key value : String} (h : isKnownKey key = false) (out : MediaAttachment) :
    applyField urls out key value = .ok { out with extraFields := out.extraFields ++ [(key, value)] } := by
  unfold applyField
  split
  all_goals first
    | rfl
    | exact absurd h (by decide)

/-- An unknown key without a blank can be told from its value. -/
theorem plain_of_unknown {key : String} (h : isKnownKey key = false) (hkey : ' ' ∉ key.toList) : Plain key := by
  refine ⟨hkey, ?_⟩
  rintro rfl
  exact absurd h (by decide)

end Reading

/-- The urls of the attachment were parsed. -/
structure Based (urls : BaseUrlCrate) (a : MediaAttachment) : Prop where
  url : ∀ url ∈ a.url, Url.Based urls url
  thumb : ∀ variant ∈ a.thumb, Url.Based urls variant.url
  image : ∀ variant ∈ a.image, Url.Based urls variant.url
  fallbackUrls : ∀ url ∈ a.fallbackUrls, Url.Based urls url

/-- Setters leave a url, and extra fields with unknown keys. -/
theorem Built.known {a : MediaAttachment} (h : Built a) :
    a.url.isSome = true ∧ ∀ entry ∈ a.extraFields, isKnownKey entry.1 = false := by
  induction h with
  | new url => exact ⟨rfl, fun entry hentry => by cases hentry⟩
  | set _ hurl hextra ih => rwa [hurl, hextra]
  | @extra a key value _ ih =>
      rw [MediaAttachment.extra]
      by_cases hkey : isKnownKey key = true
      · rwa [if_pos hkey]
      · rw [if_neg hkey]
        refine ⟨ih.1, fun entry hentry => ?_⟩
        rcases List.mem_append.mp hentry with hentry | hentry
        · exact ih.2 entry hentry
        · obtain rfl := List.mem_singleton.mp hentry
          exact Bool.not_eq_true _ ▸ hkey

section RoundTrip

variable {urls : BaseUrlCrate} (hreparse : ∀ s url, urls.parse s = .ok url → urls.parse url.serialization = .ok url)
include hreparse

theorem parseUrl_serialization {url : Url} (h : Url.Based urls url) : parseUrl urls url.serialization = .ok url := by
  rw [parseUrl, Url.parseBase_serialization hreparse h]
  rfl

/-- The entries of an attachment make it of its url. Each column is read into its own field and leaves the others, so
    the columns may be read one after the other from the attachment that has the url only. -/
theorem reads_otherFields {a : MediaAttachment} (hbased : a.Based urls) (hsayable : a.Sayable)
    (hextra : ∀ entry ∈ a.extraFields, isKnownKey entry.1 = false ∧ ' ' ∉ entry.1.toList) :
    Reads urls { empty with url := a.url } a.otherFields a := by
  have hhex : ∀ hash : Sha256, parseHash hash.toHex = .ok hash := fun hash => parseSha256_toHex _ _ hash
  have hm : ∀ out, Reads urls out (pushOptional "m" a.mimeType) { out with mimeType := a.mimeType.or out.mimeType } :=
    fun out => reads_text (fun v => { out with mimeType := v.or out.mimeType }) (by decide) rfl (fun _ => rfl)
  have hx : ∀ out, Reads urls out (pushOptional "x" (a.hash.map Sha256.toHex))
      { out with hash := a.hash.or out.hash } := by
    intro out
    refine reads_column (fun v => { out with hash := v.or out.hash }) (by decide) rfl (fun hash _ => ?_)
    show (parseHash hash.toHex).map _ = _
    rw [hhex]
    rfl
  have hox : ∀ out, Reads urls out (pushOptional "ox" (a.originalHash.map Sha256.toHex))
      { out with originalHash := a.originalHash.or out.originalHash } := by
    intro out
    refine reads_column (fun v => { out with originalHash := v.or out.originalHash }) (by decide) rfl (fun hash _ => ?_)
    show (parseHash hash.toHex).map _ = _
    rw [hhex]
    rfl
  have hsize : ∀ out, Reads urls out (pushOptional "size" (a.size.map (fun size => toString size.toNat)))
      { out with size := a.size.or out.size } := by
    intro out
    refine reads_column (fun v => { out with size := v.or out.size }) (by decide) rfl (fun size _ => ?_)
    show (parseSize (toString size.toNat)).map _ = _
    rw [parseSize, parseU64_toString]
    rfl
  have hdim : ∀ out, Reads urls out (pushOptional "dim" (a.dim.map ImageDimensions.text))
      { out with dim := a.dim.or out.dim } := by
    intro out
    refine reads_column (fun v => { out with dim := v.or out.dim }) (by decide) rfl (fun dim hdim => ?_)
    show (parseDim dim.text).map _ = _
    rw [parseDim, ImageDimensions.parse_text, if_pos (hsayable.dim dim hdim)]
    rfl
  have hmagnet : ∀ out, Reads urls out (pushOptional "magnet" a.magnet) { out with magnet := a.magnet.or out.magnet } :=
    fun out => reads_text (fun v => { out with magnet := v.or out.magnet }) (by decide) rfl (fun _ => rfl)
  have hblurhash : ∀ out, Reads urls out (pushOptional "blurhash" a.blurhash)
      { out with blurhash := a.blurhash.or out.blurhash } :=
    fun out => reads_text (fun v => { out with blurhash := v.or out.blurhash }) (by decide) rfl (fun _ => rfl)
  have halt : ∀ out, Reads urls out (pushOptional "alt" a.alt) { out with alt := a.alt.or out.alt } :=
    fun out => reads_text (fun v => { out with alt := v.or out.alt }) (by decide) rfl (fun _ => rfl)
  have hsummary : ∀ out, Reads urls out (pushOptional "summary" a.summary)
      { out with summary := a.summary.or out.summary } :=
    fun out => reads_text (fun v => { out with summary := v.or out.summary }) (by decide) rfl (fun _ => rfl)
  have hthumb : ∀ out, Reads urls out (pushOptional "thumb" (a.thumb.map (fun thumb => thumb.url.serialization)))
      { out with thumb := a.thumb.or out.thumb } := by
    intro out
    refine reads_column (fun v => { out with thumb := v.or out.thumb }) (by decide) rfl
      (fun variant hvariant => ?_)
    have hurl := parseUrl_serialization hreparse (hbased.thumb variant hvariant)
    have hnone := hsayable.thumb variant hvariant
    obtain ⟨url, hash⟩ := variant
    obtain rfl : hash = none := hnone
    show (parseUrl urls url.serialization).map _ = _
    rw [hurl]
    rfl
  have himage : ∀ out, Reads urls out (pushOptional "image" (a.image.map (fun image => image.url.serialization)))
      { out with image := a.image.or out.image } := by
    intro out
    refine reads_column (fun v => { out with image := v.or out.image }) (by decide) rfl
      (fun variant hvariant => ?_)
    have hurl := parseUrl_serialization hreparse (hbased.image variant hvariant)
    have hnone := hsayable.image variant hvariant
    obtain ⟨url, hash⟩ := variant
    obtain rfl : hash = none := hnone
    show (parseUrl urls url.serialization).map _ = _
    rw [hurl]
    rfl
  have hfallback : ∀ out, Reads urls out (a.fallbackUrls.map (fun fb => field "fallback" fb.serialization))
      { out with fallbackUrls := out.fallbackUrls ++ a.fallbackUrls } := by
    intro out
    have hkey : Plain "fallback" := by decide
    refine reads_list (fun fb : Url => ("fallback", fb.serialization))
      (fun out l => { out with fallbackUrls := out.fallbackUrls ++ l }) (fun out => by rw [List.append_nil])
      (fun out v l => by rw [List.append_assoc, List.singleton_append]) (fun _ _ => hkey)
      (fun fb hfb out => ?_) out
    show (parseUrl urls fb.serialization).map _ = _
    rw [parseUrl_serialization hreparse (hbased.fallbackUrls fb hfb)]
    rfl
  have hservice : ∀ out, Reads urls out (pushOptional "service" a.service)
      { out with service := a.service.or out.service } :=
    fun out => reads_text (fun v => { out with service := v.or out.service }) (by decide) rfl (fun _ => rfl)
  have hextras : ∀ out, Reads urls out (a.extraFields.map (fun (k, v) => field k v))
      { out with extraFields := out.extraFields ++ a.extraFields } := by
    intro out
    exact reads_list (fun entry : String × String => entry)
      (fun out l => { out with extraFields := out.extraFields ++ l }) (fun out => by rw [List.append_nil])
      (fun out v l => by rw [List.append_assoc, List.singleton_append])
      (fun entry hentry => plain_of_unknown (hextra entry hentry).1 (hextra entry hentry).2)
      (fun entry hentry out => applyField_unknown (hextra entry hentry).1 out) out
  have h := (hm { empty with url := a.url }).append ((hx _).append ((hox _).append ((hsize _).append ((hdim _).append
    ((hmagnet _).append ((hblurhash _).append ((halt _).append ((hsummary _).append ((hthumb _).append
      ((himage _).append ((hfallback _).append ((hservice _).append (hextras _)))))))))))))
  simp only [empty, Option.or_none, List.nil_append] at h
  exact h

/-- **An attachment comes back from its tag** exactly if the tag can say it. What is read has proper dimensions and
    bare variants, hence one direction; for the other the entries are read as they were written. -/
theorem fromTag_toTag_iff {a : MediaAttachment} {tag : Tag} (hbased : a.Based urls)
    (hextra : ∀ entry ∈ a.extraFields, isKnownKey entry.1 = false ∧ ' ' ∉ entry.1.toList) (h : a.toTag = .ok tag) :
    fromTag urls tag = .ok a ↔ a.Sayable := by
  constructor
  · intro hread
    exact (fromTag_ok hread).2.2
  · intro hsayable
    rw [toTag] at h
    cases hurl : a.url with
    | none =>
        rw [hurl] at h
        cases h
    | some url =>
        simp only [hurl] at h
        split at h
        · cases h
        rename_i hothers
        cases h
        have hfirst : readField urls (empty, 0) (field "url" url.serialization) =
            .ok ({ empty with url := a.url }, 0) := by
          rw [readField, splitField_field (by decide)]
          show (do let attachment ← (parseUrl urls url.serialization).map _; _) = _
          rw [parseUrl_serialization hreparse (hbased.url url hurl), hurl]
          rfl
        have hall : (field "url" url.serialization :: a.otherFields).foldlM (readField urls) (empty, 0) =
            .ok (a, a.otherFields.length) := by
          rw [List.foldlM_cons, hfirst]
          show List.foldlM _ _ _ = _
          rw [reads_otherFields hreparse hbased hsayable hextra 0, Nat.zero_add]
        have himeta : (Tag.withArgs (TagKind.fromWire "imeta") (field "url" url.serialization :: a.otherFields)).name =
            "imeta" := by rfl
        have hurlSome : a.url ≠ none := by
          rw [hurl]
          exact Option.some_ne_none url
        have hcount : a.otherFields.length ≠ 0 := fun hzero => hothers (List.length_eq_zero_iff.mp hzero)
        rw [fromTag, if_neg (not_not.mpr himeta)]
        refine bind_ok_iff.mpr ⟨(a, a.otherFields.length), hall, ?_⟩
        show (if a.url = none then Except.error _ else if a.otherFields.length = 0 then _ else _) = _
        rw [if_neg hurlSome, if_neg hcount]

end RoundTrip

end MediaAttachment

open MediaAttachment in
/-- **What media metadata survives.** An attachment comes back from its tag exactly if no thumbnail or preview of it has
    a hash and no side of it is zero; an accepted tag has one url and something else exactly if it has no second url;
    file metadata comes back from its tags exactly if no side is zero, and from an attachment exactly if it names no
    torrent.

    Each entry is read into the field it was written from, and fields do not disturb each other
    (`reads_otherFields`); the five functions then differ only in the fields they leave out. -/
theorem media_round_trips_iff (urls : BaseUrlCrate)
    (hreparse : ∀ s url, urls.parse s = .ok url → urls.parse url.serialization = .ok url) :
    (∀ a : MediaAttachment, Built a → a.Based urls → (∀ entry ∈ a.extraFields, ' ' ∉ entry.1.toList) →
      ∀ tag, a.toTag = .ok tag → (fromTag urls tag = .ok a ↔ a.Sayable)) ∧
    (∀ tag, (∃ a, fromTag urls tag = .ok a) →
      ((keys tag).count "url" = 1 ∧ (∃ key ∈ keys tag, key ≠ "url") ↔ (keys tag).count "url" ≤ 1)) ∧
    (∀ m : FileMetadata, m.url.isSome = true → m.mimeType.isSome = true → m.hash.isSome = true → m.Based urls →
      (∃ tags, m.toTags = .ok tags ∧ (FileMetadata.fromTags urls ⟨tags⟩ = .ok m ↔ ∀ d ∈ m.dim, d.Proper)) ∧
      ((fromFileMetadata m).toFileMetadata = m ↔ m.torrentInfohash = none)) := by
  refine ⟨?_, ?_, ?_⟩
  · intro a hbuilt hbased hkeys tag htag
    have hextra : ∀ entry ∈ a.extraFields, isKnownKey entry.1 = false ∧ ' ' ∉ entry.1.toList := fun entry hentry =>
      ⟨hbuilt.known.2 entry hentry, hkeys entry hentry⟩
    exact fromTag_toTag_iff hreparse hbased hextra htag
  · rintro tag ⟨a, ha⟩
    obtain ⟨hurl, hothers, -⟩ := fromTag_ok ha
    have hone : 0 < (keys tag).count "url" := List.count_pos_iff.mpr hurl
    constructor
    · rintro ⟨hcount, -⟩
      exact hcount.le
    · intro hcount
      obtain ⟨key, hkey⟩ := List.exists_mem_of_ne_nil _ hothers
      obtain ⟨hmem, hne⟩ := List.mem_filter.mp hkey
      exact ⟨le_antisymm hcount hone, key, hmem, of_decide_eq_true hne⟩
  · intro m hurl hmime hhash hbased
    exact ⟨FileMetadata.fromTags_toTags_iff hreparse hurl hmime hhash hbased, toFileMetadata_fromFileMetadata_iff m⟩

end Nip92

/-! A picture with a thumbnail, whose bytes may be pinned. -/

namespace Sample

open Nip92

/-- Urls in which every one can be a base. -/
def baseUrls : BaseUrlCrate := { hintUrls with cannotBeABase := fun _ => false }

theorem baseUrls_reparse (s : String) (url : Url) (h : baseUrls.parse s = .ok url) :
    baseUrls.parse url.serialization = .ok url :=
  hintUrls_lawful.reparse url (.parse h)

/-- A digest. -/
def digest : Sha256 := ⟨List.replicate 32 7, by decide⟩

/-- An attachment with a thumbnail. -/
def pictured (hash : Option Sha256) : MediaAttachment :=
  { MediaAttachment.new hint.inner with thumb := some ⟨hint.inner, hash⟩ }

/-- File metadata with the hash of a torrent. -/
def torrent : FileMetadata :=
  ⟨some hint.inner, some "image/jpeg", some digest, none, none, none, none, some "abcd", none, none, none, none, none,
    [], none⟩

/-- File metadata with a size, and no torrent. -/
def photo : FileMetadata := { torrent with torrentInfohash := none, dim := some ⟨640, 480⟩ }

/-- A tag with two urls. -/
def twice : Tag := .withArgs (.custom "imeta") ["url wss://r.example/", "url wss://r.example/", "m image/jpeg"]

theorem pictured_built (hash : Option Sha256) : MediaAttachment.Built (pictured hash) :=
  .set (.new hint.inner) rfl rfl

theorem hint_based : Url.Based baseUrls hint.inner := ⟨hint.asStr, by decide⟩

theorem pictured_based (hash : Option Sha256) : (pictured hash).Based baseUrls := by
  have hbased := hint_based
  refine ⟨fun url hurl => ?_, fun variant hvariant => ?_, ?_, ?_⟩
  · cases hurl
    exact hbased
  · cases hvariant
    exact hbased
  · intro variant hvariant
    cases hvariant
  · intro url hurl
    cases hurl

/-- Without the thumbnail's hash, the tag can say it. -/
theorem pictured_sayable : MediaAttachment.Sayable (pictured none) := by
  refine ⟨fun d hd => ?_, fun variant hvariant => ?_, fun variant hvariant => ?_⟩
  · cases hd
  · cases hvariant
    rfl
  · cases hvariant

theorem photo_based : photo.Based baseUrls where
  url url hurl := by
    cases hurl
    exact hint_based
  thumb variant hvariant := by cases hvariant
  previewImage variant hvariant := by cases hvariant
  fallbackUrls url hurl := by cases hurl

end Sample

open Sample Nip92 in
/-- An attachment, its tag, and file metadata as tags and as an attachment. -/
theorem Nip92.media_round_trips_pictured :
    (∃ tag, (pictured none).toTag = .ok tag ∧ MediaAttachment.fromTag baseUrls tag = .ok (pictured none) ∧
      (MediaAttachment.keys tag).count "url" = 1 ∧ ∃ key ∈ MediaAttachment.keys tag, key ≠ "url") ∧
    (∃ tags, photo.toTags = .ok tags ∧ FileMetadata.fromTags baseUrls ⟨tags⟩ = .ok photo) ∧
    (MediaAttachment.fromFileMetadata photo).toFileMetadata = photo := by
  obtain ⟨hattachments, htags, hbundles⟩ := media_round_trips_iff baseUrls baseUrls_reparse
  have hread : MediaAttachment.fromTag baseUrls _ = .ok (pictured none) :=
    (hattachments (pictured none) (pictured_built none) (pictured_based none) (fun entry hentry => by cases hentry) _
      rfl).mpr pictured_sayable
  obtain ⟨hphoto, hattached⟩ := hbundles photo rfl rfl rfl photo_based
  refine ⟨⟨_, rfl, hread, (htags _ ⟨_, hread⟩).mpr (by decide +kernel)⟩, ?_, hattached.mpr rfl⟩
  obtain ⟨tags, hwritten, hiff⟩ := hphoto
  exact ⟨tags, hwritten, hiff.mpr (by decide)⟩

open Sample Nip92 in
/-- The hash of a thumbnail and that of a torrent are lost, and a second url is taken for the first. -/
theorem Nip92.pinned_thumbnail_lost :
    (MediaAttachment.Built (pictured (some digest)) ∧ (pictured (some digest)).Based baseUrls ∧
      ∃ tag, (pictured (some digest)).toTag = .ok tag ∧
        MediaAttachment.fromTag baseUrls tag = .ok (pictured none) ∧
        MediaAttachment.fromTag baseUrls tag ≠ .ok (pictured (some digest))) ∧
    ((MediaAttachment.keys twice).count "url" = 2 ∧ MediaAttachment.fromTag baseUrls twice =
      .ok { MediaAttachment.new hint.inner with mimeType := some "image/jpeg" }) ∧
    (MediaAttachment.fromFileMetadata torrent).toFileMetadata ≠ torrent := by
  refine ⟨⟨pictured_built _, pictured_based _, _, rfl, ?_, ?_⟩, ⟨?_, ?_⟩, ?_⟩
  all_goals decide +kernel

end Nula
