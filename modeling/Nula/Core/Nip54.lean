import Nula.Core.Nip10
import Nula.Core.Slug
import Nula.Lib.Realign
import Nula.Lib.Yields

/-!
# `Core.Nip54` — wiki articles and what they derive from

A wiki article (`nips/nip54.rs`) as its event carries it. A relation to another article may name its address, one of
its revisions, or both; an event holds these as `a` and `e` tags that do not know of each other, and the reader puts
the first address with the first revision, the second with the second.

## Contents
- **The wire.** `tags_wikiArticle`, the tags of an article, and `fromEvent`.
- **Pairing.** `pairRelations_eq`, which is `Realign.realign`.
- **The round trip.** `absorb_relationTags` and `foldlM_extras`, and from them `wiki_round_trip_iff`.
-/

namespace Nula

/-- `Kind::WIKI_ARTICLE`. -/
def Kind.wikiArticle : Kind := ⟨30818⟩

namespace Nip54

/-- `Relation`: how an article relates to another. -/
inductive Relation where
  | fork
  | defer
  deriving DecidableEq, Repr

namespace Relation

def asStr : Relation → String
  | .fork => "fork"
  | .defer => "defer"

def parse : String → Option Relation
  | "fork" => some .fork
  | "defer" => some .defer
  | _ => none

theorem parse_asStr (relation : Relation) : parse relation.asStr = some relation := by
  cases relation <;> rfl

theorem asStr_ne_empty (relation : Relation) : relation.asStr ≠ "" := by
  cases relation <;> decide

end Relation

/-- `RelationRef`: an article by its coordinate, by its event, or by both. -/
structure RelationRef where
  relation : Relation
  coordinate : Option Coordinate
  coordinateRelayHint : Option RelayUrl
  eventId : Option EventId
  eventRelayHint : Option RelayUrl
  deriving DecidableEq

structure WikiArticle where
  /-- The `d` slug. -/
  identifier : String
  content : String
  title : Option String
  summary : Option String
  relations : List RelationRef
  extraTags : List Tag
  deriving DecidableEq

/-- `WikiError`, without what only the readers of redirects and merge requests raise. -/
inductive WikiError where
  | wrongKind (kind : Kind)
  | missingIdentifier
  | malformedAddressTag
  | malformedEventTag
  | invalidCoordinate (e : CoordinateError)
  | invalidEventId (e : EventIdError)
  | invalidRelayUrl (e : RelayUrlError)
  deriving DecidableEq

/-! ## The reader -/

/-- The target of an `a` or `e` tag, its relay hint and its marker. -/
abbrev Pending (α : Type) := α × Option RelayUrl × Option Relation

/-- The marker of a tag, unless it is empty. -/
def markerOf (tag : Tag) : Option String := tag.values[3]?.filter (fun s => s ≠ "")

/-- `marker.as_ref().and_then(|m| Relation::parse(m))`. -/
def relationOf (marker : Option String) : Option Relation := marker.bind Relation.parse

section Reader

variable (urls : UrlCrate)

/-- `parse_a_tag_with_marker`. -/
def parseATagWithMarker (tag : Tag) : Except WikiError (Coordinate × Option RelayUrl × Option String) :=
  match tag.values[1]? with
  | none => .error .malformedAddressTag
  | some coordStr => do
      let coord ← (Coordinate.parse coordStr).mapError .invalidCoordinate
      let relay ← (RelayUrl.hint urls tag.values[2]?).mapError .invalidRelayUrl
      .ok (coord, relay, markerOf tag)

/-- `parse_e_tag_with_marker`. -/
def parseETagWithMarker (tag : Tag) : Except WikiError (EventId × Option RelayUrl × Option String) :=
  match tag.values[1]? with
  | none => .error .malformedEventTag
  | some idHex => do
      let id ← (EventId.parse idHex).mapError .invalidEventId
      let relay ← (RelayUrl.hint urls tag.values[2]?).mapError .invalidRelayUrl
      .ok (id, relay, markerOf tag)

/-- What the loop of `from_event` holds. -/
structure Reading where
  article : WikiArticle
  pendingA : List (Pending Coordinate)
  pendingE : List (Pending EventId)

namespace Reading

/-- A tag that the article has no field for. -/
def pushExtra (r : Reading) (tag : Tag) : Reading :=
  { r with article := { r.article with extraTags := r.article.extraTags ++ [tag] } }

/-- `absorb_marker_tag_a`. -/
def absorbMarkerTagA (r : Reading) (tag : Tag) : Except WikiError Reading := do
  let (coord, relay, marker) ← parseATagWithMarker urls tag
  match relationOf marker with
  | some rel => .ok { r with pendingA := r.pendingA ++ [(coord, relay, some rel)] }
  | none => .ok (r.pushExtra tag)

/-- `absorb_marker_tag_e`. -/
def absorbMarkerTagE (r : Reading) (tag : Tag) : Except WikiError Reading := do
  let (id, relay, marker) ← parseETagWithMarker urls tag
  match relationOf marker with
  | some rel => .ok { r with pendingE := r.pendingE ++ [(id, relay, some rel)] }
  | none => .ok (r.pushExtra tag)

/-- One tag of the loop of `from_event`. -/
def absorb (r : Reading) (tag : Tag) : Except WikiError Reading :=
  if tag.kind = .singleLetter (.lowercase .D) then .ok r
  else if tag.kind = .singleLetter (.lowercase .A) then r.absorbMarkerTagA urls tag
  else if tag.kind = .singleLetter (.lowercase .E) then r.absorbMarkerTagE urls tag
  else if tag.name = "title" then .ok { r with article := { r.article with title := tag.values[1]? } }
  else if tag.name = "summary" then .ok { r with article := { r.article with summary := tag.values[1]? } }
  else .ok (r.pushExtra tag)

end Reading

/-- `pair_relations`. -/
def pairRelations : List (Pending Coordinate) → List (Pending EventId) → List RelationRef
  | (coord, coordRelay, rel) :: aTags, eTags =>
      ⟨rel.getD .fork, some coord, coordRelay, eTags.head?.map (fun (id, _, _) => id),
        eTags.head?.bind (fun (_, relay, _) => relay)⟩ :: pairRelations aTags eTags.tail
  | [], eTags => eTags.map (fun (id, relay, rel) => ⟨rel.getD .fork, none, none, some id, relay⟩)

/-- `d_value`. -/
def dValue (tags : Tags) : Option String :=
  (tags.findFirst (.singleLetter (.lowercase .D))).bind (fun tag => tag.values[1]?)

/-- `WikiArticle::from_event`. -/
def WikiArticle.fromEvent (event : Event) : Except WikiError WikiArticle :=
  if event.kind ≠ Kind.wikiArticle then .error (.wrongKind event.kind)
  else
    match dValue event.tags with
    | none => .error .missingIdentifier
    | some identifier => do
        let r ← event.tags.items.foldlM (Reading.absorb urls) ⟨⟨identifier, event.content, none, none, [], []⟩, [], []⟩
        .ok { r.article with relations := pairRelations r.pendingA r.pendingE }

end Reader

/-! ## The writer -/

/-- The text of a relay hint, empty without one. -/
def relayStr (hint : Option RelayUrl) : String := (hint.map RelayUrl.asStr).getD ""

/-- The `a` tag of a relation. -/
def aTag (coord : Coordinate) (hint : Option RelayUrl) (relation : Relation) : Tag :=
  .withArgs (.singleLetter (.lowercase .A)) [coord.toWire, relayStr hint, relation.asStr]

/-- The `e` tag of a relation. -/
def eTag (id : EventId) (hint : Option RelayUrl) (relation : Relation) : Tag :=
  .withArgs (.singleLetter (.lowercase .E)) [id.toHex, relayStr hint, relation.asStr]

/-- `push_relation_tags`. -/
def pushRelationTags (builder : EventBuilder) (rel : RelationRef) : EventBuilder :=
  let builder := match rel.coordinate with
    | some coord => builder.tag (aTag coord rel.coordinateRelayHint rel.relation)
    | none => builder
  match rel.eventId with
  | some id => builder.tag (eTag id rel.eventRelayHint rel.relation)
  | none => builder

/-- The tag of a title. -/
def titleTag (title : String) : Tag := .withArgs (TagKind.fromWire "title") [title]

/-- The tag of a summary. -/
def summaryTag (summary : String) : Tag := .withArgs (TagKind.fromWire "summary") [summary]

/-- `EventBuilder::wiki_article`. -/
def wikiArticle (article : WikiArticle) : EventBuilder :=
  let builder := (EventBuilder.new Kind.wikiArticle article.content).tag (Tag.d article.identifier)
  let builder := match article.title with
    | some title => builder.tag (titleTag title)
    | none => builder
  let builder := match article.summary with
    | some summary => builder.tag (summaryTag summary)
    | none => builder
  let builder := article.relations.foldl pushRelationTags builder
  article.extraTags.foldl (fun builder tag => builder.tag tag) builder

/-- The tags of a relation. -/
def relationTags (rel : RelationRef) : List Tag :=
  (rel.coordinate.map (fun coord => aTag coord rel.coordinateRelayHint rel.relation)).toList ++
    (rel.eventId.map (fun id => eTag id rel.eventRelayHint rel.relation)).toList

section Writer

variable (builder : EventBuilder)

theorem pushRelationTags_eq (rel : RelationRef) :
    pushRelationTags builder rel = builder.extendTags (relationTags rel) := by
  obtain ⟨relation, _ | coord, hint, _ | id, hint'⟩ := rel
  all_goals simp [pushRelationTags, relationTags, EventBuilder.tag, EventBuilder.extendTags]

theorem extendTags_extendTags (l l' : List Tag) :
    (builder.extendTags l).extendTags l' = builder.extendTags (l ++ l') := by
  simp [EventBuilder.extendTags]

/-- The tags of the relations, one relation after the other. -/
theorem foldl_pushRelationTags (relations : List RelationRef) :
    relations.foldl pushRelationTags builder = builder.extendTags (relations.flatMap relationTags) := by
  induction relations generalizing builder with
  | nil => simp [EventBuilder.extendTags]
  | cons rel relations ih =>
      rw [List.foldl_cons, ih, pushRelationTags_eq, extendTags_extendTags, List.flatMap_cons]

theorem foldl_tag (tags : List Tag) :
    tags.foldl (fun builder tag => builder.tag tag) builder = builder.extendTags tags := by
  induction tags generalizing builder with
  | nil => simp [EventBuilder.extendTags]
  | cons tag tags ih =>
      rw [List.foldl_cons, ih]
      simp [EventBuilder.extendTags, EventBuilder.tag]

end Writer

/-- The tags of an article, in their order. -/
def articleTags (article : WikiArticle) : List Tag :=
  Tag.d article.identifier :: ((article.title.map titleTag).toList ++ (article.summary.map summaryTag).toList ++
    article.relations.flatMap relationTags ++ article.extraTags)

theorem tags_wikiArticle (article : WikiArticle) : (wikiArticle article).tags.items = articleTags article := by
  obtain ⟨identifier, content, _ | title, _ | summary, relations, extraTags⟩ := article
  all_goals
    rw [wikiArticle, foldl_tag, foldl_pushRelationTags]
    simp [EventBuilder.extendTags, EventBuilder.tag, EventBuilder.new, articleTags]

theorem wikiArticle_kind (article : WikiArticle) : (wikiArticle article).kind = Kind.wikiArticle := by
  obtain ⟨identifier, content, _ | title, _ | summary, relations, extraTags⟩ := article
  all_goals
    rw [wikiArticle, foldl_tag, foldl_pushRelationTags]
    rfl

theorem wikiArticle_content (article : WikiArticle) : (wikiArticle article).content = article.content := by
  obtain ⟨identifier, content, _ | title, _ | summary, relations, extraTags⟩ := article
  all_goals
    rw [wikiArticle, foldl_tag, foldl_pushRelationTags]
    rfl

/-! ## Pairing -/

/-- What a relation leaves among the `a` tags and among the `e` tags. -/
def parts (rel : RelationRef) : Option (Pending Coordinate) × Option (Pending EventId) :=
  (rel.coordinate.map (fun coord => (coord, rel.coordinateRelayHint, some rel.relation)),
    rel.eventId.map (fun id => (id, rel.eventRelayHint, some rel.relation)))

/-- The relation that `pair_relations` makes of an `a` tag, an `e` tag, or both. -/
def toRef : Option (Pending Coordinate) × Option (Pending EventId) → RelationRef
  | (some (coord, coordRelay, rel), e) =>
      ⟨rel.getD .fork, some coord, coordRelay, e.map (fun (id, _, _) => id), e.bind (fun (_, relay, _) => relay)⟩
  | (none, some (id, relay, rel)) => ⟨rel.getD .fork, none, none, some id, relay⟩
  | (none, none) => ⟨.fork, none, none, none, none⟩

/-- **Pairing is realigning**: the `a` tags and the `e` tags of the markers are matched by their order. -/
theorem pairRelations_eq (aTags : List (Pending Coordinate)) (eTags : List (Pending EventId)) :
    pairRelations aTags eTags = (Realign.realign aTags eTags).map toRef := by
  induction aTags generalizing eTags with
  | nil =>
      rw [pairRelations, Realign.realign, List.map_map]
      rfl
  | cons a aTags ih =>
      obtain ⟨coord, coordRelay, rel⟩ := a
      cases eTags with
      | nil =>
          rw [pairRelations, ih]
          rfl
      | cons e eTags =>
          rw [pairRelations, ih]
          rfl

/-- A relation with a target, whose hints stand beside their targets and were parsed. -/
structure RelationRef.Grounded (urls : UrlCrate) (rel : RelationRef) : Prop where
  target : rel.coordinate.isSome = true ∨ rel.eventId.isSome = true
  beside : rel.coordinate = none → rel.coordinateRelayHint = none
  beside' : rel.eventId = none → rel.eventRelayHint = none
  parsed : ∀ url ∈ rel.coordinateRelayHint, RelayUrl.Parsed urls url
  parsed' : ∀ url ∈ rel.eventRelayHint, RelayUrl.Parsed urls url

theorem toRef_parts {urls : UrlCrate} {rel : RelationRef} (h : rel.Grounded urls) : toRef (parts rel) = rel := by
  obtain ⟨htarget, hbeside, hbeside', -, -⟩ := h
  obtain ⟨relation, _ | coord, hint, _ | id, hint'⟩ := rel
  · rcases htarget with h | h <;> cases h
  · obtain rfl : hint = none := hbeside rfl
    rfl
  · obtain rfl : hint' = none := hbeside' rfl
    rfl
  · rfl

/-- No relation without an address stands before one that has it, and none without a revision before one that has
    it. -/
def Aligned (relations : List RelationRef) : Prop :=
  relations.Pairwise (fun r r' => (r'.coordinate.isSome = true → r.coordinate.isSome = true) ∧
    (r'.eventId.isSome = true → r.eventId.isSome = true))

/-- Parts are packed exactly if the relations are aligned. -/
theorem packed_parts {relations : List RelationRef} : Realign.Packed (relations.map parts) ↔ Aligned relations := by
  rw [Realign.Packed, List.pairwise_map, Aligned]
  simp only [parts, Option.isSome_map]

theorem coordinate_toRef (x : Option (Pending Coordinate) × Option (Pending EventId)) :
    (toRef x).coordinate.isSome = x.1.isSome := by
  rcases x with ⟨_ | a, _ | e⟩ <;> rfl

theorem eventId_toRef (x : Option (Pending Coordinate) × Option (Pending EventId)) :
    (toRef x).eventId.isSome = x.2.isSome := by
  rcases x with ⟨_ | a, _ | e⟩ <;> rfl

/-- **Relations come back from their tags** exactly if they are aligned. -/
theorem pairRelations_parts {urls : UrlCrate} {relations : List RelationRef}
    (h : ∀ rel ∈ relations, rel.Grounded urls) :
    pairRelations (relations.filterMap (fun rel => (parts rel).1)) (relations.filterMap (fun rel => (parts rel).2)) =
      relations ↔ Aligned relations := by
  rw [pairRelations_eq]
  constructor
  · intro hsame
    have hpacked := Realign.packed_realign (relations.filterMap (fun rel => (parts rel).1))
      (relations.filterMap (fun rel => (parts rel).2))
    rw [← hsame, Aligned, List.pairwise_map]
    simp only [coordinate_toRef, eventId_toRef]
    exact hpacked
  · intro haligned
    have hparts : ∀ x ∈ relations.map parts, x.1.isSome = true ∨ x.2.isSome = true := by
      intro x hx
      obtain ⟨rel, hrel, rfl⟩ := List.mem_map.mp hx
      simp only [parts, Option.isSome_map]
      exact (h rel hrel).target
    have hback := Realign.realign_of_packed hparts (packed_parts.mpr haligned)
    rw [List.filterMap_map, List.filterMap_map] at hback
    have hrealign : Realign.realign (relations.filterMap (fun rel => (parts rel).1))
        (relations.filterMap (fun rel => (parts rel).2)) = relations.map parts := hback
    rw [hrealign, List.map_map]
    exact (List.map_congr_left (fun rel hrel => toRef_parts (h rel hrel))).trans (List.map_id _)

/-! ## The round trip -/

section RoundTrip

variable {urls : UrlCrate}

theorem kind_custom {name : String} (hcustom : TagKind.fromWire name = .custom name) (args : List String) :
    (Tag.withArgs (TagKind.fromWire name) args).kind = .custom name := by
  rw [hcustom]
  exact hcustom

theorem absorb_d (r : Reading) (identifier : String) : r.absorb urls (Tag.d identifier) = .ok r := by
  have hkind : (Tag.d identifier).kind = .singleLetter (.lowercase .D) := Tag.kind_letter .D _
  rw [Reading.absorb, if_pos hkind]

theorem absorb_title (r : Reading) (title : String) :
    r.absorb urls (titleTag title) = .ok { r with article := { r.article with title := some title } } := by
  have hkind : (titleTag title).kind = .custom "title" := kind_custom (by decide) _
  rw [Reading.absorb, if_neg (by rw [hkind]; decide), if_neg (by rw [hkind]; decide),
    if_neg (by rw [hkind]; decide), if_pos (by rfl)]
  rfl

theorem absorb_summary (r : Reading) (summary : String) :
    r.absorb urls (summaryTag summary) = .ok { r with article := { r.article with summary := some summary } } := by
  have hkind : (summaryTag summary).kind = .custom "summary" := kind_custom (by decide) _
  have hname : (summaryTag summary).name = "summary" := rfl
  rw [Reading.absorb, if_neg (by rw [hkind]; decide), if_neg (by rw [hkind]; decide),
    if_neg (by rw [hkind]; decide), if_neg (by rw [hname]; decide), if_pos hname]
  rfl

/-- What a tag that the reader keeps as it is may be. -/
structure Extra (tag : Tag) : Prop where
  not_d : tag.kind ≠ .singleLetter (.lowercase .D)
  not_title : tag.name ≠ "title"
  not_summary : tag.name ≠ "summary"
  unmarked : tag.kind = .singleLetter (.lowercase .A) ∨ tag.kind = .singleLetter (.lowercase .E) →
    relationOf (markerOf tag) = none

/-- An `a` or `e` tag that can be read; any other tag. -/
def Readable (urls : UrlCrate) (tag : Tag) : Prop :=
  (tag.kind = .singleLetter (.lowercase .A) → ∃ target, parseATagWithMarker urls tag = .ok target) ∧
    (tag.kind = .singleLetter (.lowercase .E) → ∃ target, parseETagWithMarker urls tag = .ok target)

/-- The marker of an `a` tag is its fourth column. -/
theorem marker_parseATag {tag : Tag} {coord : Coordinate} {relay : Option RelayUrl} {marker : Option String}
    (h : parseATagWithMarker urls tag = .ok (coord, relay, marker)) : marker = markerOf tag := by
  unfold parseATagWithMarker at h
  split at h
  · cases h
  · obtain ⟨coord, -, h⟩ := bind_ok_iff.mp h
    obtain ⟨relay, -, h⟩ := bind_ok_iff.mp h
    cases h
    rfl

/-- The marker of an `e` tag is its fourth column. -/
theorem marker_parseETag {tag : Tag} {id : EventId} {relay : Option RelayUrl} {marker : Option String}
    (h : parseETagWithMarker urls tag = .ok (id, relay, marker)) : marker = markerOf tag := by
  unfold parseETagWithMarker at h
  split at h
  · cases h
  · obtain ⟨id, -, h⟩ := bind_ok_iff.mp h
    obtain ⟨relay, -, h⟩ := bind_ok_iff.mp h
    cases h
    rfl

/-- **What an extra tag does**: it must be readable as what its name says, and is kept as it is. -/
theorem absorb_extra {tag : Tag} (hextra : Extra tag) (r r' : Reading) :
    r.absorb urls tag = .ok r' ↔ Readable urls tag ∧ r' = r.pushExtra tag := by
  have hletters : SingleLetterTag.lowercase .A ≠ .lowercase .E := by decide
  rw [Reading.absorb, if_neg hextra.not_d]
  by_cases hA : tag.kind = .singleLetter (.lowercase .A)
  · rw [if_pos hA, Reading.absorbMarkerTagA]
    cases hparse : parseATagWithMarker urls tag with
    | error e => simp [Readable, hA, hparse, bind, Except.bind]
    | ok target =>
        obtain ⟨coord, relay, marker⟩ := target
        have hmarker : relationOf marker = none := by
          rw [marker_parseATag hparse]
          exact hextra.unmarked (Or.inl hA)
        simp [Readable, hA, hparse, bind, Except.bind, hmarker, hletters, eq_comm]
  rw [if_neg hA]
  by_cases hE : tag.kind = .singleLetter (.lowercase .E)
  · rw [if_pos hE, Reading.absorbMarkerTagE]
    cases hparse : parseETagWithMarker urls tag with
    | error e => simp [Readable, hE, hparse, bind, Except.bind]
    | ok target =>
        obtain ⟨id, relay, marker⟩ := target
        have hmarker : relationOf marker = none := by
          rw [marker_parseETag hparse]
          exact hextra.unmarked (Or.inr hE)
        simp [Readable, hE, hparse, bind, Except.bind, hmarker, hletters, eq_comm]
  · rw [if_neg hE, if_neg hextra.not_title, if_neg hextra.not_summary]
    simp [Readable, hA, hE, eq_comm]

/-- The extra tags are kept in their order if all of them can be read. -/
theorem foldlM_extras {tags : List Tag} (hextra : ∀ tag ∈ tags, Extra tag) (r r' : Reading) :
    tags.foldlM (Reading.absorb urls) r = .ok r' ↔ (∀ tag ∈ tags, Readable urls tag) ∧
      r' = { r with article := { r.article with extraTags := r.article.extraTags ++ tags } } := by
  induction tags generalizing r with
  | nil => simp [pure, Except.pure, eq_comm]
  | cons tag tags ih =>
      obtain ⟨htag, htags⟩ := List.forall_mem_cons.mp hextra
      rw [List.foldlM_cons, bind_ok_iff, List.forall_mem_cons]
      constructor
      · rintro ⟨middle, hmiddle, hrest⟩
        obtain ⟨hreadable, rfl⟩ := (absorb_extra htag r middle).mp hmiddle
        obtain ⟨hall, rfl⟩ := (ih htags _).mp hrest
        exact ⟨⟨hreadable, hall⟩, by simp [Reading.pushExtra]⟩
      · rintro ⟨⟨hreadable, hall⟩, rfl⟩
        refine ⟨r.pushExtra tag, (absorb_extra htag r _).mpr ⟨hreadable, rfl⟩, (ih htags _).mpr ⟨hall, ?_⟩⟩
        simp [Reading.pushExtra]

section Laws

variable (laws : RelayUrl.Lawful urls) (hempty : ∀ url, urls.parse "" ≠ .ok url)
include laws hempty

/-- An `a` tag is read back, with its hint and its marker. -/
theorem parseATag_aTag (coord : Coordinate) {hint : Option RelayUrl} (relation : Relation)
    (hhint : ∀ url ∈ hint, RelayUrl.Parsed urls url) :
    parseATagWithMarker urls (aTag coord hint relation) = .ok (coord, hint, some relation.asStr) := by
  have hrelay := RelayUrl.hint_getD laws hempty hhint
  have hmarker : markerOf (aTag coord hint relation) = some relation.asStr := by
    rw [markerOf, Option.filter_eq_some_iff]
    exact ⟨rfl, decide_eq_true relation.asStr_ne_empty⟩
  show (do
    let coord ← (Coordinate.parse coord.toWire).mapError WikiError.invalidCoordinate
    let relay ← (RelayUrl.hint urls (some (relayStr hint))).mapError WikiError.invalidRelayUrl
    Except.ok (coord, relay, markerOf (aTag _ _ relation))) = _
  rw [relayStr, hrelay, Coordinate.parse_toWire, hmarker]
  rfl

/-- An `e` tag is read back, with its hint and its marker. -/
theorem parseETag_eTag (id : EventId) {hint : Option RelayUrl} (relation : Relation)
    (hhint : ∀ url ∈ hint, RelayUrl.Parsed urls url) :
    parseETagWithMarker urls (eTag id hint relation) = .ok (id, hint, some relation.asStr) := by
  have hrelay := RelayUrl.hint_getD laws hempty hhint
  have hmarker : markerOf (eTag id hint relation) = some relation.asStr := by
    rw [markerOf, Option.filter_eq_some_iff]
    exact ⟨rfl, decide_eq_true relation.asStr_ne_empty⟩
  show (do
    let id ← (EventId.parse id.toHex).mapError WikiError.invalidEventId
    let relay ← (RelayUrl.hint urls (some (relayStr hint))).mapError WikiError.invalidRelayUrl
    Except.ok (id, relay, markerOf (eTag _ _ relation))) = _
  rw [relayStr, hrelay, EventId.parse_toHex, hmarker]
  rfl

/-- An `a` tag with a marker waits for its pair. -/
theorem absorb_aTag (r : Reading) (coord : Coordinate) {hint : Option RelayUrl} (relation : Relation)
    (hhint : ∀ url ∈ hint, RelayUrl.Parsed urls url) :
    r.absorb urls (aTag coord hint relation) =
      .ok { r with pendingA := r.pendingA ++ [(coord, hint, some relation)] } := by
  have hkind : (aTag coord hint relation).kind = .singleLetter (.lowercase .A) := Tag.kind_letter .A _
  rw [Reading.absorb, if_neg (by rw [hkind]; decide), if_pos hkind, Reading.absorbMarkerTagA,
    parseATag_aTag laws hempty coord relation hhint]
  simp only [bind, Except.bind, relationOf, Option.bind_some, Relation.parse_asStr]

/-- An `e` tag with a marker waits for its pair. -/
theorem absorb_eTag (r : Reading) (id : EventId) {hint : Option RelayUrl} (relation : Relation)
    (hhint : ∀ url ∈ hint, RelayUrl.Parsed urls url) :
    r.absorb urls (eTag id hint relation) =
      .ok { r with pendingE := r.pendingE ++ [(id, hint, some relation)] } := by
  have hkind : (eTag id hint relation).kind = .singleLetter (.lowercase .E) := Tag.kind_letter .E _
  rw [Reading.absorb, if_neg (by rw [hkind]; decide), if_neg (by rw [hkind]; decide), if_pos hkind,
    Reading.absorbMarkerTagE, parseETag_eTag laws hempty id relation hhint]
  simp only [bind, Except.bind, relationOf, Option.bind_some, Relation.parse_asStr]

/-- The tags of a relation are read into its parts. -/
theorem foldlM_relationTags (r : Reading) {rel : RelationRef} (h : rel.Grounded urls) :
    (relationTags rel).foldlM (Reading.absorb urls) r =
      .ok { r with
        pendingA := r.pendingA ++ (parts rel).1.toList
        pendingE := r.pendingE ++ (parts rel).2.toList } := by
  have hA := fun r coord => absorb_aTag laws hempty r coord rel.relation h.parsed
  have hE := fun r id => absorb_eTag laws hempty r id rel.relation h.parsed'
  obtain ⟨relation, _ | coord, hint, _ | id, hint'⟩ := rel
  · simp [relationTags, parts, pure, Except.pure]
  · simp [relationTags, parts, hE]
  · simp [relationTags, parts, hA]
  · have hone : [aTag coord hint relation].foldlM (Reading.absorb urls) r =
        .ok { r with pendingA := r.pendingA ++ [(coord, hint, some relation)] } := by
      rw [List.foldlM_cons, hA]
      rfl
    show ([aTag coord hint relation] ++ [eTag id hint' relation]).foldlM _ _ = _
    rw [foldlM_append_of_ok hone, List.foldlM_cons, hE]
    rfl

/-- The tags of the relations wait in their order, those of coordinates and those of events apart. -/
theorem foldlM_relations (r : Reading) {relations : List RelationRef} (h : ∀ rel ∈ relations, rel.Grounded urls) :
    (relations.flatMap relationTags).foldlM (Reading.absorb urls) r =
      .ok { r with
        pendingA := r.pendingA ++ relations.filterMap (fun rel => (parts rel).1)
        pendingE := r.pendingE ++ relations.filterMap (fun rel => (parts rel).2) } := by
  induction relations generalizing r with
  | nil => simp [pure, Except.pure]
  | cons rel relations ih =>
      obtain ⟨hrel, hrest⟩ := List.forall_mem_cons.mp h
      rw [List.flatMap_cons, foldlM_append_of_ok (foldlM_relationTags laws hempty r hrel), ih _ hrest]
      have hcons : ∀ {α : Type} (f : RelationRef → Option α),
          (rel :: relations).filterMap f = (f rel).toList ++ relations.filterMap f := by
        intro α f
        cases hf : f rel with
        | none => rw [List.filterMap_cons_none hf]; rfl
        | some a => rw [List.filterMap_cons_some hf]; rfl
      rw [hcons, hcons, ← List.append_assoc, ← List.append_assoc]

/-- What the loop makes of the tags of an article. The tags come in four groups, and the loop is run over one after
    the other; only the extra tags can stop it. -/
theorem foldlM_articleTags {article : WikiArticle} (hrelations : ∀ rel ∈ article.relations, rel.Grounded urls)
    (hextras : ∀ tag ∈ article.extraTags, Extra tag) (r' : Reading) :
    (articleTags article).foldlM (Reading.absorb urls)
        ⟨⟨article.identifier, article.content, none, none, [], []⟩, [], []⟩ = .ok r' ↔
      (∀ tag ∈ article.extraTags, Readable urls tag) ∧
        r' = ⟨{ article with relations := [] }, article.relations.filterMap (fun rel => (parts rel).1),
          article.relations.filterMap (fun rel => (parts rel).2)⟩ := by
  obtain ⟨identifier, content, title, summary, relations, extraTags⟩ := article
  have htitle : ∀ r : Reading, (title.map titleTag).toList.foldlM (Reading.absorb urls) r =
      .ok { r with article := { r.article with title := title.or r.article.title } } := by
    intro r
    cases title with
    | none => rfl
    | some title => simp [absorb_title]
  have hsummary : ∀ r : Reading, (summary.map summaryTag).toList.foldlM (Reading.absorb urls) r =
      .ok { r with article := { r.article with summary := summary.or r.article.summary } } := by
    intro r
    cases summary with
    | none => rfl
    | some summary => simp [absorb_summary]
  have hd : ∀ r : Reading, [Tag.d identifier].foldlM (Reading.absorb urls) r = .ok r := by
    intro r
    rw [List.foldlM_cons, absorb_d]
    rfl
  have htags : articleTags ⟨identifier, content, title, summary, relations, extraTags⟩ =
      [Tag.d identifier] ++ ((title.map titleTag).toList ++ ((summary.map summaryTag).toList ++
        (relations.flatMap relationTags ++ extraTags))) := by
    simp [articleTags]
  rw [htags, foldlM_append_of_ok (hd _), foldlM_append_of_ok (htitle _), foldlM_append_of_ok (hsummary _),
    foldlM_append_of_ok (foldlM_relations laws hempty _ hrelations), foldlM_extras hextras]
  simp

end Laws

/-- **Wiki articles come back from their events** exactly if their relations are aligned and their extra `a` and `e`
    tags can be read.

    Reading folds over the tags and collects the references of each marker in two queues (`foldlM_articleTags`);
    pairing them again is realigning, which gives the relations back exactly if they were aligned
    (`pairRelations_parts`). -/
theorem wiki_round_trip_iff (urls : UrlCrate) (laws : RelayUrl.Lawful urls) (hempty : ∀ url, urls.parse "" ≠ .ok url)
    (crypto : KeyCrypto) (clock : Clock) (aux : Bytes) (keys : Keys) (createdAt : Option Timestamp)
    (article : WikiArticle) (hrelations : ∀ rel ∈ article.relations, rel.Grounded urls)
    (hextras : ∀ tag ∈ article.extraTags, Extra tag) (event : Event)
    (h : { wikiArticle article with createdAt := createdAt }.signWithKeys crypto clock aux keys = .ok event) :
    WikiArticle.fromEvent urls event = .ok article ↔
      Aligned article.relations ∧ ∀ tag ∈ article.extraTags, Readable urls tag := by
  obtain ⟨-, hkind, htags, hcontent, -⟩ := EventBuilder.signWithKeys_eq_ok h
  have hwiki : event.kind = Kind.wikiArticle := hkind.trans (wikiArticle_kind article)
  have hbody : event.content = article.content := hcontent.trans (wikiArticle_content article)
  have hitems : event.tags.items = articleTags article := by
    rw [htags]
    exact tags_wikiArticle article
  have hd : dValue event.tags = some article.identifier := by
    have hfirst : event.tags.findFirst (.singleLetter (.lowercase .D)) = some (Tag.d article.identifier) := by
      rw [Tags.findFirst, hitems, articleTags, List.find?_cons_of_pos]
      exact decide_eq_true (Tag.kind_letter .D _)
    rw [dValue, hfirst]
    rfl
  rw [WikiArticle.fromEvent, if_neg (not_not.mpr hwiki), hd, hitems, hbody, bind_ok_iff,
    ← pairRelations_parts hrelations]
  simp only [foldlM_articleTags laws hempty hrelations hextras]
  constructor
  · rintro ⟨r, ⟨hreadable, rfl⟩, hsame⟩
    refine ⟨congrArg WikiArticle.relations (Except.ok.inj hsame), hreadable⟩
  · rintro ⟨hpaired, hreadable⟩
    refine ⟨_, ⟨hreadable, rfl⟩, ?_⟩
    rw [hpaired]

end RoundTrip

end Nip54

/-! An article that goes back to an address and a revision of it, and one that goes back to an address and defers to a
revision of something else. -/

namespace Sample

open Nip54

/-- The article that others are derived from. -/
def origin : Coordinate := ⟨Kind.wikiArticle, carol, "tea"⟩

/-- An article that is a fork of another, known by both. -/
def derived : WikiArticle :=
  ⟨"green-tea", "", some "Green tea", none, [⟨.fork, some origin, some hint, some (id 1), none⟩], [Tag.a origin]⟩

/-- A fork known by its coordinate only, and a deference known by its event only. -/
def deferring : WikiArticle :=
  ⟨"green-tea", "", none, none, [⟨.fork, some origin, none, none, none⟩, ⟨.defer, none, none, some (id 1), none⟩], []⟩

end Sample

open Sample Nip54 in
/-- The derived article comes back from its event. -/
theorem Nip54.wiki_round_trip_derived : ∃ event,
    (wikiArticle derived).signWithKeys retractionCrypto (.ok 0) [] carolKeys = .ok event ∧
      WikiArticle.fromEvent hintUrls event = .ok derived := by
  obtain ⟨event, hsigned, -⟩ := EventBuilder.signWithKeys_ok retractionCrypto 0 [] carolKeys (wikiArticle derived)
  refine ⟨event, hsigned, (wiki_round_trip_iff hintUrls hintUrls_lawful (fun url h => by cases h) retractionCrypto
    (.ok 0) [] carolKeys none derived ?_ ?_ event hsigned).mpr ⟨?_, ?_⟩⟩
  · intro rel hrel
    obtain rfl := List.mem_singleton.mp hrel
    refine ⟨Or.inl rfl, (fun h => by cases h), (fun h => by cases h), ?_, (fun url h => by cases h)⟩
    intro url hurl
    obtain rfl := Option.some.inj hurl
    exact ⟨hint.asStr, by decide⟩
  · intro tag htag
    obtain rfl := List.mem_singleton.mp htag
    exact ⟨by decide +kernel, by decide +kernel, by decide +kernel, fun _ => by decide +kernel⟩
  · exact List.pairwise_singleton _ _
  · intro tag htag
    obtain rfl := List.mem_singleton.mp htag
    exact ⟨fun _ => ⟨(origin, none, none), by decide +kernel⟩, fun h => absurd h (by decide +kernel)⟩

open Sample Nip54 in
/-- The revision that is deferred to comes back as a revision of the address that is forked. -/
theorem Nip54.deferred_comes_back_forked : (∀ rel ∈ deferring.relations, rel.Grounded hintUrls) ∧
    ∃ event, (wikiArticle deferring).signWithKeys retractionCrypto (.ok 0) [] carolKeys = .ok event ∧
      WikiArticle.fromEvent hintUrls event =
        .ok { deferring with relations := [⟨.fork, some origin, none, some (id 1), none⟩] } ∧
      WikiArticle.fromEvent hintUrls event ≠ .ok deferring := by
  refine ⟨?_, ?_⟩
  · intro rel hrel
    rcases List.mem_pair.mp hrel with rfl | rfl
    · exact ⟨Or.inl rfl, (fun h => by cases h), fun _ => rfl, (fun url h => by cases h), (fun url h => by cases h)⟩
    · exact ⟨Or.inr rfl, fun _ => rfl, (fun h => by cases h), (fun url h => by cases h), (fun url h => by cases h)⟩
  · obtain ⟨event, hsigned, -, hkind, htags, hcontent⟩ :=
      EventBuilder.signWithKeys_ok retractionCrypto 0 [] carolKeys (wikiArticle deferring)
    have hread : WikiArticle.fromEvent hintUrls event =
        .ok { deferring with relations := [⟨.fork, some origin, none, some (id 1), none⟩] } := by
      rw [WikiArticle.fromEvent, hkind, htags, hcontent]
      decide +kernel
    refine ⟨event, hsigned, hread, ?_⟩
    rw [hread]
    decide +kernel

end Nula
