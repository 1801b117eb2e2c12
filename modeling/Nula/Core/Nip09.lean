import Nula.Core.TagList

/-!
# `Core.Nip09` — coordinates and deletion requests, written and read back

`Coordinate::to_wire` and its parser (`event/coordinate.rs`), and `DeletionRequest::to_tags` and `from_event`
(`nips/nip09.rs`). An identifier may hold anything, colons too: only the first two are looked for. The three families of
tags are read in one pass, each into its own list.
-/

namespace Nula

/-! ## Coordinates (`event/coordinate.rs`) -/

/-- `Coordinate::to_wire`. -/
def Coordinate.toWire (c : Coordinate) : String :=
  toString c.kind.val.toNat ++ ":" ++ c.author.toHex ++ ":" ++ c.identifier

theorem Hex.digitChar_ne_colon : ∀ n < (16 : UInt8), Hex.digitChar n ≠ ':' := by
  decide +kernel

theorem Hex.colon_notMem_encode (b : Bytes) : ':' ∉ (Hex.encode b).toList := by
  rw [Hex.encode, String.toList_ofList, List.mem_flatMap]
  rintro ⟨x, -, hx⟩
  obtain ⟨hhigh, hlow, -⟩ := Hex.nibbles x
  rcases List.mem_cons.mp hx with h | h
  · exact Hex.digitChar_ne_colon _ hhigh h.symm
  · exact Hex.digitChar_ne_colon _ hlow (List.mem_singleton.mp h).symm

/-- A number has no colon, so the first colon of a coordinate is behind its kind. -/
theorem colon_notMem_toString (n : Nat) : ':' ∉ (toString n).toList := by
  intro h
  have hlist : (toString n).toList = Nat.toDigits 10 n := Nat.toList_repr
  have hdigit := Decimal.isDigit_toDigits ':' (hlist ▸ h)
  cases hdigit

/-- **Coordinates are read back**, whatever the identifier holds. -/
theorem Coordinate.parse_toWire (c : Coordinate) : Coordinate.parse c.toWire = .ok c := by
  have hlist : c.toWire.toList =
      (toString c.kind.val.toNat).toList ++ ':' :: (c.author.toHex.toList ++ ':' :: c.identifier.toList) := by
    simp [toWire]
  unfold Coordinate.parse
  rw [hlist, splitOnce_append (colon_notMem_toString _)]
  simp only [splitOnce_append (Hex.colon_notMem_encode c.author.bytes), PublicKey.toHex, String.ofList_toList,
    parseU16_toString]
  have hauthor : PublicKey.parse (Hex.encode c.author.bytes) = .ok c.author := PublicKey.parse_toHex c.author
  rw [hauthor]

/-- `Tag::a`. -/
def Tag.a (c : Coordinate) : Tag := withArgs (.singleLetter (.lowercase .A)) [c.toWire]

/-! ## Deletion requests (`nips/nip09.rs`) -/

/-- `EventBuilder::tags`. -/
def EventBuilder.extendTags (tags : List Tag) (b : EventBuilder) : EventBuilder :=
  { b with tags := ⟨b.tags.items ++ tags⟩ }

namespace DeletionRequest

/-- `DeletionRequest::to_tags`. -/
def toTags (request : DeletionRequest) : List Tag :=
  request.eventIds.map Tag.e ++ request.coordinates.map Tag.a ++ request.kinds.map Tag.k

/-- `EventBuilder::deletion`. -/
def builder (request : DeletionRequest) : EventBuilder :=
  (EventBuilder.new Kind.eventDeletion request.reason).extendTags request.toTags

section Reading

variable (request : DeletionRequest)

theorem addTag_e (id : EventId) :
    request.addTag (Tag.e id) = .ok { request with eventIds := request.eventIds ++ [id] } := by
  have hkind : (Tag.e id).kind = .singleLetter (.lowercase .E) := Tag.kind_letter .E _
  rw [addTag, if_pos hkind]
  simp only [Tag.e, Tag.content_withArgs, List.head?_cons, EventId.parse_toHex]

/-- The tag of a coordinate adds the coordinate, whatever colons its identifier has. -/
theorem addTag_a (c : Coordinate) :
    request.addTag (Tag.a c) = .ok { request with coordinates := request.coordinates ++ [c] } := by
  have hkind : (Tag.a c).kind = .singleLetter (.lowercase .A) := Tag.kind_letter .A _
  rw [addTag, if_neg (by rw [hkind]; decide), if_pos hkind]
  simp only [Tag.a, Tag.content_withArgs, List.head?_cons, Coordinate.parse_toWire]

theorem addTag_k (kind : Kind) :
    request.addTag (Tag.k kind) = .ok { request with kinds := request.kinds ++ [kind] } := by
  have hkind : (Tag.k kind).kind = .singleLetter (.lowercase .K) := Tag.kind_letter .K _
  rw [addTag, if_neg (by rw [hkind]; decide), if_neg (by rw [hkind]; decide), if_pos (by rw [hkind]; decide)]
  simp only [Tag.k, Tag.content_withArgs, List.head?_cons, parseU16_toString]

end Reading

/-- A family of tags goes to its own list, in order. -/
theorem foldlM_family {α : Type} {tag : α → Tag} (put : DeletionRequest → List α → DeletionRequest)
    (hnil : ∀ request, put request [] = request)
    (hcons : ∀ request a l, put request (a :: l) = put (put request [a]) l)
    (hadd : ∀ request a, addTag request (tag a) = .ok (put request [a])) (l : List α) (request : DeletionRequest) :
    (l.map tag).foldlM addTag request = .ok (put request l) := by
  induction l generalizing request with
  | nil => rw [hnil]; rfl
  | cons a l ih =>
      rw [List.map_cons, List.foldlM_cons, hadd, hcons request a l]
      exact ih _

/-- The tags of a deletion request make it, one after the other. -/
theorem foldlM_toTags (request : DeletionRequest) :
    request.toTags.foldlM addTag ⟨[], [], [], request.reason⟩ = .ok request := by
  have hids : ∀ (l : List EventId) (r : DeletionRequest),
      (l.map Tag.e).foldlM addTag r = .ok { r with eventIds := r.eventIds ++ l } := fun l r =>
    foldlM_family (fun r l => { r with eventIds := r.eventIds ++ l }) (fun r => by rw [List.append_nil])
      (fun r a l => by rw [List.append_assoc, List.singleton_append]) addTag_e l r
  have hcoordinates : ∀ (l : List Coordinate) (r : DeletionRequest),
      (l.map Tag.a).foldlM addTag r = .ok { r with coordinates := r.coordinates ++ l } := fun l r =>
    foldlM_family (fun r l => { r with coordinates := r.coordinates ++ l }) (fun r => by rw [List.append_nil])
      (fun r a l => by rw [List.append_assoc, List.singleton_append]) addTag_a l r
  have hkinds : ∀ (l : List Kind) (r : DeletionRequest),
      (l.map Tag.k).foldlM addTag r = .ok { r with kinds := r.kinds ++ l } := fun l r =>
    foldlM_family (fun r l => { r with kinds := r.kinds ++ l }) (fun r => by rw [List.append_nil])
      (fun r a l => by rw [List.append_assoc, List.singleton_append]) addTag_k l r
  rw [toTags, List.foldlM_append, List.foldlM_append, hids]
  show (do let r ← List.foldlM addTag _ (request.coordinates.map Tag.a); _) = _
  rw [hcoordinates]
  exact hkinds _ _

end DeletionRequest

/-- **What is asked for is read back.** A coordinate comes back from its wire form, and a deletion request from the
    event that its builder makes at any time, with every list in its order.

    A number has no colon and hex has none, so the first two colons of a coordinate are its own; the tags of a
    request are read one after the other by a fold that undoes their writing (`foldlM_toTags`). -/
theorem deletion_round_trip (crypto : KeyCrypto) (clock : Clock) (aux : Bytes) (keys : Keys)
    (request : DeletionRequest) (createdAt : Option Timestamp) (event : Event)
    (h : { request.builder with createdAt := createdAt }.signWithKeys crypto clock aux keys = .ok event) :
    (∀ c : Coordinate, Coordinate.parse c.toWire = .ok c) ∧ DeletionRequest.fromEvent event = .ok request := by
  obtain ⟨-, hkind, htags, hcontent, -⟩ := EventBuilder.signWithKeys_eq_ok h
  refine ⟨Coordinate.parse_toWire, ?_⟩
  have hdeletion : event.kind = Kind.eventDeletion := hkind
  have hreason : event.content = request.reason := hcontent
  have hitems : event.tags.items = request.toTags := by
    rw [htags]
    rfl
  rw [DeletionRequest.fromEvent, if_neg (not_not.mpr hdeletion), hitems, hreason]
  exact DeletionRequest.foldlM_toTags request

/-! Carol (secret key 3) asks for the deletion of a note and of an article whose identifier has a colon. -/

namespace Sample

/-- A deletion that names an event, an article with a colon in its name, and a kind. -/
def retraction : DeletionRequest := ⟨[id 7], [⟨⟨30023⟩, carol, "a:b"⟩], [⟨1⟩], "typo"⟩

/-- The event that carries it. -/
def retracted : Event where
  id := ⟨hexBytes "5dd14abaf9eb24d55417273a4475398b354255c3de7592336be3f4e622bcc3c0", by decide +kernel⟩
  pubkey := carol
  createdAt := 1700000000
  kind := .eventDeletion
  tags := ⟨retraction.toTags⟩
  content := "typo"
  sig := ⟨hexBytes ("8e7071fa164bd33f596c2e0de3c4ddd8a0a246b02d689807e246bfe83b214023" ++
    "23275627673266389f68cb7333e392e1a8c6902a3bc155ddb353c79422e6dc82"), by decide +kernel⟩

/-- Digests and a signature of that event. -/
def retractionCrypto : KeyCrypto :=
  (knowing [(canonicalBytes carol 1700000000 ⟨5⟩ retracted.tags "typo", retracted.id)] [retracted]).toKeyCrypto

end Sample

open Sample in
theorem deletion_round_trip_retracted : DeletionRequest.fromEvent retracted = .ok retraction :=
  (deletion_round_trip retractionCrypto (.error "") [] carolKeys retraction (some 1700000000) retracted
    (by decide +kernel)).2

end Nula
