import Nula.Lib.Wire
import Nula.Core.Filter

/-!
# `Storage.Redb.Codec` — the on-disk record

`redb/codec.rs`: a version byte and the postcard encoding of the event, read back in full, up to the
timestamp, or up to the tags. `postcard` itself is a parameter (`Postcard`): its four entry points, and
the documented behaviour the code relies on — an event always encodes, a decode inverts it, and a tuple of
leading fields reads a prefix of the record. `Format.postcard` derives all of it from the shape of the
format, whatever the integer encoding, and `Postcard.wire` is postcard's own.

The projections are as good as the event: `matchEvent_view`, and `projections_agree` for the whole record.
-/

namespace Nula

/-! ## Postcard -/

/-- The leading fields of a record, with the id and the public key in their stored hex form. -/
abbrev HeaderTuple := String × String × Timestamp

/-- The record as the matching view reads it. -/
abbrev MatchTuple := String × String × Timestamp × Kind × List (List String)

/-- `postcard`, at the types it is used at. -/
structure Postcard where
  /-- `postcard::Error`. -/
  Err : Type
  toAllocvec : Event → Except Err Bytes
  fromBytes : Bytes → Except Err Event
  takeHeader : Bytes → Except Err (HeaderTuple × Bytes)
  takeMatch : Bytes → Except Err (MatchTuple × Bytes)
  /-- Serialising into a growable buffer does not fail. -/
  total : ∀ e, ∃ body, toAllocvec e = .ok body
  roundTrip : ∀ e body, toAllocvec e = .ok body → fromBytes body = .ok e
  /-- Structs and tuples have one layout, and `take_from_bytes` ignores what follows. -/
  header : ∀ e body, toAllocvec e = .ok body → ∃ tail,
    takeHeader body = .ok ((e.id.toHex, e.pubkey.toHex, e.createdAt), tail)
  view : ∀ e body, toAllocvec e = .ok body → ∃ tail,
    takeMatch body
      = .ok ((e.id.toHex, e.pubkey.toHex, e.createdAt, e.kind, e.tags.items.map Tag.values), tail)

/-! ## Postcard's format

Length-prefixed strings and byte strings, counted sequences, and for a struct or a tuple its fields one after
the other. How lengths and integers are written is left open (`Format`); `Format.varints` is what postcard
does. Ids and public keys are written as hex strings (`collect_str`), a signature as bytes. -/

namespace Postcard

/-- The encodings of lengths and integers. -/
structure Format where
  len : Wire Nat
  u64 : Wire UInt64
  u16 : Wire UInt16

/-- The error of a failed read is not modelled further. -/
def ofOption {α : Type} : Option α → Except Unit α
  | some a => .ok a
  | none => .error ()

namespace Format

/-- Every length and integer is a varint. -/
def varints : Format where
  len := Wire.varint
  u64 := Wire.varint.imap UInt64.toNat (fun n => if n < 2 ^ 64 then some (UInt64.ofNat n) else none)
    (fun v => by rw [if_pos v.toNat_lt, UInt64.ofNat_toNat])
  u16 := Wire.varint.imap UInt16.toNat (fun n => if n < 2 ^ 16 then some (UInt16.ofNat n) else none)
    (fun v => by rw [if_pos v.toNat_lt, UInt16.ofNat_toNat])

variable (fmt : Format)

/-- A counted row. -/
def seq {α : Type} (A : Wire α) : Wire (List α) := Wire.counted fmt.len A

/-- A text, with its length in front. -/
def str : Wire String :=
  (Wire.prefixed fmt.len).imap strBytes (fun b => String.fromUTF8? ⟨b.toArray⟩) (by
    intro s
    have hb : (⟨(strBytes s).toArray⟩ : ByteArray) = s.toByteArray := by simp [strBytes]
    rw [hb, String.fromUTF8?, dif_pos s.isValidUTF8]
    rfl)

/-- `collect_str` of the hex form, read back by `EventId::parse`. -/
def id : Wire EventId :=
  fmt.str.imap EventId.toHex (fun s => (EventId.parse s).toOption) (fun id => by
    simp [EventId.parse, EventId.toHex, Hex.decode_encode, EventId.fromSlice, id.size, Except.toOption])

/-- `collect_str` of the hex form, read back by `PublicKey::parse`. -/
def pubkey : Wire PublicKey :=
  fmt.str.imap PublicKey.toHex (fun s => (PublicKey.parse s).toOption) (fun pk => by
    simp [PublicKey.parse, PublicKey.toHex, Hex.decode_encode, PublicKey.fromSlice, pk.size, pk.onCurve,
      Except.toOption])

/-- A kind. -/
def kind : Wire Kind := fmt.u16.imap Kind.val (fun v => some ⟨v⟩) (fun _ => rfl)

/-- A tag, which is not empty. -/
def tag : Wire Tag :=
  (fmt.seq fmt.str).imap Tag.values (fun v => if h : v ≠ [] then some ⟨v, h⟩ else none)
    (fun t => dif_pos t.nonempty)

/-- Tags. -/
def tags : Wire Tags := (fmt.seq fmt.tag).imap Tags.items (fun items => some ⟨items⟩) (fun _ => rfl)

/-- A signature. -/
def sig : Wire Signature :=
  (Wire.prefixed fmt.len).imap Signature.bytes
    (fun b => if h : b.length = 64 then some ⟨b, h⟩ else none) (fun s => dif_pos s.size)

/-- The seven fields in declaration order. -/
def event : Wire Event :=
  (fmt.id.prod (fmt.pubkey.prod (fmt.u64.prod (fmt.kind.prod (fmt.tags.prod
    (fmt.str.prod fmt.sig)))))).imap
    (fun e => (e.id, e.pubkey, e.createdAt, e.kind, e.tags, e.content, e.sig))
    (fun (i, pk, ts, k, t, c, s) => some ⟨i, pk, ts, k, t, c, s⟩) (fun _ => rfl)

/-- The record as far as its time. -/
def headerTuple : Wire HeaderTuple := fmt.str.prod (fmt.str.prod fmt.u64)

/-- The record as far as its tags. -/
def matchTuple : Wire MatchTuple :=
  fmt.str.prod (fmt.str.prod (fmt.u64.prod (fmt.kind.prod (fmt.seq (fmt.seq fmt.str)))))

/-- A tag list is written as the list of its value lists. -/
theorem tags_put (t : Tags) :
    fmt.tags.put t = (fmt.seq (fmt.seq fmt.str)).put (t.items.map Tag.values) :=
  Wire.counted_imap_put ..

/-- Postcard over the format: an event is its fields in a row, and `take_from_bytes` reads the requested
    fields and stops. -/
def postcard : Postcard where
  Err := Unit
  toAllocvec e := .ok (fmt.event.put e)
  fromBytes b := ofOption ((fmt.event.get b).map Prod.fst)
  takeHeader b := ofOption (fmt.headerTuple.get b)
  takeMatch b := ofOption (fmt.matchTuple.get b)
  total e := ⟨fmt.event.put e, rfl⟩
  roundTrip := by
    rintro e _ ⟨⟩
    have := fmt.event.get_put e []
    rw [List.append_nil] at this
    rw [this]
    rfl
  header := by
    rintro e _ ⟨⟩
    let tail := fmt.kind.put e.kind ++ (fmt.tags.put e.tags ++ (fmt.str.put e.content ++ fmt.sig.put e.sig))
    have hput : fmt.event.put e
        = fmt.headerTuple.put (e.id.toHex, e.pubkey.toHex, e.createdAt) ++ tail := by
      show fmt.id.put e.id ++ (fmt.pubkey.put e.pubkey ++ (fmt.u64.put e.createdAt ++ tail)) = _
      simp only [headerTuple, Wire.prod_put, List.append_assoc]
      rfl
    refine ⟨tail, ?_⟩
    rw [hput, fmt.headerTuple.get_put]
    rfl
  view := by
    rintro e _ ⟨⟩
    let tail := fmt.str.put e.content ++ fmt.sig.put e.sig
    have hput : fmt.event.put e = fmt.matchTuple.put
        (e.id.toHex, e.pubkey.toHex, e.createdAt, e.kind, e.tags.items.map Tag.values) ++ tail := by
      show fmt.id.put e.id ++ (fmt.pubkey.put e.pubkey ++ (fmt.u64.put e.createdAt ++
        (fmt.kind.put e.kind ++ (fmt.tags.put e.tags ++ tail)))) = _
      simp only [matchTuple, Wire.prod_put, List.append_assoc, ← tags_put]
      rfl
    refine ⟨tail, ?_⟩
    rw [hput, fmt.matchTuple.get_put]
    rfl

end Format

/-- Postcard, spelled out. -/
def wire : Postcard := Format.varints.postcard

end Postcard

/-! ## The record -/

/-- Errors of the redb backend that depend on what is stored. -/
inductive RedbError (ε : Type) where
  | encode (e : ε)
  | decode (e : ε)
  | unsupportedCodecVersion (version : UInt8)
  | emptyPayload
  | corruptRecord (what : String)

namespace Codec

variable (pc : Postcard)

/-- `STORED_EVENT_VERSION`. -/
def storedEventVersion : UInt8 := 1

/-- `codec::encode`. -/
def encode (event : Event) : Except (RedbError pc.Err) Bytes :=
  match pc.toAllocvec event with
  | .error e => .error (.encode e)
  | .ok body => .ok (storedEventVersion :: body)

/-- `codec::decode`. -/
def decode (bytes : Bytes) : Except (RedbError pc.Err) Event :=
  match bytes with
  | [] => .error .emptyPayload
  | version :: rest =>
      if version = storedEventVersion then
        match pc.fromBytes rest with
        | .error e => .error (.decode e)
        | .ok event => .ok event
      else .error (.unsupportedCodecVersion version)

/-- `codec::decode_created_at`. -/
def decodeCreatedAt (bytes : Bytes) : Except (RedbError pc.Err) Timestamp :=
  match bytes with
  | [] => .error .emptyPayload
  | version :: rest =>
      if version ≠ storedEventVersion then .error (.unsupportedCodecVersion version)
      else match pc.takeHeader rest with
        | .error e => .error (.decode e)
        | .ok ((_, _, createdAt), _) => .ok createdAt

end Codec

/-- `EventView`: what the matcher inspects. -/
structure EventView where
  id : EventId
  pubkey : Bytes
  createdAt : Timestamp
  kind : Kind
  tags : List (List String)

namespace Codec

variable (pc : Postcard)

/-- `codec::decode_match_view`. -/
def decodeMatchView (bytes : Bytes) : Except (RedbError pc.Err) EventView :=
  match bytes with
  | [] => .error .emptyPayload
  | version :: rest =>
      if version ≠ storedEventVersion then .error (.unsupportedCodecVersion version)
      else match pc.takeMatch rest with
        | .error e => .error (.decode e)
        | .ok ((idHex, pubkeyHex, createdAt, kind, tags), _) =>
            match Hex.decodeToSlice 32 (strBytes idHex) with
            | .error _ => .error (.corruptRecord "event id is not hex")
            | .ok id => match Hex.decodeToSlice 32 (strBytes pubkeyHex) with
              | .error _ => .error (.corruptRecord "pubkey is not hex")
              -- the buffer has 32 bytes, so `from_byte_array` is total
              | .ok pubkey => match EventId.fromSlice id with
                | .error _ => .error (.corruptRecord "event id is not hex")
                | .ok id => .ok ⟨id, pubkey, createdAt, kind, tags⟩

end Codec

instance : MatchableEvent EventView where
  matchableId v := v.id
  matchablePubkeyBytes v := v.pubkey
  matchableKind v := v.kind
  matchableCreatedAt v := v.createdAt
  matchableHasTag v letter values := v.tags.any (fun tag =>
    decide (tag.head?.bind (fun head => (SingleLetterTag.parse head).toOption) = some letter) &&
      (tag[1]?).any (fun content => values.any (fun value => value = content)))
  matchableExpiration v := do
    let tag ← v.tags.find? (fun tag => tag.head? = some "expiration")
    let value ← tag[1]?
    parseU64 value

/-! ## Records of events -/

namespace Codec

variable (pc : Postcard)

/-- The record of an event. -/
def record (event : Event) : Bytes :=
  match pc.toAllocvec event with
  | .error _ => []
  | .ok body => storedEventVersion :: body

/-- The projection of an event. -/
def viewOf (event : Event) : EventView :=
  ⟨event.id, event.pubkey.bytes, event.createdAt, event.kind, event.tags.items.map Tag.values⟩

theorem encode_eq (event : Event) : encode pc event = .ok (record pc event) := by
  obtain ⟨body, hbody⟩ := pc.total event
  simp [encode, record, hbody]

/-- **An event comes back from its record.** -/
theorem decode_record (event : Event) : decode pc (record pc event) = .ok event := by
  obtain ⟨body, hbody⟩ := pc.total event
  simp [decode, record, hbody, pc.roundTrip event body hbody]

theorem decodeCreatedAt_record (event : Event) :
    decodeCreatedAt pc (record pc event) = .ok event.createdAt := by
  obtain ⟨body, hbody⟩ := pc.total event
  obtain ⟨tail, htail⟩ := pc.header event body hbody
  simp [decodeCreatedAt, record, hbody, htail]

theorem decodeMatchView_record (event : Event) :
    decodeMatchView pc (record pc event) = .ok (viewOf event) := by
  obtain ⟨body, hbody⟩ := pc.total event
  obtain ⟨tail, htail⟩ := pc.view event body hbody
  have hid : Hex.decodeToSlice 32 (strBytes event.id.toHex) = .ok event.id.bytes :=
    Hex.decodeToSlice_encode event.id.size
  have hpk : Hex.decodeToSlice 32 (strBytes event.pubkey.toHex) = .ok event.pubkey.bytes :=
    Hex.decodeToSlice_encode event.pubkey.size
  have hslice : EventId.fromSlice event.id.bytes = .ok event.id := by
    simp [EventId.fromSlice, event.id.size]
  simp [decodeMatchView, record, hbody, htail, hid, hpk, hslice, viewOf]

end Codec

/-- The projection answers tag constraints as the event's index does. -/
theorem matchableHasTag_viewOf (e : Event) (letter : SingleLetterTag) (values : List String) :
    MatchableEvent.matchableHasTag (Codec.viewOf e) letter values = e.tags.hasTag letter values := by
  have hhead : ∀ tag : Tag, tag.values.head? = some tag.name := by
    rintro ⟨values, hne⟩
    obtain ⟨v, vs, rfl⟩ := List.exists_cons_of_ne_nil hne
    rfl
  rw [Bool.eq_iff_iff, Tags.hasTag_iff]
  simp only [MatchableEvent.matchableHasTag, Codec.viewOf, List.any_map, List.any_eq_true,
    Function.comp, hhead, Option.bind_some, Bool.and_eq_true, decide_eq_true_eq, Option.any_eq_true]
  constructor
  · rintro ⟨tag, htag, hl, c, hc, v, hv, rfl⟩
    exact ⟨tag, htag, hl, v, hv, hc⟩
  · rintro ⟨tag, htag, hl, v, hv, hc⟩
    exact ⟨tag, htag, hl, v, hc, v, hv, rfl⟩

/-- Only the wire name `expiration` has its kind. -/
theorem kind_eq_expiration_iff (tag : Tag) :
    tag.kind = TagKind.fromWire "expiration" ↔ tag.values.head? = some "expiration" := by
  have hwire : TagKind.fromWire "expiration" = .custom "expiration" := by decide +kernel
  obtain ⟨values, hne⟩ := tag
  obtain ⟨v, vs, rfl⟩ := List.exists_cons_of_ne_nil hne
  rw [hwire, Tag.kind, Tag.name]
  simp only [List.headD_cons, List.head?_cons, Option.some.injEq]
  constructor
  · intro h
    unfold TagKind.fromWire at h
    split at h
    · cases h
    · exact TagKind.custom.inj h
  · rintro rfl
    exact hwire

theorem matchableExpiration_viewOf (e : Event) :
    MatchableEvent.matchableExpiration (Codec.viewOf e) = MatchableEvent.matchableExpiration e := by
  have hfind : (e.tags.items.map Tag.values).find? (fun tag => tag.head? = some "expiration")
      = (e.tags.findFirst (TagKind.fromWire "expiration")).map Tag.values := by
    rw [List.find?_map, Tags.findFirst]
    congr 2
    funext tag
    rw [Function.comp_apply, decide_eq_decide]
    exact (kind_eq_expiration_iff tag).symm
  simp only [MatchableEvent.matchableExpiration, Codec.viewOf, hfind, Event.expiration]
  cases e.tags.findFirst (TagKind.fromWire "expiration") with
  | none => rfl
  | some tag =>
      simp only [Option.map_some, Option.bind_eq_bind, Option.bind_some, Tag.content]
      cases tag.values[1]? with
      | none => rfl
      | some value =>
          simp only [Option.bind_some]
          cases parseU64 value <;> rfl

/-- **Matching the projection is matching the event**, under any options. -/
theorem matchEvent_view (f : Filter) (e : Event) (opts : MatchEventOptions) :
    f.matchEvent (Codec.viewOf e) opts = f.matchEvent e opts := by
  have htags : Filter.genericTagsMatch f.genericTags (Codec.viewOf e)
      = Filter.genericTagsMatch f.genericTags e := by
    simp only [Filter.genericTagsMatch, matchableHasTag_viewOf]
    rfl
  unfold Filter.matchEvent
  rw [htags, matchableExpiration_viewOf]
  rfl

/-- **The projections never diverge from the event.** Over a format that writes structs and tuples field by
    field, an encoded event decodes to itself, its header to its timestamp, and its match view passes the
    same filters, under any options.

    A format writes the fields one after the other, so the shorter tuples read its first three and its first five
    and leave the rest unread. -/
theorem projections_agree (fmt : Postcard.Format) (e : Event) :
    ∃ bytes view, Codec.encode fmt.postcard e = .ok bytes ∧
      Codec.decode fmt.postcard bytes = .ok e ∧
      Codec.decodeCreatedAt fmt.postcard bytes = .ok e.createdAt ∧
      Codec.decodeMatchView fmt.postcard bytes = .ok view ∧
      ∀ (f : Filter) (opts : MatchEventOptions), f.matchEvent view opts = f.matchEvent e opts :=
  ⟨Codec.record fmt.postcard e, Codec.viewOf e, Codec.encode_eq fmt.postcard e,
    Codec.decode_record fmt.postcard e, Codec.decodeCreatedAt_record fmt.postcard e,
    Codec.decodeMatchView_record fmt.postcard e, fun f opts => matchEvent_view f e opts⟩

/-- The match every redb scan uses. -/
theorem matchEvent_view_default (f : Filter) (e : Event) :
    f.matchEvent (Codec.viewOf e) .default = f.admits e :=
  matchEvent_view f e .default

end Nula
