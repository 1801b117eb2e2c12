import Nula.Core.Message
import Nula.Core.Signing

/-!
# `Core.MessageJson` — messages on the wire (`message/client.rs`, `message/relay.rs`, `filter.rs`)

A message is an array whose first element names it; what follows is read by position, until nothing is left over.
A filter is an object whose fields are optional and whose tag constraints have keys of their own, `#` and a letter.

## Contents
- **Positions.** `Elements`, the readers of the rest of an array.
- **Filters.** `Filter.toJson`, `Filter.ofContent` and `Filter.ofContent_toJson`.
- **Messages.** The two families, and that each message is read back (`messages_round_trip`).
-/

namespace Nula

open Std

/-! ## Positions -/

/-- Readers of the elements that are left (`SeqAccess`). -/
abbrev Elements := StateT (List JsonContent) Option

namespace Elements

variable {α : Type} (item : JsonContent → Option α)

/-- `next_element`, `None` at the end. -/
def nextElement : Elements (Option α) := fun elements =>
  match elements with
  | [] => some (none, [])
  | c :: rest => (item c).map (fun a => (some a, rest))

/-- `next_element` of an element that must be there. -/
def next : Elements α := do
  match ← nextElement item with
  | some a => return a
  | none => failure

/-- `next_element` until there are none. -/
def all : Elements (List α) := fun elements => (elements.mapM item).map (fun items => (items, []))

/-- A whole array: what is left over is an error. -/
def whole (reader : Elements α) : JsonContent → Option α
  | .seq elements =>
      match reader.run elements with
      | some (a, []) => some a
      | _ => none
  | _ => none

end Elements

/-! ## Filters (`filter.rs`) -/

namespace Filter

/-- `tag_filter_key`. -/
def tagFilterKey (letter : SingleLetterTag) : String := String.ofList ['#', letter.asChar]

/-- `is_lowercase_hex_64`. -/
def isLowercaseHex64 (value : String) : Bool :=
  (strBytes value).length == 64 && (strBytes value).all (fun b => (48 ≤ b && b ≤ 57) || (97 ≤ b && b ≤ 102))

/-- `validate_hex_filter_values`. -/
def validateHexFilterValues (letter : SingleLetterTag) (values : List String) : Bool :=
  if letter = .lowercase .E ∨ letter = .lowercase .P then values.all isLowercaseHex64 else true

/-- `dedup_preserving_order`. -/
def dedupPreservingOrder (values : List String) : List String :=
  values.foldl (fun seen v => if v ∈ seen then seen else seen ++ [v]) []

/-- `Serialize for Filter`. -/
def toJson (f : Filter) : JsonValue :=
  .object (Json.field "ids" (f.ids.map (fun ids => .array (ids.map (fun id => .string id.toHex)))) ++
    Json.field "authors" (f.authors.map (fun authors => .array (authors.map (fun pk => .string pk.toHex)))) ++
    Json.field "kinds" (f.kinds.map (fun kinds => .array (kinds.map (fun k => .number k.val.toUInt64)))) ++
    Json.field "since" (f.since.map .number) ++ Json.field "until" (f.until.map .number) ++
    Json.field "limit" (f.limit.map (fun n => .number (UInt64.ofNat n))) ++
    Json.field "search" (f.search.map .string) ++
    f.genericTags.entries.map (fun e => (tagFilterKey e.1, .array (e.2.map .string))))

/-- `Filter::default`. -/
def default : Filter := ⟨none, none, none, none, none, none, none, ⟨[], List.nodup_nil⟩⟩

/-- `deserialize_filter_entry`; a later entry of a name takes the place of an earlier one. -/
def entry (f : Filter) : String × JsonContent → Option Filter
  | (key, value) =>
      match key.toList with
      -- a constraint on a tag letter, without its repeated values
      | '#' :: letterStr => do
          let letter ← (SingleLetterTag.parse (String.ofList letterStr)).toOption
          let values ← value.list JsonContent.text
          if validateHexFilterValues letter values then
            return { f with genericTags := f.genericTags.insert letter (dedupPreservingOrder values) }
          else none
      | _ =>
          match key with
          | "ids" => do return { f with ids := some (← value.list Json.eventId) }
          | "authors" => do return { f with authors := some (← value.list Json.publicKey) }
          | "kinds" => do return { f with kinds := some (← value.list Json.kind) }
          | "since" => do return { f with since := some (← value.number) }
          | "until" => do return { f with «until» := some (← value.number) }
          | "limit" => do return { f with limit := some (← value.number).toNat }
          | "search" => do return { f with search := some (← value.text) }
          | _ => some f

/-- `Deserialize for Filter`. -/
def ofContent : JsonContent → Option Filter
  | .map members => members.foldlM entry default
  | _ => none

variable (json : JsonCodec)

/-- `JsonUtil::try_to_json`. -/
def asJson (f : Filter) : String := json.write f.toJson

/-- `JsonUtil::from_json`. -/
def fromJson (text : String) : Option Filter := (json.read text).bind ofContent

end Filter

/-! ## Messages -/

/-- `Deserialize for SubscriptionId`. -/
def SubscriptionId.ofContent (c : JsonContent) : Option SubscriptionId := c.text.bind (fun s => (new s).toOption)

/-- A subscription id is written as its text. -/
def SubscriptionId.toJson (id : SubscriptionId) : JsonValue := .string id.text

/-- A boolean. -/
def JsonContent.flag : JsonContent → Option Bool
  | .bool b => some b
  | _ => none

open Elements (next all nextElement)

namespace ClientMessage

/-- The elements of a message, its name first. -/
def elements : ClientMessage → List JsonValue
  | event e => [.string "EVENT", e.toJson]
  | req id filters => .string "REQ" :: id.toJson :: filters.map Filter.toJson
  | close id => [.string "CLOSE", id.toJson]
  | auth e => [.string "AUTH", e.toJson]
  | count id filter => [.string "COUNT", id.toJson, filter.toJson]
  | negOpen id filter initial => [.string "NEG-OPEN", id.toJson, filter.toJson, .string initial]
  | negMsg id message => [.string "NEG-MSG", id.toJson, .string message]
  | negClose id => [.string "NEG-CLOSE", id.toJson]

/-- `Serialize for ClientMessage`. -/
def toJson (m : ClientMessage) : JsonValue := .array m.elements

/-- `["EVENT", event]`. -/
def decodeEvent : Elements ClientMessage := return event (← next Event.ofContent)

/-- `decode_req`: at least one filter. -/
def decodeReq : Elements ClientMessage := do
  let id ← next SubscriptionId.ofContent
  let filters ← all Filter.ofContent
  if filters = [] then failure else return req id filters

/-- `["CLOSE", id]`. -/
def decodeClose : Elements ClientMessage := return close (← next SubscriptionId.ofContent)

/-- `["AUTH", event]`. -/
def decodeAuth : Elements ClientMessage := return auth (← next Event.ofContent)

/-- `["COUNT", id, filter]`. -/
def decodeCount : Elements ClientMessage :=
  return count (← next SubscriptionId.ofContent) (← next Filter.ofContent)

/-- `["NEG-OPEN", id, filter, message]`. -/
def decodeNegOpen : Elements ClientMessage :=
  return negOpen (← next SubscriptionId.ofContent) (← next Filter.ofContent) (← next JsonContent.text)

/-- `["NEG-MSG", id, message]`. -/
def decodeNegMsg : Elements ClientMessage :=
  return negMsg (← next SubscriptionId.ofContent) (← next JsonContent.text)

/-- `["NEG-CLOSE", id]`. -/
def decodeNegClose : Elements ClientMessage := return negClose (← next SubscriptionId.ofContent)

/-- `Deserialize for ClientMessage`. -/
def ofContent : JsonContent → Option ClientMessage := Elements.whole do
  match ← next JsonContent.text with
  | "EVENT" => decodeEvent
  | "REQ" => decodeReq
  | "CLOSE" => decodeClose
  | "AUTH" => decodeAuth
  | "COUNT" => decodeCount
  | "NEG-OPEN" => decodeNegOpen
  | "NEG-MSG" => decodeNegMsg
  | "NEG-CLOSE" => decodeNegClose
  | _ => failure

variable (json : JsonCodec)

/-- `JsonUtil::try_to_json`. -/
def asJson (m : ClientMessage) : String := json.write m.toJson

/-- `JsonUtil::from_json`. -/
def fromJson (text : String) : Option ClientMessage := (json.read text).bind ofContent

end ClientMessage

namespace RelayMessage

/-- The elements of a message, its name first. -/
def elements : RelayMessage → List JsonValue
  | event id e => [.string "EVENT", id.toJson, e.toJson]
  | ok eventId accepted message => [.string "OK", .string eventId.toHex, .bool accepted, .string message]
  | endOfStoredEvents id => [.string "EOSE", id.toJson]
  | closed id message => [.string "CLOSED", id.toJson, .string message]
  | notice message => [.string "NOTICE", .string message]
  | auth challenge => [.string "AUTH", .string challenge]
  | count id n => [.string "COUNT", id.toJson, .object [("count", .number n)]]
  | negMsg id message => [.string "NEG-MSG", id.toJson, .string message]
  | negErr id message => [.string "NEG-ERR", id.toJson, .string message]

/-- `Serialize for RelayMessage`. -/
def toJson (m : RelayMessage) : JsonValue := .array m.elements

/-- `["EVENT", id, event]`. -/
def decodeEvent : Elements RelayMessage := return event (← next SubscriptionId.ofContent) (← next Event.ofContent)

/-- `["OK", event id, accepted, message]`. -/
def decodeOk : Elements RelayMessage :=
  return ok (← next Json.eventId) (← next JsonContent.flag) (← next JsonContent.text)

/-- `["EOSE", id]`. -/
def decodeEose : Elements RelayMessage := return endOfStoredEvents (← next SubscriptionId.ofContent)

/-- `decode_closed`: the message may be missing. -/
def decodeClosed : Elements RelayMessage :=
  return closed (← next SubscriptionId.ofContent) ((← nextElement JsonContent.text).getD "")

/-- `["NOTICE", message]`. -/
def decodeNotice : Elements RelayMessage := return notice (← next JsonContent.text)

/-- `["AUTH", challenge]`. -/
def decodeAuth : Elements RelayMessage := return auth (← next JsonContent.text)

/-- `Deserialize for CountPayload`. -/
def countPayload (c : JsonContent) : Option UInt64 := do
  Json.required (← Json.record ["count"] c) "count" JsonContent.number

/-- `["COUNT", id, payload]`. -/
def decodeCount : Elements RelayMessage := return count (← next SubscriptionId.ofContent) (← next countPayload)

/-- `["NEG-MSG", id, message]`. -/
def decodeNegMsg : Elements RelayMessage :=
  return negMsg (← next SubscriptionId.ofContent) (← next JsonContent.text)

/-- `["NEG-ERR", id, reason]`. -/
def decodeNegErr : Elements RelayMessage :=
  return negErr (← next SubscriptionId.ofContent) (← next JsonContent.text)

/-- `Deserialize for RelayMessage`. -/
def ofContent : JsonContent → Option RelayMessage := Elements.whole do
  match ← next JsonContent.text with
  | "EVENT" => decodeEvent
  | "OK" => decodeOk
  | "EOSE" => decodeEose
  | "CLOSED" => decodeClosed
  | "NOTICE" => decodeNotice
  | "AUTH" => decodeAuth
  | "COUNT" => decodeCount
  | "NEG-MSG" => decodeNegMsg
  | "NEG-ERR" => decodeNegErr
  | _ => failure

variable (json : JsonCodec)

/-- `JsonUtil::try_to_json`. -/
def asJson (m : RelayMessage) : String := json.write m.toJson

/-- `JsonUtil::from_json`. -/
def fromJson (text : String) : Option RelayMessage := (json.read text).bind ofContent

end RelayMessage

/-! ## Reading back -/

namespace Elements

variable {α : Type} {item : JsonContent → Option α}

/-- The element at the front is read, if it can be. -/
theorem run_nextElement (item : JsonContent → Option α) (c : JsonContent) (rest : List JsonContent) :
    (nextElement item).run (c :: rest) = (item c).map (fun a => (some a, rest)) := rfl

/-- An element that is there is read. -/
theorem run_next (item : JsonContent → Option α) (c : JsonContent) (rest : List JsonContent) :
    (next item).run (c :: rest) = (item c).map (fun a => (a, rest)) := by
  rw [next, StateT.run_bind, run_nextElement]
  cases item c with
  | none => rfl
  | some a => rfl

/-- Items that are each read back are read to the end of the array. -/
theorem run_all {value : α → JsonValue} {items : List α} (h : ∀ a ∈ items, item (value a).content = some a) :
    (all item).run (items.map (fun a => (value a).content)) = some (items, []) := by
  have hread : (items.map (fun a => (value a).content)).mapM item = some items := by
    induction items with
    | nil => rfl
    | cons a items ih =>
        rw [List.map_cons, List.mapM_cons, h a List.mem_cons_self, ih (fun b hb => h b (List.mem_cons_of_mem a hb))]
        rfl
  change ((items.map (fun a => (value a).content)).mapM item).map (fun items => (items, [])) = _
  rw [hread]
  rfl

/-- A reader that ends at the end of the array accepts it. -/
theorem whole_array {reader : Elements α} {elements : List JsonValue} {a : α}
    (h : reader.run (elements.map JsonValue.content) = some (a, [])) :
    whole reader (JsonValue.array elements).content = some a := by
  rw [JsonValue.content, contentElements_eq_map, whole, h]

/-- A reader that accepted an array had come to its end. -/
theorem run_of_whole_array {reader : Elements α} {elements : List JsonValue} {a : α}
    (h : whole reader (JsonValue.array elements).content = some a) :
    reader.run (elements.map JsonValue.content) = some (a, []) := by
  rw [JsonValue.content, contentElements_eq_map, whole] at h
  split at h
  · cases h
    assumption
  · cases h

end Elements

namespace Filter

/-- What the deserialiser asks of a filter, and the bound of its limit's type. -/
structure Encodable (f : Filter) : Prop where
  limit : ∀ n, f.limit = some n → n < 2 ^ 64
  hex : ∀ e ∈ f.genericTags.entries, validateHexFilterValues e.1 e.2 = true
  nodup : ∀ e ∈ f.genericTags.entries, e.2.Nodup

/-- Deduplicating leaves distinct values as they are. -/
theorem dedupPreservingOrder_nodup {values : List String} (h : values.Nodup) :
    dedupPreservingOrder values = values := by
  have hfold : ∀ seen rest : List String, (seen ++ rest).Nodup →
      rest.foldl (fun seen v => if v ∈ seen then seen else seen ++ [v]) seen = seen ++ rest := by
    intro seen rest hnodup
    induction rest generalizing seen with
    | nil => exact (List.append_nil seen).symm
    | cons v rest ih =>
        have hcut : seen ++ v :: rest = (seen ++ [v]) ++ rest := by simp
        have hnew : v ∉ seen := by
          intro hmem
          exact (List.nodup_append.mp hnodup).2.2 v hmem v List.mem_cons_self rfl
        rw [List.foldl_cons, if_neg hnew, ih (seen ++ [v]) (hcut ▸ hnodup), hcut]
  exact hfold [] values h

/-- A name that starts with `#` is a tag constraint. -/
theorem entry_of_hash (f : Filter) {key : String} {letterStr : List Char} (value : JsonContent)
    (h : key.toList = '#' :: letterStr) :
    entry f (key, value) = (do
      let letter ← (SingleLetterTag.parse (String.ofList letterStr)).toOption
      let values ← value.list JsonContent.text
      if validateHexFilterValues letter values then
        return { f with genericTags := f.genericTags.insert letter (dedupPreservingOrder values) }
      else none) := by
  unfold entry
  dsimp only
  rw [h]
  rfl

/-- **The member of a tag is read back**, if its values are distinct and, for ids and keys, hex. -/
theorem entry_tag (f : Filter) {letter : SingleLetterTag} {values : List String}
    (hhex : validateHexFilterValues letter values = true) (hnodup : values.Nodup) :
    entry f (tagFilterKey letter, (JsonValue.array (values.map .string)).content) =
      some { f with genericTags := f.genericTags.insert letter values } := by
  have hletter : SingleLetterTag.parse (String.ofList [letter.asChar]) = .ok letter :=
    SingleLetterTag.parse_asChar letter
  have hvalues : (JsonValue.array (values.map .string)).content.list JsonContent.text = some values :=
    JsonContent.list_content JsonContent.text_content values
  rw [tagFilterKey, entry_of_hash f _ String.toList_ofList, hletter, hvalues]
  simp only [Except.toOption, Option.bind_eq_bind, Option.bind_some, hhex, if_true, dedupPreservingOrder_nodup hnodup]
  rfl

/-- The tag constraints are read back in their order. -/
theorem foldlM_tags {entries : List (SingleLetterTag × List String)}
    (hhex : ∀ e ∈ entries, validateHexFilterValues e.1 e.2 = true) (hnodup : ∀ e ∈ entries, e.2.Nodup)
    (f : Filter) (hkeys : ((f.genericTags.entries ++ entries).map Prod.fst).Nodup) :
    (entries.map (fun e => (tagFilterKey e.1, (JsonValue.array (e.2.map .string)).content))).foldlM entry f =
      some { f with genericTags := ⟨f.genericTags.entries ++ entries, hkeys⟩ } := by
  induction entries generalizing f with
  | nil =>
      obtain ⟨ids, authors, kinds, since, «until», limit, search, entries, nodup⟩ := f
      simp
  | cons e entries ih =>
      obtain ⟨letter, values⟩ := e
      have hnew : letter ∉ f.genericTags.entries.map Prod.fst := by
        intro hmem
        rw [List.map_append, List.map_cons] at hkeys
        exact (List.nodup_append.mp hkeys).2.2 letter hmem letter List.mem_cons_self rfl
      have hinsert : (f.genericTags.insert letter values).entries = f.genericTags.entries ++ [(letter, values)] := by
        rw [IndexMap.insert, dif_neg hnew]
      have hcut : f.genericTags.entries ++ (letter, values) :: entries =
          (f.genericTags.entries ++ [(letter, values)]) ++ entries := by simp
      rw [List.map_cons, List.foldlM_cons, entry_tag f (hhex _ List.mem_cons_self) (hnodup _ List.mem_cons_self)]
      refine (ih (fun e he => hhex e (List.mem_cons_of_mem _ he)) (fun e he => hnodup e (List.mem_cons_of_mem _ he))
        { f with genericTags := f.genericTags.insert letter values } ?_).trans ?_
      · rw [hinsert, ← hcut]
        exact hkeys
      · simp only [hinsert, ← hcut]

/-- The entries of a field. -/
def entriesOf (name : String) (value : Option JsonValue) : List (String × JsonContent) :=
  (Json.field name value).map (fun m => (m.1, m.2.content))

/-- A member as the reader of the object sees it. -/
theorem map_field (name : String) (value : Option JsonValue) :
    (Json.field name value).map (fun m => (m.1, m.2.content)) = entriesOf name value := rfl

/-! What `entry` does with each name. -/

theorem entry_ids (f : Filter) (c : JsonContent) :
    entry f ("ids", c) = (do return { f with ids := some (← c.list Json.eventId) }) := rfl

theorem entry_authors (f : Filter) (c : JsonContent) :
    entry f ("authors", c) = (do return { f with authors := some (← c.list Json.publicKey) }) := rfl

theorem entry_kinds (f : Filter) (c : JsonContent) :
    entry f ("kinds", c) = (do return { f with kinds := some (← c.list Json.kind) }) := rfl

theorem entry_since (f : Filter) (c : JsonContent) :
    entry f ("since", c) = (do return { f with since := some (← c.number) }) := rfl

theorem entry_until (f : Filter) (c : JsonContent) :
    entry f ("until", c) = (do return { f with «until» := some (← c.number) }) := rfl

theorem entry_limit (f : Filter) (c : JsonContent) :
    entry f ("limit", c) = (do return { f with limit := some (← c.number).toNat }) := rfl

theorem entry_search (f : Filter) (c : JsonContent) :
    entry f ("search", c) = (do return { f with search := some (← c.text) }) := rfl

/-- A field is read back when its value is. -/
theorem foldlM_field {α : Type} {name : String} {field : Option α} {value : α → JsonValue} {before after : Filter}
    (hnone : field = none → before = after)
    (hsome : ∀ a, field = some a → entry before (name, (value a).content) = some after) :
    (entriesOf name (field.map value)).foldlM entry before = some after := by
  cases field with
  | none =>
      rw [hnone rfl]
      rfl
  | some a =>
      have hentry := hsome a rfl
      rw [Option.map_some, entriesOf, Json.field, Option.toList_some, List.map_singleton, List.map_singleton,
        List.foldlM_cons, hentry]
      rfl

theorem foldlM_entry_append {before mid after : Filter} {l l' : List (String × JsonContent)}
    (h : l.foldlM entry before = some mid) (h' : l'.foldlM entry mid = some after) :
    (l ++ l').foldlM entry before = some after := by
  rw [List.foldlM_append, h]
  exact h'

/-- **A filter is read back.** The fields that are written are read one after the other, and each of them turns one
    `none` of the default filter into what was written; the tags come last. -/
theorem ofContent_toJson {f : Filter} (h : f.Encodable) : ofContent f.toJson.content = some f := by
  obtain ⟨ids, authors, kinds, since, till, limit, search, ⟨entries, nodup⟩⟩ := f
  have htags := foldlM_tags h.hex h.nodup ⟨ids, authors, kinds, since, till, limit, search, ⟨[], List.nodup_nil⟩⟩ nodup
  have hids : (entriesOf "ids" (ids.map (fun ids => .array (ids.map (fun id => .string id.toHex))))).foldlM entry
      default = some ⟨ids, none, none, none, none, none, none, ⟨[], List.nodup_nil⟩⟩ := by
    refine foldlM_field ?_ ?_
    · rintro rfl
      rfl
    · rintro x rfl
      rw [entry_ids, JsonContent.list_content Json.eventId_content x]
      rfl
  have hauthors : (entriesOf "authors" (authors.map (fun authors =>
      .array (authors.map (fun pk => .string pk.toHex))))).foldlM entry
        ⟨ids, none, none, none, none, none, none, ⟨[], List.nodup_nil⟩⟩ =
      some ⟨ids, authors, none, none, none, none, none, ⟨[], List.nodup_nil⟩⟩ := by
    refine foldlM_field ?_ ?_
    · rintro rfl
      rfl
    · rintro x rfl
      rw [entry_authors, JsonContent.list_content Json.publicKey_content x]
      rfl
  have hkinds : (entriesOf "kinds" (kinds.map (fun kinds =>
      .array (kinds.map (fun k => .number k.val.toUInt64))))).foldlM entry
        ⟨ids, authors, none, none, none, none, none, ⟨[], List.nodup_nil⟩⟩ =
      some ⟨ids, authors, kinds, none, none, none, none, ⟨[], List.nodup_nil⟩⟩ := by
    refine foldlM_field ?_ ?_
    · rintro rfl
      rfl
    · rintro x rfl
      rw [entry_kinds, JsonContent.list_content Json.kind_content x]
      rfl
  have hsince : (entriesOf "since" (since.map .number)).foldlM entry
        ⟨ids, authors, kinds, none, none, none, none, ⟨[], List.nodup_nil⟩⟩ =
      some ⟨ids, authors, kinds, since, none, none, none, ⟨[], List.nodup_nil⟩⟩ := by
    refine foldlM_field ?_ ?_
    · rintro rfl
      rfl
    · rintro x rfl
      rw [entry_since, JsonContent.number_content]
      rfl
  have htill : (entriesOf "until" (till.map .number)).foldlM entry
        ⟨ids, authors, kinds, since, none, none, none, ⟨[], List.nodup_nil⟩⟩ =
      some ⟨ids, authors, kinds, since, till, none, none, ⟨[], List.nodup_nil⟩⟩ := by
    refine foldlM_field ?_ ?_
    · rintro rfl
      rfl
    · rintro x rfl
      rw [entry_until, JsonContent.number_content]
      rfl
  have hlimit : (entriesOf "limit" (limit.map (fun n => .number (UInt64.ofNat n)))).foldlM entry
        ⟨ids, authors, kinds, since, till, none, none, ⟨[], List.nodup_nil⟩⟩ =
      some ⟨ids, authors, kinds, since, till, limit, none, ⟨[], List.nodup_nil⟩⟩ := by
    refine foldlM_field ?_ ?_
    · rintro rfl
      rfl
    · rintro x rfl
      have hsize : (UInt64.ofNat x).toNat = x := UInt64.toNat_ofNat_of_lt (h.limit x rfl)
      rw [entry_limit, JsonContent.number_content, Option.bind_eq_bind, Option.bind_some, hsize]
      rfl
  have hsearch : (entriesOf "search" (search.map .string)).foldlM entry
        ⟨ids, authors, kinds, since, till, limit, none, ⟨[], List.nodup_nil⟩⟩ =
      some ⟨ids, authors, kinds, since, till, limit, search, ⟨[], List.nodup_nil⟩⟩ := by
    refine foldlM_field ?_ ?_
    · rintro rfl
      rfl
    · rintro x rfl
      rw [entry_search, JsonContent.text_content]
      rfl
  rw [toJson, JsonValue.content_object, ofContent]
  simp only [List.map_append, map_field]
  rw [List.map_map]
  have hlists := foldlM_entry_append (foldlM_entry_append hids hauthors) hkinds
  have hbounds := foldlM_entry_append (foldlM_entry_append (foldlM_entry_append hlists hsince) htill) hlimit
  exact foldlM_entry_append (foldlM_entry_append hbounds hsearch) htags

end Filter

/-- A subscription id comes back from its text, whose length was checked when it was made. -/
theorem SubscriptionId.ofContent_toJson (id : SubscriptionId) : ofContent id.toJson.content = some id := by
  rw [ofContent, toJson, JsonContent.text_content, Option.bind_some, new, dif_neg id.nonempty, dif_pos id.bounded]
  rfl

/-- The filters of a message can be encoded, and a `REQ` has one. -/
def ClientMessage.Encodable : ClientMessage → Prop
  | req _ filters => filters ≠ [] ∧ ∀ f ∈ filters, f.Encodable
  | count _ filter => filter.Encodable
  | negOpen _ filter _ => filter.Encodable
  | _ => True

/-- **A client's message comes back from its value**, one case for each label: the decoder of the label takes the
    elements in the order in which they were written. -/
theorem ClientMessage.ofContent_toJson {m : ClientMessage} (h : m.Encodable) : ofContent m.toJson.content = some m := by
  rw [ofContent, toJson]
  apply Elements.whole_array
  cases m with
  | req id filters =>
      have hfilters := Elements.run_all (fun f hf => Filter.ofContent_toJson (h.2 f hf))
      simp [elements, Elements.run_next, JsonContent.text_content, decodeReq, SubscriptionId.ofContent_toJson,
        List.map_map, Function.comp_def, hfilters, h.1]
  | event e =>
      simp [elements, Elements.run_next, JsonContent.text_content, decodeEvent, Event.ofContent_toJson]
  | close id =>
      simp [elements, Elements.run_next, JsonContent.text_content, decodeClose, SubscriptionId.ofContent_toJson]
  | auth e =>
      simp [elements, Elements.run_next, JsonContent.text_content, decodeAuth, Event.ofContent_toJson]
  | count id filter =>
      simp [elements, Elements.run_next, JsonContent.text_content, decodeCount, SubscriptionId.ofContent_toJson,
        Filter.ofContent_toJson h]
  | negOpen id filter initial =>
      simp [elements, Elements.run_next, JsonContent.text_content, decodeNegOpen, SubscriptionId.ofContent_toJson,
        Filter.ofContent_toJson h]
  | negMsg id message =>
      simp [elements, Elements.run_next, JsonContent.text_content, decodeNegMsg, SubscriptionId.ofContent_toJson]
  | negClose id =>
      simp [elements, Elements.run_next, JsonContent.text_content, decodeNegClose, SubscriptionId.ofContent_toJson]

/-- A message without its filters. -/
def ClientMessage.bare : ClientMessage → ClientMessage
  | req id _ => req id []
  | count id _ => count id .default
  | negOpen id _ initial => negOpen id .default initial
  | m => m

/-- A filter may be refused, or read with fewer values than were written. All else of a message comes back. Only the
    three messages with filters can come back changed, and of these the filter is left open. -/
theorem ClientMessage.bare_of_ofContent {m m' : ClientMessage} (h : ofContent m.toJson.content = some m') :
    m'.bare = m.bare := by
  have hsame : m.Encodable → m'.bare = m.bare := by
    intro hencodable
    rw [ofContent_toJson hencodable] at h
    cases h
    rfl
  have hread := Elements.run_of_whole_array h
  cases m with
  | req id filters =>
      cases hfilters : (all Filter.ofContent).run (filters.map (fun f => f.toJson.content)) with
      | none =>
          simp [elements, Elements.run_next, JsonContent.text_content, decodeReq, SubscriptionId.ofContent_toJson,
            List.map_map, Function.comp_def, hfilters] at hread
      | some r =>
          simp [elements, Elements.run_next, JsonContent.text_content, decodeReq, SubscriptionId.ofContent_toJson,
            List.map_map, Function.comp_def, hfilters] at hread
          by_cases hempty : r.1 = []
          · rw [if_pos hempty] at hread
            cases hread
          · rw [if_neg hempty] at hread
            have hmessage : req id r.1 = m' := congrArg Prod.fst (Option.some.inj hread)
            rw [← hmessage]
            rfl
  | count id filter =>
      cases hfilter : Filter.ofContent filter.toJson.content with
      | none =>
          simp [elements, Elements.run_next, JsonContent.text_content, decodeCount, SubscriptionId.ofContent_toJson,
            hfilter] at hread
      | some f =>
          simp [elements, Elements.run_next, JsonContent.text_content, decodeCount, SubscriptionId.ofContent_toJson,
            hfilter] at hread
          rw [← hread]
          rfl
  | negOpen id filter initial =>
      cases hfilter : Filter.ofContent filter.toJson.content with
      | none =>
          simp [elements, Elements.run_next, JsonContent.text_content, decodeNegOpen, SubscriptionId.ofContent_toJson,
            hfilter] at hread
      | some f =>
          simp [elements, Elements.run_next, JsonContent.text_content, decodeNegOpen, SubscriptionId.ofContent_toJson,
            hfilter] at hread
          rw [← hread]
          rfl
  | event e => exact hsame True.intro
  | close id => exact hsame True.intro
  | auth e => exact hsame True.intro
  | negMsg id message => exact hsame True.intro
  | negClose id => exact hsame True.intro

theorem RelayMessage.countPayload_content (n : UInt64) :
    countPayload (JsonValue.object [("count", .number n)]).content = some n := by
  simp [countPayload, JsonValue.content_object, Json.record, Json.required, Json.member, JsonContent.number_content]

/-- **A relay's message comes back from its value**, one case for each label. -/
theorem RelayMessage.ofContent_toJson (m : RelayMessage) : ofContent m.toJson.content = some m := by
  have hflag : ∀ b : Bool, (JsonValue.bool b).content.flag = some b := fun _ => rfl
  rw [ofContent, toJson]
  apply Elements.whole_array
  cases m with
  | event id e =>
      simp [elements, Elements.run_next, JsonContent.text_content, decodeEvent, SubscriptionId.ofContent_toJson,
        Event.ofContent_toJson]
  | ok eventId accepted message =>
      simp [elements, Elements.run_next, JsonContent.text_content, decodeOk, Json.eventId_content, hflag]
  | endOfStoredEvents id =>
      simp [elements, Elements.run_next, JsonContent.text_content, decodeEose, SubscriptionId.ofContent_toJson]
  | closed id message =>
      simp [elements, Elements.run_next, Elements.run_nextElement, JsonContent.text_content, decodeClosed,
        SubscriptionId.ofContent_toJson]
  | notice message =>
      simp [elements, Elements.run_next, JsonContent.text_content, decodeNotice]
  | auth challenge =>
      simp [elements, Elements.run_next, JsonContent.text_content, decodeAuth]
  | count id n =>
      simp [elements, Elements.run_next, JsonContent.text_content, decodeCount, SubscriptionId.ofContent_toJson,
        countPayload_content]
  | negMsg id message =>
      simp [elements, Elements.run_next, JsonContent.text_content, decodeNegMsg, SubscriptionId.ofContent_toJson]
  | negErr id message =>
      simp [elements, Elements.run_next, JsonContent.text_content, decodeNegErr, SubscriptionId.ofContent_toJson]

/-! ## Depths -/

theorem depth_strings (texts : List JsonValue) (h : ∀ v ∈ texts, v.depth = 0) : (JsonValue.array texts).depth ≤ 1 :=
  depth_array_le (fun v hv => Nat.le_of_eq (h v hv))

theorem Filter.depth_le (f : Filter) : f.toJson.depth ≤ 2 := by
  apply depth_object_le
  rintro m hm
  simp only [List.mem_append, Json.field, List.mem_map, Option.mem_toList, Option.map_eq_some_iff] at hm
  have harray : ∀ {α : Type} (items : List α) (value : α → JsonValue), (∀ a, (value a).depth = 0) →
      (JsonValue.array (items.map value)).depth ≤ 1 := by
    intro α items value hvalue
    refine depth_strings _ (fun v hv => ?_)
    obtain ⟨a, -, rfl⟩ := List.mem_map.mp hv
    exact hvalue a
  rcases hm with ((((((⟨v, ⟨x, -, rfl⟩, rfl⟩ | ⟨v, ⟨x, -, rfl⟩, rfl⟩) |
    ⟨v, ⟨x, -, rfl⟩, rfl⟩) | ⟨v, ⟨x, -, rfl⟩, rfl⟩) |
    ⟨v, ⟨x, -, rfl⟩, rfl⟩) | ⟨v, ⟨x, -, rfl⟩, rfl⟩) | ⟨v, ⟨x, -, rfl⟩, rfl⟩) | ⟨e, -, rfl⟩
  · exact harray _ _ (fun _ => rfl)
  · exact harray _ _ (fun _ => rfl)
  · exact harray _ _ (fun _ => rfl)
  · exact Nat.zero_le _
  · exact Nat.zero_le _
  · exact Nat.zero_le _
  · exact Nat.zero_le _
  · exact harray _ _ (fun _ => rfl)

/-- A client's message is not nested too deep for the parser. -/
theorem ClientMessage.depth_toJson (m : ClientMessage) : m.toJson.depth ≤ Json.maxDepth := by
  have hfilter : ∀ f : Filter, f.toJson.depth ≤ 3 := fun f => f.depth_le.trans (by decide)
  have helements : ∀ v ∈ m.elements, v.depth ≤ 3 := by
    cases m <;> simp [elements, SubscriptionId.toJson, JsonValue.depth, Event.depth_le, hfilter]
  exact (depth_array_le helements).trans (by decide)

/-- A relay's message is not nested too deep for the parser. -/
theorem RelayMessage.depth_toJson (m : RelayMessage) : m.toJson.depth ≤ Json.maxDepth := by
  have helements : ∀ v ∈ m.elements, v.depth ≤ 3 := by
    cases m <;> simp [elements, SubscriptionId.toJson, JsonValue.depth, depthMembers, Event.depth_le]
  exact (depth_array_le helements).trans (by decide)

/-! ## Round trips -/

/-- **A client's message comes back from its text.** -/
theorem ClientMessage.fromJson_asJson (json : JsonCodec) {m : ClientMessage} (h : m.Encodable) :
    fromJson json (m.asJson json) = some m := by
  rw [fromJson, asJson, json.read_write _ m.depth_toJson, Option.bind_some, ofContent_toJson h]

/-- Whatever message is read from a text of the client's, it says the same up to values that a filter repeats. -/
theorem ClientMessage.bare_of_fromJson {json : JsonCodec} {m m' : ClientMessage}
    (h : fromJson json (m.asJson json) = some m') : m'.bare = m.bare := by
  rw [fromJson, asJson, json.read_write _ m.depth_toJson, Option.bind_some] at h
  exact bare_of_ofContent h

/-- **Filters and messages are read back from their JSON.**

    A message is written as a value and read from the content of one. That nothing is nested too deep makes the
    text come back as the same content (`read_write`), and each label's decoder takes the elements in their order
    (`ofContent_toJson`). -/
theorem messages_round_trip (json : JsonCodec) :
    (∀ m : ClientMessage, m.Encodable → ClientMessage.fromJson json (m.asJson json) = some m) ∧
    (∀ m : RelayMessage, RelayMessage.fromJson json (m.asJson json) = some m) ∧
    ∀ f : Filter, f.Encodable → Filter.fromJson json (f.asJson json) = some f := by
  refine ⟨fun m h => ?_, fun m => ?_, fun f h => ?_⟩
  · exact ClientMessage.fromJson_asJson json h
  · rw [RelayMessage.fromJson, RelayMessage.asJson, json.read_write _ m.depth_toJson, Option.bind_some,
      RelayMessage.ofContent_toJson]
  · rw [Filter.fromJson, Filter.asJson, json.read_write _ (f.depth_le.trans (by decide)), Option.bind_some,
      Filter.ofContent_toJson h]

namespace Sample

/-- Lists that are present but empty, a limit of none, a text with escapes, and constraints out of order. -/
def unusual : Filter where
  ids := some []
  authors := some []
  kinds := some [⟨65535⟩]
  since := none
  «until» := some 18446744073709551615
  limit := some 0
  search := some "\"é\"\n"
  genericTags := ⟨[(.lowercase .P, [carol.toHex]), (⟨.E, true⟩, ["x", ""]), (.lowercase .A, [])], by decide⟩

/-- A filter with a tag whose values are told apart by their case can be sent. -/
theorem unusual_encodable : unusual.Encodable where
  limit n h := by
    cases h
    decide
  hex := by decide +kernel
  nodup := by decide +kernel

end Sample

/-- A request with the unusual filter comes back from its text. -/
theorem messages_round_trip_unusual : ClientMessage.fromJson Json.codec
    ((ClientMessage.req Sample.subscription [Sample.unusual]).asJson Json.codec) =
      some (ClientMessage.req Sample.subscription [Sample.unusual]) :=
  (messages_round_trip Json.codec).1 _ ⟨by decide, fun _ hf => List.mem_singleton.mp hf ▸ Sample.unusual_encodable⟩

end Nula
