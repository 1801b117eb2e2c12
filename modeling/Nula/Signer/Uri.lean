import Nula.Core.Spelling
import Nula.Lib.FormUrlencoded
import Nula.Signer.Envelope

/-!
# `Signer.Uri` — connection URIs (`nips/nip46.rs`)

A signer or an app publishes a URI that says who it is and where it listens: a key for host, and a query with
the relays, the metadata of an app, a secret and the permissions an app asks for. The repository writes the query
with an encoder of its own and reads it with that of the URL crate, which is a parameter.

## Contents
- **Metadata, URIs.** The types, `Uri.display` and `Uri.parse`.
- **What is written.** The query is a form, its values percent encoded (`writeQuery_spec`).
- **What is read.** `Uri.reads_back`.
-/

namespace Nula.Nip46

open Nula

/-! ## Metadata -/

structure Metadata where
  name : String
  url : Option String
  description : Option String
  icons : Option (List String)
  deriving DecidableEq, Repr

namespace Metadata

/-- `Serialize for Metadata`. -/
def toJson (m : Metadata) : JsonValue :=
  .object (("name", .string m.name) :: Json.field "url" (m.url.map .string) ++
    Json.field "description" (m.description.map .string) ++
    Json.field "icons" (m.icons.map (fun icons => .array (icons.map .string))))

/-- The names of its members. -/
def names : List String := ["name", "url", "description", "icons"]

/-- `Deserialize for Metadata`; an array may end where the defaults begin. -/
def ofContent (c : JsonContent) : Option Metadata := do
  let members ← match c with
    | .map members => some members
    | .seq elements => if elements.length ≤ names.length then some (names.zip elements) else none
    | _ => none
  let name ← Json.required members "name" JsonContent.text
  let url ← Json.optional members "url" JsonContent.text
  let description ← Json.optional members "description" JsonContent.text
  let icons ← Json.optional members "icons" (JsonContent.list JsonContent.text)
  return ⟨name, url, description, icons⟩

variable (json : JsonCodec)

/-- `try_to_json`, which does not fail here. -/
def asJson (m : Metadata) : String := json.write m.toJson

def fromJson (text : String) : Option Metadata := (json.read text).bind ofContent

end Metadata

/-! ## URIs -/

inductive Uri where
  | bunker (remoteSignerPublicKey : PublicKey) (relays : List RelayUrl) (secret : Option String)
  | client (publicKey : PublicKey) (relays : List RelayUrl) (metadata : Metadata) (secret : String)
      (perms : List Permission)
  deriving DecidableEq

/-- `Nip46Error`, as far as connection URIs go; JSON errors without their text. -/
inductive UriError where
  | url (text : String)
  | publicKey (e : PublicKeyError)
  | relayUrl (e : RelayUrlError)
  | json
  | malformedUri (text : String)
  | unknownUriScheme (scheme : String)
  deriving DecidableEq, Repr

/-- `URI_SCHEME_CLIENT`. -/
def uriSchemeClient : String := "nostrconnect"

/-- `URI_SCHEME_BUNKER`. -/
def uriSchemeBunker : String := "bunker"

/-! ### Writing -/

/-- The bytes `url_encode` leaves alone. -/
def preserve (byte : UInt8) : Bool :=
  (48 ≤ byte && byte ≤ 57) || (65 ≤ byte && byte ≤ 90) || (97 ≤ byte && byte ≤ 122) ||
    "-_.~/:".toList.any (fun c => byte.toNat == c.toNat)

/-- `hex_nibble`. -/
def hexNibble (n : UInt8) : Char :=
  if n ≤ 9 then Char.ofNat (48 + n.toNat) else if n ≤ 15 then Char.ofNat (65 + (n.toNat - 10)) else '0'

/-- A byte of a query: itself, or its number in hex. -/
def encodeByte (byte : UInt8) : List Char :=
  if preserve byte then [Char.ofNat byte.toNat] else ['%', hexNibble (byte >>> 4), hexNibble (byte &&& 0x0f)]

/-- `url_encode`. -/
def urlEncode (input : String) : String := String.ofList ((strBytes input).flatMap encodeByte)

/-- `emit`: the text so far, and whether this pair is the first. -/
def emit (sink : String × Bool) (p : String × String) : String × Bool :=
  (sink.1 ++ (if sink.2 then "?" else "&") ++ (p.1 ++ "=" ++ urlEncode p.2), false)

/-- What `write_query` emits, in its order. -/
def queryOf (relays : List RelayUrl) (secret metadataJson : Option String) (perms : List Permission) :
    List (String × String) :=
  relays.map (fun r => ("relay", r.asStr)) ++ metadataJson.toList.map (fun m => ("metadata", m)) ++
    secret.toList.map (fun s => ("secret", s)) ++
    if perms = [] then [] else [("perms", Permission.join perms)]

/-- `write_query`. -/
def writeQuery (pairs : List (String × String)) : String := (pairs.foldl emit ("", true)).1

namespace Uri

variable (json : JsonCodec)

/-- The scheme of a uri. -/
def scheme : Uri → String
  | bunker .. => uriSchemeBunker
  | client .. => uriSchemeClient

/-- The key it names. -/
def key : Uri → PublicKey
  | bunker pk _ _ => pk
  | client pk _ _ _ _ => pk

/-- The relays it names. -/
def relays : Uri → List RelayUrl
  | bunker _ relays _ => relays
  | client _ relays _ _ _ => relays

/-- The permissions it asks for. -/
def perms : Uri → List Permission
  | bunker .. => []
  | client _ _ _ _ perms => perms

/-- Its query, pair by pair. -/
def query : Uri → List (String × String)
  | bunker _ relays secret => queryOf relays secret none []
  | client _ relays metadata secret perms => queryOf relays (some secret) (some (metadata.asJson json)) perms

/-- `Display for Uri`. -/
def display (u : Uri) : String := u.scheme ++ "://" ++ u.key.toHex ++ writeQuery (u.query json)

end Uri

/-! ### Reading -/

/-- The URL crate with `query_pairs`. -/
structure QueryCrate extends UrlCrate where
  queryPairs : Url → List (String × String)

/-- What the loop of `Uri::parse` has found. -/
structure Found where
  relays : List RelayUrl
  secret : Option String
  metadata : Option Metadata
  perms : List Permission

/-- One turn of the loop; a key of no meaning is passed over. -/
def Found.read (urls : UrlCrate) (json : JsonCodec) (found : Found) : String × String → Except UriError Found
  | ("relay", value) => do
      let relay ← (RelayUrl.parse urls value).mapError .relayUrl
      return { found with relays := found.relays ++ [relay] }
  | ("secret", value) => .ok { found with secret := some value }
  | ("metadata", value) =>
      match Metadata.fromJson json value with
      | some metadata => .ok { found with metadata := some metadata }
      | none => .error .json
  | ("perms", value) => .ok { found with perms := Permission.split value }
  | _ => .ok found

def orElse {α : Type} (e : UriError) : Option α → Except UriError α
  | some a => .ok a
  | none => .error e

/-- `Uri::parse`. -/
def Uri.parse (crate : QueryCrate) (json : JsonCodec) (uri : String) : Except UriError Uri := do
  let parsed ← (crate.parse uri).mapError .url
  let host ← orElse (.malformedUri "missing pubkey host") (crate.hostStr parsed)
  let publicKey ← (PublicKey.parse host).mapError .publicKey
  -- the query is read before the scheme is looked at
  let found ← (crate.queryPairs parsed).foldlM (Found.read crate.toUrlCrate json) ⟨[], none, none, []⟩
  match crate.scheme parsed with
  | "bunker" => return .bunker publicKey found.relays found.secret
  | "nostrconnect" =>
      let secret ← orElse (.malformedUri "`nostrconnect://` URIs require the `secret` query parameter") found.secret
      let metadata ←
        orElse (.malformedUri "`nostrconnect://` URIs require the `metadata` query parameter") found.metadata
      return .client publicKey found.relays metadata secret found.perms
  | other => .error (.unknownUriScheme other)

/-! ## What is written -/

/-- What is preserved is none of the signs that structure a query. -/
theorem preserve_safe : FormUrlencoded.Safe preserve := by
  unfold FormUrlencoded.Safe
  decide +kernel

/-- A byte is written as the percent-encoding has it. -/
theorem encodeByte_spec (b : UInt8) : (encodeByte b).flatMap String.utf8EncodeChar =
    if preserve b then [b]
    else [FormUrlencoded.percent, FormUrlencoded.hexDigit (b / 16), FormUrlencoded.hexDigit (b % 16)] := by
  revert b
  decide +kernel

theorem strBytes_urlEncode (s : String) :
    strBytes (urlEncode s) = FormUrlencoded.percentEncode preserve (strBytes s) := by
  rw [urlEncode, strBytes_ofList, List.flatMap_assoc, FormUrlencoded.percentEncode]
  exact List.flatMap_congr (fun b _ => encodeByte_spec b)

/-- A pair of texts as bytes. -/
def pairBytes (p : String × String) : Bytes × Bytes := (strBytes p.1, strBytes p.2)

/-- A pair as it is written. -/
def pairText (p : String × String) : String := p.1 ++ "=" ++ urlEncode p.2

theorem strBytes_pairText (p : String × String) :
    strBytes (pairText p) = FormUrlencoded.writePair preserve (pairBytes p) := by
  have hequals : strBytes "=" = [FormUrlencoded.equals] := by decide
  rw [pairText, strBytes_append, strBytes_append, strBytes_urlEncode, hequals, FormUrlencoded.writePair,
    List.append_assoc]
  rfl

/-- After the first pair the text only grows. -/
theorem foldl_emit (pairs : List (String × String)) (start text : String) :
    (pairs.foldl emit (start ++ text, false)).1 = start ++ (pairs.foldl emit (text, false)).1 ∧
    strBytes (pairs.foldl emit (text, false)).1 =
      strBytes text ++ (pairs.map pairBytes).flatMap
        (fun q => FormUrlencoded.ampersand :: FormUrlencoded.writePair preserve q) := by
  have hampersand : strBytes "&" = [FormUrlencoded.ampersand] := by decide
  induction pairs generalizing text with
  | nil => exact ⟨rfl, (List.append_nil _).symm⟩
  | cons p pairs ih =>
      have hemit : ∀ out : String, emit (out, false) p = (out ++ ("&" ++ pairText p), false) := by
        intro out
        simp only [emit, pairText, Bool.false_eq_true, if_false, String.append_assoc]
      obtain ⟨hstart, hbytes⟩ := ih (text ++ ("&" ++ pairText p))
      rw [List.foldl_cons, List.foldl_cons, hemit, hemit, String.append_assoc]
      refine ⟨hstart, ?_⟩
      rw [hbytes, strBytes_append, strBytes_append, hampersand, strBytes_pairText, List.map_cons, List.flatMap_cons]
      simp

/-- **The query is a form**: nothing, or a question mark and the pairs. -/
theorem writeQuery_spec (pairs : List (String × String)) : (pairs = [] ∧ writeQuery pairs = "") ∨
    ∃ text, writeQuery pairs = "?" ++ text ∧ strBytes text = FormUrlencoded.write preserve (pairs.map pairBytes) := by
  cases pairs with
  | nil => exact Or.inl ⟨rfl, rfl⟩
  | cons p pairs =>
      obtain ⟨hstart, hbytes⟩ := foldl_emit pairs "?" (pairText p)
      have hemit : emit ("", true) p = ("?" ++ pairText p, false) := by
        simp only [emit, pairText, if_true, String.empty_append]
      refine Or.inr ⟨(pairs.foldl emit (pairText p, false)).1, ?_, ?_⟩
      · rw [writeQuery, List.foldl_cons, hemit, hstart]
      · rw [hbytes, strBytes_pairText, List.map_cons, FormUrlencoded.write_cons]

/-- A byte that no URL parser changes in a query: one that is written as it is, or a sign of the form. -/
def Unchanged (b : UInt8) : Prop :=
  preserve b = true ∨ b ∈ [FormUrlencoded.percent, FormUrlencoded.ampersand, FormUrlencoded.equals]

theorem preserve_nibble : ∀ n < (16 : UInt8), preserve (FormUrlencoded.hexDigit n) = true := by
  decide +kernel

theorem unchanged_hexDigit (b : UInt8) :
    ∀ d ∈ [FormUrlencoded.hexDigit (b / 16), FormUrlencoded.hexDigit (b % 16)], preserve d = true := by
  intro d hd
  obtain ⟨n, hn, rfl⟩ := FormUrlencoded.exists_nibble hd
  exact preserve_nibble n hn

/-- **No byte of a query is changed by the url crate**: it is preserved, or a sign of the query's own. -/
theorem unchanged_write {pairs : List (Bytes × Bytes)} (h : ∀ p ∈ pairs, ∀ b ∈ p.1, preserve b = true) :
    ∀ b ∈ FormUrlencoded.write preserve pairs, Unchanged b := by
  have hpair : ∀ p ∈ pairs, ∀ b ∈ FormUrlencoded.writePair preserve p, Unchanged b := by
    intro p hp b hb
    rcases List.mem_append.mp hb with hname | hvalue
    · exact Or.inl (h p hp b hname)
    · rcases List.mem_cons.mp hvalue with rfl | hvalue
      · exact Or.inr (by decide)
      · rcases FormUrlencoded.mem_percentEncode hvalue with hkeep | rfl | ⟨c, hdigit⟩
        · exact Or.inl hkeep
        · exact Or.inr (by decide)
        · exact Or.inl (unchanged_hexDigit c b hdigit)
  cases pairs with
  | nil => exact nofun
  | cons p pairs =>
      intro b hb
      rw [FormUrlencoded.write_cons] at hb
      rcases List.mem_append.mp hb with hfirst | hrest
      · exact hpair p List.mem_cons_self b hfirst
      · obtain ⟨q, hq, hmem⟩ := List.mem_flatMap.mp hrest
        rcases List.mem_cons.mp hmem with rfl | hmem
        · exact Or.inr (by decide)
        · exact hpair q (List.mem_cons_of_mem p hq) b hmem

/-! ## What is read -/

/-- The crate takes the text apart, and this is what it finds. -/
def QueryCrate.Finds (crate : QueryCrate) (text scheme host : String) (pairs : List (String × String)) : Prop :=
  ∃ url, crate.parse text = .ok url ∧ crate.scheme url = scheme ∧ crate.hostStr url = some host ∧
    crate.queryPairs url = pairs

/-- The text of a key. -/
def HexKey (host : String) : Prop :=
  host.toList.length = 64 ∧ ∀ c ∈ host.toList, c.isDigit ∨ ('a' ≤ c ∧ c ≤ 'f')

/-- What the repository relies on: a host of 64 digits is kept, and so is a query of plain bytes, whose pairs are
    those of the form wherever they are UTF-8. -/
structure QueryCrate.Lawful (crate : QueryCrate) : Prop where
  bare : ∀ scheme host, scheme = uriSchemeBunker ∨ scheme = uriSchemeClient → HexKey host →
    crate.Finds (scheme ++ "://" ++ host) scheme host []
  query : ∀ scheme host text pairs, scheme = uriSchemeBunker ∨ scheme = uriSchemeClient → HexKey host →
    (∀ b ∈ strBytes text, Unchanged b) → FormUrlencoded.parse (strBytes text) = pairs.map pairBytes →
    crate.Finds (scheme ++ "://" ++ host ++ ("?" ++ text)) scheme host pairs

theorem digitChar_hex : ∀ n < 16, (Hex.digitChar n).isDigit ∨ ('a' ≤ Hex.digitChar n ∧ Hex.digitChar n ≤ 'f') := by
  decide +kernel

theorem hexKey_encode {b : Bytes} (h : b.length = 32) : HexKey (Hex.encode b) := by
  rw [HexKey, Hex.encode, String.toList_ofList]
  constructor
  · simp [List.length_flatMap, h]
  · intro c hc
    obtain ⟨x, -, hx⟩ := List.mem_flatMap.mp hc
    obtain ⟨hhigh, hlow, -⟩ := Hex.nibbles x
    rcases List.mem_cons.mp hx with rfl | hx
    · exact digitChar_hex _ hhigh
    · rw [List.mem_singleton.mp hx]
      exact digitChar_hex _ hlow

section Reading

variable {crate : QueryCrate}

/-- **The crate finds what was written**, when the names are kept. -/
theorem QueryCrate.Lawful.finds (laws : crate.Lawful) {scheme : String} (pk : PublicKey)
    {pairs : List (String × String)} (hscheme : scheme = uriSchemeBunker ∨ scheme = uriSchemeClient)
    (hnames : ∀ p ∈ pairs, ∀ b ∈ strBytes p.1, preserve b = true) :
    crate.Finds (scheme ++ "://" ++ pk.toHex ++ writeQuery pairs) scheme pk.toHex pairs := by
  have hhost : HexKey pk.toHex := hexKey_encode pk.size
  have hkept : ∀ p ∈ pairs.map pairBytes, ∀ b ∈ p.1, preserve b = true := by
    intro p hp
    obtain ⟨q, hq, rfl⟩ := List.mem_map.mp hp
    exact hnames q hq
  rcases writeQuery_spec pairs with ⟨rfl, hnothing⟩ | ⟨text, htext, hform⟩
  · rw [hnothing, String.append_empty]
    exact laws.bare scheme _ hscheme hhost
  · rw [htext]
    refine laws.query scheme _ text pairs hscheme hhost ?_ ?_
    · rw [hform]
      exact unchanged_write hkept
    · rw [hform]
      exact preserve_safe.parse_write hkept

end Reading

/-! ### Permissions -/

/-- A token that is its own wire text. -/
structure Permission.Canonical (p : Permission) : Prop where
  nonempty : p.toWire ≠ ""
  trimmed : trim p.toWire = p.toWire
  commaFree : ',' ∉ p.toWire.toList
  parsed : parse p.toWire = p

/-- **Permissions come back from their list**: none has a comma, and each is read as what it is. The list is split at
    the commas that joined it; what is between them is trimmed, not empty, and parsed as it was written. -/
theorem Permission.split_join {perms : List Permission} (h : ∀ p ∈ perms, p.Canonical) :
    split (join perms) = perms := by
  cases hperms : perms with
  | nil => rfl
  | cons p rest =>
      rw [← hperms]
      have hsplit : splitOn ',' (join perms).toList = perms.map (fun p => p.toWire.toList) := by
        rw [splitOn_eq, join, String.toList_intercalate, List.map_map]
        refine List.splitOn_intercalate ',' ?_ (by simp [hperms])
        rintro piece hpiece
        obtain ⟨q, hq, rfl⟩ := List.mem_map.mp hpiece
        exact (h q hq).commaFree
      have hne : join perms ≠ "" := by
        intro hjoin
        rw [hjoin, hperms] at hsplit
        obtain ⟨hfirst, -⟩ := List.cons.inj hsplit
        refine (h p (by simp [hperms])).nonempty (String.toList_inj.mp ?_)
        exact hfirst.symm
      have htrim : ∀ q ∈ perms, (trimChars ∘ fun p => p.toWire.toList) q = q.toWire.toList := by
        intro q hq
        have htrimmed := congrArg String.toList (h q hq).trimmed
        rwa [trim, String.toList_ofList] at htrimmed
      have hfull : ∀ piece ∈ perms.map (fun p => p.toWire.toList), decide (piece ≠ []) = true := by
        rintro piece hpiece
        obtain ⟨q, hq, rfl⟩ := List.mem_map.mp hpiece
        refine decide_eq_true (fun hnil => (h q hq).nonempty (String.toList_inj.mp ?_))
        rw [hnil]
        rfl
      rw [split, if_neg hne, hsplit, List.map_map, List.map_congr_left htrim, List.filter_eq_self.mpr hfull,
        List.map_map]
      conv_rhs => rw [← List.map_id perms]
      apply List.map_congr_left
      intro q hq
      rw [Function.comp_apply, String.ofList_toList]
      exact (h q hq).parsed

/-! ### Metadata -/

namespace Metadata

theorem depth_texts (texts : List String) : (JsonValue.array (texts.map .string)).depth ≤ 1 := by
  apply depth_array_le
  rintro v hv
  obtain ⟨s, -, rfl⟩ := List.mem_map.mp hv
  exact Nat.le_refl _

/-- Metadata is not nested too deep for the parser. -/
theorem depth_toJson (m : Metadata) : m.toJson.depth ≤ Json.maxDepth := by
  obtain ⟨name, url, description, icons⟩ := m
  refine Nat.le_trans (m := 2) (depth_object_le ?_) (by decide)
  intro member hmember
  simp only [List.cons_append, List.mem_cons, List.mem_append, Json.field, List.mem_map, Option.mem_toList,
    Option.map_eq_some_iff] at hmember
  rcases hmember with rfl | (⟨v, ⟨s, -, rfl⟩, rfl⟩ | ⟨v, ⟨s, -, rfl⟩, rfl⟩) | ⟨v, ⟨texts, -, rfl⟩, rfl⟩
  · exact Nat.zero_le _
  · exact Nat.zero_le _
  · exact Nat.zero_le _
  · exact depth_texts texts

theorem icons_content (icons : List String) :
    (JsonValue.array (icons.map .string)).content.nullable (JsonContent.list JsonContent.text) = some (some icons) := by
  have hlist := JsonContent.list_content JsonContent.text_content icons
  rw [JsonValue.content] at hlist ⊢
  rw [JsonContent.nullable, hlist]
  · rfl
  · exact nofun

theorem ofContent_toJson (m : Metadata) : ofContent m.toJson.content = some m := by
  obtain ⟨name, url, description, icons⟩ := m
  cases url <;> cases description <;> cases icons <;>
    simp [ofContent, toJson, Json.field, JsonValue.content_object, Json.required, Json.optional, Json.member,
      JsonContent.text_content, JsonContent.nullable_text_content, icons_content]

theorem fromJson_asJson (json : JsonCodec) (m : Metadata) : fromJson json (m.asJson json) = some m := by
  rw [fromJson, asJson, json.read_write _ m.depth_toJson, Option.bind_some, ofContent_toJson]

end Metadata

/-! ### The loop -/

section Loop

variable {urls : UrlCrate} {json : JsonCodec}

theorem foldlM_relays {relays : List RelayUrl} (h : ∀ r ∈ relays, RelayUrl.parse urls r.asStr = .ok r)
    (found : Found) : (relays.map (fun r => ("relay", r.asStr))).foldlM (Found.read urls json) found =
      .ok { found with relays := found.relays ++ relays } := by
  induction relays generalizing found with
  | nil => simp only [List.map_nil, List.foldlM_nil, List.append_nil]; rfl
  | cons r relays ih =>
      have hread : Found.read urls json found ("relay", r.asStr) =
          .ok { found with relays := found.relays ++ [r] } := by
        rw [Found.read, h r List.mem_cons_self]
        rfl
      rw [List.map_cons, List.foldlM_cons, hread]
      refine (ih (fun r hr => h r (List.mem_cons_of_mem _ hr)) _).trans ?_
      rw [List.append_assoc]
      rfl

/-- **The loop finds what was emitted.** The query comes in four groups, and the loop is run over one after the
    other. -/
theorem foldlM_queryOf {relays : List RelayUrl} {perms : List Permission}
    (hrelays : ∀ r ∈ relays, RelayUrl.parse urls r.asStr = .ok r) (hperms : ∀ p ∈ perms, p.Canonical)
    (secret : Option String) (metadata : Option Metadata) :
    (queryOf relays secret (metadata.map (·.asJson json)) perms).foldlM (Found.read urls json) ⟨[], none, none, []⟩ =
      .ok ⟨relays, secret, metadata, perms⟩ := by
  have hlast : ∀ found : Found, found.perms = [] →
      (if perms = [] then [] else [("perms", Permission.join perms)]).foldlM (Found.read urls json) found =
        .ok { found with perms := perms } := by
    rintro ⟨relays, secret, metadata, found⟩ rfl
    split
    next hnone =>
      rw [hnone]
      rfl
    next =>
      rw [List.foldlM_cons, Found.read, Permission.split_join hperms]
      rfl
  have hmetadata : ∀ found : Found, found.metadata = none →
      ((metadata.map (·.asJson json)).toList.map (fun m => ("metadata", m))).foldlM (Found.read urls json) found =
        .ok { found with metadata := metadata } := by
    rintro ⟨relays, secret, found, perms⟩ rfl
    cases metadata with
    | none => rfl
    | some m =>
        rw [Option.map_some, Option.toList_some, List.map_singleton, List.foldlM_cons, Found.read,
          Metadata.fromJson_asJson]
        rfl
  have hsecret : ∀ found : Found, found.secret = none →
      (secret.toList.map (fun s => ("secret", s))).foldlM (Found.read urls json) found =
        .ok { found with secret := secret } := by
    rintro ⟨relays, found, metadata, perms⟩ rfl
    cases secret <;> rfl
  rw [queryOf, List.foldlM_append, List.foldlM_append, List.foldlM_append, foldlM_relays hrelays]
  simp only [bind, Except.bind, hmetadata, hsecret, hlast, List.nil_append]

end Loop

namespace Uri

/-- What the loop finds in the query of a URI. -/
def found : Uri → Found
  | bunker _ relays secret => ⟨relays, secret, none, []⟩
  | client _ relays metadata secret perms => ⟨relays, some secret, some metadata, perms⟩

/-- **The query is found pair by pair**: relays, secret, metadata and permissions, each under its own name. -/
theorem foldlM_query {urls : UrlCrate} {json : JsonCodec} {u : Uri}
    (hrelays : ∀ r ∈ u.relays, RelayUrl.parse urls r.asStr = .ok r) (hperms : ∀ p ∈ u.perms, p.Canonical) :
    (u.query json).foldlM (Found.read urls json) ⟨[], none, none, []⟩ = .ok u.found := by
  cases u with
  | bunker pk relays secret => exact foldlM_queryOf hrelays hperms secret none
  | client pk relays metadata secret perms => exact foldlM_queryOf hrelays hperms (some secret) (some metadata)

/-- The names of a query are written as they are. -/
theorem names_query (json : JsonCodec) (u : Uri) : ∀ p ∈ u.query json, ∀ b ∈ strBytes p.1, preserve b = true := by
  have hall : (["relay", "metadata", "secret", "perms"].all (fun name => (strBytes name).all preserve)) = true := by
    decide
  have hplain : ∀ name ∈ ["relay", "metadata", "secret", "perms"], ∀ b ∈ strBytes name, preserve b = true :=
    fun name hname => List.all_eq_true.mp (List.all_eq_true.mp hall name hname)
  have hnames : ∀ relays secret metadata perms, ∀ p ∈ queryOf relays secret metadata perms,
      p.1 ∈ ["relay", "metadata", "secret", "perms"] := by
    intro relays secret metadata perms p hp
    simp only [queryOf, List.mem_append, List.mem_map] at hp
    rcases hp with ((⟨r, -, rfl⟩ | ⟨m, -, rfl⟩) | ⟨s, -, rfl⟩) | hp
    · simp
    · simp
    · simp
    · split at hp
      · cases hp
      · rw [List.mem_singleton.mp hp]
        simp
  intro p hp
  refine hplain p.1 ?_
  cases u with
  | bunker pk relays secret => exact hnames _ _ _ _ p hp
  | client pk relays metadata secret perms => exact hnames _ _ _ _ p hp

/-- **A connection URI reads back.**

    The url crate finds scheme, host and query in what was written, because every byte of the query is one that it
    leaves alone (`names_query`, `unchanged_write`). Form decoding undoes the encoding pair by pair, and the fold
    over the pairs collects the fields in the order in which they were written (`foldlM_query`). -/
theorem reads_back {crate : QueryCrate} (json : JsonCodec) (laws : crate.Lawful) (u : Uri)
    (hrelays : ∀ r ∈ u.relays, RelayUrl.parse crate.toUrlCrate r.asStr = .ok r)
    (hperms : ∀ p ∈ u.perms, p.Canonical) : parse crate json (u.display json) = .ok u := by
  have hscheme : u.scheme = uriSchemeBunker ∨ u.scheme = uriSchemeClient := by
    cases u
    · exact Or.inl rfl
    · exact Or.inr rfl
  obtain ⟨url, hparse, hfound, hhost, hpairs⟩ := laws.finds u.key hscheme (names_query json u)
  rw [parse, display, hparse]
  simp only [Except.mapError, bind, Except.bind, hhost, orElse, PublicKey.parse_toHex, hpairs, hfound,
    foldlM_query hrelays hperms]
  cases u with
  | bunker pk relays secret => rfl
  | client pk relays metadata secret perms => rfl

end Uri

namespace Sample

open Nula.Sample

/-- The parts of a text: what stands before the colon, after the two slashes, and after the question mark. -/
def schemeOf (text : List Char) : List Char := text.takeWhile (· ≠ ':')

/-- What is behind the scheme. -/
def restOf (text : List Char) : List Char := (text.dropWhile (· ≠ ':')).drop 3

/-- The host. -/
def hostOf (text : List Char) : List Char := (restOf text).takeWhile (fun c => c ≠ '?' ∧ c ≠ '/')

/-- The query. -/
def formOf (text : List Char) : List Char := ((restOf text).dropWhile (· ≠ '?')).drop 1

/-- A URL crate for texts that need no normalization. -/
def crate : QueryCrate where
  parse text := .ok ⟨text⟩
  scheme url := String.ofList (schemeOf url.serialization.toList)
  hostStr url := some (String.ofList (hostOf url.serialization.toList))
  port _ := none
  clearFragment url := url
  clearPort url := some url
  queryPairs url := (FormUrlencoded.parse (strBytes (String.ofList (formOf url.serialization.toList)))).map
    (fun p => ((fromUtf8 p.1).getD "", (fromUtf8 p.2).getD ""))

/-- A text is taken apart as it was put together. -/
theorem parts {scheme host rest : List Char} (hscheme : ∀ c ∈ scheme, c ≠ ':')
    (hhost : ∀ c ∈ host, c ≠ '?' ∧ c ≠ '/') (hrest : rest = [] ∨ ∃ form, rest = '?' :: form) :
    schemeOf (scheme ++ [':', '/', '/'] ++ host ++ rest) = scheme ∧
    hostOf (scheme ++ [':', '/', '/'] ++ host ++ rest) = host ∧
    formOf (scheme ++ [':', '/', '/'] ++ host ++ rest) = rest.drop 1 := by
  have hcolon : scheme ++ [':', '/', '/'] ++ host ++ rest = scheme ++ (':' :: '/' :: '/' :: (host ++ rest)) := by
    simp
  have hstop : restOf (scheme ++ (':' :: '/' :: '/' :: (host ++ rest))) = host ++ rest := by
    rw [restOf, List.dropWhile_append_of_pos (by simpa using hscheme)]
    rfl
  rw [hcolon]
  refine ⟨?_, ?_, ?_⟩
  · rw [schemeOf, List.takeWhile_append_of_pos (by simpa using hscheme)]
    simp
  · rw [hostOf, hstop, List.takeWhile_append_of_pos (by simpa using hhost)]
    rcases hrest with rfl | ⟨form, rfl⟩
    · simp
    · simp
  · rw [formOf, hstop, List.dropWhile_append_of_pos (by simpa using fun c hc => (hhost c hc).1)]
    rcases hrest with rfl | ⟨form, rfl⟩
    · rfl
    · rfl

/-- A url of a scheme, a key and a query has them. -/
theorem finds {scheme host : String} {rest : List Char} {pairs : List (String × String)}
    (hscheme : scheme = uriSchemeBunker ∨ scheme = uriSchemeClient) (hhost : HexKey host)
    (hrest : rest = [] ∨ ∃ form, rest = '?' :: form)
    (hpairs : FormUrlencoded.parse (strBytes (String.ofList (rest.drop 1))) = pairs.map pairBytes) :
    crate.Finds (scheme ++ "://" ++ host ++ String.ofList rest) scheme host pairs := by
  have hplain : ∀ c ∈ scheme.toList, c ≠ ':' := by
    rcases hscheme with rfl | rfl
    · simp [uriSchemeBunker]
    · simp [uriSchemeClient]
  have hdigits : ∀ c ∈ host.toList, c ≠ '?' ∧ c ≠ '/' := by
    rintro c hc
    refine ⟨?_, ?_⟩
    · rintro rfl
      exact absurd (hhost.2 _ hc) (by decide)
    · rintro rfl
      exact absurd (hhost.2 _ hc) (by decide)
  have htext : (scheme ++ "://" ++ host ++ String.ofList rest).toList =
      scheme.toList ++ [':', '/', '/'] ++ host.toList ++ rest := by
    simp
  obtain ⟨hfirst, hsecond, hthird⟩ := parts hplain hdigits hrest
  refine ⟨⟨scheme ++ "://" ++ host ++ String.ofList rest⟩, rfl, ?_, ?_, ?_⟩
  · simp only [crate, htext, hfirst, String.ofList_toList]
  · simp only [crate, htext, hsecond, String.ofList_toList]
  · simp only [crate, htext, hthird, hpairs, List.map_map]
    conv_rhs => rw [← List.map_id pairs]
    apply List.map_congr_left
    intro p _
    simp [pairBytes, fromUtf8_strBytes]

theorem crate_lawful : crate.Lawful where
  bare scheme host hscheme hhost := by
    have h : crate.Finds (scheme ++ "://" ++ host ++ String.ofList []) scheme host [] :=
      finds hscheme hhost (Or.inl rfl) rfl
    rwa [String.ofList_nil, String.append_empty] at h
  query scheme host text pairs hscheme hhost _ hpairs := by
    have h : crate.Finds (scheme ++ "://" ++ host ++ String.ofList ('?' :: text.toList)) scheme host pairs :=
      finds hscheme hhost (Or.inr ⟨_, rfl⟩) (by rwa [List.drop_one, List.tail_cons, String.ofList_toList])
    have htext : String.ofList ('?' :: text.toList) = "?" ++ text := by
      rw [← String.toList_inj]
      simp
    rwa [htext] at h

/-- A uri with everything in it, and signs that need escaping. -/
def uri : Uri :=
  .client carol [⟨⟨"wss://relay.example/?a=b&c"⟩⟩]
    { name := "my app", url := none, description := some "100% \"ok\"", icons := some [] } "p+q&r#é"
    [.method .ping, .signEventKind ⟨1⟩, .other "x:y"]

end Sample

theorem Uri.reads_back_client : Uri.parse Sample.crate Json.codec (Sample.uri.display Json.codec) = .ok Sample.uri := by
  apply Uri.reads_back Json.codec Sample.crate_lawful Sample.uri
  · decide +kernel
  · intro p hp
    have hcanonical : ∀ p ∈ Sample.uri.perms, p.toWire ≠ "" ∧ trim p.toWire = p.toWire ∧ ',' ∉ p.toWire.toList ∧
        Permission.parse p.toWire = p := by
      decide +kernel
    obtain ⟨hne, htrim, hcomma, hparse⟩ := hcanonical p hp
    exact ⟨hne, htrim, hcomma, hparse⟩

end Nula.Nip46
