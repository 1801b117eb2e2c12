import Nula.Core.Filter
import Nula.Lib.Buckets
import Nula.Gossip.Options

/-!
# `Gossip.Routes` — what a router knows of each user

The relay lists a user publishes (`nips/nip65.rs`, `nips/nip17.rs`), the routes kept for each user
(`routes.rs`, `inner.rs`), how an event changes them (`Gossip::process`) and which relays they give
(`selection.rs`).
-/

namespace Nula.Gossip

open Std

/-! ## Relay lists (`nips/nip65.rs`, `nips/nip17.rs`) -/

inductive RelayMarker where
  | readWrite
  | read
  | write
  deriving DecidableEq, Repr

namespace RelayMarker

def isRead : RelayMarker → Bool
  | .read | .readWrite => true
  | .write => false

def isWrite : RelayMarker → Bool
  | .write | .readWrite => true
  | .read => false

/-- `RelayMarker::from_str`; the error is the unknown marker. -/
def parse : String → Except String RelayMarker
  | "read" => .ok .read
  | "write" => .ok .write
  | other => .error other

end RelayMarker

inductive RelayListError where
  | unexpectedKind (expected got : UInt16)
  | missingRelayUrl
  | invalidRelayUrl (e : RelayUrlError)
  | invalidMarker (unknown : String)
  deriving DecidableEq, Repr

/-- `Display` of `RelayListError`. -/
def RelayListError.text : RelayListError → String
  | .unexpectedKind expected got => "expected kind " ++ toString expected ++ ", got " ++ toString got
  | .missingRelayUrl => "`r` tag is missing the relay URL"
  | .invalidRelayUrl e => e.text
  | .invalidMarker unknown => "unknown NIP-65 relay marker `" ++ unknown ++ "`"

/-- A NIP-65 list, in url order. -/
structure RelayList where
  relays : BTreeMap RelayUrl RelayMarker

variable (urls : UrlCrate)

namespace RelayList

/-- One tag of the loop in `RelayList::from_event`; heads other than `r` are ignored. -/
def addTag (list : RelayList) (tag : Tag) : Except RelayListError RelayList :=
  if tag.kind.asStr ≠ "r" then .ok list
  else match tag.values[1]? with
    | none => .error .missingRelayUrl
    | some text =>
        match RelayUrl.parse urls text with
        | .error e => .error (.invalidRelayUrl e)
        | .ok url =>
            -- an empty marker is no marker
            match (tag.values[2]?).filter (fun s => s ≠ "") with
            | none => .ok ⟨list.relays.insert url .readWrite⟩
            | some s =>
                match RelayMarker.parse s with
                | .error unknown => .error (.invalidMarker unknown)
                | .ok marker => .ok ⟨list.relays.insert url marker⟩

/-- `RelayList::from_event`: one malformed tag rejects the whole list. -/
def fromEvent (event : Event) : Except RelayListError RelayList :=
  if event.kind ≠ Kind.relayList then .error (.unexpectedKind Kind.relayList.val event.kind.val)
  else event.tags.items.foldlM (addTag urls) ⟨∅⟩

end RelayList

/-- What `parse_dm_relays_event` fails with. -/
inductive Nip17Error where
  | unexpectedKind (kind : UInt16)
  | missingRelayUrl
  | invalidRelayUrl (e : RelayUrlError)
  deriving DecidableEq, Repr

/-- `Display` of `Nip17Error`. -/
def Nip17Error.text : Nip17Error → String
  | .unexpectedKind kind => "expected kind 10050, got " ++ toString kind
  | .missingRelayUrl => "`relay` tag is missing the URL value"
  | .invalidRelayUrl e => e.text

/-- One tag of the loop in `parse_dm_relays_event`. -/
def addDmRelay (out : List RelayUrl) (tag : Tag) : Except Nip17Error (List RelayUrl) :=
  if tag.kind ≠ TagKind.fromWire "relay" then .ok out
  else match tag.values[1]? with
    | none => .error .missingRelayUrl
    | some value =>
        match RelayUrl.parse urls value with
        | .error e => .error (.invalidRelayUrl e)
        | .ok url => .ok (out ++ [url])

/-- `parse_dm_relays_event`. -/
def parseDmRelaysEvent (event : Event) : Except Nip17Error (List RelayUrl) :=
  if event.kind ≠ Kind.dmRelays then .error (.unexpectedKind event.kind.val)
  else event.tags.items.foldlM (addDmRelay urls) []

/-! ## Routes (`routes.rs`) -/

/-- `NonZeroU32`. -/
structure NonZeroU32 where
  get : UInt32
  nonzero : get ≠ 0
  deriving DecidableEq

/-- `saturating_add(1)`. -/
def NonZeroU32.saturatingSucc (n : NonZeroU32) : NonZeroU32 :=
  if h : n.get = 0xffffffff then n
  else ⟨n.get + 1, fun h0 => h (by rw [← UInt32.sub_eq_iff_eq_add.mpr h0.symm]; rfl)⟩

/-- How often each relay was seen. -/
abbrev Histogram := BTreeMap RelayUrl NonZeroU32

/-- `bump`. -/
def bump (map : Histogram) (relay : RelayUrl) : Histogram :=
  match map[relay]? with
  | some n => map.insert relay n.saturatingSucc
  | none => map.insert relay ⟨1, by decide⟩

/-- `UserRoutes`. -/
structure UserRoutes where
  nip65 : Option RelayList
  nip65EventAt : Option Timestamp
  nip65FetchedAt : Option Timestamp
  nip17 : List RelayUrl
  nip17EventAt : Option Timestamp
  nip17FetchedAt : Option Timestamp
  hints : Histogram
  mostReceived : Histogram

namespace UserRoutes

/-- `UserRoutes::default`. -/
def default : UserRoutes := ⟨none, none, none, [], none, none, ∅, ∅⟩

/-- One hint more for a relay. -/
def bumpHint (routes : UserRoutes) (relay : RelayUrl) : UserRoutes :=
  { routes with hints := bump routes.hints relay }

/-- One event more from a relay. -/
def bumpMostReceived (routes : UserRoutes) (relay : RelayUrl) : UserRoutes :=
  { routes with mostReceived := bump routes.mostReceived relay }

end UserRoutes

/-! ## The router (`inner.rs`, `gossip.rs`) -/

/-- What a router uses of its storage backend; the error of a query is its text. -/
class NostrDatabase (D : Type) where
  /-- The status is dropped. -/
  saveEvent : D → Event → Timestamp → D
  query : D → Filter → Except String (List Event)

/-- `Inner`. -/
structure Inner (D : Type) where
  options : GossipOptions
  db : D
  routes : HashMap PublicKey UserRoutes

/-- `Inner::new`. -/
def Inner.new {D : Type} (options : GossipOptions) (db : D) : Inner D := ⟨options, db, ∅⟩

/-- `is_none_or(|prev| prev < created_at)`. -/
def newerThan (createdAt : Timestamp) : Option Timestamp → Bool
  | none => true
  | some prev => prev < createdAt

/-- One tag of `harvest_relay_hints`; an `r` tag that names no relay is a web reference. -/
def harvestTag (allowed : AllowedRelays) (entry : UserRoutes) (tag : Tag) : UserRoutes :=
  if tag.kind ≠ .singleLetter (.lowercase .R) then entry
  else match tag.content with
    | none => entry
    | some value =>
        match RelayUrl.parse urls value with
        | .error _ => entry
        | .ok url => if allowed.isAllowed urls url then entry.bumpHint url else entry

/-- `harvest_relay_hints`. -/
def harvestRelayHints (allowed : AllowedRelays) (event : Event) (entry : UserRoutes) : UserRoutes :=
  event.tags.items.foldl (harvestTag urls allowed) entry

/-- `apply_event_to_entry`; a malformed list is ignored. -/
def applyEventToEntry (allowed : AllowedRelays) (event : Event) (entry : UserRoutes) : UserRoutes :=
  if event.kind = Kind.relayList then
    match RelayList.fromEvent urls event with
    | .error _ => entry
    | .ok list =>
        if newerThan event.createdAt entry.nip65EventAt then
          -- the list is kept as it came: what is allowed is decided when it is used
          { entry with nip65 := some list, nip65EventAt := some event.createdAt }
        else entry
  else if event.kind = Kind.dmRelays then
    match parseDmRelaysEvent urls event with
    | .error _ => entry
    | .ok relays =>
        if newerThan event.createdAt entry.nip17EventAt then
          -- this one is filtered on the way in
          { entry with nip17 := relays.filter (allowed.isAllowed urls), nip17EventAt := some event.createdAt }
        else entry
  else harvestRelayHints urls allowed event entry

/-- The relay an event came from, if there is one and it is allowed. -/
def countSource (allowed : AllowedRelays) (entry : UserRoutes) : Option RelayUrl → UserRoutes
  | none => entry
  | some relay => if allowed.isAllowed urls relay then entry.bumpMostReceived relay else entry

/-- The kinds `process` hands on to the store. -/
def needsPersist (kind : Kind) : Bool := kind = Kind.relayList || kind = Kind.dmRelays

namespace Inner

variable {D : Type}

/-- What `process` does under the write lock. -/
def observe (event : Event) (sourceRelay : Option RelayUrl) (inner : Inner D) : Inner D :=
  let allowed := inner.options.allowed
  let entry := applyEventToEntry urls allowed event (inner.routes.getD event.pubkey .default)
  { inner with routes := inner.routes.insert event.pubkey (countSource urls allowed entry sourceRelay) }

/-- `Gossip::process`. -/
def process [NostrDatabase D] (event : Event) (sourceRelay : Option RelayUrl) (now : Timestamp)
    (inner : Inner D) : Inner D :=
  let inner := inner.observe urls event sourceRelay
  if needsPersist event.kind then { inner with db := NostrDatabase.saveEvent inner.db event now } else inner

end Inner

/-! ## Selection (`selection.rs`) -/

/-- The loop over a relay list: the picked relays, until the set has `limit` of them. -/
def takeMarked (picks : RelayMarker → Bool) (limit : NonZeroU8) :
    List (RelayUrl × RelayMarker) → HashSet RelayUrl → HashSet RelayUrl
  | [], out => out
  | (url, marker) :: rest, out =>
      let out := if picks marker then out.insert url else out
      if limit.get.toNat ≤ out.size then out else takeMarked picks limit rest out

/-- The order of a histogram: the larger count first, then the url. -/
def rankedBefore (a b : RelayUrl × NonZeroU32) : Bool :=
  ((compare b.2.get a.2.get).then (compare a.1 b.1)).isLE

/-- `extend_from_histogram`. -/
def extendFromHistogram (out : HashSet RelayUrl) (histogram : Histogram) (limit : NonZeroU8) : HashSet RelayUrl :=
  if histogram.isEmpty then out
  else
    let ranked := histogram.toList.mergeSort rankedBefore
    ((ranked.take limit.get.toNat).map Prod.fst).foldl (fun out url => out.insert url) out

/-- `apply_policy`. -/
def applyPolicy (set : HashSet RelayUrl) (policy : AllowedRelays) : HashSet RelayUrl :=
  set.filter (policy.isAllowed urls)

/-- What `outbox` and `inbox` share. -/
def select (picks : RelayMarker → Bool) (listed : NonZeroU8) (options : GossipOptions) (routes : UserRoutes) :
    HashSet RelayUrl :=
  let out := match routes.nip65 with
    | some list => takeMarked picks listed list.relays.toList ∅
    | none => ∅
  let out := extendFromHistogram out routes.hints options.limits.hintRelaysPerUser
  let out := extendFromHistogram out routes.mostReceived options.limits.mostReceivedPerUser
  applyPolicy urls out options.allowed

/-- `outbox`. -/
def outbox (options : GossipOptions) (routes : UserRoutes) : HashSet RelayUrl :=
  select urls RelayMarker.isWrite options.limits.writeRelaysPerUser options routes

/-- `inbox`. -/
def inbox (options : GossipOptions) (routes : UserRoutes) : HashSet RelayUrl :=
  select urls (fun marker => marker.isRead || marker = .readWrite) options.limits.readRelaysPerUser options routes

/-- `dm_relays`. -/
def dmRelays (options : GossipOptions) (routes : UserRoutes) : HashSet RelayUrl :=
  let out := (routes.nip17.take options.limits.dmRelaysPerUser.get.toNat).foldl (fun out url => out.insert url) ∅
  applyPolicy urls out options.allowed

namespace Inner

variable {D : Type}

/-- A selection for a user, of whom nothing may be known. -/
def relaysOf (selection : GossipOptions → UserRoutes → HashSet RelayUrl) (inner : Inner D) (user : PublicKey) :
    HashSet RelayUrl :=
  match inner.routes[user]? with
  | some routes => selection inner.options routes
  | none => ∅

/-- `Gossip::outbox_relays`. -/
def outboxRelays (inner : Inner D) (user : PublicKey) : HashSet RelayUrl := inner.relaysOf (outbox urls) user

/-- `Gossip::inbox_relays`. -/
def inboxRelays (inner : Inner D) (user : PublicKey) : HashSet RelayUrl := inner.relaysOf (inbox urls) user

/-- `Gossip::dm_relays`. -/
def dmRelays (inner : Inner D) (user : PublicKey) : HashSet RelayUrl := inner.relaysOf (Gossip.dmRelays urls) user

end Inner

/-! ## What a selection gives -/

theorem mem_applyPolicy {set : HashSet RelayUrl} {policy : AllowedRelays} {url : RelayUrl} :
    url ∈ applyPolicy urls set policy ↔ url ∈ set ∧ policy.isAllowed urls url = true :=
  Buckets.mem_filter

/-- Every selected relay is allowed. -/
theorem select_allowed {picks : RelayMarker → Bool} {listed : NonZeroU8} {options : GossipOptions}
    {routes : UserRoutes} {url : RelayUrl} (h : url ∈ select urls picks listed options routes) :
    options.allowed.isAllowed urls url = true :=
  ((mem_applyPolicy urls).mp h).2

/-- **The message relays of a user**: the first of their list, up to the limit, of those that are allowed. -/
theorem mem_dmRelays {options : GossipOptions} {routes : UserRoutes} {url : RelayUrl} :
    url ∈ dmRelays urls options routes ↔
      url ∈ routes.nip17.take options.limits.dmRelaysPerUser.get.toNat ∧
        options.allowed.isAllowed urls url = true := by
  unfold dmRelays
  rw [mem_applyPolicy, Buckets.mem_foldl_insert]
  simp

namespace Inner

variable {D : Type} {inner : Inner D} {user : PublicKey} {url : RelayUrl}

theorem mem_relaysOf {selection : GossipOptions → UserRoutes → HashSet RelayUrl} :
    url ∈ inner.relaysOf selection user ↔
      ∃ routes, inner.routes[user]? = some routes ∧ url ∈ selection inner.options routes := by
  unfold relaysOf
  cases inner.routes[user]? with
  | none => simp
  | some routes => simp

theorem outboxRelays_allowed (h : url ∈ inner.outboxRelays urls user) :
    inner.options.allowed.isAllowed urls url = true := by
  obtain ⟨routes, _, h⟩ := mem_relaysOf.mp h
  exact select_allowed urls h

theorem inboxRelays_allowed (h : url ∈ inner.inboxRelays urls user) :
    inner.options.allowed.isAllowed urls url = true := by
  obtain ⟨routes, _, h⟩ := mem_relaysOf.mp h
  exact select_allowed urls h

theorem dmRelays_allowed (h : url ∈ inner.dmRelays urls user) :
    inner.options.allowed.isAllowed urls url = true := by
  obtain ⟨routes, _, h⟩ := mem_relaysOf.mp h
  exact ((mem_dmRelays urls).mp h).2

end Inner

end Nula.Gossip
