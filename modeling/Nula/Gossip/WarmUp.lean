import Nula.Gossip.Cache
import Nula.Storage.Memory.Capacity
import Nula.Storage.Memory.Query

/-!
# `Gossip.WarmUp` — the cache rebuilt from the store

After a restart `Gossip::warm_up` asks the store for the list of each user and processes it. The store holds the
event that comes first on the wire, well formed or not; the cache holds the first processed of the well-formed
lists with the greatest created-at. `rebuild_iff` says when the two agree, whatever the order was.
-/

namespace Nula.Gossip

open Std

/-! ## `warm_up` -/

inductive ListKind where
  | nip65
  | nip17
  deriving DecidableEq, Repr

/-- `ListKind::event_kind`. -/
def ListKind.eventKind : ListKind → Kind
  | .nip65 => Kind.relayList
  | .nip17 => Kind.dmRelays

/-- `Filter::new().author(pk).kind(kind.event_kind()).limit(1)`. -/
def listFilter (pk : PublicKey) (kind : ListKind) : Filter :=
  ⟨none, some [pk], some [kind.eventKind], none, none, some 1, none, ⟨[], List.nodup_nil⟩⟩

variable (urls : UrlCrate)

namespace Inner

variable {D : Type} [NostrDatabase D]

/-- `Gossip::warm_up_one`. -/
def warmUpOne (inner : Inner D) (pk : PublicKey) (kind : ListKind) : Except String (Option Event) :=
  (NostrDatabase.query inner.db (listFilter pk kind)).map List.head?

/-- The loop of `Gossip::warm_up_user`; `clock` is read when the list is saved again. -/
def warmUpLists (clock : PublicKey → ListKind → Timestamp) (pk : PublicKey) :
    List ListKind → Inner D → Except String Unit × Inner D
  | [], inner => (.ok (), inner)
  | kind :: rest, inner =>
      match inner.warmUpOne pk kind with
      | .error e => (.error e, inner)
      | .ok none => warmUpLists clock pk rest inner
      | .ok (some event) => warmUpLists clock pk rest (inner.process urls event none (clock pk kind))

/-- `Gossip::warm_up_user`. -/
def warmUpUser (clock : PublicKey → ListKind → Timestamp) (pk : PublicKey) (inner : Inner D) :
    Except String Unit × Inner D :=
  warmUpLists urls clock pk [.nip65, .nip17] inner

/-- `Gossip::warm_up`. -/
def warmUp (clock : PublicKey → ListKind → Timestamp) : List PublicKey → Inner D → Except String Unit × Inner D
  | [], inner => (.ok (), inner)
  | pk :: rest, inner =>
      match inner.warmUpUser urls clock pk with
      | (.error e, inner) => (.error e, inner)
      | (.ok (), inner) => warmUp clock rest inner

end Inner

/-! ## What a cell reads -/

/-- The relay list held after an offer, if there was one. -/
def readRelayList (offered : Option (Timestamp × RelayList)) : Option RelayList := offered.map Prod.snd

/-- The DM relays held after an offer, if there was one. -/
def readDmRelays (allowed : AllowedRelays) (offered : Option (Timestamp × List RelayUrl)) : List RelayUrl :=
  (offered.map Prod.snd).elim [] (fun relays => relays.filter (allowed.isAllowed urls))

/-- The lists held for a user. -/
def Inner.lists {D : Type} (inner : Inner D) (user : PublicKey) : Option RelayList × List RelayUrl :=
  ((inner.routes.getD user .default).nip65, (inner.routes.getD user .default).nip17)

/-- What is held for a user after a choice of one event for each kind of list. -/
def readLists (allowed : AllowedRelays) (user : PublicKey) (choice : ListKind → Option Event) :
    Option RelayList × List RelayUrl :=
  (readRelayList ((choice .nip65).bind (relayListOf urls user)),
    readDmRelays urls allowed ((choice .nip17).bind (dmListOf urls user)))

/-- What a user's lists are, in terms of the events: the newest of each kind. -/
theorem Cells.lists_eq {D : Type} {urls : UrlCrate} {events : List Event} {inner : Inner D}
    (h : Cells urls events inner) (user : PublicKey) :
    inner.lists user = (readRelayList (Latest.latest listedAt (relayLists urls user events)),
      readDmRelays urls inner.options.allowed (Latest.latest listedAt (dmLists urls user events))) :=
  Prod.ext (h user).nip65 (h user).nip17

/-! ## Warming up from a store that holds one event of each list -/

/-- The store answers with the chosen events and keeps them when they are saved again. -/
structure Rehydrates {D : Type} [NostrDatabase D] (db : D) (choice : PublicKey → ListKind → Option Event) : Prop where
  query : ∀ pk kind, ∃ found, NostrDatabase.query db (listFilter pk kind) = .ok found ∧ found.head? = choice pk kind
  listed : ∀ pk kind e, choice pk kind = some e → e.pubkey = pk ∧ e.kind = kind.eventKind
  saved : ∀ pk kind e now, choice pk kind = some e → NostrDatabase.saveEvent db e now = db

/-- The chosen events of one user, as they are processed. -/
def reloaded (choice : PublicKey → ListKind → Option Event) (clock : PublicKey → ListKind → Timestamp)
    (pk : PublicKey) (kinds : List ListKind) : List Received :=
  kinds.filterMap (fun kind => (choice pk kind).map (fun e => ⟨e, none, clock pk kind⟩))

section Warm

variable {D : Type} [NostrDatabase D] {choice : PublicKey → ListKind → Option Event}
  (clock : PublicKey → ListKind → Timestamp) {inner : Inner D} {db : D}

/-- An event that the database does not keep leaves it as it is. -/
theorem Inner.process_db {e : Event} (source : Option RelayUrl) (now : Timestamp)
    (h : NostrDatabase.saveEvent inner.db e now = inner.db) : (inner.process urls e source now).db = inner.db := by
  unfold Inner.process
  split
  · exact h
  · rfl

theorem Inner.processAll_append (calls calls' : List Received) (inner : Inner D) :
    inner.processAll urls (calls ++ calls') = (inner.processAll urls calls).processAll urls calls' :=
  List.foldl_append

/-- Saving what is there changes nothing. -/
theorem Rehydrates.warmUpLists (pk : PublicKey) (kinds : List ListKind) (inner : Inner D)
    (h : Rehydrates inner.db choice) :
    inner.warmUpLists urls clock pk kinds = (.ok (), inner.processAll urls (reloaded choice clock pk kinds)) ∧
      (inner.processAll urls (reloaded choice clock pk kinds)).db = inner.db := by
  induction kinds generalizing inner with
  | nil => exact ⟨rfl, rfl⟩
  | cons kind rest ih =>
      obtain ⟨found, hquery, hhead⟩ := h.query pk kind
      have hone : inner.warmUpOne pk kind = .ok (choice pk kind) := by
        rw [Inner.warmUpOne, hquery, ← hhead]
        rfl
      rw [Inner.warmUpLists, hone]
      cases hc : choice pk kind with
      | none =>
          have hsame : reloaded choice clock pk (kind :: rest) = reloaded choice clock pk rest := by
            simp [reloaded, hc]
          rw [hsame]
          exact ih inner h
      | some e =>
          have hcons : reloaded choice clock pk (kind :: rest) =
              ⟨e, none, clock pk kind⟩ :: reloaded choice clock pk rest := by
            simp [reloaded, hc]
          have hdb := Inner.process_db urls none (clock pk kind) (h.saved pk kind e _ hc)
          obtain ⟨hrest, hrestdb⟩ := ih (inner.process urls e none (clock pk kind)) (hdb ▸ h)
          rw [hcons]
          exact ⟨hrest, hrestdb.trans hdb⟩

/-- **Warming up is processing what the store holds.** -/
theorem Rehydrates.warmUp (users : List PublicKey) (inner : Inner D) (h : Rehydrates inner.db choice) :
    inner.warmUp urls clock users = (.ok (), inner.processAll urls
      (users.flatMap (fun pk => reloaded choice clock pk [.nip65, .nip17]))) := by
  induction users generalizing inner with
  | nil => rfl
  | cons pk rest ih =>
      obtain ⟨hlists, hdb⟩ := h.warmUpLists urls clock pk [.nip65, .nip17] inner
      rw [Inner.warmUp, Inner.warmUpUser, hlists, List.flatMap_cons, Inner.processAll_append]
      exact ih _ (hdb ▸ h)

/-- Of one user's events of one kind only the chosen one is loaded. -/
theorem Rehydrates.mem_loaded (h : Rehydrates db choice) {users : List PublicKey}
    (husers : ∀ pk kind e, choice pk kind = some e → pk ∈ users) {pk : PublicKey} {kind : ListKind} {e : Event} :
    e ∈ (users.flatMap (fun pk => reloaded choice clock pk [.nip65, .nip17])).map Received.event ∧
      e.pubkey = pk ∧ e.kind = kind.eventKind ↔ choice pk kind = some e := by
  have hmem : e ∈ (users.flatMap (fun pk => reloaded choice clock pk [.nip65, .nip17])).map Received.event ↔
      ∃ pk kind, pk ∈ users ∧ choice pk kind = some e := by
    simp only [List.mem_map, List.mem_flatMap, reloaded, List.mem_filterMap, Option.map_eq_some_iff]
    constructor
    · rintro ⟨_, ⟨pk, hpk, kind, _, e, he, rfl⟩, rfl⟩
      exact ⟨pk, kind, hpk, he⟩
    · rintro ⟨pk, kind, hpk, he⟩
      exact ⟨_, ⟨pk, hpk, kind, by cases kind <;> simp, e, he, rfl⟩, rfl⟩
  rw [hmem]
  constructor
  · rintro ⟨⟨pk', kind', _, he⟩, rfl, hkind⟩
    obtain ⟨rfl, hkind'⟩ := h.listed pk' kind' e he
    have hsame : kind' = kind := by
      revert hkind
      rw [hkind']
      cases kind <;> cases kind' <;> decide
    exact hsame ▸ he
  · intro he
    exact ⟨⟨pk, kind, husers pk kind e he, he⟩, h.listed pk kind e he⟩

/-- A list read of one user's events of one kind is read of the chosen one. -/
theorem Rehydrates.mem_lists (h : Rehydrates db choice) {users : List PublicKey}
    (husers : ∀ pk kind e, choice pk kind = some e → pk ∈ users) (pk : PublicKey) (kind : ListKind) {α : Type}
    {f : Event → Option α} (hf : ∀ e x, f e = some x → e.pubkey = pk ∧ e.kind = kind.eventKind) (x : α) :
    x ∈ ((users.flatMap (fun pk => reloaded choice clock pk [.nip65, .nip17])).map Received.event).filterMap f ↔
      (choice pk kind).bind f = some x := by
  rw [List.mem_filterMap, Option.bind_eq_some_iff]
  refine exists_congr (fun e => ?_)
  rw [← h.mem_loaded clock husers]
  constructor
  · rintro ⟨he, hx⟩
    exact ⟨⟨he, hf e x hx⟩, hx⟩
  · rintro ⟨⟨he, _⟩, hx⟩
    exact ⟨he, hx⟩

end Warm

/-- **What a warmed cache holds.** -/
theorem Rehydrates.lists {D : Type} [NostrDatabase D] {db : D} {choice : PublicKey → ListKind → Option Event}
    (h : Rehydrates db choice) (options : GossipOptions) (clock : PublicKey → ListKind → Timestamp)
    {users : List PublicKey} (husers : ∀ pk kind e, choice pk kind = some e → pk ∈ users) :
    ((Inner.new options db).warmUp urls clock users).1 = .ok () ∧
      ∀ user, ((Inner.new options db).warmUp urls clock users).2.lists user =
        readLists urls options.allowed user (choice user) := by
  rw [Rehydrates.warmUp urls clock users (Inner.new options db) h]
  refine ⟨rfl, fun user => ?_⟩
  have hnew : Cells urls [] (Inner.new options db) := Cells.new options db
  have hcells := hnew.processAll (users.flatMap (fun pk => reloaded choice clock pk [.nip65, .nip17]))
  rw [List.nil_append] at hcells
  rw [hcells.lists_eq, Inner.processAll_options, readLists, relayLists, dmLists,
    Latest.latest_eq_of_mem_iff (h.mem_lists clock husers user .nip65 (fun _ _ => relayListOf_some)),
    Latest.latest_eq_of_mem_iff (h.mem_lists clock husers user .nip17 (fun _ _ => dmListOf_some))]
  rfl

/-! ## What a default store holds after a history -/

/-- The saves a history asks for. -/
def submissions (calls : List Received) : List (Event × Timestamp) := calls.map (fun call => (call.event, call.now))

/-- The event a default store ends with of a user's events of a kind. -/
def stored (calls : List Received) (user : PublicKey) (kind : ListKind) : Option Event :=
  (winners (submissions calls)).find? (fun e => e.pubkey = user && e.kind = kind.eventKind)

/-- Every call is about a relay list or a DM list. -/
def OnlyLists (calls : List Received) : Prop :=
  ∀ call ∈ calls, call.event.kind = Kind.relayList ∨ call.event.kind = Kind.dmRelays

section Memory

variable {calls calls' : List Received}

/-- Whether there are only lists does not depend on their order. -/
theorem OnlyLists.perm (h : OnlyLists calls) (hperm : calls.Perm calls') : OnlyLists calls' :=
  fun call hcall => h call (hperm.mem_iff.mpr hcall)

theorem OnlyLists.ordinary (h : OnlyLists calls) : ∀ p ∈ submissions calls, Ordinary p.1 := by
  intro p hp
  obtain ⟨call, hcall, rfl⟩ := List.mem_map.mp hp
  rcases h call hcall with hkind | hkind
  · exact ⟨by rw [hkind]; decide, by rw [hkind]; decide⟩
  · exact ⟨by rw [hkind]; decide, by rw [hkind]; decide⟩

theorem OnlyLists.needsPersist (h : OnlyLists calls) {call : Received} (hcall : call ∈ calls) :
    needsPersist call.event.kind = true := by
  rcases h call hcall with hkind | hkind
  · rw [hkind]
    decide
  · rw [hkind]
    decide

/-- A router hands all lists on to its store. -/
theorem OnlyLists.processAll_db (h : OnlyLists calls) (inner : Inner MemoryStore) :
    (inner.processAll urls calls).db =
      ((submissions calls).map (fun p => StoreOp.saveEvent p.1 p.2)).foldl MemoryStore.step inner.db := by
  induction calls generalizing inner with
  | nil => rfl
  | cons call rest ih =>
      have hdb : (inner.process urls call.event call.sourceRelay call.now).db =
          (inner.db.saveEvent call.event call.now).2 := by
        rw [Inner.process, if_pos (h.needsPersist List.mem_cons_self)]
        rfl
      have hrest := ih (fun c hc => h c (List.mem_cons_of_mem call hc))
        (inner.process urls call.event call.sourceRelay call.now)
      rw [hdb] at hrest
      exact hrest

/-- Ids tell apart what was offered to the store. -/
theorem identified_offered (hid : Events.Identified (calls.map Received.event)) :
    Events.Identified (offered (submissions calls)) := by
  refine hid.sub (fun x hx => ?_)
  obtain ⟨p, hp, rfl⟩ := List.mem_map.mp hx
  obtain ⟨call, hcall, rfl⟩ := List.mem_map.mp (List.mem_of_mem_filter hp)
  exact List.mem_map_of_mem hcall

theorem mem_of_stored (hid : Events.Identified (calls.map Received.event)) {user : PublicKey} {kind : ListKind}
    {e : Event} (h : stored calls user kind = some e) : e ∈ calls.map Received.event := by
  have hwin := (MemoryStore.mem_winners (identified_offered hid) e).mp (List.mem_of_find?_eq_some h)
  obtain ⟨p, hp, rfl⟩ := List.mem_map.mp hwin.1
  obtain ⟨call, hcall, rfl⟩ := List.mem_map.mp (List.mem_of_mem_filter hp)
  exact List.mem_map_of_mem hcall

/-- What is stored does not depend on the order. -/
theorem stored_perm (hid : Events.Identified (calls.map Received.event)) (hperm : calls.Perm calls') :
    stored calls' = stored calls := by
  have hwin : winners (submissions calls') = winners (submissions calls) :=
    MemoryStore.winners_perm (hperm.map _) (identified_offered hid)
  unfold stored
  rw [hwin]

/-- The filter of a list asks for its author and kind. -/
theorem admits_listFilter (pk : PublicKey) (kind : ListKind) (e : Event) :
    (listFilter pk kind).admits e = (decide (e.pubkey = pk) && decide (e.kind = kind.eventKind)) := by
  rw [Bool.eq_iff_iff, Filter.admits_iff]
  simp [listFilter]

/-- **What the store returns for a list**: the newest it was offered, as a replaceable event keeps one per author and
    kind. -/
theorem MemoryStore.queryOwned_listFilter (o : MemoryDatabaseOptions) (ops : List StoreOp) (pk : PublicKey)
    (kind : ListKind) : ((MemoryStore.run o ops).queryOwned (listFilter pk kind)).head? =
      (listing (MemoryStore.run o ops).byId).find? (listFilter pk kind).admits := by
  obtain ⟨L, _, h⟩ := MemoryStore.run_tracks o ops
  have hplan : MemoryStore.PlanFaithful L.live (listFilter pk kind) := by
    intro k author d hp
    cases kind <;> cases hp
  rw [(h.queryOwned_iff _).mpr hplan, h.byId_eq, specQuery]
  change (((listing L.live).filter _).take 1).head? = _
  rw [List.head?_take, if_neg (by decide), List.head?_filter]

/-- Saving an event that is live changes nothing. -/
theorem MemoryStore.saveEvent_of_live {s : MemoryStore} {e : Event} (h : s.byId.contains e.id = true)
    (now : Timestamp) : (s.saveEvent e now).2 = s := by
  unfold MemoryStore.saveEvent
  rw [if_pos h]
  repeat' split
  all_goals rfl

/-- **A default store holds the latest event of each list and nothing else of it.** -/
theorem rehydrates_saves (hlists : OnlyLists calls) (hid : Events.Identified (calls.map Received.event)) :
    Rehydrates (MemoryStore.saves .default (submissions calls)) (stored calls) := by
  have hlisting := MemoryStore.listing_saves_ordinary hlists.ordinary (identified_offered hid)
  constructor
  · intro pk kind
    refine ⟨_, rfl, ?_⟩
    rw [MemoryStore.saves] at hlisting ⊢
    rw [MemoryStore.queryOwned_listFilter, hlisting]
    refine congrArg (fun p => List.find? p _) (funext (fun e => ?_))
    rw [admits_listFilter]
  · intro pk kind e h
    simpa using List.find?_some h
  · intro pk kind e now h
    obtain ⟨_, _, htracks⟩ := MemoryStore.run_tracks .default
      ((submissions calls).map (fun p => StoreOp.saveEvent p.1 p.2))
    have hkeyed : LiveMap.Keyed (MemoryStore.saves .default (submissions calls)).byId := htracks.indexed.keyed
    have hmem := List.mem_of_find?_eq_some h
    rw [← hlisting, hkeyed.mem_listing] at hmem
    refine MemoryStore.saveEvent_of_live ?_ now
    rw [ExtTreeMap.contains_eq_isSome_getElem?, hmem]
    rfl

end Memory

/-! ## Rebuilding -/

section Rebuild

variable (options : GossipOptions)

/-- A router over an empty default store after the calls. -/
def ingested (calls : List Received) : Inner MemoryStore :=
  (Inner.new options (.new .default)).processAll urls calls

/-- A fresh router over the store of a router, warmed up, and the result of the warm-up. -/
def restarted (old : Inner MemoryStore) (clock : PublicKey → ListKind → Timestamp) (users : List PublicKey) :
    Except String Unit × Inner MemoryStore :=
  (Inner.new old.options old.db).warmUp urls clock users

/-- The event stored of each user's lists reads like each well-formed list of the greatest created-at. -/
structure Rebuildable (allowed : AllowedRelays) (calls : List Received) : Prop where
  nip65 : ∀ user list, Latest.IsMax listedAt (relayLists urls user (calls.map Received.event)) list →
    readRelayList (some list) = readRelayList ((stored calls user .nip65).bind (relayListOf urls user))
  nip17 : ∀ user list, Latest.IsMax listedAt (dmLists urls user (calls.map Received.event)) list →
    readDmRelays urls allowed (some list) =
      readDmRelays urls allowed ((stored calls user .nip17).bind (dmListOf urls user))

variable {calls calls' : List Received}

/-- The lists after ingesting are the newest of those received. -/
theorem ingested_lists (calls : List Received) (user : PublicKey) :
    (ingested urls options calls).lists user =
      (readRelayList (Latest.latest listedAt (calls.filterMap (fun call => relayListOf urls user call.event))),
        readDmRelays urls options.allowed
          (Latest.latest listedAt (calls.filterMap (fun call => dmListOf urls user call.event)))) := by
  have hnew : Cells urls [] (Inner.new options (MemoryStore.new .default)) := Cells.new options _
  have hcells := hnew.processAll calls
  rw [List.nil_append] at hcells
  rw [ingested, hcells.lists_eq, Inner.processAll_options, relayLists, dmLists, List.filterMap_map,
    List.filterMap_map]
  rfl

/-- **The lists after a restart**: of each user the newest that the store had, which is read as it was when it came. -/
theorem restarted_lists (hlists : OnlyLists calls) (hid : Events.Identified (calls.map Received.event))
    (clock : PublicKey → ListKind → Timestamp) {users : List PublicKey}
    (husers : ∀ call ∈ calls, call.event.pubkey ∈ users) :
    (restarted urls (ingested urls options calls) clock users).1 = .ok () ∧
      ∀ user, (restarted urls (ingested urls options calls) clock users).2.lists user =
        readLists urls options.allowed user (stored calls user) := by
  have hdb : (ingested urls options calls).db = MemoryStore.saves .default (submissions calls) :=
    hlists.processAll_db urls _
  have hoptions : (ingested urls options calls).options = options := Inner.processAll_options calls _
  have hre := rehydrates_saves hlists hid
  rw [restarted, hdb, hoptions]
  refine hre.lists urls options clock (fun pk kind e he => ?_)
  obtain ⟨call, hcall, rfl⟩ := List.mem_map.mp (mem_of_stored hid he)
  rw [← (hre.listed pk kind _ he).1]
  exact husers call hcall

/-- A list read of a stored event was offered. -/
theorem offered_of_stored (hid : Events.Identified (calls.map Received.event)) (user : PublicKey) (kind : ListKind)
    {α : Type} {f : Event → Option α} (x : α) (h : (stored calls user kind).bind f = some x) :
    x ∈ calls.filterMap (fun call => f call.event) := by
  obtain ⟨e, he, hx⟩ := Option.bind_eq_some_iff.mp h
  obtain ⟨call, hcall, rfl⟩ := List.mem_map.mp (mem_of_stored hid he)
  exact List.mem_filterMap.mpr ⟨call, hcall, hx⟩

/-- Every order leaves what is stored exactly when the calls are rebuildable. -/
theorem rebuildable_iff (hid : Events.Identified (calls.map Received.event)) :
    (∀ calls', calls.Perm calls' → ∀ user, (ingested urls options calls').lists user =
      readLists urls options.allowed user (stored calls user)) ↔ Rebuildable urls options.allowed calls := by
  have hrelay := fun user => Latest.latest_filterMap_perm_iff listedAt
    (fun call : Received => relayListOf urls user call.event) readRelayList
    (offered_of_stored hid user .nip65)
  have hdm := fun user => Latest.latest_filterMap_perm_iff listedAt
    (fun call : Received => dmListOf urls user call.event) (readDmRelays urls options.allowed)
    (offered_of_stored hid user .nip17)
  simp only [ingested_lists, readLists, Prod.mk.injEq]
  constructor
  · intro h
    constructor
    · intro user list hmax
      rw [relayLists, List.filterMap_map] at hmax
      exact (hrelay user).mp (fun calls' hperm => (h calls' hperm user).1) list hmax
    · intro user list hmax
      rw [dmLists, List.filterMap_map] at hmax
      exact (hdm user).mp (fun calls' hperm => (h calls' hperm user).2) list hmax
  · intro h calls' hperm user
    refine ⟨(hrelay user).mpr (fun list hmax => h.nip65 user list ?_) calls' hperm,
      (hdm user).mpr (fun list hmax => h.nip17 user list ?_) calls' hperm⟩
    · rw [relayLists, List.filterMap_map]
      exact hmax
    · rw [dmLists, List.filterMap_map]
      exact hmax

/-- Each list is well formed, alive when it is processed, and the only one of its user, kind and second. -/
structure Unambiguous (calls : List Received) : Prop where
  wellFormed : ∀ call ∈ calls, (RelayList.fromEvent urls call.event).toOption.isSome = true ∨
    (parseDmRelaysEvent urls call.event).toOption.isSome = true
  alive : ∀ call ∈ calls, call.event.deadOnArrival call.now = false
  distinct : ∀ call ∈ calls, ∀ call' ∈ calls, call.event.pubkey = call'.event.pubkey →
    call.event.kind = call'.event.kind → call.event.createdAt = call'.event.createdAt → call.event = call'.event

/-- Where the events of a list are all read and differ in time, the latest is stored. It is enough that the event of
    the list comes before each of its rivals, which are read too and so are no later. -/
theorem stored_of_latest (hid : Events.Identified (calls.map Received.event)) (user : PublicKey) (kind : ListKind)
    {α : Type} {f : Event → Option (Timestamp × α)} {list : Timestamp × α}
    (hf : ∀ e x, f e = some x → (e.pubkey = user ∧ e.kind = kind.eventKind) ∧ x.1 = e.createdAt)
    (hread : ∀ call ∈ calls, call.event.pubkey = user → call.event.kind = kind.eventKind →
      ∃ x, f call.event = some x)
    (halive : ∀ call ∈ calls, call.event.deadOnArrival call.now = false)
    (hdistinct : ∀ call ∈ calls, ∀ call' ∈ calls, call.event.pubkey = call'.event.pubkey →
      call.event.kind = call'.event.kind → call.event.createdAt = call'.event.createdAt → call.event = call'.event)
    (hmax : Latest.IsMax listedAt ((calls.map Received.event).filterMap f) list) :
    (stored calls user kind).bind f = some list := by
  obtain ⟨e, he, hlist⟩ := List.mem_filterMap.mp hmax.1
  obtain ⟨call, hcall, rfl⟩ := List.mem_map.mp he
  obtain ⟨⟨hpk, hkind⟩, htime⟩ := hf call.event list hlist
  have hreplaceable : call.event.kind.isReplaceable = true := by
    rw [hkind]
    cases kind <;> decide
  have hephemeral : call.event.kind.isEphemeral = false := by
    rw [hkind]
    cases kind <;> decide
  have hoffered : call.event ∈ offered (submissions calls) := by
    refine List.mem_map.mpr ⟨(call.event, call.now), List.mem_filter.mpr ⟨List.mem_map_of_mem hcall, ?_⟩, rfl⟩
    simp [hephemeral, halive call hcall]
  -- a rival is read too, so it is no later, and none is as late
  have hfirst : ∀ x ∈ offered (submissions calls), rivals x call.event = true → ¬x.precedes call.event := by
    intro x hx hriv hp
    obtain ⟨hxkind, hxpk⟩ := (rivals_of_replaceable hreplaceable).mp hriv
    obtain ⟨p, hp', rfl⟩ := List.mem_map.mp hx
    obtain ⟨call', hcall', rfl⟩ := List.mem_map.mp (List.mem_of_mem_filter hp')
    obtain ⟨y, hy⟩ := hread call' hcall' (hxpk.trans hpk) (hxkind.trans hkind)
    have hle := hmax.2 y (List.mem_filterMap.mpr ⟨_, List.mem_map_of_mem hcall', hy⟩)
    rw [listedAt, listedAt, (hf _ y hy).2, htime] at hle
    rcases Event.precedes_iff.mp hp with hlt | ⟨heq, _⟩
    · exact absurd (UInt64.lt_iff_toNat_lt.mp hlt) (Nat.not_lt.mpr hle)
    · have hsame := hdistinct call' hcall' call hcall hxpk hxkind heq
      rw [hsame] at hp
      exact irrefl_of Event.precedes _ hp
  have hwin : call.event ∈ winners (submissions calls) :=
    (MemoryStore.mem_winners (identified_offered hid) _).mpr ⟨hoffered, wins_iff.mpr hfirst⟩
  have hstored : stored calls user kind = some call.event := by
    cases hs : stored calls user kind with
    | none =>
        have hno := List.find?_eq_none.mp hs call.event hwin
        simp [hpk, hkind] at hno
    | some e =>
        have hewin := (MemoryStore.mem_winners (identified_offered hid) e).mp (List.mem_of_find?_eq_some hs)
        obtain ⟨hepk, hekind⟩ : e.pubkey = user ∧ e.kind = kind.eventKind := by simpa using List.find?_some hs
        have hriv : rivals e call.event = true :=
          (rivals_of_replaceable hreplaceable).mpr ⟨hekind.trans hkind.symm, hepk.trans hpk.symm⟩
        by_contra hne
        have hneid : e.id ≠ call.event.id := by
          intro heq
          exact hne (congrArg some (hid e (mem_of_stored hid hs) call.event he heq))
        rcases Event.precedes_total hneid with hp | hp
        · exact hfirst e hewin.1 hriv hp
        · exact wins_iff.mp hewin.2 call.event hoffered (rivals_comm hriv) hp
  rw [hstored]
  exact hlist

/-- Where nothing is ambiguous, every relay list parses. -/
theorem Unambiguous.relayList (h : Unambiguous urls calls) {call : Received} (hcall : call ∈ calls)
    (hkind : call.event.kind = Kind.relayList) : ∃ x, relayListOf urls call.event.pubkey call.event = some x := by
  rcases h.wellFormed call hcall with hok | hok
  · obtain ⟨list, hlist⟩ := Option.isSome_iff_exists.mp hok
    exact ⟨(call.event.createdAt, list), by rw [relayListOf, if_pos rfl, hlist, Option.map_some]⟩
  · have hother : call.event.kind ≠ Kind.dmRelays := by
      rw [hkind]
      decide
    rw [parseDmRelaysEvent, if_pos hother] at hok
    cases hok

theorem Unambiguous.dmList (h : Unambiguous urls calls) {call : Received} (hcall : call ∈ calls)
    (hkind : call.event.kind = Kind.dmRelays) : ∃ x, dmListOf urls call.event.pubkey call.event = some x := by
  rcases h.wellFormed call hcall with hok | hok
  · have hother : call.event.kind ≠ Kind.relayList := by
      rw [hkind]
      decide
    rw [RelayList.fromEvent, if_pos hother] at hok
    cases hok
  · obtain ⟨relays, hrelays⟩ := Option.isSome_iff_exists.mp hok
    exact ⟨(call.event.createdAt, relays), by rw [dmListOf, if_pos rfl, hrelays, Option.map_some]⟩

/-- **An unambiguous history can be rebuilt.** -/
theorem Unambiguous.rebuildable (h : Unambiguous urls calls) (hid : Events.Identified (calls.map Received.event))
    (allowed : AllowedRelays) : Rebuildable urls allowed calls := by
  constructor
  · intro user list hmax
    refine congrArg readRelayList (stored_of_latest hid user .nip65 ?_ ?_ h.alive h.distinct hmax).symm
    · exact fun e x hx => ⟨relayListOf_some hx, relayListOf_fst hx⟩
    · rintro call hcall rfl hkind
      exact h.relayList urls hcall hkind
  · intro user list hmax
    refine congrArg (readDmRelays urls allowed) (stored_of_latest hid user .nip17 ?_ ?_ h.alive h.distinct hmax).symm
    · exact fun e x hx => ⟨dmListOf_some hx, dmListOf_fst hx⟩
    · rintro call hcall rfl hkind
      exact h.dmList urls hcall hkind

/-- **When the cache can be rebuilt from the store and does not depend on the order of arrival.**

    A restart reads of each user the newest list the store has (`restarted_lists`), and the cache holds the newest
    it could read (`ingested_lists`). They are the same in every order exactly if the newest can be read, or none
    can, and times tell lists apart. -/
theorem rebuild_iff (hlists : OnlyLists calls) (hid : Events.Identified (calls.map Received.event)) :
    (∀ calls', calls.Perm calls' →
      (∀ user, (ingested urls options calls').lists user = (ingested urls options calls).lists user) ∧
      ∀ (clock : PublicKey → ListKind → Timestamp) (users : List PublicKey),
        (∀ call ∈ calls, call.event.pubkey ∈ users) →
        (restarted urls (ingested urls options calls') clock users).1 = .ok () ∧
        ∀ user, (restarted urls (ingested urls options calls') clock users).2.lists user =
          (ingested urls options calls').lists user) ↔
    Rebuildable urls options.allowed calls := by
  rw [← rebuildable_iff urls options hid]
  have hwarm : ∀ calls', calls.Perm calls' → ∀ (clock : PublicKey → ListKind → Timestamp) (users : List PublicKey),
      (∀ call ∈ calls, call.event.pubkey ∈ users) →
      (restarted urls (ingested urls options calls') clock users).1 = .ok () ∧
      ∀ user, (restarted urls (ingested urls options calls') clock users).2.lists user =
        readLists urls options.allowed user (stored calls user) := by
    intro calls' hperm clock users husers
    rw [← stored_perm hid hperm]
    exact restarted_lists urls options (hlists.perm hperm)
      (hid.sub (fun x hx => ((hperm.map Received.event).mem_iff).mpr hx)) clock
      (fun call hcall => husers call (hperm.mem_iff.mpr hcall))
  constructor
  · intro h calls' hperm user
    have hall : ∀ call ∈ calls, call.event.pubkey ∈ calls.map (fun call => call.event.pubkey) :=
      fun call hcall => List.mem_map_of_mem hcall
    have hsame := ((h calls' hperm).2 (fun _ _ => 0) _ hall).2 user
    rw [← hsame]
    exact (hwarm calls' hperm _ _ hall).2 user
  · intro h calls' hperm
    refine ⟨fun user => (h calls' hperm user).trans (h calls (List.Perm.refl calls) user).symm, ?_⟩
    intro clock users husers
    obtain ⟨hok, hread⟩ := hwarm calls' hperm clock users husers
    exact ⟨hok, fun user => (hread user).trans (h calls' hperm user).symm⟩

namespace Sample

/-- A relay list of alice. -/
def listed (n : UInt8) (createdAt : Timestamp) (tag : List String) : Received :=
  ⟨Sample.event n Sample.alice createdAt 10002 [tag], none, 10⟩

/-- A list, then a newer one that is malformed. -/
def outlived : List Received := [listed 1 5 ["r", "wss://one.example/"], listed 2 7 ["r"]]

/-- Two lists of the same second. -/
def tied : List Received := [listed 1 5 ["r", "wss://one.example/"], listed 2 5 ["r", "wss://two.example/"]]

/-- The relays held for alice. -/
def held (inner : Inner MemoryStore) : Option (List (RelayUrl × RelayMarker)) :=
  (inner.lists Sample.alice).1.map (fun list => list.relays.toList)

end Sample

theorem rebuild_tied :
    (∀ calls', Sample.tied.Perm calls' →
      (∀ user, (ingested Sample.urlCrate .default calls').lists user =
        (ingested Sample.urlCrate .default Sample.tied).lists user) ∧
      ∀ (clock : PublicKey → ListKind → Timestamp) (users : List PublicKey),
        (∀ call ∈ Sample.tied, call.event.pubkey ∈ users) →
        (restarted Sample.urlCrate (ingested Sample.urlCrate .default calls') clock users).1 = .ok () ∧
        ∀ user, (restarted Sample.urlCrate (ingested Sample.urlCrate .default calls') clock users).2.lists user =
          (ingested Sample.urlCrate .default calls').lists user) ↔
    Rebuildable Sample.urlCrate GossipOptions.default.allowed Sample.tied :=
  rebuild_iff Sample.urlCrate .default (by unfold OnlyLists; decide) (by unfold Events.Identified; decide +kernel)

/-- The malformed list takes the place of the one before it in the store only, and of two lists of the same second
    the cache keeps the first. -/
theorem restarted_loses_list :
    Sample.held (ingested Sample.urlCrate .default Sample.outlived) = some [(Sample.one, .readWrite)] ∧
    Sample.held (restarted Sample.urlCrate (ingested Sample.urlCrate .default Sample.outlived) (fun _ _ => 10)
      [Sample.alice]).2 = none ∧
    Sample.held (ingested Sample.urlCrate .default Sample.tied) = some [(Sample.one, .readWrite)] ∧
    Sample.held (ingested Sample.urlCrate .default Sample.tied.reverse) = some [(Sample.two, .readWrite)] := by
  decide +kernel

end Rebuild

end Nula.Gossip
