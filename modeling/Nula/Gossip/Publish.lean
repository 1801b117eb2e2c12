import Nula.Gossip.BreakDown
import Nula.Gossip.Cache
import Nula.Pool.Registry

/-!
# `Gossip.Publish` — where an event is published

A client with a router sends an event to the relays of its author and of the users it tags, a gift wrap to the DM
relays of its recipients only (`nula-gossip/src/event.rs`, `nula/src/gossip.rs`). Relays the pool does not know are
added first, as far as the admission policy and the pool allow (`ensure_gossip_relays`); the fan-out then wants
all of them (`send_event_to`).
-/

namespace Nula.Gossip

open Std Pool

/-! ## Routes of an event (`event.rs`) -/

/-- `EventRoute`: where an event goes, or that it has no place to go. -/
inductive EventRoute where
  | relays (relays : HashSet RelayUrl)
  | orphan (privateMessage : Bool)

variable (urls : UrlCrate)

namespace Inner

variable {D : Type}

/-- One recipient of `break_down_event`. -/
def extend (selection : GossipOptions → UserRoutes → HashSet RelayUrl) (inner : Inner D) (relays : HashSet RelayUrl)
    (pk : PublicKey) : HashSet RelayUrl :=
  match inner.routes[pk]? with
  | some routes => relays ∪ selection inner.options routes
  | none => relays

/-- `break_down_event`. -/
def breakDownEvent (inner : Inner D) (event : Event) : EventRoute :=
  let recipients := keySet event.tags.publicKeys
  if event.kind = Kind.giftWrap then
    -- the author of a gift wrap is nobody, and has no relays
    let relays := recipients.toList.foldl (inner.extend (Gossip.dmRelays urls)) ∅
    if relays.isEmpty then .orphan true else .relays relays
  else
    let relays := match inner.routes[event.pubkey]? with
      | some routes => outbox urls inner.options routes
      | none => ∅
    -- a contact list advertises nothing to those it names
    let relays := if event.kind ≠ Kind.contacts then
        recipients.toList.foldl (inner.extend (inbox urls)) relays
      else relays
    if relays.isEmpty then .orphan false else .relays relays

end Inner

/-! ## Admission (`policy.rs`) -/

inductive AdmitStatus where
  | success
  | rejected (reason : Option String)

/-- `AdmitPolicy`; the error of a hook is its text. -/
structure AdmitPolicy where
  admitRelay : RelayUrl → Except String AdmitStatus
  admitConnection : RelayUrl → Except String AdmitStatus
  admitEvent : RelayUrl → SubscriptionId → Event → Except String AdmitStatus

/-- What sending fails with. -/
inductive ClientError where
  | pool (e : PoolError)
  | privateMessageRelaysNotFound
  | policy (text : String)
  | policyRejected (stage : String) (reason : Option String)
  deriving DecidableEq

/-- `Display` of `Error`. -/
def ClientError.text : ClientError → String
  | .pool e => e.text
  | .privateMessageRelaysNotFound => "no NIP-17 DM relays found for the gift wrap recipients"
  | .policy text => text
  | .policyRejected stage none => "policy rejected " ++ stage
  | .policyRejected stage (some reason) => "policy rejected " ++ stage ++ ": " ++ reason

/-- What `check_admit_relay`, `check_admit_connection` and `check_admit_event` share. -/
def checkAdmit (stage : String) (verdict : Option (Except String AdmitStatus)) : Except ClientError Unit :=
  match verdict with
  | none => .ok ()
  | some (.error text) => .error (.policy text)
  | some (.ok .success) => .ok ()
  | some (.ok (.rejected reason)) => .error (.policyRejected stage reason)

/-- `check_admit_relay`. -/
def checkAdmitRelay (policy : Option AdmitPolicy) (url : RelayUrl) : Except ClientError Unit :=
  checkAdmit "relay" (policy.map (fun p => p.admitRelay url))

/-- `check_admit_connection`. -/
def checkAdmitConnection (policy : Option AdmitPolicy) (url : RelayUrl) : Except ClientError Unit :=
  checkAdmit "connection" (policy.map (fun p => p.admitConnection url))

/-- `Client::check_admit_event`. -/
def checkAdmitEvent (policy : Option AdmitPolicy) (url : RelayUrl) (subscriptionId : SubscriptionId) (event : Event) :
    Except ClientError Unit :=
  checkAdmit "event" (policy.map (fun p => p.admitEvent url subscriptionId event))

/-! ## Sending (`pool/handle.rs`, `gossip.rs`, `client.rs`) -/

/-- `Output`. -/
structure Output where
  val : EventId
  success : HashSet RelayUrl
  failed : HashMap RelayUrl String

/-- How a send ends: the pool, the relays `Relay::publish` was called on, and the result. -/
structure Sent (E : Type) where
  pool : RelayPool
  published : List RelayUrl
  result : Except E Output

/-- What a client meets while it sends: the orders of two hash sets and the answers of the relays. -/
structure World where
  ensured : RelayUrl → Nat
  queued : RelayUrl → Nat
  publish : RelayUrl → Except String Unit

/-- The loop of `send_event_to` that queues a publish for each url. -/
def queuePublishes (relays : HashMap RelayUrl RelayEntry) : List RelayUrl → Except PoolError (List RelayUrl)
  | [] => .ok []
  | url :: rest =>
      if url ∈ relays then (queuePublishes relays rest).map (fun queued => url :: queued)
      else .error (.relayNotFound url)

/-- One answer; in which order they arrive leaves no trace. -/
def Output.report (publish : RelayUrl → Except String Unit) (output : Output) (url : RelayUrl) : Output :=
  match publish url with
  | .ok () => { output with success := output.success.insert url }
  | .error e => { output with failed := output.failed.insert url e }

/-- `send_event_to`. The queued publishes run once all of them are queued; an early return drops them. -/
def sendEventTo (w : World) (pool : RelayPool) (relays : HashSet RelayUrl) (event : Event) : Sent PoolError :=
  if relays.isEmpty then ⟨pool, [], .error .noRelaysSpecified⟩
  else match queuePublishes pool.relays (HashSet.iter relays w.queued) with
    | .error e => ⟨pool, [], .error e⟩
    | .ok queued => ⟨pool, queued, .ok (queued.foldl (Output.report w.publish) ⟨event.id, ∅, ∅⟩)⟩

/-- `send_event`. -/
def sendEvent (w : World) (pool : RelayPool) (event : Event) : Sent PoolError :=
  let relays := (pool.relays.filter (fun _ entry => entry.capabilities.hasAny .write)).keys.foldl
    (fun set url => set.insert url) ∅
  sendEventTo w pool relays event

/-- `Client`, as far as sending goes. -/
structure Client (D : Type) where
  pool : RelayPool
  admitPolicy : Option AdmitPolicy
  gossip : Option (Inner D)

/-- One relay of `ensure_gossip_relays`; the pool and the relays that were connected. The outcome of a connect is
    dropped. -/
def ensureGossipRelay (policy : Option AdmitPolicy) (s : RelayPool × List RelayUrl) (url : RelayUrl) :
    RelayPool × List RelayUrl :=
  if url ∈ s.1.relays then s
  else match checkAdmitRelay policy url with
    | .error _ => s
    | .ok () =>
        match s.1.addRelay url .gossip with
        | (pool, .error _) => (pool, s.2)
        | (pool, .ok _) =>
            -- the relay is in the pool by now, connected or not
            match checkAdmitConnection policy url with
            | .error _ => (pool, s.2)
            | .ok () => if url ∈ pool.relays then (pool, s.2 ++ [url]) else (pool, s.2)

/-- `ensure_gossip_relays`. -/
def ensureGossipRelays (policy : Option AdmitPolicy) (pool : RelayPool) (relays : List RelayUrl) :
    RelayPool × List RelayUrl :=
  relays.foldl (ensureGossipRelay policy) (pool, [])

/-- The error of the pool, as the client's. -/
def Sent.lift (sent : Sent PoolError) : Sent ClientError :=
  ⟨sent.pool, sent.published, sent.result.mapError .pool⟩

namespace Client

variable {D : Type}

/-- `gossip_send_event`. -/
def gossipSendEvent (w : World) (client : Client D) (gossip : Inner D) (event : Event) : Sent ClientError :=
  match gossip.breakDownEvent urls event with
  | .relays relays =>
      let pool := (ensureGossipRelays client.admitPolicy client.pool (HashSet.iter relays w.ensured)).1
      (sendEventTo w pool relays event).lift
  | .orphan true => ⟨client.pool, [], .error .privateMessageRelaysNotFound⟩
  | .orphan false => (Gossip.sendEvent w client.pool event).lift

/-- `Client::send_event`. -/
def sendEvent (w : World) (client : Client D) (event : Event) : Sent ClientError :=
  match client.gossip with
  | some gossip => client.gossipSendEvent urls w gossip event
  | none => (Gossip.sendEvent w client.pool event).lift

end Client

namespace Client

variable {urls} {D : Type} {client : Client D} {gossip : Inner D} {w : World} {e : Event}

/-- An event with a route goes to the relays of the route that are in the pool by then. -/
theorem gossipSendEvent_relays {relays : HashSet RelayUrl} (h : gossip.breakDownEvent urls e = .relays relays) :
    client.gossipSendEvent urls w gossip e =
      (sendEventTo w (ensureGossipRelays client.admitPolicy client.pool (HashSet.iter relays w.ensured)).1 relays
        e).lift := by
  rw [gossipSendEvent, h]

/-- A private message without a relay of its recipient goes nowhere. -/
theorem gossipSendEvent_orphan (h : gossip.breakDownEvent urls e = .orphan true) :
    client.gossipSendEvent urls w gossip e = ⟨client.pool, [], .error .privateMessageRelaysNotFound⟩ := by
  rw [gossipSendEvent, h]

end Client

/-! ## Gift wraps -/

section GiftWrap

variable {urls} {D : Type} {inner : Inner D}

/-- The relays of a row of users are the relays of each. -/
theorem Inner.mem_foldl_extend {selection : GossipOptions → UserRoutes → HashSet RelayUrl} {keys : List PublicKey}
    {relays : HashSet RelayUrl} {r : RelayUrl} :
    r ∈ keys.foldl (inner.extend selection) relays ↔ r ∈ relays ∨ ∃ k ∈ keys, r ∈ inner.relaysOf selection k := by
  have hstep : ∀ (relays : HashSet RelayUrl) (k : PublicKey),
      r ∈ inner.extend selection relays k ↔ r ∈ relays ∨ r ∈ inner.relaysOf selection k := by
    intro relays k
    unfold Inner.extend Inner.relaysOf
    cases inner.routes[k]? with
    | none => simp
    | some routes => simp
  exact Buckets.foldl_iff (P := fun relays : HashSet RelayUrl => r ∈ relays) hstep keys relays

/-- **A gift wrap is routed to the DM relays of its recipients.** -/
theorem Inner.breakDownEvent_giftWrap (urls : UrlCrate) (inner : Inner D) {e : Event}
    (hkind : e.kind = Kind.giftWrap) :
    (∃ relays, inner.breakDownEvent urls e = .relays relays ∧ (∃ r, r ∈ relays) ∧
      ∀ r, r ∈ relays → ∃ k ∈ e.tags.publicKeys, r ∈ inner.dmRelays urls k) ∨
    (inner.breakDownEvent urls e = .orphan true ∧
      ∀ k ∈ e.tags.publicKeys, ∀ r, r ∉ inner.dmRelays urls k) := by
  have hmem : ∀ r, r ∈ (keySet e.tags.publicKeys).toList.foldl (inner.extend (Gossip.dmRelays urls)) ∅ ↔
      ∃ k ∈ e.tags.publicKeys, r ∈ inner.dmRelays urls k := by
    intro r
    rw [mem_foldl_extend]
    simp only [ExtTreeSet.mem_toList, mem_keySet, ExtTreeSet.not_mem_empty, false_or]
    rfl
  unfold breakDownEvent
  rw [if_pos hkind]
  dsimp only
  split
  · rename_i hempty
    refine Or.inr ⟨rfl, fun k hk r hr => ?_⟩
    have hr := (hmem r).mpr ⟨k, hk, hr⟩
    rw [ExtTreeSet.isEmpty_iff.mp hempty] at hr
    exact ExtTreeSet.not_mem_empty hr
  · rename_i hne
    refine Or.inl ⟨_, rfl, ?_, fun r hr => (hmem r).mp hr⟩
    by_contra hnone
    exact hne (ExtTreeSet.isEmpty_iff.mpr (ExtTreeSet.eq_empty_iff_forall_not_mem.mpr (not_exists.mp hnone)))

/-- A publish is queued for every relay it is for, all of which are known. -/
theorem queuePublishes_ok {relays : HashMap RelayUrl RelayEntry} {l queued : List RelayUrl}
    (h : queuePublishes relays l = .ok queued) : queued = l ∧ ∀ r ∈ l, r ∈ relays := by
  induction l generalizing queued with
  | nil =>
      cases h
      exact ⟨rfl, fun r hr => absurd hr List.not_mem_nil⟩
  | cons url rest ih =>
      unfold queuePublishes at h
      split at h
      · rename_i hurl
        cases hrest : queuePublishes relays rest with
        | error e =>
            rw [hrest] at h
            cases h
        | ok queued' =>
            rw [hrest] at h
            cases h
            obtain ⟨rfl, hall⟩ := ih hrest
            refine ⟨rfl, fun r hr => ?_⟩
            rcases List.mem_cons.mp hr with rfl | hr
            · exact hurl
            · exact hall r hr
      · cases h

/-- The fan-out publishes to relays it was given. -/
theorem mem_of_published {w : World} {pool : RelayPool} {relays : HashSet RelayUrl} {e : Event} {r : RelayUrl}
    (h : r ∈ (sendEventTo w pool relays e).published) : r ∈ relays := by
  unfold sendEventTo at h
  split at h
  · exact absurd h List.not_mem_nil
  split at h
  · exact absurd h List.not_mem_nil
  · rename_i queued hqueued
    obtain ⟨rfl, _⟩ := queuePublishes_ok hqueued
    exact HashSet.mem_iter.mp h

/-- The relay is on the newest well-formed DM list of the user, and allowed. Of lists of the same time the one
    processed first counts. -/
def AllowedDmRelay (urls : UrlCrate) (allowed : AllowedRelays) (events : List Event) (user : PublicKey)
    (r : RelayUrl) : Prop :=
  ∃ list, Latest.IsLatest listedAt (dmLists urls user events) list ∧ r ∈ list.2 ∧
    allowed.isAllowed urls r = true

variable {events : List Event} {user : PublicKey} {r : RelayUrl}

/-- What is held of a user's DM relays. -/
theorem Cells.mem_nip17 (h : Cells urls events inner) {routes : UserRoutes}
    (hroutes : inner.routes[user]? = some routes) :
    r ∈ routes.nip17 ↔ AllowedDmRelay urls inner.options.allowed events user r := by
  have hcell := (h user).nip17
  rw [ExtTreeMap.getD_eq_getD_getElem?, hroutes, Option.getD_some] at hcell
  rw [hcell]
  cases hlatest : Latest.latest listedAt (dmLists urls user events) with
  | none =>
      refine iff_of_false (by simp) ?_
      rintro ⟨list, hlist, _⟩
      cases hlatest.symm.trans (Latest.latest_eq_some_iff.mpr hlist)
  | some list =>
      simp only [Option.map_some, Option.elim_some, List.mem_filter]
      constructor
      · rintro ⟨hr, hallowed⟩
        exact ⟨list, Latest.latest_eq_some_iff.mp hlatest, hr, hallowed⟩
      · rintro ⟨list', hlist', hr, hallowed⟩
        cases hlatest.symm.trans (Latest.latest_eq_some_iff.mpr hlist')
        exact ⟨hr, hallowed⟩

/-- **A message relay that is chosen** is one that the user's newest list names and the policy allows. -/
theorem Cells.allowed_of_mem (h : Cells urls events inner) (hr : r ∈ inner.dmRelays urls user) :
    AllowedDmRelay urls inner.options.allowed events user r := by
  obtain ⟨routes, hroutes, hr⟩ := Inner.mem_relaysOf.mp hr
  exact (h.mem_nip17 hroutes).mp (List.mem_of_mem_take ((mem_dmRelays urls).mp hr).1)

/-- The client whose router has processed the calls. -/
def Client.after [NostrDatabase D] (urls : UrlCrate) (options : GossipOptions) (db : D) (calls : List Received)
    (pool : RelayPool) (policy : Option AdmitPolicy) : Client D :=
  ⟨pool, policy, some ((Inner.new options db).processAll urls calls)⟩

/-- What a client sends after a row of events that it has processed. -/
theorem Client.sendEvent_after [NostrDatabase D] (options : GossipOptions) (db : D) (calls : List Received)
    (pool : RelayPool) (policy : Option AdmitPolicy) (w : World) (e : Event) :
    (Client.after urls options db calls pool policy).sendEvent urls w e =
      (Client.after urls options db calls pool policy).gossipSendEvent urls w
        ((Inner.new options db).processAll urls calls) e := rfl

/-- **A gift wrap stays with the DM relays of its recipients**, whatever was processed before, and where there are
    none it is not sent.

    The cells of the cache hold the newest lists of all events processed (`Cells.process`), and the route of a wrap
    is made of its recipients' message relays alone (`breakDownEvent_giftWrap`). -/
theorem giftWrap_contained [NostrDatabase D] (urls : UrlCrate) (options : GossipOptions) (db : D)
    (calls : List Received) (pool : RelayPool) (policy : Option AdmitPolicy) (w : World) (e : Event)
    (hkind : e.kind = Kind.giftWrap) :
    (∀ r ∈ ((Client.after urls options db calls pool policy).sendEvent urls w e).published,
      ∃ k ∈ e.tags.publicKeys, AllowedDmRelay urls options.allowed (calls.map Received.event) k r) ∧
    ((∀ k ∈ e.tags.publicKeys, ∀ r, ¬ AllowedDmRelay urls options.allowed (calls.map Received.event) k r) →
      ((Client.after urls options db calls pool policy).sendEvent urls w e).published = [] ∧
      ((Client.after urls options db calls pool policy).sendEvent urls w e).result =
        .error .privateMessageRelaysNotFound) := by
  have hcells : Cells urls (calls.map Received.event) ((Inner.new options db).processAll urls calls) :=
    (Cells.new options db).processAll calls
  have hoptions : ((Inner.new options db).processAll urls calls).options = options :=
    Inner.processAll_options calls _
  rcases Inner.breakDownEvent_giftWrap urls ((Inner.new options db).processAll urls calls) hkind with
    ⟨relays, hroute, ⟨r₀, hr₀⟩, hrelays⟩ | ⟨hroute, hnone⟩
  · have hallowed : ∀ r ∈ relays, ∃ k ∈ e.tags.publicKeys,
        AllowedDmRelay urls options.allowed (calls.map Received.event) k r := by
      intro r hr
      obtain ⟨k, hk, hr⟩ := hrelays r hr
      exact ⟨k, hk, hoptions ▸ hcells.allowed_of_mem hr⟩
    rw [Client.sendEvent_after, Client.gossipSendEvent_relays hroute]
    refine ⟨fun r hr => hallowed r (mem_of_published hr), fun hnone => ?_⟩
    obtain ⟨k, hk, hr₀⟩ := hallowed r₀ hr₀
    exact absurd hr₀ (hnone k hk r₀)
  · rw [Client.sendEvent_after, Client.gossipSendEvent_orphan hroute]
    exact ⟨fun r hr => absurd hr List.not_mem_nil, fun _ => ⟨rfl, rfl⟩⟩

namespace Sample

/-- Alice's DM relays, after a list of bob's. -/
def dmCalls : List Received :=
  [⟨Sample.event 1 Sample.bob 7 10050 [["relay", "wss://two.example/"]], none, 10⟩,
    ⟨Sample.event 2 Sample.alice 5 10050 [["relay", "wss://one.example/"]], some two, 10⟩]

/-- A wrap for alice. -/
def wrap : Event := Sample.event 3 Sample.bob 9 1059 [["p", Sample.alice.toHex]]

/-- No relay answers. -/
def world : World := ⟨fun _ => 0, fun _ => 0, fun _ => .error "publish timed out"⟩

end Sample

/-- Alice's wrap goes to no relay that her list does not name. -/
theorem giftWrap_contained_alice :
    (∀ r ∈ ((Client.after Sample.urlCrate .default (MemoryStore.new .default) Sample.dmCalls
        (.new .default) none).sendEvent Sample.urlCrate Sample.world Sample.wrap).published,
      ∃ k ∈ Sample.wrap.tags.publicKeys,
        AllowedDmRelay Sample.urlCrate .default (Sample.dmCalls.map Received.event) k r) ∧
    ((Client.after Sample.urlCrate .default (MemoryStore.new .default) Sample.dmCalls
      (.new .default) none).sendEvent Sample.urlCrate Sample.world Sample.wrap).published = [Sample.one] :=
  ⟨(giftWrap_contained Sample.urlCrate .default (MemoryStore.new .default) Sample.dmCalls (.new .default) none
    Sample.world Sample.wrap rfl).1, by decide +kernel⟩

end GiftWrap

/-! ## Relays that are added on the way -/

section Ensure

variable {policy : Option AdmitPolicy} {p p' : RelayPool} {url r : RelayUrl} {l : List RelayUrl}

/-- A new relay gets in: the policy admits it and the pool is open and not full. -/
structure Addable (policy : Option AdmitPolicy) (p : RelayPool) (url : RelayUrl) : Prop where
  admitted : checkAdmitRelay policy url = .ok ()
  opened : p.shutdown = false
  room : p.full = none

/-- The pool with one relay more. -/
structure Added (url : RelayUrl) (p p' : RelayPool) : Prop where
  mem_iff : ∀ r, r ∈ p'.relays ↔ r = url ∨ r ∈ p.relays
  size : p'.relays.size = p.relays.size + 1
  options : p'.options = p.options
  shutdown : p'.shutdown = p.shutdown

theorem added_insert (hmem : url ∉ p.relays) (entry : RelayEntry) :
    Added url p (({ p with relays := p.relays.insert url entry } : RelayPool).notify (.relayAdded url)) where
  mem_iff := by
    intro r
    show r ∈ p.relays.insert url entry ↔ _
    rw [ExtTreeMap.mem_insert, LawfulEqCmp.compare_eq_iff_eq, eq_comm]
  size := by
    show (p.relays.insert url entry).size = _
    rw [ExtTreeMap.size_insert, if_neg (fun h => hmem (ExtTreeMap.mem_iff_contains.mpr h))]
  options := rfl
  shutdown := rfl

/-- **One relay**: it is added if it is new and addable, and else the pool stays. The checks are made in the order of
    the source: known, admitted, open, not full. -/
theorem ensureGossipRelay_cases (policy : Option AdmitPolicy) (s : RelayPool × List RelayUrl) (url : RelayUrl) :
    (url ∉ s.1.relays ∧ Addable policy s.1 url ∧ Added url s.1 (ensureGossipRelay policy s url).1) ∨
    ((url ∈ s.1.relays ∨ ¬ Addable policy s.1 url) ∧ (ensureGossipRelay policy s url).1 = s.1) := by
  unfold ensureGossipRelay
  by_cases hmem : url ∈ s.1.relays
  · rw [if_pos hmem]
    exact Or.inr ⟨Or.inl hmem, rfl⟩
  rw [if_neg hmem]
  cases hverdict : checkAdmitRelay policy url with
  | error e => exact Or.inr ⟨Or.inr (fun h => by cases hverdict.symm.trans h.admitted), rfl⟩
  | ok u =>
      cases hshut : s.1.shutdown with
      | true =>
          have hadd : s.1.addRelay url .gossip = (s.1, .error .shutdown) := by simp [RelayPool.addRelay, hshut]
          rw [hadd]
          exact Or.inr ⟨Or.inr (fun h => by cases hshut.symm.trans h.opened), rfl⟩
      | false =>
          have hnone : s.1.relays[url]? = none := ExtTreeMap.getElem?_eq_none hmem
          cases hfull : s.1.full with
          | some limit =>
              have hadd : s.1.addRelay url .gossip = (s.1, .error (.tooManyRelays limit)) := by
                simp [RelayPool.addRelay, RelayPool.insertRelay, hshut, hnone, hfull]
              rw [hadd]
              exact Or.inr ⟨Or.inr (fun h => by cases hfull.symm.trans h.room), rfl⟩
          | none =>
              have hadd : s.1.addRelay url .gossip =
                  (({ s.1 with relays := s.1.relays.insert url ⟨s.1.options.relayOptions, .gossip⟩ } :
                    RelayPool).notify (.relayAdded url), .ok true) := by
                simp [RelayPool.addRelay, RelayPool.insertRelay, hshut, hnone, hfull]
              refine Or.inl ⟨hmem, ⟨hverdict, hshut, hfull⟩, ?_⟩
              rw [hadd]
              -- whether the relay is connected does not show in the pool
              dsimp only
              repeat' split
              all_goals exact added_insert hmem _

/-- There is room for `n` more relays. -/
def Fits (p : RelayPool) (n : Nat) : Prop := ∀ max : ℕ+, p.options.maxRelays = some max → p.relays.size + n ≤ max

/-- There is room for a relay exactly if the pool is not full. -/
theorem full_eq_none_iff : p.full = none ↔ Fits p 1 := by
  unfold RelayPool.full Fits
  cases p.options.maxRelays with
  | none => simp
  | some max =>
      simp only [ite_eq_right_iff, reduceCtorEq, imp_false, Option.some.injEq, forall_eq', Nat.not_le]
      omega

theorem Fits.mono {n k : Nat} (h : Fits p k) (hle : n ≤ k) : Fits p n := by
  intro max hmax
  have := h max hmax
  omega

/-- An added relay takes one place. -/
theorem fits_added (hadded : Added url p p') (n : Nat) : Fits p' n ↔ Fits p (n + 1) := by
  unfold Fits
  rw [hadded.options, hadded.size]
  refine forall_congr' (fun max => forall_congr' (fun _ => ?_))
  omega

/-- The relays the pool does not hold yet. -/
def newRelays (p : RelayPool) (l : List RelayUrl) : List RelayUrl := l.filter (fun r => r ∉ p.relays)

/-- Every relay is in the pool, or new and admitted, and there is room for the new ones. -/
structure AllFit (policy : Option AdmitPolicy) (p : RelayPool) (l : List RelayUrl) : Prop where
  admitted : ∀ r ∈ newRelays p l, checkAdmitRelay policy r = .ok ()
  room : newRelays p l ≠ [] → p.shutdown = false ∧ Fits p (newRelays p l).length

/-- No relay is in the pool, and none can be added. -/
structure NoneFits (policy : Option AdmitPolicy) (p : RelayPool) (l : List RelayUrl) : Prop where
  unknown : ∀ r ∈ l, r ∉ p.relays
  refused : ∀ r ∈ l, ¬ Addable policy p r

theorem ensure_mono (policy : Option AdmitPolicy) (l : List RelayUrl) (s : RelayPool × List RelayUrl)
    (h : r ∈ s.1.relays) :
    r ∈ (l.foldl (ensureGossipRelay policy) s).1.relays := by
  refine Buckets.foldl_keeps (P := fun s : RelayPool × List RelayUrl => r ∈ s.1.relays) ?_ l h
  intro s url h
  rcases ensureGossipRelay_cases policy s url with ⟨_, _, hadded⟩ | ⟨_, hsame⟩
  · exact (hadded.mem_iff r).mpr (Or.inr h)
  · rw [hsame]
    exact h

theorem mem_of_ensure (policy : Option AdmitPolicy) (l : List RelayUrl) (s : RelayPool × List RelayUrl)
    (h : r ∈ (l.foldl (ensureGossipRelay policy) s).1.relays) : r ∈ l ∨ r ∈ s.1.relays := by
  induction l generalizing s with
  | nil => exact Or.inr h
  | cons url rest ih =>
      rcases ih _ h with hr | hr
      · exact Or.inl (List.mem_cons_of_mem url hr)
      · rcases ensureGossipRelay_cases policy s url with ⟨_, _, hadded⟩ | ⟨_, hsame⟩
        · rcases (hadded.mem_iff r).mp hr with rfl | hr
          · exact Or.inl List.mem_cons_self
          · exact Or.inr hr
        · rw [hsame] at hr
          exact Or.inr hr

/-- **When a relay is there afterwards**: when it was there, or may be added. -/
theorem mem_ensureGossipRelay {s : RelayPool × List RelayUrl} :
    url ∈ (ensureGossipRelay policy s url).1.relays ↔ url ∈ s.1.relays ∨ Addable policy s.1 url := by
  rcases ensureGossipRelay_cases policy s url with ⟨_, haddable, hadded⟩ | ⟨hno, hsame⟩
  · exact iff_of_true ((hadded.mem_iff url).mpr (Or.inl rfl)) (Or.inr haddable)
  · rw [hsame]
    exact ⟨Or.inl, fun h => h.elim id (fun haddable => hno.resolve_right (not_not.mpr haddable))⟩

/-- Whether the first relay ends up in the pool is settled at once. -/
theorem mem_ensure_head (policy : Option AdmitPolicy) (s : RelayPool × List RelayUrl) {rest : List RelayUrl}
    (hnot : url ∉ rest) :
    url ∈ (rest.foldl (ensureGossipRelay policy) (ensureGossipRelay policy s url)).1.relays ↔
      url ∈ s.1.relays ∨ Addable policy s.1 url := by
  rw [← mem_ensureGossipRelay]
  exact ⟨fun h => (mem_of_ensure policy rest _ h).resolve_left hnot, ensure_mono policy rest _⟩

theorem newRelays_added (hadded : Added url p p') {rest : List RelayUrl} (hnot : url ∉ rest) :
    newRelays p' rest = newRelays p rest := by
  refine List.filter_congr (fun r hr => ?_)
  have hne : r ≠ url := fun h => hnot (h ▸ hr)
  simp [hadded.mem_iff, hne]

/-- **When all relays end up in the pool.** By induction on the relays. A known relay takes no room, an added one
    takes one place, and a refused one is missing for good. -/
theorem ensure_all_iff (policy : Option AdmitPolicy) (hnd : l.Nodup) (s : RelayPool × List RelayUrl) :
    (∀ r ∈ l, r ∈ (l.foldl (ensureGossipRelay policy) s).1.relays) ↔ AllFit policy s.1 l := by
  induction l generalizing s with
  | nil =>
      refine iff_of_true (fun r hr => absurd hr List.not_mem_nil) ⟨?_, fun h => absurd rfl h⟩
      exact fun r hr => absurd hr List.not_mem_nil
  | cons url rest ih =>
      obtain ⟨hnot, hnd⟩ := List.nodup_cons.mp hnd
      rw [List.forall_mem_cons, List.foldl_cons, ih hnd]
      by_cases hurl : url ∈ s.1.relays
      · -- a relay that is there changes nothing
        have hstep : (ensureGossipRelay policy s url).1 = s.1 := by
          rcases ensureGossipRelay_cases policy s url with ⟨h, _⟩ | ⟨_, hsame⟩
          · exact absurd hurl h
          · exact hsame
        have hnew : newRelays s.1 (url :: rest) = newRelays s.1 rest := by simp [newRelays, hurl]
        have hin := (mem_ensure_head policy s hnot).mpr (Or.inl hurl)
        rw [hstep]
        constructor
        · rintro ⟨_, hall⟩
          exact ⟨hnew ▸ hall.admitted, hnew ▸ hall.room⟩
        · intro hall
          exact ⟨hin, hnew ▸ hall.admitted, hnew ▸ hall.room⟩
      · have hnew : newRelays s.1 (url :: rest) = url :: newRelays s.1 rest := by simp [newRelays, hurl]
        rcases ensureGossipRelay_cases policy s url with ⟨_, haddable, hadded⟩ | ⟨hno, hsame⟩
        · -- a relay that is added takes one place
          have hin := (mem_ensure_head policy s hnot).mpr (Or.inr haddable)
          have hrest := newRelays_added hadded hnot
          constructor
          · rintro ⟨_, hall⟩
            refine ⟨?_, fun _ => ⟨haddable.opened, ?_⟩⟩
            · rw [hnew, List.forall_mem_cons]
              exact ⟨haddable.admitted, hrest ▸ hall.admitted⟩
            · rw [hnew, List.length_cons, ← fits_added hadded, ← hrest]
              by_cases hempty : newRelays (ensureGossipRelay policy s url).1 rest = []
              · rw [hempty, fits_added hadded]
                exact full_eq_none_iff.mp haddable.room
              · exact (hall.room hempty).2
          · intro hall
            have hroom := hall.room (by rw [hnew]; exact List.cons_ne_nil _ _)
            refine ⟨hin, ?_, fun _ => ⟨hadded.shutdown.trans hroom.1, ?_⟩⟩
            · rw [hrest]
              exact fun r hr => hall.admitted r (hnew ▸ List.mem_cons_of_mem url hr)
            · rw [fits_added hadded, hrest]
              rw [hnew, List.length_cons] at hroom
              exact hroom.2
        · -- a relay that cannot be added is missing in the end
          have hunaddable := hno.resolve_left hurl
          refine iff_of_false (fun h => ((mem_ensure_head policy s hnot).mp h.1).elim hurl hunaddable) (fun hall => ?_)
          have hroom := hall.room (by rw [hnew]; exact List.cons_ne_nil _ _)
          refine hunaddable ⟨hall.admitted url (hnew ▸ List.mem_cons_self), hroom.1, ?_⟩
          rw [full_eq_none_iff]
          refine hroom.2.mono ?_
          rw [hnew, List.length_cons]
          omega

/-- **When no relay ends up in the pool.** -/
theorem ensure_none_iff (policy : Option AdmitPolicy) (hnd : l.Nodup) (s : RelayPool × List RelayUrl) :
    (∀ r ∈ l, r ∉ (l.foldl (ensureGossipRelay policy) s).1.relays) ↔ NoneFits policy s.1 l := by
  induction l generalizing s with
  | nil =>
      exact iff_of_true (fun r hr => absurd hr List.not_mem_nil)
        ⟨fun r hr => absurd hr List.not_mem_nil, fun r hr => absurd hr List.not_mem_nil⟩
  | cons url rest ih =>
      obtain ⟨hnot, hnd⟩ := List.nodup_cons.mp hnd
      rw [List.forall_mem_cons, List.foldl_cons, ih hnd]
      by_cases hgood : url ∈ s.1.relays ∨ Addable policy s.1 url
      · refine iff_of_false (fun h => h.1 ((mem_ensure_head policy s hnot).mpr hgood)) (fun h => ?_)
        rcases hgood with hmem | haddable
        · exact h.unknown url List.mem_cons_self hmem
        · exact h.refused url List.mem_cons_self haddable
      · have hsame : (ensureGossipRelay policy s url).1 = s.1 := by
          rcases ensureGossipRelay_cases policy s url with ⟨_, haddable, _⟩ | ⟨_, hsame⟩
          · exact absurd (Or.inr haddable) hgood
          · exact hsame
        have hout := mt (mem_ensure_head policy s hnot).mp hgood
        rw [hsame]
        constructor
        · rintro ⟨_, hnone⟩
          exact ⟨List.forall_mem_cons.mpr ⟨fun h => hgood (Or.inl h), hnone.unknown⟩,
            List.forall_mem_cons.mpr ⟨fun h => hgood (Or.inr h), hnone.refused⟩⟩
        · intro hnone
          exact ⟨hout, fun r hr => hnone.unknown r (List.mem_cons_of_mem url hr),
            fun r hr => hnone.refused r (List.mem_cons_of_mem url hr)⟩

/-- Which relays are new does not depend on their order. -/
theorem newRelays_perm {l' : List RelayUrl} (h : l.Perm l') : (newRelays p l).Perm (newRelays p l') := h.filter _

theorem AllFit.perm {l' : List RelayUrl} (h : AllFit policy p l) (hl : l.Perm l') : AllFit policy p l' := by
  have hnew := newRelays_perm (p := p) hl
  refine ⟨fun r hr => h.admitted r (hnew.mem_iff.mpr hr), fun hne => ?_⟩
  rw [← hnew.length_eq]
  exact h.room (fun hnil => hne (by rw [hnil] at hnew; exact hnew.nil_eq.symm))

theorem NoneFits.perm {l' : List RelayUrl} (h : NoneFits policy p l) (hl : l.Perm l') : NoneFits policy p l' :=
  ⟨fun r hr => h.unknown r (hl.mem_iff.mpr hr), fun r hr => h.refused r (hl.mem_iff.mpr hr)⟩

end Ensure

/-! ## Who is reached -/

section Reached

variable {urls} {w : World} {pool : RelayPool} {relays : HashSet RelayUrl} {e : Event}

theorem queuePublishes_of_all {known : HashMap RelayUrl RelayEntry} {l : List RelayUrl} (h : ∀ r ∈ l, r ∈ known) :
    queuePublishes known l = .ok l := by
  induction l with
  | nil => rfl
  | cons url rest ih =>
      obtain ⟨hurl, hrest⟩ := List.forall_mem_cons.mp h
      rw [queuePublishes, if_pos hurl, ih hrest]
      rfl

/-- A fan-out to relays the pool holds reaches all of them. -/
theorem published_of_all (h : ∀ r ∈ relays, r ∈ pool.relays) {r : RelayUrl} (hr : r ∈ relays) :
    r ∈ (sendEventTo w pool relays e).published := by
  unfold sendEventTo
  rw [queuePublishes_of_all (fun r hr => h r (HashSet.mem_iter.mp hr))]
  split
  · rename_i hempty
    rw [ExtTreeSet.isEmpty_iff.mp hempty] at hr
    exact absurd hr ExtTreeSet.not_mem_empty
  · exact HashSet.mem_iter.mpr hr

/-- A fan-out to a relay the pool does not hold reaches nobody. -/
theorem all_of_published {r : RelayUrl} (h : r ∈ (sendEventTo w pool relays e).published) :
    ∀ r ∈ relays, r ∈ pool.relays := by
  unfold sendEventTo at h
  split at h
  · exact absurd h List.not_mem_nil
  split at h
  · exact absurd h List.not_mem_nil
  · rename_i queued hqueued
    exact fun r hr => (queuePublishes_ok hqueued).2 r (HashSet.mem_iter.mpr hr)

/-- **When a publish reaches every relay that is there**: all its relays fit in the pool, or none is there.

    The pool takes relays until it is full, in an order that is not the caller's. So all are in it afterwards
    exactly if all fit, and a publish to a set of which one is missing goes to none. -/
theorem gossipSendEvent_reaches_iff {D : Type} (urls : UrlCrate) (client : Client D) (gossip : Inner D) (w : World)
    (e : Event) {relays : HashSet RelayUrl} (h : gossip.breakDownEvent urls e = .relays relays) :
    (∀ r ∈ relays,
      r ∈ (ensureGossipRelays client.admitPolicy client.pool (HashSet.iter relays w.ensured)).1.relays →
      r ∈ (client.gossipSendEvent urls w gossip e).published) ↔
    AllFit client.admitPolicy client.pool relays.toList ∨ NoneFits client.admitPolicy client.pool relays.toList := by
  rw [Client.gossipSendEvent_relays h]
  have hperm := HashSet.perm_iter relays w.ensured
  have hnd := HashSet.nodup_iter relays w.ensured
  have hall : (∀ r ∈ relays, r ∈ (ensureGossipRelays client.admitPolicy client.pool
      (HashSet.iter relays w.ensured)).1.relays) ↔ AllFit client.admitPolicy client.pool relays.toList := by
    have hiff := ensure_all_iff client.admitPolicy hnd (client.pool, [])
    simp only [HashSet.mem_iter] at hiff
    exact hiff.trans ⟨fun h => h.perm hperm, fun h => h.perm hperm.symm⟩
  have hnone : (∀ r ∈ relays, r ∉ (ensureGossipRelays client.admitPolicy client.pool
      (HashSet.iter relays w.ensured)).1.relays) ↔ NoneFits client.admitPolicy client.pool relays.toList := by
    have hiff := ensure_none_iff client.admitPolicy hnd (client.pool, [])
    simp only [HashSet.mem_iter] at hiff
    exact hiff.trans ⟨fun h => h.perm hperm, fun h => h.perm hperm.symm⟩
  rw [← hall, ← hnone]
  constructor
  · intro hreach
    by_cases hin : ∀ r ∈ relays, r ∈ (ensureGossipRelays client.admitPolicy client.pool
        (HashSet.iter relays w.ensured)).1.relays
    · exact Or.inl hin
    · exact Or.inr (fun r hr hmem => hin (all_of_published (hreach r hr hmem)))
  · rintro (hin | hout) r hr hmem
    · exact published_of_all hin hr
    · exact absurd hmem (hout r hr)

/-- The relays, if there are any and they pass the test. -/
def EventRoute.leadsTo (test : HashSet RelayUrl → Bool) : EventRoute → Bool
  | .relays relays => test relays
  | .orphan _ => false

theorem EventRoute.exists_of_leadsTo {test : HashSet RelayUrl → Bool} {route : EventRoute}
    (h : route.leadsTo test = true) : ∃ relays, route = .relays relays ∧ test relays = true := by
  cases route with
  | relays relays => exact ⟨relays, rfl, h⟩
  | orphan privateMessage => cases h

namespace Sample

/-- Alice writes to two relays. -/
def twoRelays : Inner Unit where
  options := .default
  db := ()
  routes := (∅ : HashMap PublicKey UserRoutes).insert Sample.alice
    { UserRoutes.default with
      nip65 := some ⟨((∅ : BTreeMap RelayUrl RelayMarker).insert one .readWrite).insert two .write⟩ }

/-- A pool with place for `max` relays that holds the first. -/
def holding (max : ℕ+) : RelayPool :=
  ((RelayPool.new { RelayPoolOptions.default with maxRelays := some max }).addRelay one .default).1

/-- A client whose pool takes so many relays. -/
def sender (max : ℕ+) : Client Unit := ⟨holding max, none, some twoRelays⟩

/-- A note by alice. -/
def note : Event := Sample.event 1 Sample.alice 5 1 []

end Sample

theorem gossipSendEvent_reaches_two : ∃ relays,
    Sample.twoRelays.breakDownEvent Sample.urlCrate Sample.note = .relays relays ∧
    ((∀ r ∈ relays,
      r ∈ (ensureGossipRelays (Sample.sender 2).admitPolicy (Sample.sender 2).pool
        (HashSet.iter relays Sample.world.ensured)).1.relays →
      r ∈ ((Sample.sender 2).gossipSendEvent Sample.urlCrate Sample.world Sample.twoRelays Sample.note).published) ↔
    AllFit (Sample.sender 2).admitPolicy (Sample.sender 2).pool relays.toList ∨
      NoneFits (Sample.sender 2).admitPolicy (Sample.sender 2).pool relays.toList) := by
  have h : (Sample.twoRelays.breakDownEvent Sample.urlCrate Sample.note).leadsTo (fun _ => true) = true := by
    decide +kernel
  obtain ⟨relays, hrelays, _⟩ := EventRoute.exists_of_leadsTo h
  exact ⟨relays, hrelays, gossipSendEvent_reaches_iff Sample.urlCrate (Sample.sender 2) Sample.twoRelays
    Sample.world Sample.note hrelays⟩

/-- The pool is full with the first relay: the second is skipped, and then the first gets nothing either. -/
theorem gossipSendEvent_aborts : ∃ relays,
    Sample.twoRelays.breakDownEvent Sample.urlCrate Sample.note = .relays relays ∧ Sample.one ∈ relays ∧
    Sample.one ∈ (ensureGossipRelays (Sample.sender 1).admitPolicy (Sample.sender 1).pool
      (HashSet.iter relays Sample.world.ensured)).1.relays ∧
    Sample.one ∉ ((Sample.sender 1).gossipSendEvent Sample.urlCrate Sample.world Sample.twoRelays
      Sample.note).published := by
  have h : (Sample.twoRelays.breakDownEvent Sample.urlCrate Sample.note).leadsTo (fun relays =>
      Sample.one ∈ relays ∧ Sample.one ∈ (ensureGossipRelays (Sample.sender 1).admitPolicy (Sample.sender 1).pool
        (HashSet.iter relays Sample.world.ensured)).1.relays) = true := by
    decide +kernel
  obtain ⟨relays, hrelays, hmem⟩ := EventRoute.exists_of_leadsTo h
  obtain ⟨hone, hin⟩ := of_decide_eq_true hmem
  exact ⟨relays, hrelays, hone, hin, by decide +kernel⟩

end Reached

end Nula.Gossip
