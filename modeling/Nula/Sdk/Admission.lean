import Nula.Gossip.Publish
import Nula.Lib.Always

/-!
# `Sdk.Admission` — which relays a client registers and dials

`Client::add_relay*`, `connect`, `try_connect`, `connect_relay`, `try_connect_relay` (`nula/src/client.rs`) and the
calls that a router sends to relays of its own choice (`nula/src/gossip.rs`), as far as the pool and the `Connect`
commands go. The admission policy (`policy.rs`) is asked before a relay enters the pool on every path, and before it
is dialled on every path but the two bulk connects.
-/

namespace Nula.Sdk

open Std Gossip
open Pool (RelayPool RelayEntry RelayCapabilities PoolError)

/-! ## The client -/

/-- `Client`, as far as relays are registered and connected, without its policy; `dialled` are the
    relays that were sent a `Connect` command, oldest first. -/
structure Dialler (D : Type) where
  pool : RelayPool
  gossip : Option (Inner D)
  dialled : List RelayUrl

/-- What `connect_relay` and `try_connect_relay` fail with. -/
inductive ConnectError where
  | unknownRelay (url : RelayUrl)
  | client (e : ClientError)
  | relay (text : String)
  | connectTimeout (url : RelayUrl)

/-- `Output<()>`. -/
structure ConnectOutput where
  success : HashSet RelayUrl
  failed : HashMap RelayUrl String

/-- What a call meets: the orders of hash maps, the answers to publishes, how the connects end and which of them
    take longer than a caller with a timeout waits. -/
structure Surroundings where
  world : World
  rank : RelayUrl → Nat
  connects : RelayUrl → Except String Unit
  overdue : RelayUrl → Bool

/-- The calls that register and connect relays, the timeout of `try_connect` as it is printed. `learn` is the router at
    its next state. -/
inductive ClientCall (D : Type) where
  | addRelayWithCapabilities (url : RelayUrl) (capabilities : RelayCapabilities)
  | addRelayWithOptions (url : RelayUrl) (capabilities : RelayCapabilities) (options : Relay.RelayOptions)
  | removeRelay (url : RelayUrl)
  | connect
  | tryConnect (perRelayTimeout : String)
  | connectRelay (url : RelayUrl)
  | tryConnectRelay (url : RelayUrl)
  | sendEvent (event : Event)
  | subscribe (generated : Except String SubscriptionId) (filter : Filter)
  | subscribeWithId (id : SubscriptionId) (filter : Filter)
  | streamEvents (filter : Filter)
  | fetchEvents (filter : Filter)
  | learn (gossip : Inner D)

namespace Dialler

variable (urls : UrlCrate) (policy : Option AdmitPolicy) {D : Type}

/-- `ClientBuilder::build`. -/
def new (options : Pool.RelayPoolOptions) (gossip : Option (Inner D)) : Dialler D := ⟨.new options, gossip, []⟩

/-- `Relay::connect`, as far as its command goes. -/
def dial (url : RelayUrl) (c : Dialler D) : Dialler D := { c with dialled := c.dialled ++ [url] }

/-- `Client::add_relay_with_options`. -/
def addRelayWithOptions (url : RelayUrl) (capabilities : RelayCapabilities) (options : Relay.RelayOptions)
    (c : Dialler D) : Dialler D × Except ClientError Bool :=
  match checkAdmitRelay policy url with
  | .error e => (c, .error e)
  | .ok () =>
      if c.pool.shutdown then (c, .error (.pool .shutdown))
      else
        let (pool, result) := c.pool.insertRelay url capabilities options
        ({ c with pool := pool }, result.mapError .pool)

/-- `Client::add_relay_with_capabilities`, which `add_relay`, `add_discovery_relay`, `add_read_relay`,
    `add_write_relay` and `add_gossip_relay` call. -/
def addRelayWithCapabilities (url : RelayUrl) (capabilities : RelayCapabilities) (c : Dialler D) :
    Dialler D × Except ClientError Bool :=
  c.addRelayWithOptions policy url capabilities c.pool.options.relayOptions

/-- `Client::remove_relay`. -/
def removeRelay (url : RelayUrl) (c : Dialler D) : Dialler D × Except PoolError Unit :=
  if url ∈ c.pool.relays then
    ({ c with pool := ({ c.pool with relays := c.pool.relays.erase url }).notify (.relayRemoved url) }, .ok ())
  else (c, .error (.relayNotFound url))

/-- `connect_one`, and where its result goes. -/
def report (perAttempt : Option String) (s : Surroundings) (output : ConnectOutput) (url : RelayUrl) : ConnectOutput :=
  let result : Except String Unit := match perAttempt with
    | some d => if s.overdue url then .error ("connect timed out after " ++ d) else s.connects url
    | none => s.connects url
  match result with
  | .ok () => { output with success := output.success.insert url }
  | .error e => { output with failed := output.failed.insert url e }

/-- `try_connect_inner`, behind `Client::connect` and `Client::try_connect`. -/
def tryConnectInner (perAttempt : Option String) (s : Surroundings) (c : Dialler D) : Dialler D × ConnectOutput :=
  let snapshot := (c.pool.relays.iter s.rank).map Prod.fst
  (snapshot.foldl (fun c url => c.dial url) c, snapshot.foldl (report perAttempt s) ⟨∅, ∅⟩)

/-- What `Client::connect_relay` and `Client::try_connect_relay` do before the one or the other waits. -/
def screened (url : RelayUrl) (result : Except ConnectError Unit) (c : Dialler D) :
    Dialler D × Except ConnectError Unit :=
  if url ∈ c.pool.relays then
    match checkAdmitConnection policy url with
    | .error e => (c, .error (.client e))
    | .ok () => (c.dial url, result)
  else (c, .error (.unknownRelay url))

/-- `Client::connect_relay`. -/
def connectRelay (s : Surroundings) (url : RelayUrl) (c : Dialler D) : Dialler D × Except ConnectError Unit :=
  c.screened policy url ((s.connects url).mapError .relay)

/-- `Client::try_connect_relay`. -/
def tryConnectRelay (s : Surroundings) (url : RelayUrl) (c : Dialler D) : Dialler D × Except ConnectError Unit :=
  c.screened policy url (if s.overdue url then .error (.connectTimeout url) else (s.connects url).mapError .relay)

/-- `ensure_gossip_relays`. -/
def ensure (relays : List RelayUrl) (c : Dialler D) : Dialler D :=
  let (pool, connected) := ensureGossipRelays policy c.pool relays
  { c with pool := pool, dialled := c.dialled ++ connected }

/-- `Client::send_event`. -/
def sendEvent (w : World) (event : Event) (c : Dialler D) : Dialler D × Except ClientError Output :=
  match c.gossip with
  | none => (c, (Gossip.sendEvent w c.pool event).lift.result)
  | some gossip =>
      match gossip.breakDownEvent urls event with
      | .relays relays =>
          let c := c.ensure policy (HashSet.iter relays w.ensured)
          (c, (sendEventTo w c.pool relays event).lift.result)
      | .orphan true => (c, .error .privateMessageRelaysNotFound)
      | .orphan false => (c, (Gossip.sendEvent w c.pool event).lift.result)

/-- What `gossip_stream_events` and `gossip_subscribe` do before they open the parts of a filter. -/
def route (rank : RelayUrl → Nat) (filter : Filter) (c : Dialler D) : Dialler D :=
  match c.gossip with
  | none => c
  | some gossip =>
      match gossip.breakDown urls filter with
      | .perRelay parts => c.ensure policy ((parts.iter rank).map Prod.fst)
      | .orphan _ | .generic _ => c

/-- One call. The router learns only where there is one. -/
def step (c : Dialler D) : ClientCall D × Surroundings → Dialler D
  | (.addRelayWithCapabilities url capabilities, _) => (c.addRelayWithCapabilities policy url capabilities).1
  | (.addRelayWithOptions url capabilities options, _) => (c.addRelayWithOptions policy url capabilities options).1
  | (.removeRelay url, _) => (c.removeRelay url).1
  | (.connect, s) => (c.tryConnectInner none s).1
  | (.tryConnect perRelayTimeout, s) => (c.tryConnectInner (some perRelayTimeout) s).1
  | (.connectRelay url, s) => (c.connectRelay policy s url).1
  | (.tryConnectRelay url, s) => (c.tryConnectRelay policy s url).1
  | (.sendEvent event, s) => (c.sendEvent urls policy s.world event).1
  -- no id could be made up
  | (.subscribe (.error _) _, _) => c
  | (.subscribe (.ok _) filter, s) => c.route urls policy s.rank filter
  | (.subscribeWithId _ filter, s) => c.route urls policy s.rank filter
  | (.streamEvents filter, s) => c.route urls policy s.rank filter
  | (.fetchEvents filter, s) => c.route urls policy s.rank filter
  | (.learn gossip, _) => { c with gossip := c.gossip.map (fun _ => gossip) }

/-- The client after some calls. -/
def run (c : Dialler D) (calls : List (ClientCall D × Surroundings)) : Dialler D := calls.foldl (step urls policy) c

end Dialler

/-! ## Verdicts -/

/-- The policy vetoes the relay; without a policy nothing is vetoed. -/
def vetoes (verdict : AdmitPolicy → RelayUrl → Except String AdmitStatus) (policy : Option AdmitPolicy)
    (url : RelayUrl) : Bool :=
  match policy.map (fun p => verdict p url) with
  | some (.ok (.rejected _)) => true
  | _ => false

theorem not_vetoes_of_checkAdmit {verdict : AdmitPolicy → RelayUrl → Except String AdmitStatus}
    {policy : Option AdmitPolicy} {url : RelayUrl} {stage : String}
    (h : checkAdmit stage (policy.map (fun p => verdict p url)) = .ok ()) : vetoes verdict policy url = false := by
  unfold vetoes
  unfold checkAdmit at h
  split at h
  · rename_i hnone
    rw [hnone]
  · cases h
  · rename_i hsuccess
    rw [hsuccess]
  · cases h

namespace Dialler

variable {urls : UrlCrate} {policy : Option AdmitPolicy} {D : Type} {c : Dialler D}

/-- No relay in the pool was vetoed for it, and none that was dialled was vetoed for that. -/
structure Admitted (policy : Option AdmitPolicy) (c : Dialler D) : Prop where
  registered : ∀ url ∈ c.pool.relays, vetoes AdmitPolicy.admitRelay policy url = false
  dialled : ∀ url ∈ c.dialled, vetoes AdmitPolicy.admitConnection policy url = false

/-- A bulk connect finds no relay in the pool that must not be dialled. -/
def Screens (policy : Option AdmitPolicy) (c : Dialler D) : ClientCall D × Surroundings → Prop
  | (.connect, _) | (.tryConnect _, _) =>
      ∀ url ∈ c.pool.relays, vetoes AdmitPolicy.admitConnection policy url = false
  | _ => True

/-! ## What each call keeps -/

/-- A pool with one relay more, which the policy has let in. -/
theorem Admitted.register (h : c.Admitted policy) {pool : RelayPool} {url : RelayUrl}
    (hallowed : checkAdmitRelay policy url = .ok ())
    (hpool : ∀ r ∈ pool.relays, r = url ∨ r ∈ c.pool.relays) : Admitted policy { c with pool := pool } where
  registered r hr := by
    rcases hpool r hr with rfl | hold
    · exact not_vetoes_of_checkAdmit hallowed
    · exact h.registered r hold
  dialled := h.dialled

/-- A connection more, which the policy has let through. -/
theorem Admitted.dial (h : c.Admitted policy) {url : RelayUrl}
    (hallowed : vetoes AdmitPolicy.admitConnection policy url = false) : (c.dial url).Admitted policy where
  registered := h.registered
  dialled r hr := by
    rcases List.mem_append.mp hr with hold | hnew
    · exact h.dialled r hold
    · rw [List.mem_singleton.mp hnew]
      exact hallowed

/-- What a relay that is put under the lock adds to the pool. -/
theorem mem_insertRelay {p : RelayPool} {url r : RelayUrl} {capabilities : RelayCapabilities}
    {options : Relay.RelayOptions} (h : r ∈ (p.insertRelay url capabilities options).1.relays) :
    r = url ∨ r ∈ p.relays := by
  have hinsert : ∀ entry, r ∈ p.relays.insert url entry → r = url ∨ r ∈ p.relays := by
    intro entry hr
    rcases ExtTreeMap.mem_insert.mp hr with heq | hold
    · exact Or.inl (Std.LawfulEqCmp.eq_of_compare heq).symm
    · exact Or.inr hold
  unfold RelayPool.insertRelay at h
  split at h
  · exact hinsert _ h
  · split at h
    · exact Or.inr h
    · exact hinsert _ h

theorem Admitted.addRelay (h : c.Admitted policy) (url : RelayUrl) (capabilities : RelayCapabilities)
    (options : Relay.RelayOptions) : (c.addRelayWithOptions policy url capabilities options).1.Admitted policy := by
  rw [addRelayWithOptions]
  split
  · exact h
  · rename_i hallowed
    split
    · exact h
    · exact h.register hallowed (fun r hr => mem_insertRelay hr)

theorem Admitted.removeRelay (h : c.Admitted policy) (url : RelayUrl) : (c.removeRelay url).1.Admitted policy := by
  rw [Dialler.removeRelay]
  split
  · exact ⟨fun r hr => h.registered r (ExtTreeMap.mem_of_mem_erase hr), h.dialled⟩
  · exact h

theorem Admitted.screened (h : c.Admitted policy) (url : RelayUrl) (result : Except ConnectError Unit) :
    (c.screened policy url result).1.Admitted policy := by
  rw [Dialler.screened]
  split
  · split
    · exact h
    · rename_i hallowed
      exact h.dial (not_vetoes_of_checkAdmit hallowed)
  · exact h

/-- One relay of a route: what is added was admitted, and what is dialled was admitted for that. The relay was there,
    or went through both checks; the connection is asked for only behind the second. -/
theorem ensureGossipRelay_admits {policy : Option AdmitPolicy} {s : RelayPool × List RelayUrl} {url : RelayUrl}
    (hpool : ∀ r ∈ s.1.relays, vetoes AdmitPolicy.admitRelay policy r = false)
    (hdialled : ∀ r ∈ s.2, vetoes AdmitPolicy.admitConnection policy r = false) :
    (∀ r ∈ (ensureGossipRelay policy s url).1.relays, vetoes AdmitPolicy.admitRelay policy r = false) ∧
    (∀ r ∈ (ensureGossipRelay policy s url).2, vetoes AdmitPolicy.admitConnection policy r = false) := by
  constructor
  · intro r hr
    rcases ensureGossipRelay_cases policy s url with ⟨_, haddable, hadded⟩ | ⟨_, hsame⟩
    · rcases (hadded.mem_iff r).mp hr with rfl | hold
      · exact not_vetoes_of_checkAdmit haddable.admitted
      · exact hpool r hold
    · rw [hsame] at hr
      exact hpool r hr
  · intro r hr
    unfold ensureGossipRelay at hr
    split at hr
    · exact hdialled r hr
    · split at hr
      · exact hdialled r hr
      · split at hr
        · exact hdialled r hr
        · split at hr
          · exact hdialled r hr
          · rename_i hallowed
            split at hr
            · rcases List.mem_append.mp hr with hold | hnew
              · exact hdialled r hold
              · rw [List.mem_singleton.mp hnew]
                exact not_vetoes_of_checkAdmit hallowed
            · exact hdialled r hr

/-- Relays that the router wants are let in one by one. -/
theorem Admitted.ensure (h : c.Admitted policy) (relays : List RelayUrl) :
    (c.ensure policy relays).Admitted policy := by
  have hfold : (∀ r ∈ (ensureGossipRelays policy c.pool relays).1.relays,
        vetoes AdmitPolicy.admitRelay policy r = false) ∧
      (∀ r ∈ (ensureGossipRelays policy c.pool relays).2,
        vetoes AdmitPolicy.admitConnection policy r = false) := by
    refine Buckets.foldl_keeps (P := fun s : RelayPool × List RelayUrl =>
      (∀ r ∈ s.1.relays, vetoes AdmitPolicy.admitRelay policy r = false) ∧
      (∀ r ∈ s.2, vetoes AdmitPolicy.admitConnection policy r = false))
      (fun s url hs => ensureGossipRelay_admits hs.1 hs.2) relays ⟨h.registered, ?_⟩
    exact fun r hr => absurd hr List.not_mem_nil
  refine ⟨hfold.1, fun r hr => ?_⟩
  rcases List.mem_append.mp hr with hold | hnew
  · exact h.dialled r hold
  · exact hfold.2 r hnew

theorem Admitted.sendEvent (h : c.Admitted policy) (w : World) (event : Event) :
    (c.sendEvent urls policy w event).1.Admitted policy := by
  rw [Dialler.sendEvent]
  split
  · exact h
  · split
    · exact h.ensure _
    · exact h
    · exact h

theorem Admitted.route (h : c.Admitted policy) (rank : RelayUrl → Nat) (filter : Filter) :
    (c.route urls policy rank filter).Admitted policy := by
  rw [Dialler.route]
  split
  · exact h
  · split
    · exact h.ensure _
    · exact h
    · exact h

theorem mem_snapshot {p : RelayPool} {rank : RelayUrl → Nat} {url : RelayUrl} :
    url ∈ (p.relays.iter rank).map Prod.fst ↔ url ∈ p.relays := by
  rw [List.mem_map]
  constructor
  · rintro ⟨⟨k, entry⟩, hmem, rfl⟩
    exact ExtTreeMap.mem_iff_isSome_getElem?.mpr (Option.isSome_of_eq_some (HashMap.mem_iter.mp hmem))
  · intro h
    exact ⟨(url, p.relays[url]), HashMap.mem_iter.mpr (ExtTreeMap.getElem?_eq_some_getElem h), rfl⟩

/-- A bulk connect dials what is in the pool. -/
theorem dialAll (relays : List RelayUrl) (c : Dialler D) :
    relays.foldl (fun c url => c.dial url) c = { c with dialled := c.dialled ++ relays } := by
  induction relays generalizing c with
  | nil => rw [List.append_nil]; rfl
  | cons url rest ih => rw [List.foldl_cons, ih, dial, List.append_assoc]; rfl

/-- **`try_connect` keeps to the policy exactly if no relay of the pool is vetoed**: it dials them all, and asks
    nobody. -/
theorem tryConnectInner_admitted_iff (h : c.Admitted policy) (perAttempt : Option String) (s : Surroundings) :
    (c.tryConnectInner perAttempt s).1.Admitted policy ↔
      ∀ url ∈ c.pool.relays, vetoes AdmitPolicy.admitConnection policy url = false := by
  rw [tryConnectInner, dialAll]
  constructor
  · intro hafter url hurl
    exact hafter.dialled url (List.mem_append_right _ (mem_snapshot.mpr hurl))
  · intro hall
    refine ⟨h.registered, fun r hr => ?_⟩
    rcases List.mem_append.mp hr with hold | hnew
    · exact h.dialled r hold
    · exact hall r (mem_snapshot.mp hnew)

/-- **One call.** It keeps to the policy unless it is a bulk connect over a relay that must not be dialled. -/
theorem admitted_step_iff (h : c.Admitted policy) (call : ClientCall D × Surroundings) :
    (c.step urls policy call).Admitted policy ↔ c.Screens policy call := by
  obtain ⟨call, s⟩ := call
  cases call with
  | connect => exact tryConnectInner_admitted_iff h none s
  | tryConnect perRelayTimeout => exact tryConnectInner_admitted_iff h (some perRelayTimeout) s
  | addRelayWithCapabilities url capabilities => exact iff_of_true (h.addRelay url _ _) trivial
  | addRelayWithOptions url capabilities options => exact iff_of_true (h.addRelay url _ _) trivial
  | removeRelay url => exact iff_of_true (h.removeRelay url) trivial
  | connectRelay url => exact iff_of_true (h.screened url _) trivial
  | tryConnectRelay url => exact iff_of_true (h.screened url _) trivial
  | sendEvent event => exact iff_of_true (h.sendEvent s.world event) trivial
  | subscribe generated filter =>
      cases generated with
      | error e => exact iff_of_true h trivial
      | ok id => exact iff_of_true (h.route s.rank filter) trivial
  | subscribeWithId id filter => exact iff_of_true (h.route s.rank filter) trivial
  | streamEvents filter => exact iff_of_true (h.route s.rank filter) trivial
  | fetchEvents filter => exact iff_of_true (h.route s.rank filter) trivial
  | learn gossip => exact iff_of_true ⟨h.registered, h.dialled⟩ trivial

theorem run_append_singleton (c : Dialler D) (past : List (ClientCall D × Surroundings))
    (call : ClientCall D × Surroundings) :
    c.run urls policy (past ++ [call]) = (c.run urls policy past).step urls policy call := by
  rw [run, run, List.foldl_append]
  rfl

/-! ## Main result -/

/-- **A vetoed relay is never registered, and never dialled** exactly in the runs whose bulk connects find no relay
    in the pool that is vetoed for dialling.

    Every call but a bulk connect asks the policy for each relay it registers or dials; one step keeps what was
    admitted exactly if it screens (`admitted_step_iff`). -/
theorem admitted_iff (urls : UrlCrate) (policy : Option AdmitPolicy) (options : Pool.RelayPoolOptions)
    (gossip : Option (Inner D)) (calls : List (ClientCall D × Surroundings)) :
    Always (fun past => ((new options gossip).run urls policy past).Admitted policy) calls ↔
      EachStep (fun past call => ((new options gossip).run urls policy past).Screens policy call) calls := by
  refine always_iff_eachStep (I := fun _ => True) (fun _ => trivial) ?_ ?_
  · exact ⟨fun url hurl => absurd hurl ExtTreeMap.not_mem_empty, fun url hurl => absurd hurl List.not_mem_nil⟩
  · intro past call _ h
    rw [run_append_singleton]
    exact admitted_step_iff h call

end Dialler

namespace Sample

open Gossip.Sample

/-- Every relay may be registered, and the first must not be dialled. -/
def quarantine : AdmitPolicy where
  admitRelay _ := .ok .success
  admitConnection url := if url = one then .ok (.rejected (some "quarantined")) else .ok .success
  admitEvent _ _ _ := .ok .success

/-- Orders do not matter, and nothing fails. -/
def calmly : Surroundings := ⟨Gossip.Sample.world, fun _ => 0, fun _ => .ok (), fun _ => false⟩

end Sample

namespace Dialler

/-- A relay under quarantine is registered, and a bulk connect dials it. -/
theorem quarantine_dialled : ¬ Always (fun past =>
      ((new .default (none : Option (Inner Unit))).run Gossip.Sample.urlCrate (some Sample.quarantine) past).Admitted
        (some Sample.quarantine))
    [(.addRelayWithCapabilities Gossip.Sample.one .default, Sample.calmly), (.connect, Sample.calmly)] := by
  intro h
  have hadmitted := h.last.dialled Gossip.Sample.one (by decide +kernel)
  exact absurd hadmitted (by decide +kernel)

end Dialler

end Nula.Sdk
