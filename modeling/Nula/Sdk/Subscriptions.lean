import Nula.Relay.Lasting
import Nula.Sdk.Sync

/-!
# `Sdk.Subscriptions` — the subscriptions a client lists

`Client::subscribe`, `subscribe_with_id`, `subscribe_to`, `unsubscribe` and `unsubscribe_all` (`nula/src/client.rs`,
`nula/src/gossip.rs`) over `RelayPool::subscribe_to` (`pool/handle.rs`) and the actors of the relays
(`Relay.Handles`). The pool asks all relays of a fan-out at once, waits for their answers and then drops the handles
they gave; the client afterwards takes the lock of its registry and writes down which relays carry the id. A call is
a task that runs from one await point to the next; between two of its steps the relays and all other tasks may run.
-/

namespace Nula.Sdk

open Std
open Pool (RelayPool RelayEntry PoolError)
open Relay (StaticCtx SubscribeOptions System)
open Gossip (AdmitPolicy ensureGossipRelays)

/-! ## Calls -/

/-- `SubscriptionRecord`, with the slots in which relays have answered its call. -/
structure SubscriptionRecord where
  relays : List RelayUrl
  filters : List Filter
  slots : HashMap RelayUrl Nat

/-- `Output<SubscriptionId>`. An error stands for its text, `none` for that of an actor that is gone. -/
structure Output where
  value : SubscriptionId
  success : HashSet RelayUrl
  failed : HashMap RelayUrl (Option Relay.Error)

/-- How far the future of one relay of a fan-out has got. -/
inductive Leg where
  | unsent
  | asked
  | answered (result : Except (Option Relay.Error) Nat)
  | dropped (slot : Nat)
  deriving DecidableEq

/-- Who chose the relays, and what the record will say for it. -/
inductive Selection where
  /-- `RelayPool::subscribe`: the relays that answered. -/
  | capable (filter : Filter)
  /-- `Client::subscribe_to`. -/
  | chosen (urls : List RelayUrl) (filter : Filter)
  /-- `gossip_subscribe`: the relays asked so far, with what each was asked. -/
  | routed (relays : List RelayUrl) (filters : List Filter)

/-- Where a call waits. -/
inductive Stage where
  /-- In a fan-out. -/
  | asking
  /-- At the lock of the registry. -/
  | storing
  | done
  | failed (e : Error)
  /-- The future was dropped. -/
  | cancelled

/-- A call that subscribes; `more` are the relays whose fan-outs follow. -/
structure Subscribing where
  options : SubscribeOptions
  selection : Selection
  filters : List Filter
  legs : List (RelayUrl × Leg)
  more : List (RelayUrl × Filter)
  output : Output
  slots : HashMap RelayUrl Nat
  stage : Stage

/-- The futures that `subscribe_to` starts with. -/
def fanOut (pool : RelayPool) (rank : RelayUrl → Nat) (urls : HashSet RelayUrl) :
    Except PoolError (List (RelayUrl × Leg)) :=
  if urls.isEmpty then .error .noRelaysSpecified
  else (Gossip.queuePublishes pool.relays (HashSet.iter urls rank)).map (fun urls =>
    urls.map (fun url => (url, .unsent)))

namespace Subscribing

/-- A call before its first fan-out. -/
def new (id : SubscriptionId) (options : SubscribeOptions) (selection : Selection) : Subscribing :=
  ⟨options, selection, [], [], [], ⟨id, ∅, ∅⟩, ∅, .asking⟩

/-- The id of a call is what it will return. -/
def id (call : Subscribing) : SubscriptionId := call.output.value

/-- A call of one fan-out. -/
def once (pool : RelayPool) (rank : RelayUrl → Nat) (urls : HashSet RelayUrl) (filter : Filter) (call : Subscribing) :
    Subscribing :=
  match fanOut pool rank urls with
  | .error e => { call with stage := .failed (.client (.pool e)) }
  | .ok legs => { call with filters := [filter], legs := legs }

/-- The answer of one relay, when all of them are there. -/
def report (call : Subscribing) : RelayUrl × Leg → Subscribing
  | (url, .dropped slot) => { call with
      output := { call.output with success := call.output.success.insert url }
      slots := call.slots.insert url slot }
  | (url, .answered (.error e)) =>
      { call with output := { call.output with failed := call.output.failed.insert url e } }
  | _ => call

/-- What `gossip_subscribe` notes of a fan-out. -/
def note (call : Subscribing) : Subscribing :=
  match call.selection with
  | .routed relays filters =>
      { call with selection := .routed (relays ++ call.legs.map Prod.fst) (filters ++ call.filters) }
  | _ => call

/-- On to the next fan-out. One that fails, because the pool does not hold the relay, is passed over. -/
def next (pool : RelayPool) (call : Subscribing) : Subscribing :=
  match call.more.dropWhile (fun part => part.1 ∉ pool.relays) with
  | (url, narrowed) :: more => { call with filters := [narrowed], legs := [(url, .unsent)], more := more }
  | [] => { call with
      legs := []
      more := []
      stage := if call.output.success.isEmpty then .done else .storing }

/-- The end of a fan-out. -/
def finish (pool : RelayPool) (call : Subscribing) : Subscribing := ((call.legs.foldl report call).note).next pool

/-- What is written down. -/
def record (call : Subscribing) : SubscriptionRecord :=
  match call.selection with
  | .capable filter => ⟨call.output.success.toList, [filter], call.slots⟩
  | .chosen urls filter => ⟨urls, [filter], call.slots⟩
  | .routed relays filters => ⟨relays, filters, call.slots⟩

/-- The call is at the lock of the registry. -/
def storing (call : Subscribing) : Bool :=
  match call.stage with
  | .storing => true
  | _ => false

/-- The leg of this relay goes from one state to the next. -/
def move (url : RelayUrl) (next : Leg → Leg) (call : Subscribing) : Subscribing :=
  { call with legs := call.legs.map (fun leg => if leg.1 = url then (leg.1, next leg.2) else leg) }

/-- The leg of this relay. -/
def leg (url : RelayUrl) (call : Subscribing) : Option Leg :=
  (call.legs.find? (fun leg => leg.1 = url)).map Prod.snd

/-- Every relay of the fan-out has answered. -/
def answered (call : Subscribing) : Bool :=
  call.legs.all (fun leg => match leg.2 with
    | .answered _ | .dropped _ => true
    | _ => false)

/-- Every handle of the fan-out is dropped. -/
def settled (call : Subscribing) : Bool :=
  call.legs.all (fun leg => match leg.2 with
    | .answered (.error _) | .dropped _ => true
    | _ => false)

/-- The handle of this slot is in the hands of the call. -/
def owns (url : RelayUrl) (slot : Nat) (call : Subscribing) : Bool :=
  match call.stage with
  | .asking => call.legs.any (fun leg => leg.1 = url && leg.2 = .answered (.ok slot))
  | _ => false

end Subscribing

/-! ## The client and its relays -/

/-- A relay: its actor with the channels, and for each command which call waits for the answer. -/
structure Link where
  system : System
  callers : List (Option Nat)

/-- `Relay`, as the pool builds it. -/
def Link.new : Link := ⟨.new, []⟩

/-- `InnerClient`, as far as subscriptions go, with the relays of its pool and its calls in the order they came. -/
structure InnerClient (D : Type) where
  pool : RelayPool
  links : HashMap RelayUrl Link
  admitPolicy : Option AdmitPolicy
  gossip : Option (Gossip.Inner D)
  subscriptions : HashMap SubscriptionId SubscriptionRecord
  calls : List Subscribing

/-- What happens next. -/
inductive Action (D : Type) where
  /-- A call begins; the rank gives the order of hash maps. -/
  | subscribe (rank : RelayUrl → Nat) (generated : Except String SubscriptionId) (filter : Filter)
      (options : SubscribeOptions)
  | subscribeWithId (rank : RelayUrl → Nat) (id : SubscriptionId) (filter : Filter) (options : SubscribeOptions)
  | subscribeTo (rank : RelayUrl → Nat) (generated : Except String SubscriptionId) (urls : List RelayUrl)
      (filter : Filter) (options : SubscribeOptions)
  | unsubscribe (id : SubscriptionId)
  /-- A call puts its command on the channel of the relay. -/
  | send (k : Nat) (url : RelayUrl)
  /-- A call drops the handle the relay gave it. -/
  | drop (k : Nat) (url : RelayUrl)
  /-- A call goes on after a fan-out. -/
  | advance (k : Nat)
  /-- A call takes the lock of the registry. -/
  | store (k : Nat)
  | cancel (k : Nat)
  | addRelay (url : RelayUrl) (capabilities : Pool.RelayCapabilities)
  /-- The router has learnt something. -/
  | learn (gossip : Gossip.Inner D)
  /-- The actor of the relay serves its next wakeup, or somebody else uses the relay. -/
  | relay (url : RelayUrl) (action : Relay.Action)

namespace InnerClient

variable (urls : UrlCrate) (ctx : RelayUrl → StaticCtx) {D : Type}

/-- A client without subscriptions. -/
def new (pool : RelayPool) (admitPolicy : Option AdmitPolicy) (gossip : Option (Gossip.Inner D)) : InnerClient D :=
  ⟨pool, ∅, admitPolicy, gossip, ∅, []⟩

/-- A relay nobody has used so far is new. -/
def link (url : RelayUrl) (c : InnerClient D) : Link := c.links.getD url .new

/-- What a link has become. -/
def setLink (url : RelayUrl) (l : Link) (c : InnerClient D) : InnerClient D := { c with links := c.links.insert url l }

/-- What a call has become. -/
def setCall (k : Nat) (call : Subscribing) (c : InnerClient D) : InnerClient D :=
  { c with calls := c.calls.set k call }

/-- The command goes to the relay. -/
def issue (caller : Option Nat) (cmd : Relay.Command) (c : InnerClient D) (url : RelayUrl) : InnerClient D :=
  c.setLink url ⟨(c.link url).system.step (ctx url) (.issue cmd), (c.link url).callers ++ [caller]⟩

def begin (call : Subscribing) (c : InnerClient D) : InnerClient D := { c with calls := c.calls ++ [call] }

/-- `relays_with_any_capability(READ)`. -/
def readable (c : InnerClient D) : HashSet RelayUrl :=
  (c.pool.relays.filter (fun _ entry => entry.capabilities.hasAny .read)).keys.foldl (fun set url => set.insert url) ∅

/-- `gossip_subscribe`, where the filter falls into parts. The connects of `ensure_gossip_relays` are on their
    channels before anything that follows. -/
def subscribeRouted (rank : RelayUrl → Nat) (parts : HashMap RelayUrl Filter) (id : SubscriptionId)
    (options : SubscribeOptions) (c : InnerClient D) : InnerClient D :=
  let parts := parts.iter rank
  let (pool, connecting) := ensureGossipRelays c.admitPolicy c.pool (parts.map Prod.fst)
  let c := connecting.foldl (issue ctx none .connect) { c with pool := pool }
  c.begin (({ Subscribing.new id options (.routed [] []) with more := parts }).next pool)

/-- `RelayPool::subscribe` on behalf of a call. -/
def subscribePooled (rank : RelayUrl → Nat) (id : SubscriptionId) (filter : Filter) (options : SubscribeOptions)
    (c : InnerClient D) : InnerClient D :=
  c.begin ((Subscribing.new id options (.capable filter)).once c.pool rank c.readable filter)

/-- `Client::subscribe_with_id`, with or without `gossip_subscribe`. -/
def subscribeWithId (rank : RelayUrl → Nat) (id : SubscriptionId) (filter : Filter) (options : SubscribeOptions)
    (c : InnerClient D) : InnerClient D :=
  match c.gossip with
  | none => c.subscribePooled rank id filter options
  | some gossip =>
      match gossip.breakDown urls filter with
      | .perRelay parts => c.subscribeRouted ctx rank parts id options
      | .orphan _ | .generic _ => c.subscribePooled rank id filter options

/-- `Client::subscribe_to`. -/
def subscribeTo (rank : RelayUrl → Nat) (id : SubscriptionId) (urls : List RelayUrl) (filter : Filter)
    (options : SubscribeOptions) (c : InnerClient D) : InnerClient D :=
  c.begin ((Subscribing.new id options (.chosen urls filter)).once c.pool rank
    (urls.foldl (fun set url => set.insert url) ∅) filter)

/-- `Client::unsubscribe`, and the relays that are reported: `RelayPool::unsubscribe` names them all and tells none. -/
def unsubscribe (id : SubscriptionId) (c : InnerClient D) : InnerClient D × HashSet RelayUrl :=
  ({ c with subscriptions := c.subscriptions.erase id }, c.pool.relays.keys.foldl (fun set url => set.insert url) ∅)

/-- The future of one relay is polled for the first time. -/
def send (k : Nat) (url : RelayUrl) (c : InnerClient D) : InnerClient D :=
  match c.calls[k]? with
  | none => c
  | some call =>
      match call.stage, call.leg url with
      | .asking, some .unsent =>
          (c.issue ctx (some k) (.subscribe call.id call.filters call.options) url).setCall k
            (call.move url (fun _ => .asked))
      | _, _ => c

/-- The pool drops a handle, once all relays of the fan-out have answered. -/
def drop (k : Nat) (url : RelayUrl) (c : InnerClient D) : InnerClient D :=
  match c.calls[k]? with
  | none => c
  | some call =>
      match call.stage, call.answered, call.leg url with
      | .asking, true, some (.answered (.ok slot)) =>
          (c.setLink url { c.link url with
            system := (c.link url).system.step (ctx url) (.drop ⟨call.id, slot⟩) }).setCall k
              (call.move url (fun _ => .dropped slot))
      | _, _, _ => c

/-- The call goes on, once its fan-out has settled. -/
def advance (k : Nat) (c : InnerClient D) : InnerClient D :=
  match c.calls[k]? with
  | none => c
  | some call =>
      match call.stage, call.settled with
      | .asking, true => c.setCall k (call.finish c.pool)
      | _, _ => c

/-- The call gets the lock and writes its record. -/
def store (k : Nat) (c : InnerClient D) : InnerClient D :=
  match c.calls[k]? with
  | none => c
  | some call =>
      if call.storing then
        { c with subscriptions := c.subscriptions.insert call.id call.record }.setCall k { call with stage := .done }
      else c

/-- The future of the call is dropped. -/
def cancel (k : Nat) (c : InnerClient D) : InnerClient D :=
  match c.calls[k]? with
  | none => c
  | some call =>
      match call.stage with
      | .asking | .storing => c.setCall k { call with stage := .cancelled }
      | _ => c

/-- What the actor answers to a command that subscribes: the slot of the handle, or its error. -/
def answer (s : System) (ctx : StaticCtx) (cmd : Relay.Command) (env : Relay.Env) : Except (Option Relay.Error) Nat :=
  match s.grant ctx cmd env with
  | some handle => .ok handle.slot
  | none => .error ((s.actor.step ctx (.command cmd, env)).log.findSome? (fun x => match x.2 with
      | .reply slot (.error e) => if slot = s.actor.turn then some e else none
      | _ => none))

/-- The answer reaches its caller, if the future is still there. -/
def deliver (k : Nat) (url : RelayUrl) (result : Except (Option Relay.Error) Nat) (c : InnerClient D) : InnerClient D :=
  match c.calls[k]? with
  | none => c
  | some call =>
      match call.stage with
      | .asking => c.setCall k (call.move url (fun leg => if leg = .asked then .answered result else leg))
      | _ => c

/-- The actor of a relay serves a command. -/
def serveCommand (url : RelayUrl) (env : Relay.Env) (c : InnerClient D) : InnerClient D :=
  let l := c.link url
  let c := c.setLink url ⟨l.system.step (ctx url) (.serveCommand env), l.callers.tail⟩
  match l.system.commands, l.callers with
  | cmd :: _, some k :: _ => c.deliver k url (answer l.system (ctx url) cmd env)
  | _, _ => c

/-- A relay runs, or is used by somebody else, who has no hand on the handles of the calls. What a cancelled future
    held may be dropped or lost. -/
def useRelay (url : RelayUrl) (c : InnerClient D) : Relay.Action → InnerClient D
  | .issue cmd => c.issue ctx none cmd url
  | .serveCommand env => c.serveCommand ctx url env
  -- the handles of a call are its own to drop
  | .drop handle =>
      if c.calls.any (fun call => call.owns url handle.slot) then c
      else c.setLink url { c.link url with system := (c.link url).system.step (ctx url) (.drop handle) }
  | .lose handle =>
      if c.calls.any (fun call => call.owns url handle.slot) then c
      else c.setLink url { c.link url with system := (c.link url).system.step (ctx url) (.lose handle) }
  | .serveClose env => c.setLink url { c.link url with system := (c.link url).system.step (ctx url) (.serveClose env) }
  | .serveOther wakeup env =>
      c.setLink url { c.link url with system := (c.link url).system.step (ctx url) (.serveOther wakeup env) }

def step (c : InnerClient D) : Action D → InnerClient D
  | .subscribe _ (.error _) _ _ => c
  | .subscribe rank (.ok id) filter options => c.subscribeWithId urls ctx rank id filter options
  | .subscribeWithId rank id filter options => c.subscribeWithId urls ctx rank id filter options
  | .subscribeTo _ (.error _) _ _ _ => c
  | .subscribeTo rank (.ok id) chosen filter options => c.subscribeTo rank id chosen filter options
  | .unsubscribe id => (c.unsubscribe id).1
  | .send k url => c.send ctx k url
  | .drop k url => c.drop ctx k url
  | .advance k => c.advance k
  | .store k => c.store k
  | .cancel k => c.cancel k
  | .addRelay url capabilities => { c with pool := (c.pool.addRelay url capabilities).1 }
  | .learn gossip => { c with gossip := c.gossip.map (fun _ => gossip) }
  | .relay url action => c.useRelay ctx url action

def run (c : InnerClient D) (actions : List (Action D)) : InnerClient D := actions.foldl (step urls ctx) c

/-- `Client::unsubscribe_all`: these calls, one after the other. -/
def unsubscribeAll (c : InnerClient D) : List (Action D) := c.subscriptions.keys.map .unsubscribe

/-- Unsubscribing takes out the ids it is given. -/
theorem subscriptions_unsubscribes (ids : List SubscriptionId) (c : InnerClient D) (id : SubscriptionId) :
    (c.run urls ctx (ids.map .unsubscribe)).subscriptions[id]? = if id ∈ ids then none else c.subscriptions[id]? := by
  induction ids generalizing c with
  | nil => rfl
  | cons i rest ih =>
      have hrest := ih (c.unsubscribe i).1
      refine hrest.trans ?_
      by_cases hid : id ∈ rest
      · rw [if_pos hid, if_pos (List.mem_cons_of_mem i hid)]
      · rw [if_neg hid]
        change (c.subscriptions.erase i)[id]? = _
        rw [ExtTreeMap.getElem?_erase]
        by_cases heq : i = id
        · rw [if_pos (LawfulEqCmp.compare_eq_iff_eq.mpr heq), if_pos (heq ▸ List.mem_cons_self)]
        · rw [if_neg (fun h => heq (LawfulEqCmp.compare_eq_iff_eq.mp h)), if_neg]
          rintro (_ | ⟨_, hmem⟩)
          · exact heq rfl
          · exact hid hmem

/-- Where nothing comes in between, the registry is empty afterwards. -/
theorem unsubscribeAll_empties (c : InnerClient D) : (c.run urls ctx c.unsubscribeAll).subscriptions = ∅ := by
  refine ExtTreeMap.ext_getElem? (fun id => ?_)
  rw [unsubscribeAll, subscriptions_unsubscribes, ExtTreeMap.getElem?_empty]
  split
  · rfl
  next hnot =>
    rw [ExtTreeMap.mem_keys] at hnot
    exact ExtTreeMap.getElem?_eq_none hnot

end InnerClient

end Nula.Sdk
