import Nula.Core.Nips
import Nula.Relay.Actor

/-!
# `Pool.Registry` — which relays a pool holds

`RelayPool::add_relay`, `remove_relay` and `shutdown` (`pool/handle.rs`, `pool/inner.rs`) as tasks that run
from one await point to the next. The write guard of the relay map is never held across an await, so what
happens under it is one step; between the steps of a call any other task may run, and a schedule says which
does. `add_relay` reads the shutdown flag in the step before the one that takes the lock.
-/

namespace Nula.Pool

open Std

/-! ## What is in the map -/

/-- `RelayCapabilities`: bit flags. -/
structure RelayCapabilities where
  bits : BitVec 8
  deriving DecidableEq

namespace RelayCapabilities

def read : RelayCapabilities := ⟨1⟩

def write : RelayCapabilities := ⟨2⟩

def discovery : RelayCapabilities := ⟨4⟩

def gossip : RelayCapabilities := ⟨8⟩

/-- `AtomicRelayCapabilities::add`. -/
def add (c other : RelayCapabilities) : RelayCapabilities := ⟨c.bits ||| other.bits⟩

/-- `has_any`. -/
def hasAny (c other : RelayCapabilities) : Bool := c.bits &&& other.bits != 0

/-- `RelayCapabilities::default`. -/
def default : RelayCapabilities := read.add write

end RelayCapabilities

/-- `RelayEntry`; of its `Relay` only the options it was built with. -/
structure RelayEntry where
  options : Relay.RelayOptions
  capabilities : RelayCapabilities

/-- What the pool's own operations fail with. -/
inductive PoolError where
  | shutdown
  | relayNotFound (url : RelayUrl)
  | tooManyRelays (limit : Nat)
  | noRelaysSpecified
  deriving DecidableEq

/-- `Display` of `Error`. -/
def PoolError.text : PoolError → String
  | .shutdown => "relay pool has been shut down"
  | .relayNotFound url => "relay '" ++ url.asStr ++ "' not found in pool"
  | .tooManyRelays limit => "relay pool is full: limit " ++ toString limit
  | .noRelaysSpecified => "no relays specified for fan-out operation"

/-- What the pool itself puts on its notification channel. -/
inductive PoolNotification where
  | relayAdded (url : RelayUrl)
  | relayRemoved (url : RelayUrl)
  | shutdown
  deriving DecidableEq

/-- `RelayPoolOptions`, without the size of the notification channel. -/
structure RelayPoolOptions where
  maxRelays : Option ℕ+
  dedupCacheSize : ℕ+
  autoSaveEvents : Bool
  relayOptions : Relay.RelayOptions

/-- `RelayPoolOptions::default`. -/
def RelayPoolOptions.default : RelayPoolOptions := ⟨none, 100000, true, .default⟩

/-- `Inner`. -/
structure RelayPool where
  options : RelayPoolOptions
  relays : HashMap RelayUrl RelayEntry
  shutdown : Bool
  /-- What was sent on `notification_tx`, oldest first. -/
  notifications : List PoolNotification

namespace RelayPool

/-- `Inner::new`. -/
def new (options : RelayPoolOptions) : RelayPool := ⟨options, ∅, false, []⟩

/-- Send a notification; without a receiver it is lost. -/
def notify (n : PoolNotification) (p : RelayPool) : RelayPool := { p with notifications := p.notifications ++ [n] }

/-- The cap is reached; what `TooManyRelays` says. -/
def full (p : RelayPool) : Option Nat :=
  match p.options.maxRelays with
  | some max => if max ≤ p.relays.size then some max else none
  | none => none

/-- `add_relay_with_options` under the write lock. -/
def insertRelay (url : RelayUrl) (capabilities : RelayCapabilities) (options : Relay.RelayOptions)
    (p : RelayPool) : RelayPool × Except PoolError Bool :=
  match p.relays[url]? with
  | some entry =>
      -- a relay that is known gains the capabilities and keeps its options
      let entry := { entry with capabilities := entry.capabilities.add capabilities }
      ({ p with relays := p.relays.insert url entry }, .ok false)
  | none =>
  match p.full with
  | some limit => (p, .error (.tooManyRelays limit))
  | none =>
      let p := { p with relays := p.relays.insert url ⟨options, capabilities⟩ }
      (p.notify (.relayAdded url), .ok true)

/-- `add_relay` with nothing else running. -/
def addRelay (url : RelayUrl) (capabilities : RelayCapabilities) (p : RelayPool) : RelayPool × Except PoolError Bool :=
  if p.shutdown then (p, .error .shutdown) else p.insertRelay url capabilities p.options.relayOptions

/-- `mark_shutdown`. -/
def markShutdown (p : RelayPool) : RelayPool :=
  if p.shutdown then p else ({ p with shutdown := true } : RelayPool).notify .shutdown

end RelayPool

/-! ## Calls and their steps -/

/-- A call of the pool's interface. -/
inductive Call where
  | addRelay (url : RelayUrl) (capabilities : RelayCapabilities)
  | addRelayWithOptions (url : RelayUrl) (capabilities : RelayCapabilities) (options : Relay.RelayOptions)
  | removeRelay (url : RelayUrl)
  | shutdown

/-- The await point a call is at. -/
inductive Await where
  /-- `add_relay_with_options`, past the check of the flag, at the write lock. -/
  | insert (url : RelayUrl) (capabilities : RelayCapabilities) (options : Relay.RelayOptions)
  /-- `remove_relay` at the write lock. -/
  | remove (url : RelayUrl)
  /-- `remove_relay` at the disconnect. -/
  | removed (url : RelayUrl)
  /-- `drain_relays` at the write lock. -/
  | drain
  /-- `drain_relays` at the disconnect of a relay, with more to follow. -/
  | drained (url : RelayUrl) (more : List RelayUrl)

/-- What a call returns. -/
inductive Return where
  | addRelay (result : Except PoolError Bool)
  | removeRelay (result : Except PoolError Unit)
  | shutdown

/-- A step ends at an await point or with a value. -/
inductive Outcome where
  | await (point : Await)
  | done (value : Return)

namespace RelayPool

/-- `add_relay_with_options` up to the write lock. -/
def addRelayWithOptions (url : RelayUrl) (capabilities : RelayCapabilities) (options : Relay.RelayOptions)
    (p : RelayPool) : RelayPool × Outcome :=
  if p.shutdown then (p, .done (.addRelay (.error .shutdown)))
  else (p, .await (.insert url capabilities options))

/-- The first step of a call. -/
def call (p : RelayPool) : Call → RelayPool × Outcome
  | .addRelay url capabilities => p.addRelayWithOptions url capabilities p.options.relayOptions
  | .addRelayWithOptions url capabilities options => p.addRelayWithOptions url capabilities options
  | .removeRelay url => (p, .await (.remove url))
  | .shutdown => (p.markShutdown, .await .drain)

/-- The loop of `drain_relays`, from one disconnect to the next. -/
def disconnectNext (p : RelayPool) : List RelayUrl → RelayPool × Outcome
  | [] => (p, .done .shutdown)
  | url :: more => (p, .await (.drained url more))

/-- The step behind an await point; the map is drained in the order its hasher gives. -/
def resume (rank : RelayUrl → Nat) (p : RelayPool) : Await → RelayPool × Outcome
  | .insert url capabilities options =>
      let (p, result) := p.insertRelay url capabilities options
      (p, .done (.addRelay result))
  | .remove url =>
      -- the check is made under the lock
      if url ∈ p.relays then ({ p with relays := p.relays.erase url }, .await (.removed url))
      else (p, .done (.removeRelay (.error (.relayNotFound url))))
  | .removed url => (p.notify (.relayRemoved url), .done (.removeRelay (.ok ())))
  | .drain =>
      let urls := (p.relays.iter rank).map Prod.fst
      ({ p with relays := ∅ } : RelayPool).disconnectNext urls
  | .drained url more => (p.notify (.relayRemoved url)).disconnectNext more

end RelayPool

/-! ## Tasks -/

/-- The pool with the calls that are under way and the values returned so far. -/
structure Tasks where
  pool : RelayPool
  waiting : List Await
  returned : List Return

/-- What runs next. -/
inductive Turn where
  | call (c : Call)
  | resume (k : Nat) (rank : RelayUrl → Nat)

namespace Tasks

/-- A pool that nobody has called. -/
def new (options : RelayPoolOptions) : Tasks := ⟨.new options, [], []⟩

/-- The end of a step. -/
def settle (waiting : List Await) (s : Tasks) : RelayPool × Outcome → Tasks
  | (pool, .await point) => { s with pool := pool, waiting := waiting ++ [point] }
  | (pool, .done value) => { pool := pool, waiting := waiting, returned := s.returned ++ [value] }

/-- One step of one task. -/
def step (s : Tasks) : Turn → Tasks
  | .call c => s.settle s.waiting (s.pool.call c)
  | .resume k rank =>
      match s.waiting[k]? with
      | some point => s.settle (s.waiting.eraseIdx k) (s.pool.resume rank point)
      | none => s

def run (options : RelayPoolOptions) (turns : List Turn) : Tasks := turns.foldl step (new options)

end Tasks

end Nula.Pool
