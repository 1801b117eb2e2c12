import Nula.Core.Filter

/-!
# `Core.Message` — what clients and relays say to each other

Subscription ids (`message/subscription_id.rs`) and the two message families (`message/client.rs`,
`message/relay.rs`). A subscription id carries its bounds, so no message can name an invalid one.
-/

namespace Nula

open Std

/-! ## Subscription ids (`message/subscription_id.rs`) -/

namespace SubscriptionId

/-- `MAX_LENGTH`, in Unicode scalar values. -/
def maxLength : Nat := 64

end SubscriptionId

/-- `SubscriptionIdError`; the length is counted in characters. -/
inductive SubscriptionIdError where
  | empty
  | tooLong (chars : Nat)
  deriving DecidableEq, Repr

/-- Opaque subscription identifier. -/
structure SubscriptionId where
  text : String
  nonempty : text ≠ ""
  bounded : text.length ≤ SubscriptionId.maxLength
  deriving DecidableEq

namespace SubscriptionId

theorem text_injective : Function.Injective SubscriptionId.text := by
  rintro ⟨a, ha, ha'⟩ ⟨b, hb, hb'⟩ h
  cases h
  rfl

instance : Ord SubscriptionId := ⟨compareOn SubscriptionId.text⟩
instance : TransOrd SubscriptionId := inferInstanceAs (TransCmp (compareOn SubscriptionId.text))
instance : LawfulEqOrd SubscriptionId := lawfulEqCmp_compareOn text_injective

/-- `SubscriptionId::new`. -/
def new (value : String) : Except SubscriptionIdError SubscriptionId :=
  if h : value = "" then .error .empty
  else if hlen : value.length ≤ maxLength then .ok ⟨value, h, hlen⟩
  else .error (.tooLong value.length)

end SubscriptionId

/-! ## Client messages (`message/client.rs`) -/

deriving instance DecidableEq for IndexMap
deriving instance DecidableEq for Filter

/-- Messages sent from a client to a relay. -/
inductive ClientMessage where
  | event (event : Event)
  | req (subscriptionId : SubscriptionId) (filters : List Filter)
  | close (subscriptionId : SubscriptionId)
  | auth (event : Event)
  | count (subscriptionId : SubscriptionId) (filter : Filter)
  | negOpen (subscriptionId : SubscriptionId) (filter : Filter) (initialMessage : String)
  | negMsg (subscriptionId : SubscriptionId) (message : String)
  | negClose (subscriptionId : SubscriptionId)
  deriving DecidableEq

/-! ## Relay messages (`message/relay.rs`) -/

/-- Standardised reason prefixes of `OK` and `CLOSED`. -/
inductive MachineReadablePrefix where
  | duplicate
  | pow
  | blocked
  | rateLimited
  | invalid
  | error
  | restricted
  | mute
  | authRequired
  | paymentRequired
  deriving DecidableEq, Repr

/-- `MachineReadablePrefix::as_str`: without the trailing colon. -/
def MachineReadablePrefix.asStr : MachineReadablePrefix → String
  | .duplicate => "duplicate"
  | .pow => "pow"
  | .blocked => "blocked"
  | .rateLimited => "rate-limited"
  | .invalid => "invalid"
  | .error => "error"
  | .restricted => "restricted"
  | .mute => "mute"
  | .authRequired => "auth-required"
  | .paymentRequired => "payment-required"

/-- Messages sent from a relay to a client. -/
inductive RelayMessage where
  | event (subscriptionId : SubscriptionId) (event : Event)
  | ok (eventId : EventId) (accepted : Bool) (message : String)
  | endOfStoredEvents (subscriptionId : SubscriptionId)
  | closed (subscriptionId : SubscriptionId) (message : String)
  | notice (message : String)
  | auth (challenge : String)
  | count (subscriptionId : SubscriptionId) (count : UInt64)
  | negMsg (subscriptionId : SubscriptionId) (message : String)
  | negErr (subscriptionId : SubscriptionId) (message : String)
  deriving DecidableEq

/-- A subscription id the concrete cases use. -/
def Sample.subscription : SubscriptionId := ⟨"a", by decide +kernel, by decide +kernel⟩

end Nula
