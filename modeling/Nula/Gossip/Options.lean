import Nula.Core.IpAddr
import Nula.Core.Nips

/-!
# `Gossip.Options` — the caps of a routing table and the relays it allows

`GossipLimits` and `AllowedRelays` of `options.rs`. Whether a relay is local is read off its host, by the address
parsers of the standard library.
-/

namespace Nula.Gossip

/-! ## Caps -/

/-- `NonZeroU8`. -/
structure NonZeroU8 where
  get : UInt8
  nonzero : get ≠ 0
  deriving DecidableEq

/-- How many relays each bucket contributes. -/
structure GossipLimits where
  readRelaysPerUser : NonZeroU8
  writeRelaysPerUser : NonZeroU8
  hintRelaysPerUser : NonZeroU8
  mostReceivedPerUser : NonZeroU8
  dmRelaysPerUser : NonZeroU8

/-- `GossipLimits::default`. -/
def GossipLimits.default : GossipLimits where
  readRelaysPerUser := ⟨3, by decide⟩
  writeRelaysPerUser := ⟨3, by decide⟩
  hintRelaysPerUser := ⟨2, by decide⟩
  mostReceivedPerUser := ⟨2, by decide⟩
  dmRelaysPerUser := ⟨3, by decide⟩

/-! ## The relays a table allows -/

/-- `AllowedRelays`. -/
structure AllowedRelays where
  onion : Bool
  «local» : Bool
  insecure : Bool
  deriving DecidableEq

/-- `AllowedRelays::default`. -/
def AllowedRelays.default : AllowedRelays := ⟨true, false, true⟩

/-- `is_local_addr`, of the host. -/
def isLocalHost (host : String) : Bool :=
  if host = "localhost" then true
  else match Ipv4Addr.parse host with
    | some ipv4 => ipv4.isLoopback || ipv4.isPrivate
    | none =>
        match Ipv6Addr.parse host with
        | some ipv6 => ipv6.isLoopback || (ipv6.segments.headD 0 &&& 0xfe00) == 0xfc00
        | none => false

example : isLocalHost "172.31.0.7" ∧ isLocalHost "fd00::7" ∧ isLocalHost "::1" := by decide
example : ¬ isLocalHost "172.32.0.7" ∧ ¬ isLocalHost "010.0.0.1" ∧ ¬ isLocalHost "[::1]" := by decide

variable (urls : UrlCrate)

/-- `is_local_addr`. -/
def isLocalAddr (url : RelayUrl) : Bool := isLocalHost (url.host urls)

/-- `AllowedRelays::is_allowed`. -/
def AllowedRelays.isAllowed (policy : AllowedRelays) (url : RelayUrl) : Bool :=
  if !policy.onion && url.isOnion urls then false
  else if !policy.local && isLocalAddr urls url then false
  else if !policy.insecure && !url.isSecure urls then false
  else true

/-- `GossipOptions`, without the knobs of the background refresher. -/
structure GossipOptions where
  /-- In whole seconds. -/
  minFetchInterval : Nat
  limits : GossipLimits
  allowed : AllowedRelays

/-- `GossipOptions::default`. -/
def GossipOptions.default : GossipOptions := ⟨30, .default, .default⟩

/-! ## Sample values -/

namespace Sample

/-- The URL crate on urls of the form `wss://host/`. -/
def urlCrate : UrlCrate where
  parse := fun s =>
    if "wss://".toList.isPrefixOf s.toList then .ok ⟨s⟩ else .error "relative URL without a base"
  scheme := fun _ => "wss"
  hostStr := fun url => some (String.ofList ((url.serialization.toList.drop 6).takeWhile (fun c => c ≠ '/')))
  port := fun _ => none
  clearFragment := id
  clearPort := some

/-- A relay. -/
def one : RelayUrl := ⟨⟨"wss://one.example/"⟩⟩

/-- Another relay. -/
def two : RelayUrl := ⟨⟨"wss://two.example/"⟩⟩

end Sample

end Nula.Gossip
