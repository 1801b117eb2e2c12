import Nula.Gossip.Options

/-!
# `Gossip.Hosts` — the hosts a policy takes for local

`is_local_addr` of `options.rs` against the hosts themselves. The URL crate knows a domain, an IPv4 or an IPv6 address
(`Host`) and hands out its text, where an IPv6 address stands in brackets; no address parser reads brackets, so the
policy sees the local hosts of the first two sorts and none of the third (`local_refused_iff`).
-/

namespace Nula.Gossip

/-! ## Hosts -/

/-- `url::Host`. -/
inductive Host where
  | domain (name : String)
  | ipv4 (addr : Ipv4Addr)
  | ipv6 (addr : Ipv6Addr)
  deriving DecidableEq

namespace Host

/-- What `host_str` gives, where `ipv6Text` is how the crate prints an IPv6 address. -/
def text (ipv6Text : Ipv6Addr → String) : Host → String
  | domain name => name
  | ipv4 addr => addr.text
  | ipv6 addr => "[" ++ ipv6Text addr ++ "]"

/-- The hosts that `is_local_addr` documents: `localhost`, `127/8`, `10/8`, `172.16/12`, `192.168/16`, `::1` and
    `fc00::/7`. -/
def IsLocal : Host → Prop
  | domain name => name = "localhost"
  | ipv4 ⟨a, b, _, _⟩ => a = 127 ∨ a = 10 ∨ (a = 172 ∧ 16 ≤ b ∧ b ≤ 31) ∨ (a = 192 ∧ b = 168)
  | ipv6 ⟨segments, _⟩ => segments = [0, 0, 0, 0, 0, 0, 0, 1] ∨ ∃ s ∈ segments.head?, 0xfc00 ≤ s ∧ s ≤ 0xfdff

end Host

/-- What the URL crate knows of a host: what it is, and the text of it. -/
structure HostCrate (urls : UrlCrate) where
  host : Url → Option Host
  ipv6Text : Ipv6Addr → String
  hostStr_eq : ∀ url, urls.hostStr url = (host url).map (Host.text ipv6Text)

/-! ## What the policy sees of a host -/

/-- An IPv4 address of a local range is taken for local. -/
theorem isLocalHost_ipv4 {addr : Ipv4Addr} (h : (Host.ipv4 addr).IsLocal) : isLocalHost addr.text = true := by
  rw [isLocalHost, Ipv4Addr.parse_text]
  split
  · rfl
  · obtain ⟨a, b, c, d⟩ := addr
    rw [Bool.or_eq_true]
    rcases h with rfl | rfl | ⟨rfl, hlow, hhigh⟩ | ⟨rfl, rfl⟩
    · exact Or.inl rfl
    · exact Or.inr rfl
    · refine Or.inr ?_
      unfold Ipv4Addr.isPrivate
      simpa using ⟨hlow, hhigh⟩
    · exact Or.inr rfl

/-- No address parser reads a bracket. -/
theorem isLocalHost_bracket (s : String) : isLocalHost ("[" ++ s) = false := by
  have hlist : ("[" ++ s).toList = '[' :: s.toList := by
    rw [String.toList_append]
    rfl
  have hname : "[" ++ s ≠ "localhost" := by
    intro h
    have hhead := congrArg (fun s => s.toList.head?) h
    rw [hlist] at hhead
    cases hhead
  have hoctet : Ipv4Addr.read ('[' :: s.toList) = none := rfl
  have hgroup : Ipv6Addr.read ('[' :: s.toList) = none := rfl
  rw [isLocalHost, if_neg hname, Ipv4Addr.parse, Ipv6Addr.parse, hlist, hoctet, hgroup]

/-- What ends with a bracket is no onion address. -/
theorem isOnion_bracket (s : String) : ".onion".toList.isSuffixOf ("[" ++ s ++ "]").toList = false := by
  rw [← Bool.not_eq_true, List.isSuffixOf_iff_suffix]
  intro h
  obtain ⟨before, hbefore⟩ := h
  have hlast := congrArg List.getLast? hbefore
  rw [String.toList_append, List.getLast?_append, List.getLast?_append] at hlast
  cases hlast

section Policy

variable {urls : UrlCrate} (crate : HostCrate urls) {url : RelayUrl} {host : Host}

/-- The host of a relay is the text of its host. -/
theorem host_eq (h : crate.host url.inner = some host) : url.host urls = host.text crate.ipv6Text := by
  rw [RelayUrl.host, crate.hostStr_eq, h]
  rfl

/-- Of the local hosts, the policy sees those that are written without brackets. -/
theorem isLocalAddr_iff (h : crate.host url.inner = some host) (hlocal : host.IsLocal) :
    isLocalAddr urls url = true ↔ ∀ addr, host ≠ .ipv6 addr := by
  rw [isLocalAddr, host_eq crate h]
  cases host with
  | domain name =>
      obtain rfl : name = "localhost" := hlocal
      exact iff_of_true rfl (fun addr h => by cases h)
  | ipv4 addr => exact iff_of_true (isLocalHost_ipv4 hlocal) (fun addr h => by cases h)
  | ipv6 addr =>
      rw [Host.text, String.append_assoc, isLocalHost_bracket]
      exact iff_of_false (fun h => by cases h) (fun h => h addr rfl)

/-- **Local relays are refused**, under a policy that allows none, exactly where the host is no IPv6 address, plaintext
    to one aside.

    The text of a host tells its kind apart, except that an IPv6 address stands in brackets, which the address
    parser does not take (`isLocalAddr_iff`). -/
theorem local_refused_iff (onion insecure : Bool) (h : crate.host url.inner = some host) (hlocal : host.IsLocal) :
    AllowedRelays.isAllowed urls ⟨onion, false, insecure⟩ url = false ↔
      (∀ addr, host ≠ .ipv6 addr) ∨ (insecure = false ∧ url.isSecure urls = false) := by
  have hsees := isLocalAddr_iff crate h hlocal
  unfold AllowedRelays.isAllowed
  by_cases hv6 : ∀ addr, host ≠ .ipv6 addr
  · have hseen := hsees.mpr hv6
    simp [hseen, hv6]
  · have hunseen : isLocalAddr urls url = false := Bool.eq_false_iff.mpr (fun hseen => hv6 (hsees.mp hseen))
    have honion : url.isOnion urls = false := by
      obtain ⟨addr, rfl⟩ := not_forall_not.mp hv6
      rw [RelayUrl.isOnion, host_eq crate h]
      exact isOnion_bracket _
    cases insecure <;> simp [hunseen, honion, hv6]

end Policy

namespace Sample

/-- The hosts of the sample urls: the loopback address in brackets, and domains. -/
def hostOf (text : String) : Host :=
  if text = "[::1]" then .ipv6 ⟨[0, 0, 0, 0, 0, 0, 0, 1], rfl⟩ else .domain text

/-- A host of the example is written as it was read. -/
theorem text_hostOf (text : String) : (hostOf text).text (fun _ => "::1") = text := by
  unfold hostOf
  split
  · rename_i h
    rw [h]
    rfl
  · rfl

/-- The sample crate, with the kinds of its hosts. -/
def hostCrate : HostCrate urlCrate where
  host := fun url => (urlCrate.hostStr url).map hostOf
  ipv6Text := fun _ => "::1"
  hostStr_eq := by
    intro url
    have hsame : Host.text (fun _ => "::1") ∘ hostOf = id := funext text_hostOf
    rw [Option.map_map, hsame, Option.map_id, id]

/-- A relay on this machine, by name. -/
def localhost : RelayUrl := ⟨⟨"wss://localhost/"⟩⟩

/-- The same by its IPv6 address. -/
def loopback : RelayUrl := ⟨⟨"wss://[::1]/"⟩⟩

end Sample

/-- A relay on the machine itself, by its IPv6 address, is allowed by default. -/
theorem loopback_allowed :
    Sample.hostCrate.host Sample.loopback.inner = some (.ipv6 ⟨[0, 0, 0, 0, 0, 0, 0, 1], rfl⟩) ∧
    Host.IsLocal (.ipv6 ⟨[0, 0, 0, 0, 0, 0, 0, 1], rfl⟩) ∧
    AllowedRelays.default.local = false ∧
    AllowedRelays.default.isAllowed Sample.urlCrate Sample.loopback = true :=
  ⟨by decide, Or.inl rfl, rfl, by decide⟩

theorem localhost_refused : AllowedRelays.isAllowed Sample.urlCrate ⟨true, false, true⟩ Sample.localhost = false := by
  have hhost : Sample.hostCrate.host Sample.localhost.inner = some (.domain "localhost") := by decide
  exact (local_refused_iff Sample.hostCrate true true hhost rfl).mpr (Or.inl (fun _ h => by cases h))

end Nula.Gossip
