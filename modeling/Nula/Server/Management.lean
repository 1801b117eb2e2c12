import Nula.Core.IpAddr
import Nula.Lib.Json
import Nula.Lib.Standing
import Nula.Server.Connection

/-!
# `Server.Management` — moderation over NIP-86 (`server/management.rs`, `nips/nip86.rs`)

The store behind the management API is also the relay's write policy: every request changes it under one write
lock, and every inbound event is judged against it under a read lock. What the store remembers is what the
requests said last, command by command (`Command`), so a verdict can be read off the history of requests.

## Contents
- **The store.** `handleRequest` and `evaluate`.
- **Commands.** What a request asks of the store, and that it does that and nothing else (`handle_cases`).
- **Histories.** What the store remembers stands in the history (`Remembers`).
- **Verdicts.** `verdicts_follow`.
-/

namespace Nula.Management

open Std

/-! ## Requests (`nips/nip86.rs`) -/

/-- A management request. -/
structure Request where
  method : String
  params : List JsonContent

/-- Its response. -/
structure Response where
  result : Option JsonValue
  error : Option String

namespace Response

/-- A response with a result. -/
def ok (result : JsonValue) : Response := ⟨some result, none⟩

/-- A response with an error. -/
def err (message : String) : Response := ⟨none, some message⟩

/-- `Response::is_error`. -/
def isError (r : Response) : Bool := r.error.isSome

end Response

/-- The methods. -/
inductive Method where
  | supportedMethods
  | banPubkey
  | unbanPubkey
  | listBannedPubkeys
  | allowPubkey
  | unallowPubkey
  | listAllowedPubkeys
  | listEventsNeedingModeration
  | allowEvent
  | banEvent
  | listBannedEvents
  | changeRelayName
  | changeRelayDescription
  | changeRelayIcon
  | allowKind
  | disallowKind
  | listAllowedKinds
  | blockIp
  | unblockIp
  | listBlockedIps
  | custom (token : String)
  deriving DecidableEq, Repr

namespace Method

/-- `Method::as_str`. -/
def asStr : Method → String
  | supportedMethods => "supportedmethods"
  | banPubkey => "banpubkey"
  | unbanPubkey => "unbanpubkey"
  | listBannedPubkeys => "listbannedpubkeys"
  | allowPubkey => "allowpubkey"
  | unallowPubkey => "unallowpubkey"
  | listAllowedPubkeys => "listallowedpubkeys"
  | listEventsNeedingModeration => "listeventsneedingmoderation"
  | allowEvent => "allowevent"
  | banEvent => "banevent"
  | listBannedEvents => "listbannedevents"
  | changeRelayName => "changerelayname"
  | changeRelayDescription => "changerelaydescription"
  | changeRelayIcon => "changerelayicon"
  | allowKind => "allowkind"
  | disallowKind => "disallowkind"
  | listAllowedKinds => "listallowedkinds"
  | blockIp => "blockip"
  | unblockIp => "unblockip"
  | listBlockedIps => "listblockedips"
  | custom token => token

/-- `Method::parse`. -/
def parse (token : String) : Method :=
  match token with
  | "supportedmethods" => supportedMethods
  | "banpubkey" => banPubkey
  | "unbanpubkey" => unbanPubkey
  | "listbannedpubkeys" => listBannedPubkeys
  | "allowpubkey" => allowPubkey
  | "unallowpubkey" => unallowPubkey
  | "listallowedpubkeys" => listAllowedPubkeys
  | "listeventsneedingmoderation" => listEventsNeedingModeration
  | "allowevent" => allowEvent
  | "banevent" => banEvent
  | "listbannedevents" => listBannedEvents
  | "changerelayname" => changeRelayName
  | "changerelaydescription" => changeRelayDescription
  | "changerelayicon" => changeRelayIcon
  | "allowkind" => allowKind
  | "disallowkind" => disallowKind
  | "listallowedkinds" => listAllowedKinds
  | "blockip" => blockIp
  | "unblockip" => unblockIp
  | "listblockedips" => listBlockedIps
  | other => custom other

end Method

/-! ## The store -/

/-- `Inner`. -/
structure Inner where
  bannedPubkeys : HashMap PublicKey (Option String)
  allowedPubkeys : HashMap PublicKey (Option String)
  /-- `none` means all kinds are allowed; `some` restricts to the set. -/
  allowedKinds : Option (HashSet Kind)
  blockedIps : HashMap IpAddr (Option String)
  name : Option String
  description : Option String
  icon : Option Url

/-- `Inner::default`. -/
def Inner.default : Inner := ⟨∅, ∅, none, ∅, none, none, none⟩

/-- `SUPPORTED_METHODS`. -/
def supportedMethods : List String :=
  ["supportedmethods", "banpubkey", "unbanpubkey", "listbannedpubkeys", "allowpubkey", "unallowpubkey",
    "listallowedpubkeys", "allowkind", "disallowkind", "listallowedkinds", "blockip", "unblockip",
    "listblockedips", "changerelayname", "changerelaydescription", "changerelayicon"]

/-- What the store uses from outside, and the iteration orders of its collections. -/
structure Outside where
  urls : UrlCrate
  cannotBeABase : Url → Bool
  pubkeyOrder : PublicKey → Nat
  kindOrder : Kind → Nat
  ipOrder : IpAddr → Nat

/-- The two lists of keys. -/
inductive Listing where
  | banned
  | allowed
  deriving DecidableEq

/-- `param_str`. -/
def paramStr (params : List JsonContent) (index : Nat) : Option String := params[index]?.bind JsonContent.text

/-- `param_pubkey`. -/
def paramPubkey (params : List JsonContent) : Option PublicKey :=
  (paramStr params 0).bind (fun s => (PublicKey.parse s).toOption)

/-- `param_kind`. -/
def paramKind (params : List JsonContent) : Option Kind :=
  (params.head?.bind JsonContent.number).bind
    (fun raw => if raw.toNat < 2 ^ 16 then some ⟨raw.toUInt16⟩ else none)

/-- `param_ip`. -/
def paramIp (params : List JsonContent) : Option IpAddr := (paramStr params 0).bind IpAddr.parse

/-- `types::Url::parse`. -/
def parseUrl (out : Outside) (raw : String) : Option Url :=
  match out.urls.parse raw with
  | .error _ => none
  | .ok url => if out.cannotBeABase url then none else some url

/-- A row of a list, `reason` left out when absent. -/
def row (name value : String) (reason : Option String) : JsonValue :=
  .object ((name, .string value) :: reason.toList.map (fun r => ("reason", .string r)))

section Store

variable (out : Outside) (s : Inner) (params : List JsonContent)

/-- `set_pubkey`. -/
def setPubkey (listing : Listing) : Inner × Response :=
  match paramPubkey params with
  | none => (s, .err "expected a hex pubkey as the first parameter")
  | some pubkey =>
      let reason := paramStr params 1
      match listing with
      -- a key is on one list at most
      | .banned =>
          ({ s with allowedPubkeys := s.allowedPubkeys.erase pubkey
                    bannedPubkeys := s.bannedPubkeys.insert pubkey reason }, .ok (.bool true))
      | .allowed =>
          ({ s with bannedPubkeys := s.bannedPubkeys.erase pubkey
                    allowedPubkeys := s.allowedPubkeys.insert pubkey reason }, .ok (.bool true))

/-- `remove_pubkey`. -/
def removePubkey (listing : Listing) : Inner × Response :=
  match paramPubkey params with
  | none => (s, .err "expected a hex pubkey as the first parameter")
  | some pubkey =>
      match listing with
      | .banned => ({ s with bannedPubkeys := s.bannedPubkeys.erase pubkey }, .ok (.bool true))
      | .allowed => ({ s with allowedPubkeys := s.allowedPubkeys.erase pubkey }, .ok (.bool true))

/-- `list_pubkeys`. -/
def listPubkeys (listing : Listing) : Response :=
  let rows := match listing with
    | .banned => s.bannedPubkeys
    | .allowed => s.allowedPubkeys
  .ok (.array ((rows.iter out.pubkeyOrder).map (fun e => row "pubkey" e.1.toHex e.2)))

/-- `set_kind`. -/
def setKind (allow : Bool) : Inner × Response :=
  match paramKind params with
  | none => (s, .err "expected a kind integer as the first parameter")
  | some kind =>
      if allow then
        ({ s with allowedKinds := some ((s.allowedKinds.getD ∅).insert kind) }, .ok (.bool true))
      else
        -- without a set there is nothing to take the kind out of
        match s.allowedKinds with
        | some kinds => ({ s with allowedKinds := some (kinds.erase kind) }, .ok (.bool true))
        | none => (s, .ok (.bool true))

/-- `list_kinds`. -/
def listKinds : Response :=
  .ok (.array (((s.allowedKinds.map (·.iter out.kindOrder)).getD []).map (fun k => .number k.val.toUInt64)))

/-- `block_ip`. -/
def blockIp : Inner × Response :=
  match paramIp params with
  | none => (s, .err "expected an ip address as the first parameter")
  | some ip => ({ s with blockedIps := s.blockedIps.insert ip (paramStr params 1) }, .ok (.bool true))

/-- `unblock_ip`. -/
def unblockIp : Inner × Response :=
  match paramIp params with
  | none => (s, .err "expected an ip address as the first parameter")
  | some ip => ({ s with blockedIps := s.blockedIps.erase ip }, .ok (.bool true))

/-- `list_blocked_ips`. -/
def listBlockedIps : Response :=
  .ok (.array ((s.blockedIps.iter out.ipOrder).map (fun e => row "ip" e.1.text e.2)))

/-- `change_name`. -/
def changeName : Inner × Response :=
  match paramStr params 0 with
  | none => (s, .err "expected a name string as the first parameter")
  | some name => ({ s with name := some name }, .ok (.bool true))

/-- `change_description`. -/
def changeDescription : Inner × Response :=
  match paramStr params 0 with
  | none => (s, .err "expected a description string as the first parameter")
  | some description => ({ s with description := some description }, .ok (.bool true))

/-- `change_icon`. -/
def changeIcon : Inner × Response :=
  match paramStr params 0 with
  | none => (s, .err "expected an icon url as the first parameter")
  | some raw =>
      match parseUrl out raw with
      | none => (s, .err "icon must be a valid url")
      | some url => ({ s with icon := some url }, .ok (.bool true))

end Store

/-- `ManagementState::handle_request`. -/
def handleRequest (out : Outside) (s : Inner) (request : Request) : Inner × Response :=
  match Method.parse request.method with
  | .supportedMethods => (s, .ok (.array (supportedMethods.map .string)))
  | .banPubkey => setPubkey s request.params .banned
  | .unbanPubkey => removePubkey s request.params .banned
  | .listBannedPubkeys => (s, listPubkeys out s .banned)
  | .allowPubkey => setPubkey s request.params .allowed
  | .unallowPubkey => removePubkey s request.params .allowed
  | .listAllowedPubkeys => (s, listPubkeys out s .allowed)
  | .allowKind => setKind s request.params true
  | .disallowKind => setKind s request.params false
  | .listAllowedKinds => (s, listKinds out s)
  | .blockIp => blockIp s request.params
  | .unblockIp => unblockIp s request.params
  | .listBlockedIps => (s, listBlockedIps out s)
  | .changeRelayName => changeName s request.params
  | .changeRelayDescription => changeDescription s request.params
  | .changeRelayIcon => changeIcon out s request.params
  -- whatever is not listed here is unsupported, known to the parser or not
  | other => (s, .err ("unsupported method: " ++ other.asStr))

/-- `SocketAddr`. -/
structure SocketAddr where
  ip : IpAddr
  port : UInt16
  deriving DecidableEq

/-- `evaluate`: bans and IP blocks first, then the allowlist when it is not empty and the kinds when set. -/
def evaluate (s : Inner) (event : Event) (addr : SocketAddr) : Server.AdmitVerdict :=
  if s.blockedIps.contains addr.ip then .reject .blocked "client ip is blocked"
  else if s.bannedPubkeys.contains event.pubkey then .reject .blocked "author is banned"
  else if !s.allowedPubkeys.isEmpty && !s.allowedPubkeys.contains event.pubkey then
    .reject .blocked "author is not on this relay's allowlist"
  else if s.allowedKinds.any (fun kinds => !kinds.contains event.kind) then
    .reject .blocked "event kind is not allowed on this relay"
  else .accept

/-- The store after these requests. -/
def run (out : Outside) (history : List Request) : Inner :=
  history.foldl (fun s request => (handleRequest out s request).1) .default

/-! ## Commands -/

/-- What a request can ask of the lists. -/
inductive Command where
  | ban (p : PublicKey)
  | unban (p : PublicKey)
  | allow (p : PublicKey)
  | unallow (p : PublicKey)
  | allowKind (k : Kind)
  | disallowKind (k : Kind)
  | blockIp (a : IpAddr)
  | unblockIp (a : IpAddr)
  deriving DecidableEq

/-- The command a request carries, where its first parameter can be read. -/
def Request.command (r : Request) : Option Command :=
  match Method.parse r.method with
  | .banPubkey => (paramPubkey r.params).map .ban
  | .unbanPubkey => (paramPubkey r.params).map .unban
  | .allowPubkey => (paramPubkey r.params).map .allow
  | .unallowPubkey => (paramPubkey r.params).map .unallow
  | .allowKind => (paramKind r.params).map .allowKind
  | .disallowKind => (paramKind r.params).map .disallowKind
  | .blockIp => (paramIp r.params).map .blockIp
  | .unblockIp => (paramIp r.params).map .unblockIp
  | _ => none

/-- The lists after a command. -/
def Inner.obey (s : Inner) (reason : Option String) : Command → Inner
  | .ban p => { s with allowedPubkeys := s.allowedPubkeys.erase p, bannedPubkeys := s.bannedPubkeys.insert p reason }
  | .unban p => { s with bannedPubkeys := s.bannedPubkeys.erase p }
  | .allow p => { s with bannedPubkeys := s.bannedPubkeys.erase p, allowedPubkeys := s.allowedPubkeys.insert p reason }
  | .unallow p => { s with allowedPubkeys := s.allowedPubkeys.erase p }
  | .allowKind k => { s with allowedKinds := some ((s.allowedKinds.getD ∅).insert k) }
  | .disallowKind k => { s with allowedKinds := s.allowedKinds.map (·.erase k) }
  | .blockIp a => { s with blockedIps := s.blockedIps.insert a reason }
  | .unblockIp a => { s with blockedIps := s.blockedIps.erase a }

/-- The lists verdicts are given by are the same. -/
structure SameLists (s s' : Inner) : Prop where
  banned : s'.bannedPubkeys = s.bannedPubkeys
  allowed : s'.allowedPubkeys = s.allowedPubkeys
  kinds : s'.allowedKinds = s.allowedKinds
  ips : s'.blockedIps = s.blockedIps

theorem SameLists.refl (s : Inner) : SameLists s s := ⟨rfl, rfl, rfl, rfl⟩

section

variable (out : Outside) (s : Inner) (r : Request)

/-- A request does what its command says, and without one the lists stay. One case for each method, and in it one for
    whether its parameters are there. -/
theorem handle_cases :
    (∃ c, r.command = some c ∧ (handleRequest out s r).1 = s.obey (paramStr r.params 1) c ∧
      (handleRequest out s r).2.isError = false) ∨
    (r.command = none ∧ SameLists s (handleRequest out s r).1 ∧
      ((handleRequest out s r).2.isError = true → (handleRequest out s r).1 = s)) := by
  unfold handleRequest Request.command
  cases Method.parse r.method with
  | banPubkey =>
      dsimp only [setPubkey]
      cases paramPubkey r.params with
      | none => exact Or.inr ⟨rfl, .refl s, fun _ => rfl⟩
      | some p => exact Or.inl ⟨_, rfl, rfl, rfl⟩
  | unbanPubkey =>
      dsimp only [removePubkey]
      cases paramPubkey r.params with
      | none => exact Or.inr ⟨rfl, .refl s, fun _ => rfl⟩
      | some p => exact Or.inl ⟨_, rfl, rfl, rfl⟩
  | allowPubkey =>
      dsimp only [setPubkey]
      cases paramPubkey r.params with
      | none => exact Or.inr ⟨rfl, .refl s, fun _ => rfl⟩
      | some p => exact Or.inl ⟨_, rfl, rfl, rfl⟩
  | unallowPubkey =>
      dsimp only [removePubkey]
      cases paramPubkey r.params with
      | none => exact Or.inr ⟨rfl, .refl s, fun _ => rfl⟩
      | some p => exact Or.inl ⟨_, rfl, rfl, rfl⟩
  | allowKind =>
      dsimp only [setKind]
      cases paramKind r.params with
      | none => exact Or.inr ⟨rfl, .refl s, fun _ => rfl⟩
      | some k => exact Or.inl ⟨_, rfl, rfl, rfl⟩
  | disallowKind =>
      dsimp only [setKind]
      cases paramKind r.params with
      | none => exact Or.inr ⟨rfl, .refl s, fun _ => rfl⟩
      | some k =>
          refine Or.inl ⟨_, rfl, ?_⟩
          obtain ⟨banned, allowed, kinds, ips, name, description, icon⟩ := s
          cases kinds with
          | none => exact ⟨rfl, rfl⟩
          | some kinds => exact ⟨rfl, rfl⟩
  | blockIp =>
      dsimp only [Management.blockIp]
      cases paramIp r.params with
      | none => exact Or.inr ⟨rfl, .refl s, fun _ => rfl⟩
      | some a => exact Or.inl ⟨_, rfl, rfl, rfl⟩
  | unblockIp =>
      dsimp only [Management.unblockIp]
      cases paramIp r.params with
      | none => exact Or.inr ⟨rfl, .refl s, fun _ => rfl⟩
      | some a => exact Or.inl ⟨_, rfl, rfl, rfl⟩
  | changeRelayName =>
      dsimp only [changeName]
      cases paramStr r.params 0 with
      | none => exact Or.inr ⟨rfl, .refl s, fun _ => rfl⟩
      | some name => exact Or.inr ⟨rfl, ⟨rfl, rfl, rfl, rfl⟩, fun h => Bool.noConfusion h⟩
  | changeRelayDescription =>
      dsimp only [changeDescription]
      cases paramStr r.params 0 with
      | none => exact Or.inr ⟨rfl, .refl s, fun _ => rfl⟩
      | some description => exact Or.inr ⟨rfl, ⟨rfl, rfl, rfl, rfl⟩, fun h => Bool.noConfusion h⟩
  | changeRelayIcon =>
      dsimp only [changeIcon]
      cases paramStr r.params 0 with
      | none => exact Or.inr ⟨rfl, .refl s, fun _ => rfl⟩
      | some raw =>
          dsimp only
          cases parseUrl out raw with
          | none => exact Or.inr ⟨rfl, .refl s, fun _ => rfl⟩
          | some url => exact Or.inr ⟨rfl, ⟨rfl, rfl, rfl, rfl⟩, fun h => Bool.noConfusion h⟩
  | _ => exact Or.inr ⟨rfl, .refl s, fun _ => rfl⟩

/-- A refused request changes nothing. -/
theorem handle_error (h : (handleRequest out s r).2.isError = true) : (handleRequest out s r).1 = s := by
  rcases handle_cases out s r with ⟨c, -, -, hok⟩ | ⟨-, -, hsame⟩
  · rw [hok] at h
    cases h
  · exact hsame h

/-! ## Histories -/

/-- The request carries a command of this kind. -/
def Request.asks (kind : Command → Prop) (r : Request) : Prop := ∃ c, r.command = some c ∧ kind c

/-- A fact about the lists that some commands set and some clear. -/
structure Remembers (fact : Inner → Prop) (sets clears : Command → Prop) : Prop where
  obey : ∀ s reason c, fact (s.obey reason c) ↔ sets c ∨ fact s ∧ ¬ clears c
  same : ∀ s s', SameLists s s' → (fact s' ↔ fact s)
  start : ¬ fact .default

/-- The fact stands in the history of the store. -/
theorem Remembers.iff_stands {fact : Inner → Prop} {sets clears : Command → Prop} (h : Remembers fact sets clears)
    (history : List Request) :
    fact (run out history) ↔ Stands (Request.asks sets) (Request.asks clears) history := by
  refine stands_foldl (fun s r => ?_) h.start history
  rcases handle_cases out s r with ⟨c, hc, hstate, -⟩ | ⟨hnone, hlists, -⟩
  · rw [hstate, h.obey, Request.asks, Request.asks, hc]
    simp
  · rw [h.same _ _ hlists, Request.asks, Request.asks, hnone]
    simp

/-- A key is banned as long as the last command about it was a ban. -/
theorem remembers_banned (p : PublicKey) : Remembers (fun s => s.bannedPubkeys.contains p = true)
    (· = .ban p) (fun c => c = .unban p ∨ c = .allow p) where
  obey s reason c := by
    cases c with
    | ban q => simp [Inner.obey, ExtTreeMap.contains_insert]
    | unban q => simp [Inner.obey, ExtTreeMap.contains_erase, and_comm]
    | allow q => simp [Inner.obey, ExtTreeMap.contains_erase, and_comm]
    | _ => simp [Inner.obey]
  same s s' h := by rw [h.banned]
  start := by simp [Inner.default]

theorem remembers_allowed (p : PublicKey) : Remembers (fun s => s.allowedPubkeys.contains p = true)
    (· = .allow p) (fun c => c = .unallow p ∨ c = .ban p) where
  obey s reason c := by
    cases c with
    | ban q => simp [Inner.obey, ExtTreeMap.contains_erase, and_comm]
    | allow q => simp [Inner.obey, ExtTreeMap.contains_insert]
    | unallow q => simp [Inner.obey, ExtTreeMap.contains_erase, and_comm]
    | _ => simp [Inner.obey]
  same s s' h := by rw [h.allowed]
  start := by simp [Inner.default]

/-- The set of kinds comes with the first kind that is allowed, and never goes. -/
theorem remembers_restricted : Remembers (fun s => s.allowedKinds.isSome = true)
    (fun c => ∃ k, c = .allowKind k) (fun _ => False) where
  obey s reason c := by cases c <;> simp [Inner.obey]
  same s s' h := by rw [h.kinds]
  start := by simp [Inner.default]

/-- A kind is allowed as long as the last command about it allowed it. -/
theorem remembers_kind (k : Kind) : Remembers (fun s => s.allowedKinds.any (·.contains k) = true)
    (· = .allowKind k) (· = .disallowKind k) where
  obey s reason c := by
    cases c with
    | allowKind j => cases hkinds : s.allowedKinds <;> simp [Inner.obey, hkinds, ExtTreeSet.contains_insert]
    | disallowKind j =>
        cases hkinds : s.allowedKinds <;> simp [Inner.obey, hkinds, ExtTreeSet.contains_erase, and_comm]
    | _ => simp [Inner.obey]
  same s s' h := by rw [h.kinds]
  start := by simp [Inner.default]

/-- An address is blocked as long as the last command about it blocked it. -/
theorem remembers_blocked (a : IpAddr) : Remembers (fun s => s.blockedIps.contains a = true)
    (· = .blockIp a) (· = .unblockIp a) where
  obey s reason c := by
    cases c with
    | blockIp b => simp [Inner.obey, ExtTreeMap.contains_insert]
    | unblockIp b => simp [Inner.obey, ExtTreeMap.contains_erase, and_comm]
    | _ => simp [Inner.obey]
  same s s' h := by rw [h.ips]
  start := by simp [Inner.default]

/-- No key is on both lists. -/
theorem exclusive (history : List Request) (p : PublicKey) :
    ¬ ((run out history).bannedPubkeys.contains p = true ∧ (run out history).allowedPubkeys.contains p = true) := by
  induction history using List.reverseRecOn with
  | nil => simp [run, Inner.default]
  | append_singleton history r ih =>
      rw [run, List.foldl_append, ← run, List.foldl_cons, List.foldl_nil]
      rcases handle_cases out (run out history) r with ⟨c, -, hstate, -⟩ | ⟨-, hlists, -⟩
      · rw [hstate, (remembers_banned p).obey, (remembers_allowed p).obey]
        rintro ⟨rfl | ⟨hban, hkept⟩, hset | ⟨hallow, hkept'⟩⟩
        · cases hset
        · exact hkept' (Or.inr rfl)
        · exact hkept (Or.inr hset)
        · exact ih ⟨hban, hallow⟩
      · rw [hlists.banned, hlists.allowed]
        exact ih

/-! ## Verdicts -/

/-- The event is refused. -/
def Rejects (s : Inner) (event : Event) (addr : SocketAddr) : Prop :=
  ∃ category message, evaluate s event addr = .reject category message

/-- `evaluate` refuses on one of its four grounds. -/
theorem rejects_iff_grounds {event : Event} {addr : SocketAddr} : Rejects s event addr ↔
    (s.blockedIps.contains addr.ip || s.bannedPubkeys.contains event.pubkey ||
      (!s.allowedPubkeys.isEmpty && !s.allowedPubkeys.contains event.pubkey) ||
      s.allowedKinds.any (fun kinds => !kinds.contains event.kind)) = true := by
  rw [Rejects, evaluate]
  cases s.blockedIps.contains addr.ip with
  | true => simp
  | false =>
      cases s.bannedPubkeys.contains event.pubkey with
      | true => simp
      | false =>
          cases !s.allowedPubkeys.isEmpty && !s.allowedPubkeys.contains event.pubkey with
          | true => simp
          | false => cases s.allowedKinds.any (fun kinds => !kinds.contains event.kind) <;> simp

/-- **Whom the relay rejects**: a blocked address, a banned key, and whoever is not on the list of keys or of kinds,
    where there is one. -/
theorem rejects_iff {event : Event} {addr : SocketAddr} : Rejects s event addr ↔
    s.blockedIps.contains addr.ip = true ∨ s.bannedPubkeys.contains event.pubkey = true ∨
      ((∃ q, s.allowedPubkeys.contains q = true) ∧ ¬ s.allowedPubkeys.contains event.pubkey = true) ∨
      (s.allowedKinds.isSome = true ∧ ¬ s.allowedKinds.any (·.contains event.kind) = true) := by
  have hempty : (!s.allowedPubkeys.isEmpty) = true ↔ ∃ q, s.allowedPubkeys.contains q = true := by
    rw [Bool.not_eq_true', ← ExtTreeMap.isEmpty_keys, List.isEmpty_eq_false_iff_exists_mem]
    simp only [ExtTreeMap.mem_keys, ExtTreeMap.mem_iff_contains]
  have hkinds : s.allowedKinds.any (fun kinds => !kinds.contains event.kind) = true ↔
      s.allowedKinds.isSome = true ∧ ¬ s.allowedKinds.any (·.contains event.kind) = true := by
    cases s.allowedKinds with
    | none => simp
    | some kinds => rw [Option.any_some, Option.any_some, Option.isSome_some, Bool.not_eq_true', Bool.not_eq_true]; simp
  rw [rejects_iff_grounds, Bool.or_eq_true, Bool.or_eq_true, Bool.or_eq_true, Bool.and_eq_true, hempty, hkinds]
  simp only [Bool.not_eq_true', Bool.not_eq_true, or_assoc]

/-- **What a verdict says of the history.** An event is refused when its address was last blocked, its author last
banned, some other author is allowed and its own is not, or some kind was ever allowed and its own is not. -/
theorem rejects_run_iff {history : List Request} {event : Event} {addr : SocketAddr} :
    Rejects (run out history) event addr ↔
      Stands (Request.asks (· = .blockIp addr.ip)) (Request.asks (· = .unblockIp addr.ip)) history ∨
      Stands (Request.asks (· = .ban event.pubkey))
        (Request.asks (fun c => c = .unban event.pubkey ∨ c = .allow event.pubkey)) history ∨
      ((∃ q, Stands (Request.asks (· = .allow q)) (Request.asks (fun c => c = .unallow q ∨ c = .ban q)) history) ∧
        ¬ Stands (Request.asks (· = .allow event.pubkey))
          (Request.asks (fun c => c = .unallow event.pubkey ∨ c = .ban event.pubkey)) history) ∨
      (Stands (Request.asks (fun c => ∃ k, c = .allowKind k)) (Request.asks (fun _ => False)) history ∧
        ¬ Stands (Request.asks (· = .allowKind event.kind)) (Request.asks (· = .disallowKind event.kind)) history) := by
  rw [rejects_iff, (remembers_blocked addr.ip).iff_stands, (remembers_banned event.pubkey).iff_stands,
    (remembers_allowed event.pubkey).iff_stands, remembers_restricted.iff_stands,
    (remembers_kind event.kind).iff_stands]
  simp only [(remembers_allowed _).iff_stands]

end

/-- **The last command decides.** No key is both banned and allowed. An author stays refused after a ban until it is
lifted, an address after a block until it is unblocked; a kind after it is disallowed until it is allowed, as soon as
some kind was ever allowed; an author after the end of its allowance until it is allowed, while another one's
stands. A refused request changes nothing.

Every list remembers the last command about an element (`Remembers`), so membership after a run is a matter of
which command `Stands`; a rejection is then read off the four lists (`rejects_run_iff`). -/
theorem verdicts_follow (out : Outside) :
    (∀ (history : List Request) (p : PublicKey), ¬ ((run out history).bannedPubkeys.contains p = true ∧
      (run out history).allowedPubkeys.contains p = true)) ∧
    (∀ (before since : List Request) (r : Request) (p : PublicKey), r.command = some (.ban p) →
      (∀ q ∈ since, q.command ≠ some (.unban p) ∧ q.command ≠ some (.allow p)) →
      ∀ (event : Event) (addr : SocketAddr), event.pubkey = p → Rejects (run out (before ++ r :: since)) event addr) ∧
    (∀ (before since : List Request) (r : Request) (k : Kind), r.command = some (.disallowKind k) →
      (∀ q ∈ since, q.command ≠ some (.allowKind k)) →
      (∃ q ∈ before ++ since, ∃ j, q.command = some (.allowKind j)) →
      ∀ (event : Event) (addr : SocketAddr), event.kind = k → Rejects (run out (before ++ r :: since)) event addr) ∧
    (∀ (before since : List Request) (r : Request) (a : IpAddr), r.command = some (.blockIp a) →
      (∀ q ∈ since, q.command ≠ some (.unblockIp a)) →
      ∀ (event : Event) (addr : SocketAddr), addr.ip = a → Rejects (run out (before ++ r :: since)) event addr) ∧
    (∀ (before since : List Request) (r : Request) (p : PublicKey), r.command = some (.unallow p) →
      (∀ q ∈ since, q.command ≠ some (.allow p)) →
      (∃ other, Stands (fun q => q.command = some (.allow other))
        (fun q => q.command = some (.unallow other) ∨ q.command = some (.ban other)) (before ++ r :: since)) →
      ∀ (event : Event) (addr : SocketAddr), event.pubkey = p → Rejects (run out (before ++ r :: since)) event addr) ∧
    (∀ (s : Inner) (r : Request), (handleRequest out s r).2.isError = true → (handleRequest out s r).1 = s) := by
  refine ⟨exclusive out, ?_, ?_, ?_, ?_, handle_error out⟩
  · rintro before since r p hban hkept event addr rfl
    refine (rejects_run_iff out).mpr (Or.inr (Or.inl ⟨before, r, since, rfl, ⟨_, hban, rfl⟩, ?_⟩))
    rintro q hq ⟨c, hc, rfl | rfl⟩
    · exact (hkept q hq).1 hc
    · exact (hkept q hq).2 hc
  · rintro before since r k hdisallow hkept ⟨q, hq, j, hj⟩ event addr rfl
    refine (rejects_run_iff out).mpr (Or.inr (Or.inr (Or.inr ⟨?_, ?_⟩)))
    · have hmem : q ∈ before ++ r :: since := by
        rcases List.mem_append.mp hq with hq | hq
        · exact List.mem_append_left _ hq
        · exact List.mem_append_right _ (List.mem_cons_of_mem _ hq)
      have hask : q.asks (fun c => ∃ k, c = .allowKind k) := ⟨_, hj, j, rfl⟩
      obtain ⟨pre, i, post, heq, hset, hnever⟩ := stands_of_mem hask hmem
      exact ⟨pre, i, post, heq, hset, fun x hx => fun ⟨_, _, hfalse⟩ => hfalse⟩
    · refine not_stands_of_cleared ⟨_, hdisallow, rfl⟩ ?_ ?_
      · rintro ⟨c, hc, rfl⟩
        rw [hdisallow] at hc
        cases hc
      · rintro x hx ⟨c, hc, rfl⟩
        exact hkept x hx hc
  · rintro before since r a hblock hkept event addr rfl
    refine (rejects_run_iff out).mpr (Or.inl ⟨before, r, since, rfl, ⟨_, hblock, rfl⟩, ?_⟩)
    rintro q hq ⟨c, hc, rfl⟩
    exact hkept q hq hc
  · rintro before since r p hunallow hkept ⟨other, pre, i, post, heq, hset, hstands⟩ event addr rfl
    refine (rejects_run_iff out).mpr (Or.inr (Or.inr (Or.inl ⟨⟨other, pre, i, post, heq, ⟨_, hset, rfl⟩, ?_⟩, ?_⟩)))
    · rintro q hq ⟨c, hc, rfl | rfl⟩
      · exact hstands q hq (Or.inl hc)
      · exact hstands q hq (Or.inr hc)
    · refine not_stands_of_cleared ⟨_, hunallow, Or.inl rfl⟩ ?_ ?_
      · rintro ⟨c, hc, rfl⟩
        rw [hunallow] at hc
        cases hc
      · rintro x hx ⟨c, hc, rfl⟩
        exact hkept x hx hc

namespace Sample

open Nula.Sample

/-- Outside the relay: urls and addresses of the example. -/
def out : Outside where
  urls := { parse := fun _ => .error "relative URL without a base", scheme := fun _ => "", hostStr := fun _ => none,
            port := fun _ => none, clearFragment := id, clearPort := fun _ => none }
  cannotBeABase _ := false
  pubkeyOrder _ := 0
  kindOrder _ := 0
  ipOrder _ := 0

/-- The address of a client. -/
def addr : SocketAddr := ⟨.v4 ⟨192, 0, 2, 1⟩, 443⟩

/-- Take notes off the list of kinds. -/
def disallowNotes : Request := ⟨"disallowkind", [.unsigned 1]⟩

/-- Put carol on the list of keys. -/
def allowCarol : Request := ⟨"allowpubkey", [.str carol.toHex]⟩

/-- Take her off again. -/
def unallowCarol : Request := ⟨"unallowpubkey", [.str carol.toHex]⟩

theorem command_disallowNotes : disallowNotes.command = some (.disallowKind ⟨1⟩) := by decide +kernel

theorem command_allowCarol : allowCarol.command = some (.allow carol) := by decide +kernel

theorem command_unallowCarol : unallowCarol.command = some (.unallow carol) := by decide +kernel

end Sample

/-- A kind that is disallowed before any was allowed is still admitted, and so is the author whose allowance was the
last to end: without a set of kinds, and with nobody on the allowlist, everything is allowed. -/
theorem verdicts_follow_unrestricted :
    ¬ (∀ (before since : List Request) (r : Request) (k : Kind), r.command = some (.disallowKind k) →
      (∀ q ∈ since, q.command ≠ some (.allowKind k)) →
      ∀ (event : Event) (addr : SocketAddr), event.kind = k →
        Rejects (run Sample.out (before ++ r :: since)) event addr) ∧
    ¬ (∀ (before since : List Request) (r : Request) (p : PublicKey), r.command = some (.unallow p) →
      (∀ q ∈ since, q.command ≠ some (.allow p)) →
      (∃ q ∈ before, ∃ other, q.command = some (.allow other)) →
      ∀ (event : Event) (addr : SocketAddr), event.pubkey = p →
        Rejects (run Sample.out (before ++ r :: since)) event addr) := by
  constructor
  · intro h
    obtain ⟨category, message, hrejects⟩ := h [] [] Sample.disallowNotes ⟨1⟩ Sample.command_disallowNotes
      (fun _ h => absurd h List.not_mem_nil) Nula.Sample.genuine Sample.addr rfl
    rw [show evaluate (run Sample.out ([] ++ Sample.disallowNotes :: [])) Nula.Sample.genuine Sample.addr = .accept by
      decide +kernel] at hrejects
    cases hrejects
  · intro h
    obtain ⟨category, message, hrejects⟩ := h [Sample.allowCarol] [] Sample.unallowCarol Nula.Sample.carol
      Sample.command_unallowCarol (fun _ h => absurd h List.not_mem_nil)
      ⟨_, List.mem_singleton_self _, _, Sample.command_allowCarol⟩ Nula.Sample.genuine Sample.addr rfl
    rw [show evaluate (run Sample.out ([Sample.allowCarol] ++ Sample.unallowCarol :: [])) Nula.Sample.genuine
      Sample.addr = .accept by decide +kernel] at hrejects
    cases hrejects

end Nula.Management
