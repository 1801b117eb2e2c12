import Nula.Core.Filter
import Nula.Gossip.Options
import Nula.Lib.Always
import Nula.Signer.Envelope

/-!
# `Signer.Bunker` — the remote signer

`NostrConnectRemoteSigner` (`bunker.rs`): one request event after another is decrypted, decoded, answered and
forgotten. The bunker keeps no session. A secret it advertises is checked by `connect` and by nothing else, so a
request never depends on who connected before (`secretGates_iff`), and a request it cannot decode is dropped
without an answer (`answered_iff`).
-/

namespace Nula.Signer

open Nip46

/-! ## Requests (`bunker.rs`) -/

/-- What the crate rests on; `nip04` is the feature of that name. -/
structure Ctx where
  crypto : KeyCrypto
  json : JsonCodec
  urls : UrlCrate
  nip04 : Bool

/-- `NostrConnectKeys`: one key to talk with, and one to sign with. -/
structure NostrConnectKeys where
  signer : Keys
  user : Keys

/-- What the handling of one request meets: the policy's answers, and the randomness and the time it uses. -/
structure Env where
  approve : PublicKey → Request → Bool
  /-- For the user's key. -/
  entropy : Entropy
  aux : Bytes
  /-- For the reply. -/
  replyEntropy : Entropy
  replyAux : Bytes
  clock : Clock

/-- `connect_response`. -/
def connectResponse (expected presented : Option String) : Response :=
  match expected with
  | some secret =>
      if presented = some secret then .withResult (.connectSecret secret)
      else .withError "invalid or missing connect secret"
  | none => .withResult .ack

section

variable (ctx : Ctx) (env : Env) (keys : NostrConnectKeys)

/-- `handle_authorized`. -/
def handleAuthorized (request : Request) : Response :=
  match request with
  | .getPublicKey => .withResult (.getPublicKey keys.user.publicKey)
  | .signEvent unsigned =>
      match unsigned.signWithKeys ctx.crypto env.aux keys.user with
      | .ok event => .withResult (.signEvent event)
      | .error err => .withError ("sign failed: " ++ err.text)
  | .ping => .withResult .pong
  | .switchRelays => .withResult (.switchRelays none)
  | .nip44Encrypt peer text =>
      match Nip44.encrypt ctx.crypto env.entropy keys.user.secretKey peer text with
      | .ok ciphertext => .withResult (.nip44Encrypt ciphertext)
      | .error err => .withError ("nip44_encrypt failed: " ++ err.text)
  | .nip44Decrypt peer ciphertext =>
      match Nip44.decrypt ctx.crypto keys.user.secretKey peer ciphertext with
      | .ok plaintext => .withResult (.nip44Decrypt plaintext)
      | .error err => .withError ("nip44_decrypt failed: " ++ err.text)
  | .nip04Encrypt peer text =>
      if ctx.nip04 then
        match Nip04.encrypt ctx.crypto env.entropy keys.user.secretKey peer text with
        | .ok ciphertext => .withResult (.nip04Encrypt ciphertext)
        | .error err => .withError ("nip04_encrypt failed: " ++ err)
      else .withError "nip04 support is disabled in this build"
  | .nip04Decrypt peer ciphertext =>
      if ctx.nip04 then
        match Nip04.decrypt ctx.crypto keys.user.secretKey peer ciphertext with
        | .ok plaintext => .withResult (.nip04Decrypt plaintext)
        | .error err => .withError ("nip04_decrypt failed: " ++ err)
      else .withError "nip04 support is disabled in this build"
  -- answered before the request comes here
  | .connect .. => .withError "unsupported method"

/-- `build_response`. -/
def buildResponse (secret : Option String) (client : PublicKey) (request : Request) : Response :=
  match request with
  | .connect _ presented _ => connectResponse secret presented
  | other =>
      if env.approve client other then handleAuthorized ctx env keys other
      else .withError "request rejected by bunker policy"

/-- `publish_response`: the calls of `send_event_to`. -/
def publishResponse (relays : List RelayUrl) (client : PublicKey) (requestId : String) (response : Response) :
    List (List RelayUrl × Event) :=
  let plain := (Message.ofResponse ctx.json requestId response).asJson ctx.json
  match Nip44.encrypt ctx.crypto env.replyEntropy keys.signer.secretKey client plain with
  | .error _ => []
  | .ok ciphertext =>
      match ((EventBuilder.new kind ciphertext).tag (Tag.p client)).signWithKeys ctx.crypto env.clock env.replyAux
          keys.signer with
      | .error _ => []
      | .ok event => [(relays, event)]

/-- The start of `handle_request_event`: the id and the request of an event, if it has any. -/
def decodeRequest (event : Event) : Option (String × Request) :=
  match Nip44.decrypt ctx.crypto keys.signer.secretKey event.pubkey event.content with
  | .error _ => none
  | .ok plain =>
      match Message.fromJson ctx.json plain with
      | none => none
      | some envelope =>
          match envelope.intoRequest ctx.json with
          | .error _ => none
          | .ok request => some (envelope.id, request)

/-- `handle_request_event`: the calls of `send_event_to`. -/
def handleRequestEvent (relays : List RelayUrl) (secret : Option String) (event : Event) :
    List (List RelayUrl × Event) :=
  match decodeRequest ctx keys event with
  | none => []
  | some (requestId, request) =>
      publishResponse ctx env keys relays event.pubkey requestId
        (buildResponse ctx env keys secret event.pubkey request)

end

/-! ## Sample values

A bunker whose ciphers leave texts as they are, and events that carry a request of a client's. -/

namespace Sample

open Nula.Sample

/-- A context in which encryption is the text itself. -/
def ctx : Ctx where
  crypto :=
    { crypto with
      signSchnorr := fun _ _ _ => genuine.sig
      nip44Seal := fun _ _ _ text => text
      nip44Open := fun _ _ payload => .ok payload
      nip04Seal := fun _ _ _ text => text
      nip04Open := fun _ _ payload => .ok payload }
  json := Json.codec
  urls := Gossip.Sample.urlCrate
  nip04 := true

/-- The user signs with one key and talks with another. -/
def keys : NostrConnectKeys :=
  ⟨⟨⟨List.replicate 32 1, by decide, by decide +kernel⟩, alice⟩,
    ⟨⟨List.replicate 32 2, by decide, by decide +kernel⟩, carol⟩⟩

/-- `ApproveAll`. -/
def env : Env := ⟨fun _ _ => true, .ok [], [], .ok [], [], .ok 1700000000⟩

/-- An event that carries the text. -/
def carrying (client : PublicKey) (text : String) : Event :=
  { event 1 client 1700000000 24133 [] with content := text }

/-- An event that carries a request. -/
def requestEvent (client : PublicKey) (id : String) (request : Request) : Event :=
  carrying client ((Message.ofRequest ctx.json id request).asJson ctx.json)

/-- The sample bunker reads a request event as it was meant. -/
theorem decode_requestEvent (client : PublicKey) (id : String) {request : Request}
    (h : Request.fromWire ctx.json request.method (request.params ctx.json) = .ok request) :
    decodeRequest ctx keys (requestEvent client id request) = some (id, request) := by
  have hopen : Nip44.decrypt ctx.crypto keys.signer.secretKey (requestEvent client id request).pubkey
      (requestEvent client id request).content = .ok ((Message.ofRequest ctx.json id request).asJson ctx.json) := rfl
  simp only [decodeRequest, hopen, Message.fromJson_asJson, Message.ofRequest, Message.intoRequest, h, Message.id]

end Sample

/-! ## Who gets to use the key -/

section

variable (ctx : Ctx) (env : Env) (keys : NostrConnectKeys)

/-- The request that `build_response` passes to `handle_authorized`. -/
def authorized (client : PublicKey) : Request → Option Request
  | .connect .. => none
  | other => if env.approve client other then some other else none

/-- A request other than `connect` is answered if the policy approves of it. -/
theorem buildResponse_of_ne {secret : Option String} {client : PublicKey} {request : Request}
    (h : request.method ≠ .connect) : buildResponse ctx env keys secret client request =
      if env.approve client request then handleAuthorized ctx env keys request
      else .withError "request rejected by bunker policy" := by
  cases request with
  | connect pk presented perms => exact absurd rfl h
  | _ => rfl

/-- What is authorized was approved, and is no `connect`. -/
theorem authorized_eq_some_iff {client : PublicKey} {request passed : Request} :
    authorized env client request = some passed ↔
      passed = request ∧ request.method ≠ .connect ∧ env.approve client request = true := by
  by_cases hmethod : request.method = .connect
  · have hnone : authorized env client request = none := by
      cases request <;> first | rfl | cases hmethod
    simp [hnone, hmethod]
  · have hif : authorized env client request = if env.approve client request then some request else none := by
      cases request <;> first | rfl | exact absurd rfl hmethod
    rw [hif]
    cases env.approve client request <;> simp [hmethod, eq_comm]

/-- The requests that need the user's secret key. -/
def usesKey : Request → Bool
  | .signEvent _ | .nip04Encrypt .. | .nip04Decrypt .. | .nip44Encrypt .. | .nip44Decrypt .. => true
  | .connect .. | .getPublicKey | .ping | .switchRelays => false

/-- A request that uses the user's key is no `connect`. -/
theorem method_ne_connect {request : Request} (h : usesKey request = true) : request.method ≠ .connect := by
  cases request <;> simp_all [usesKey, Request.method]

/-- No executed request is answered with a secret. -/
theorem handleAuthorized_ne (request : Request) (s : String) :
    handleAuthorized ctx env keys request ≠ .withResult (.connectSecret s) := by
  have herr : ∀ text, Response.withError text ≠ .withResult (.connectSecret s) := by
    intro text h
    cases h
  unfold handleAuthorized
  split <;> (try split) <;> (try split) <;> first | exact herr _ | (intro h; cases h)

/-- One event after another, each with what its handling meets. -/
abbrev Incoming := Event × Env

/-- The request that is executed with the user's key, if one is. -/
def keyUse (i : Incoming) : Option Request := do
  let (_, request) ← decodeRequest ctx keys i.1
  let passed ← authorized i.2 i.1.pubkey request
  if usesKey passed then return passed else none

/-- A `connect` of this client with this secret. -/
def Presents (s : String) (client : PublicKey) (i : Incoming) : Prop :=
  i.1.pubkey = client ∧ ∃ id pk perms, decodeRequest ctx keys i.1 = some (id, .connect pk (some s) perms)

/-- The bunker answers by echoing its secret. -/
def Accepts (s : String) (i : Incoming) : Prop :=
  ∃ id request, decodeRequest ctx keys i.1 = some (id, request) ∧
    buildResponse ctx i.2 keys (some s) i.1.pubkey request = .withResult (.connectSecret s)

/-- The key is used for approved requests of clients that proved the secret before, and the secret is accepted
    from one client. -/
structure SecretGates (s : String) (incoming : List Incoming) : Prop where
  proved : EachStep (fun past i => ∀ request, keyUse ctx keys i = some request →
    i.2.approve i.1.pubkey request = true ∧ ∃ earlier ∈ past, Presents ctx keys s i.1.pubkey earlier) incoming
  once : ∀ a ∈ incoming, ∀ b ∈ incoming, Accepts ctx keys s a → Accepts ctx keys s b → a.1.pubkey = b.1.pubkey

/-- **When the key is used**: for a request that decodes, uses it, and was approved. -/
theorem keyUse_eq_some_iff {i : Incoming} {request : Request} : keyUse ctx keys i = some request ↔
    ∃ id, decodeRequest ctx keys i.1 = some (id, request) ∧ usesKey request = true ∧
      i.2.approve i.1.pubkey request = true := by
  rw [keyUse]
  cases hdecode : decodeRequest ctx keys i.1 with
  | none => simp
  | some r =>
      obtain ⟨id, r⟩ := r
      simp only [Option.bind_eq_bind, Option.bind_some]
      constructor
      · intro h
        obtain ⟨passed, hpassed, huse⟩ := Option.bind_eq_some_iff.mp h
        obtain ⟨rfl, -, happrove⟩ := (authorized_eq_some_iff _).mp hpassed
        rw [Option.ite_none_right_eq_some] at huse
        obtain ⟨huses, heq⟩ := huse
        cases heq
        exact ⟨id, rfl, huses, happrove⟩
      · rintro ⟨id', heq, huses, happrove⟩
        cases heq
        rw [(authorized_eq_some_iff _).mpr ⟨rfl, method_ne_connect huses, happrove⟩, Option.bind_some, if_pos huses]
        rfl

/-- A `connect` is accepted exactly if it presents the secret. -/
theorem accepts_iff_presents {s : String} {i : Incoming} :
    Accepts ctx keys s i ↔ Presents ctx keys s i.1.pubkey i := by
  constructor
  · rintro ⟨id, request, hdecode, hresponse⟩
    refine ⟨rfl, id, ?_⟩
    by_cases hmethod : request.method = .connect
    · cases request <;> cases hmethod
      rename_i pk presented perms
      change (if presented = some s then Response.withResult (.connectSecret s) else _) = _ at hresponse
      split at hresponse
      · rename_i hsame
        exact ⟨pk, perms, by rw [hdecode, hsame]⟩
      · cases hresponse
    · rw [buildResponse_of_ne ctx i.2 keys hmethod] at hresponse
      cases happrove : i.2.approve i.1.pubkey request with
      | true =>
          rw [happrove, if_pos rfl] at hresponse
          exact absurd hresponse (handleAuthorized_ne ctx i.2 keys request s)
      | false =>
          rw [happrove] at hresponse
          cases hresponse
  · rintro ⟨-, id, pk, perms, hdecode⟩
    exact ⟨id, _, hdecode, if_pos rfl⟩

/-- **What a secret is worth.** Along a sequence of requests the key is used only for clients that proved the
    secret, and the secret serves one client, exactly when the policy approves no request for the key of a client
    that has not presented the secret before, and no two clients present it: the bunker itself remembers
    neither.

    Both directions unfold one incoming event: `keyUse_eq_some_iff` says when the key is used,
    `accepts_iff_presents` when the secret is accepted, and neither depends on what came before. -/
theorem secretGates_iff (s : String) (incoming : List Incoming) : SecretGates ctx keys s incoming ↔
    EachStep (fun past i => ∀ id request, decodeRequest ctx keys i.1 = some (id, request) →
        usesKey request = true → i.2.approve i.1.pubkey request = true →
          ∃ earlier ∈ past, Presents ctx keys s i.1.pubkey earlier) incoming ∧
      ∀ a ∈ incoming, ∀ b ∈ incoming, Presents ctx keys s a.1.pubkey a → Presents ctx keys s b.1.pubkey b →
        a.1.pubkey = b.1.pubkey := by
  constructor
  · rintro ⟨hproved, honce⟩
    refine ⟨fun k i hi id request hdecode huses happrove => ?_, fun a ha b hb hpa hpb => ?_⟩
    · exact (hproved k i hi request ((keyUse_eq_some_iff ctx keys).mpr ⟨id, hdecode, huses, happrove⟩)).2
    · exact honce a ha b hb ((accepts_iff_presents ctx keys).mpr hpa) ((accepts_iff_presents ctx keys).mpr hpb)
  · rintro ⟨hproved, honce⟩
    refine ⟨fun k i hi request huse => ?_, fun a ha b hb haa hab => ?_⟩
    · obtain ⟨id, hdecode, huses, happrove⟩ := (keyUse_eq_some_iff ctx keys).mp huse
      exact ⟨happrove, hproved k i hi id request hdecode huses happrove⟩
    · exact honce a ha b hb ((accepts_iff_presents ctx keys).mp haa) ((accepts_iff_presents ctx keys).mp hab)

end

/-- A client that never connected has a payload decrypted, and two clients connect with the one secret. -/
theorem secret_gates_nothing :
    ¬SecretGates Sample.ctx Sample.keys "secret"
      [(Sample.requestEvent Sample.bob "1" (.nip44Decrypt Sample.alice "payload"), Sample.env)] ∧
    ¬SecretGates Sample.ctx Sample.keys "secret"
      [(Sample.requestEvent Sample.alice "1" (.connect Sample.alice (some "secret") none), Sample.env),
        (Sample.requestEvent Sample.bob "2" (.connect Sample.alice (some "secret") none), Sample.env)] := by
  constructor
  · intro h
    have hmethod : (Request.nip44Decrypt Sample.alice "payload").method ≠ .connect := by decide
    have hdecode := Sample.decode_requestEvent Sample.bob "1" (Request.fromWire_params Sample.ctx.json hmethod)
    obtain ⟨-, earlier, hmem, -⟩ := h.proved 0 _ rfl _
      ((keyUse_eq_some_iff Sample.ctx Sample.keys).mpr ⟨"1", hdecode, rfl, rfl⟩)
    cases hmem
  · intro h
    have hread : Request.fromWire Sample.ctx.json .connect
        (Request.params Sample.ctx.json (.connect Sample.alice (some "secret") none)) =
        .ok (.connect Sample.alice (some "secret") none) := by
      simp only [Request.params, Option.toList_some, Request.fromWire, Request.parseKey_toHex]
      rfl
    have haccepts : ∀ client id, Accepts Sample.ctx Sample.keys "secret"
        (Sample.requestEvent client id (.connect Sample.alice (some "secret") none), Sample.env) := by
      intro client id
      exact ⟨id, _, Sample.decode_requestEvent client id hread, rfl⟩
    have hsame := h.once _ List.mem_cons_self _ (List.mem_cons_of_mem _ List.mem_cons_self)
      (haccepts Sample.alice "1") (haccepts Sample.bob "2")
    revert hsame
    decide

/-! ## The operations themselves -/

section

variable (ctx : Ctx) (env : Env) (keys : NostrConnectKeys)

/-- What a request asks for, done with the keys at hand. -/
def perform (user : Keys) : Request → Except SignerError ResponseResult
  | .getPublicKey => .ok (.getPublicKey user.publicKey)
  | .signEvent unsigned => (user.signEvent ctx.crypto env.aux unsigned).map .signEvent
  | .nip04Encrypt peer text => (user.nip04Encrypt ctx.crypto ctx.nip04 env.entropy peer text).map .nip04Encrypt
  | .nip04Decrypt peer ciphertext => (user.nip04Decrypt ctx.crypto ctx.nip04 peer ciphertext).map .nip04Decrypt
  | .nip44Encrypt peer text => (user.nip44Encrypt ctx.crypto env.entropy peer text).map .nip44Encrypt
  | .nip44Decrypt peer ciphertext => (user.nip44Decrypt ctx.crypto peer ciphertext).map .nip44Decrypt
  | .ping => .ok .pong
  | .switchRelays => .ok (.switchRelays none)
  | .connect .. => .error (.unsupported "connect")

/-- An executed request answers with what the operation gives, and with an error where it fails. One case for each
    request, and for each cipher that it may lack. -/
theorem handleAuthorized_eq (request : Request) :
    (∃ v, perform ctx env keys.user request = .ok v ∧ handleAuthorized ctx env keys request = .withResult v) ∨
    (∃ e text, perform ctx env keys.user request = .error e ∧
      handleAuthorized ctx env keys request = .withError text) := by
  cases request with
  | connect pk secret perms => exact Or.inr ⟨_, _, rfl, rfl⟩
  | getPublicKey => exact Or.inl ⟨_, rfl, rfl⟩
  | signEvent unsigned =>
      simp only [perform, handleAuthorized, Keys.signEvent]
      cases unsigned.signWithKeys ctx.crypto env.aux keys.user with
      | ok event => exact Or.inl ⟨_, rfl, rfl⟩
      | error e => exact Or.inr ⟨_, _, rfl, rfl⟩
  | nip04Encrypt peer text =>
      simp only [perform, handleAuthorized, Keys.nip04Encrypt]
      cases ctx.nip04 with
      | false => exact Or.inr ⟨_, _, rfl, rfl⟩
      | true =>
          cases Nip04.encrypt ctx.crypto env.entropy keys.user.secretKey peer text with
          | ok ciphertext => exact Or.inl ⟨_, rfl, rfl⟩
          | error e => exact Or.inr ⟨_, _, rfl, rfl⟩
  | nip04Decrypt peer ciphertext =>
      simp only [perform, handleAuthorized, Keys.nip04Decrypt]
      cases ctx.nip04 with
      | false => exact Or.inr ⟨_, _, rfl, rfl⟩
      | true =>
          cases Nip04.decrypt ctx.crypto keys.user.secretKey peer ciphertext with
          | ok plaintext => exact Or.inl ⟨_, rfl, rfl⟩
          | error e => exact Or.inr ⟨_, _, rfl, rfl⟩
  | nip44Encrypt peer text =>
      simp only [perform, handleAuthorized, Keys.nip44Encrypt]
      cases Nip44.encrypt ctx.crypto env.entropy keys.user.secretKey peer text with
      | ok ciphertext => exact Or.inl ⟨_, rfl, rfl⟩
      | error e => exact Or.inr ⟨_, _, rfl, rfl⟩
  | nip44Decrypt peer ciphertext =>
      simp only [perform, handleAuthorized, Keys.nip44Decrypt]
      cases Nip44.decrypt ctx.crypto keys.user.secretKey peer ciphertext with
      | ok plaintext => exact Or.inl ⟨_, rfl, rfl⟩
      | error e => exact Or.inr ⟨_, _, rfl, rfl⟩
  | ping => exact Or.inl ⟨_, rfl, rfl⟩
  | switchRelays => exact Or.inl ⟨_, rfl, rfl⟩

/-- The request is granted and its operation succeeds. -/
def Succeeds (secret : Option String) (client : PublicKey) : Request → Prop
  | .connect _ presented _ => secret = none ∨ presented = secret
  | other => env.approve client other = true ∧ ∃ v, perform ctx env keys.user other = .ok v

/-- `error` and no `result`. -/
def IsError (response : Response) : Prop := response.result = none ∧ response.error ≠ none

theorem isError_withError (text : String) : IsError (.withError text) := ⟨rfl, Option.some_ne_none _⟩

/-- Whatever does not succeed is answered by an error. -/
theorem buildResponse_isError {secret : Option String} {client : PublicKey} {request : Request}
    (h : ¬Succeeds ctx env keys secret client request) :
    IsError (buildResponse ctx env keys secret client request) := by
  by_cases hmethod : request.method = .connect
  · cases request <;> cases hmethod
    rename_i pk presented perms
    simp only [Succeeds, not_or] at h
    obtain ⟨hsome, hne⟩ := h
    obtain ⟨s, rfl⟩ := Option.ne_none_iff_exists'.mp hsome
    change IsError (if presented = some s then _ else _)
    rw [if_neg hne]
    exact isError_withError _
  · rw [buildResponse_of_ne ctx env keys hmethod]
    split
    · rename_i happrove
      rcases handleAuthorized_eq ctx env keys request with ⟨v, hv, -⟩ | ⟨e, text, -, htext⟩
      · refine absurd ?_ h
        cases request <;> first | exact absurd rfl hmethod | exact ⟨happrove, v, hv⟩
      · rw [htext]
        exact isError_withError text
    · exact isError_withError _

/-! ## Which requests are answered -/

/-- The text of the reply. -/
def replyText (requestId : String) (response : Response) : String :=
  (Message.ofResponse ctx.json requestId response).asJson ctx.json

/-- A reply to this client that carries this id and this response. -/
def IsReply (client : PublicKey) (requestId : String) (response : Response) (reply : Event) : Prop :=
  reply.pubkey = keys.signer.publicKey ∧ reply.kind = kind ∧ reply.tags = ⟨[Tag.p client]⟩ ∧
    ∃ nonce, reply.content =
      ctx.crypto.nip44Seal keys.signer.secretKey client nonce (replyText ctx requestId response)

/-- A response that fits is published to the client. -/
theorem publishResponse_of_fits {client : PublicKey} {requestId : String} {response : Response} {nonce : Bytes}
    {now : Timestamp} (relays : List RelayUrl) (hentropy : env.replyEntropy = .ok nonce) (hclock : env.clock = .ok now)
    (hfits : Nip44.Fits (replyText ctx requestId response)) :
    ∃ reply, publishResponse ctx env keys relays client requestId response = [(relays, reply)] ∧
      IsReply ctx keys client requestId response reply := by
  have hseal : Nip44.encrypt ctx.crypto env.replyEntropy keys.signer.secretKey client
      (replyText ctx requestId response) = .ok _ := Nip44.encrypt_eq_ok_iff.mpr ⟨nonce, hentropy, hfits, rfl⟩
  obtain ⟨reply, hreply, hauthor, hkind, htags, hcontent⟩ := EventBuilder.signWithKeys_ok ctx.crypto now env.replyAux
    keys.signer ((EventBuilder.new kind (ctx.crypto.nip44Seal keys.signer.secretKey client nonce
      (replyText ctx requestId response))).tag (Tag.p client))
  refine ⟨reply, ?_, hauthor, hkind, htags, nonce, hcontent⟩
  rw [replyText] at hseal hreply
  rw [publishResponse]
  simp only [hseal, hclock, hreply]

theorem fits_of_publishResponse {client : PublicKey} {requestId : String} {response : Response}
    {relays : List RelayUrl} (h : publishResponse ctx env keys relays client requestId response ≠ []) :
    (∃ nonce, env.replyEntropy = .ok nonce) ∧ (∃ now, env.clock = .ok now) ∧
      Nip44.Fits (replyText ctx requestId response) := by
  rw [publishResponse] at h
  cases hseal : Nip44.encrypt ctx.crypto env.replyEntropy keys.signer.secretKey client
      ((Message.ofResponse ctx.json requestId response).asJson ctx.json) with
  | error e => simp [hseal] at h
  | ok ciphertext =>
      obtain ⟨nonce, hentropy, hfits, -⟩ := Nip44.encrypt_eq_ok_iff.mp hseal
      cases hclock : env.clock with
      | error text => simp [hseal, hclock, EventBuilder.signWithKeys_clock] at h
      | ok now => exact ⟨⟨nonce, hentropy⟩, ⟨now, rfl⟩, hfits⟩

/-- The event holds an object with a string id, a string method and an array of string params. -/
structure Asks (event : Event) (members : List (String × JsonContent)) (id method : String) (written : JsonContent)
    (params : List String) : Prop where
  opens : ∃ plain, Nip44.decrypt ctx.crypto keys.signer.secretKey event.pubkey event.content = .ok plain ∧
    ctx.json.read plain = some (.map members)
  id : ∃ c, ("id", c) ∈ members ∧ c.text = some id
  method : ("method", written) ∈ members ∧ written.text = some method
  params : ∃ c, ("params", c) ∈ members ∧ c.list JsonContent.text = some params

/-- One reply, to the client, under the id; an error unless the method is known, the params are well formed and the
    operation succeeds. -/
def Answered (relays : List RelayUrl) (secret : Option String) (event : Event) (id method : String)
    (params : List String) : Prop :=
  ∃ response reply, handleRequestEvent ctx env keys relays secret event = [(relays, reply)] ∧
    IsReply ctx keys event.pubkey id response reply ∧
    ((¬∃ m request, Method.fromStr method = .ok m ∧ Request.fromWire ctx.json m params = .ok request ∧
      Succeeds ctx env keys secret event.pubkey request) → IsError response)

/-- The three names are there once, the method is known and written without escapes, the params are its own, and
    the answer can be sent: it fits, and there are randomness and a clock. -/
def Answerable (secret : Option String) (event : Event) (members : List (String × JsonContent))
    (id method : String) (written : JsonContent) (params : List String) : Prop :=
  (Json.Unique members "id" ∧ Json.Unique members "method" ∧ Json.Unique members "params") ∧
    written.lent = some method ∧
    ((∃ nonce, env.replyEntropy = .ok nonce) ∧ ∃ now, env.clock = .ok now) ∧
    ∃ m request, Method.fromStr method = .ok m ∧ Request.fromWire ctx.json m params = .ok request ∧
      Nip44.Fits (replyText ctx id (buildResponse ctx env keys secret event.pubkey request))

/-- What is decoded from an object is what the variant `Request` makes of it. The envelope is read as the first
    variant that fits, and a response is no request. -/
theorem decodeRequest_eq_some_iff {event : Event} {members : List (String × JsonContent)} {id : String}
    {request : Request} (hopens : ∃ plain, Nip44.decrypt ctx.crypto keys.signer.secretKey event.pubkey event.content =
      .ok plain ∧ ctx.json.read plain = some (.map members)) :
    decodeRequest ctx keys event = some (id, request) ↔
      ∃ m params, Message.requestOf members = some (.request id m params) ∧
        Request.fromWire ctx.json m params = .ok request := by
  obtain ⟨plain, hplain, hread⟩ := hopens
  have hdecode : decodeRequest ctx keys event =
      match Message.ofContent (.map members) with
      | none => none
      | some envelope =>
          match envelope.intoRequest ctx.json with
          | .error _ => none
          | .ok request => some (envelope.id, request) := by
    simp only [decodeRequest, hplain, Message.fromJson, hread, Option.bind_some]
  rw [hdecode, Message.ofContent]
  cases hrequest : Message.requestOf members with
  | some message =>
      rw [Option.some_or]
      cases message with
      | request id' m params =>
          change (match Request.fromWire ctx.json m params with
            | .error _ => none
            | .ok request => some (id', request)) = some (id, request) ↔ _
          constructor
          · intro h
            cases hwire : Request.fromWire ctx.json m params with
            | error e => simp [hwire] at h
            | ok request' =>
                rw [hwire] at h
                cases h
                exact ⟨m, params, rfl, hwire⟩
          · rintro ⟨m', params', heq, hwire⟩
            cases heq
            rw [hwire]
      | response id' result error =>
          simp [Message.requestOf, Option.bind_eq_some_iff] at hrequest
  | none =>
      rw [Option.none_or]
      simp only [reduceCtorEq, false_and, exists_false, iff_false]
      cases hresponse : Message.responseOf members with
      | none => simp
      | some message =>
          cases message with
          | request id' m params => simp [Message.responseOf, Option.bind_eq_some_iff] at hresponse
          | response id' result error => simp [Message.intoRequest]

/-- Whether a request of these three values is decoded. Each of the three members is looked up by its name, which must
    be unique, and is there. -/
theorem decodeRequest_of_asks {event : Event} {members : List (String × JsonContent)} {id method : String}
    {written : JsonContent} {params : List String} (h : Asks ctx keys event members id method written params)
    {id' : String} {request : Request} :
    decodeRequest ctx keys event = some (id', request) ↔
      id' = id ∧
      (Json.Unique members "id" ∧ Json.Unique members "method" ∧ Json.Unique members "params") ∧
      written.lent = some method ∧
      ∃ m, Method.fromStr method = .ok m ∧ Request.fromWire ctx.json m params = .ok request := by
  obtain ⟨hopens, ⟨cid, hcid, hid⟩, ⟨hwritten, hmethod⟩, ⟨cparams, hcparams, hparams⟩⟩ := h
  rw [decodeRequest_eq_some_iff ctx keys hopens]
  have hrequest : ∀ m ps, Message.requestOf members = some (.request id' m ps) ↔
      Json.required members "id" JsonContent.text = some id' ∧
      Json.required members "method" Method.ofContent = some m ∧
      Json.required members "params" (JsonContent.list JsonContent.text) = some ps := by
    intro m ps
    simp [Message.requestOf, Option.bind_eq_some_iff]
  have hname : ∀ m, Method.ofContent written = some m ↔
      written.lent = some method ∧ Method.fromStr method = .ok m := by
    intro m
    rw [Method.ofContent, Option.bind_eq_some_iff]
    constructor
    · rintro ⟨s, hlent, hs⟩
      have hsame := JsonContent.text_of_lent hlent
      rw [hmethod] at hsame
      cases hsame
      cases hfrom : Method.fromStr method with
      | error e => simp [hfrom, Except.toOption] at hs
      | ok m' =>
          rw [hfrom] at hs
          cases hs
          exact ⟨hlent, rfl⟩
    · rintro ⟨hlent, hs⟩
      exact ⟨method, hlent, by rw [hs]; rfl⟩
  simp only [hrequest, Json.required_eq_some_of_mem hcid, Json.required_eq_some_of_mem hwritten,
    Json.required_eq_some_of_mem hcparams, hid, hparams, hname, Option.some.injEq]
  constructor
  · rintro ⟨m, ps, ⟨⟨huid, rfl⟩, ⟨humethod, hlent, hm⟩, huparams, rfl⟩, hwire⟩
    exact ⟨rfl, ⟨huid, humethod, huparams⟩, hlent, m, hm, hwire⟩
  · rintro ⟨rfl, ⟨huid, humethod, huparams⟩, hlent, m, hm, hwire⟩
    exact ⟨m, params, ⟨⟨huid, rfl⟩, ⟨humethod, hlent, hm⟩, huparams, rfl⟩, hwire⟩

theorem handleRequestEvent_of_decode {event : Event} {id : String} {request : Request} (relays : List RelayUrl)
    (secret : Option String) (h : decodeRequest ctx keys event = some (id, request)) :
    handleRequestEvent ctx env keys relays secret event =
      publishResponse ctx env keys relays event.pubkey id
        (buildResponse ctx env keys secret event.pubkey request) := by
  rw [handleRequestEvent, h]

/-- **A request is answered exactly if it can be**: if it decodes, and its answer fits into an encryption. -/
theorem answered_iff_answerable {event : Event} {members : List (String × JsonContent)} {id method : String}
    {written : JsonContent} {params : List String} (relays : List RelayUrl) (secret : Option String)
    (h : Asks ctx keys event members id method written params) :
    Answered ctx env keys relays secret event id method params ↔
      Answerable ctx env keys secret event members id method written params := by
  constructor
  · rintro ⟨response, reply, hhandle, -, -⟩
    cases hdecode : decodeRequest ctx keys event with
    | none => simp [handleRequestEvent, hdecode] at hhandle
    | some decoded =>
        obtain ⟨id', request⟩ := decoded
        obtain ⟨rfl, hunique, hlent, m, hm, hwire⟩ := (decodeRequest_of_asks ctx keys h).mp hdecode
        rw [handleRequestEvent_of_decode ctx env keys relays secret hdecode] at hhandle
        obtain ⟨hentropy, hclock, hfits⟩ := fits_of_publishResponse ctx env keys (by rw [hhandle]; exact nofun)
        exact ⟨hunique, hlent, ⟨hentropy, hclock⟩, m, request, hm, hwire, hfits⟩
  · rintro ⟨hunique, hlent, ⟨⟨nonce, hentropy⟩, now, hclock⟩, m, request, hm, hwire, hfits⟩
    have hdecode := (decodeRequest_of_asks ctx keys h).mpr ⟨rfl, hunique, hlent, m, hm, hwire⟩
    obtain ⟨reply, hpublish, hreply⟩ := publishResponse_of_fits ctx env keys relays hentropy hclock hfits
    refine ⟨_, reply, ?_, hreply, fun hfails => buildResponse_isError ctx env keys ?_⟩
    · rw [handleRequestEvent_of_decode ctx env keys relays secret hdecode, hpublish]
    · intro hsucceeds
      exact hfails ⟨m, request, hm, hwire, hsucceeds⟩

/-- The members serve as a response but not as a request. -/
def ReadsAsResponse (members : List (String × JsonContent)) : Prop :=
  (∃ id, Json.required members "id" JsonContent.text = some id) ∧
    (∃ result, Json.optional members "result" JsonContent.text = some result) ∧
    (∃ error, Json.optional members "error" JsonContent.text = some error) ∧
    (Json.required members "method" Method.ofContent = none ∨
      Json.required members "params" (JsonContent.list JsonContent.text) = none)

theorem ofContent_eq_response_iff {members : List (String × JsonContent)} :
    (∃ id result error, Message.ofContent (.map members) = some (.response id result error)) ↔
      ReadsAsResponse members := by
  rw [Message.ofContent]
  cases hid : Json.required members "id" JsonContent.text with
  | none => simp [ReadsAsResponse, Message.requestOf, Message.responseOf, hid]
  | some id =>
      cases hmethod : Json.required members "method" Method.ofContent <;>
        cases hparams : Json.required members "params" (JsonContent.list JsonContent.text) <;>
        simp [ReadsAsResponse, Message.requestOf, Message.responseOf, hid, hmethod, hparams,
          Option.bind_eq_some_iff]

/-- **Which requests are answered.** A request gets its one reply exactly when its three names are there once, its
    method is known and written without escapes, its params are that method's, and the reply can be sent; an object
    with a method is taken for a response exactly when it serves as one and its method or params do not.

    A request goes through decoding, the handler and the reply, and each has one lemma that says when it succeeds
    (`answered_iff_answerable`); an object with a method is tried as a request first. -/
theorem answered_iff :
    (∀ event members id method written params, Asks ctx keys event members id method written params →
      ∀ relays secret, Answered ctx env keys relays secret event id method params ↔
        Answerable ctx env keys secret event members id method written params) ∧
    ∀ members : List (String × JsonContent), (∃ c, ("method", c) ∈ members) →
      ((∀ id result error, Message.ofContent (.map members) ≠ some (.response id result error)) ↔
        ¬ReadsAsResponse members) := by
  constructor
  · intro event members id method written params hasks relays secret
    exact answered_iff_answerable ctx env keys relays secret hasks
  · intro members _
    rw [← ofContent_eq_response_iff]
    simp only [not_exists, ne_eq]

end

/-- `ping` is answered, and taken for no response. -/
theorem answered_iff_ping :
    let members : List (String × JsonContent) := [("id", .str "1"), ("method", .str "ping"), ("params", .seq [])]
    Answered Sample.ctx Sample.env Sample.keys [] none (Sample.requestEvent Sample.alice "1" .ping) "1" "ping" [] ∧
      ∀ id result error, Message.ofContent (.map members) ≠ some (.response id result error) := by
  intro members
  have hasks : Asks Sample.ctx Sample.keys (Sample.requestEvent Sample.alice "1" .ping) members "1" "ping"
      (.str "ping") [] := by
    refine ⟨⟨_, rfl, ?_⟩, ⟨_, List.mem_cons_self, rfl⟩, ⟨by simp [members], rfl⟩, ⟨.seq [], by simp [members], rfl⟩⟩
    exact Sample.ctx.json.read_write _ (Message.depth_toJson _)
  obtain ⟨hanswered, hresponse⟩ := answered_iff Sample.ctx Sample.env Sample.keys
  constructor
  · refine (hanswered _ _ _ _ _ _ hasks [] none).mpr ?_
    exact ⟨⟨rfl, rfl, rfl⟩, rfl, ⟨⟨[], rfl⟩, _, rfl⟩, .ping, .ping, rfl, rfl, by decide +kernel⟩
  · refine (hresponse members ⟨.str "ping", by simp [members]⟩).mpr ?_
    rintro ⟨-, -, -, hmethod | hparams⟩
    · cases hmethod
    · cases hparams

/-- An unknown method: no reply, and the request passes for a response. -/
theorem unknown_method_unanswered :
    let members : List (String × JsonContent) := [("id", .str "1"), ("method", .str "foo"), ("params", .seq [])]
    let event := Sample.carrying Sample.alice
      (Json.write (.object [("id", .string "1"), ("method", .string "foo"), ("params", .array [])]))
    Asks Sample.ctx Sample.keys event members "1" "foo" (.str "foo") [] ∧
      handleRequestEvent Sample.ctx Sample.env Sample.keys [] none event = [] ∧
      Message.ofContent (.map members) = some (.response "1" none none) := by
  intro members event
  have hread : Sample.ctx.json.read event.content = some (.map members) :=
    Sample.ctx.json.read_write _ (by decide)
  have hasks : Asks Sample.ctx Sample.keys event members "1" "foo" (.str "foo") [] :=
    ⟨⟨_, rfl, hread⟩, ⟨_, List.mem_cons_self, rfl⟩, ⟨by simp [members], rfl⟩, ⟨.seq [], by simp [members], rfl⟩⟩
  refine ⟨hasks, ?_, rfl⟩
  cases hdecode : decodeRequest Sample.ctx Sample.keys event with
  | none => rw [handleRequestEvent, hdecode]
  | some decoded =>
      obtain ⟨-, -, -, m, hm, -⟩ := (decodeRequest_of_asks Sample.ctx Sample.keys hasks).mp hdecode
      cases hm

end Nula.Signer
