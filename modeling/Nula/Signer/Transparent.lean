import Nula.Signer.Dispatcher
import Nula.Lib.Yields

/-!
# `Signer.Transparent` — what envelopes do to values

A result is one string, read by the method it answers, and two strings mean something else whatever the method is.
A value with such a string in it does not come back (`fromWire_toWire`); every other one does, and so a request
put to an honest signer yields what the user's own key would have yielded (`transparent_iff`).
-/

namespace Nula.Signer

open Nip46

/-! ## Results -/

/-- The control words. -/
def Sentinel (s : String) : Prop := s = "auth_url" ∨ s = "error"

/-- The result is written as another one. -/
def Shadowed (x : ResponseResult) : Prop :=
  (∃ s, x.userText = some s ∧ Sentinel s) ∨ x = .connectSecret "ack"

section

variable (json : JsonCodec) (urls : UrlCrate)

/-- The sentinel is read as such, whatever was asked. -/
theorem fromWire_of_sentinel (method : Method) {s : String} (h : Sentinel s) :
    ResponseResult.fromWire json urls method s = .ok .authUrl ∨
      ResponseResult.fromWire json urls method s = .ok .error := by
  rcases h with rfl | rfl
  · exact Or.inl rfl
  · exact Or.inr rfl

/-- Text that is read as JSON is no control word. -/
theorem not_sentinel_of_read {s : String} {c : JsonContent} (h : json.read s = some c) : ¬Sentinel s := by
  rintro (rfl | rfl)
  · have hnone := json.read_word 'a' "uth_url".toList (by decide) (by decide)
    cases h.symm.trans hnone
  · have hnone := json.read_word 'e' "rror".toList (by decide) (by decide)
    cases h.symm.trans hnone

theorem not_sentinel_toHex (pk : PublicKey) : ¬Sentinel pk.toHex := by
  intro h
  have hparse := PublicKey.parse_toHex pk
  rcases h with h | h
  · rw [h] at hparse
    revert hparse
    exact nofun
  · rw [h] at hparse
    revert hparse
    exact nofun

theorem trim_write (v : JsonValue) : trim (json.write v) = json.write v := trim_of_visible (json.write_ends v)

theorem depth_urls (relays : List RelayUrl) :
    (JsonValue.array (relays.map (fun url => .string url.asStr))).depth ≤ Json.maxDepth := by
  have hflat : (JsonValue.array (relays.map (fun url => .string url.asStr))).depth ≤ 1 := by
    apply depth_array_le
    intro v hv
    obtain ⟨url, -, rfl⟩ := List.mem_map.mp hv
    exact le_rfl
  exact hflat.trans (by decide)

/-- A list of relays is read back from its texts. -/
theorem parseRelays_asStr (laws : RelayUrl.Lawful urls) {relays : List RelayUrl}
    (h : ∀ url ∈ relays, ∃ s, RelayUrl.parse urls s = .ok url) :
    ResponseResult.parseRelays urls (relays.map RelayUrl.asStr) = .ok relays := by
  induction relays with
  | nil => rfl
  | cons url relays ih =>
      obtain ⟨s, hs⟩ := h url List.mem_cons_self
      have htail := ih (fun url hurl => h url (List.mem_cons_of_mem _ hurl))
      rw [ResponseResult.parseRelays] at htail ⊢
      rw [List.map_cons, List.mapM_cons, RelayUrl.parse_asStr laws hs, htail]
      rfl

theorem fromWire_switchRelays (laws : RelayUrl.Lawful urls) {relays : List RelayUrl}
    (h : ∀ url ∈ relays, ∃ s, RelayUrl.parse urls s = .ok url) :
    ResponseResult.fromWire json urls .switchRelays (ResponseResult.toWire json (.switchRelays (some relays))) =
      .ok (.switchRelays (some relays)) := by
  have hread := json.read_write _ (depth_urls relays)
  have hword := not_sentinel_of_read json hread
  have hnull : json.write (.array (relays.map (fun url => .string url.asStr))) ≠ "null" := by
    intro heq
    have hnone := json.read_write .null (Nat.zero_le _)
    rw [json.write_null, ← heq, hread] at hnone
    cases hnone
  have hlist : (JsonValue.array (relays.map (fun url => .string url.asStr))).content.list JsonContent.text =
      some (relays.map RelayUrl.asStr) := by
    have hmap : relays.map (fun url => JsonValue.string url.asStr) = (relays.map RelayUrl.asStr).map .string := by
      rw [List.map_map]
      rfl
    rw [hmap]
    exact JsonContent.list_content JsonContent.text_content _
  obtain ⟨hauth, herror⟩ := not_or.mp hword
  simp only [ResponseResult.toWire, ResponseResult.fromWire, if_neg hauth, if_neg herror, trim_write, if_neg hnull,
    hread, Option.bind_some, hlist, parseRelays_asStr urls laws h]
  rfl

/-- A result with a user's text in it: the text is read back, unless it is a control word. -/
theorem fromWire_text_iff {method : Method} {x : ResponseResult} {s : String} (htext : x.userText = some s)
    (hwire : ¬Sentinel s → (ResponseResult.fromWire json urls method s = .ok x ↔ x ≠ .connectSecret "ack")) :
    ResponseResult.fromWire json urls method s = .ok x ↔ ¬Shadowed x := by
  by_cases hword : Sentinel s
  · have hshadowed : Shadowed x := Or.inl ⟨s, htext, hword⟩
    refine iff_of_false (fun hok => ?_) (not_not.mpr hshadowed)
    rcases fromWire_of_sentinel json urls method hword with h | h
    · rw [h] at hok
      cases hok
      cases htext
    · rw [h] at hok
      cases hok
      cases htext
  · rw [hwire hword, Shadowed, htext]
    simp [hword]

/-- **Which results survive the wire.** A result that answers a method is read back from its string exactly when
    its text is neither a control word nor, for a secret, `ack`. -/
theorem fromWire_toWire (laws : RelayUrl.Lawful urls) {method : Method} {x : ResponseResult}
    (h : ResponseResult.Answers urls method x) :
    ResponseResult.fromWire json urls method (x.toWire json) = .ok x ↔ ¬Shadowed x := by
  -- a result without a user's text is never shadowed
  have hplain : x.userText = none → (¬Shadowed x ↔ True) := by
    intro hnone
    simp only [iff_true]
    rintro (⟨s, hs, -⟩ | rfl)
    · rw [hnone] at hs
      cases hs
    · cases hnone
  cases x with
  | authUrl => exact iff_of_true rfl ((hplain rfl).mpr trivial)
  | error => exact iff_of_true rfl ((hplain rfl).mpr trivial)
  | ack =>
      cases method <;> first | exact h.elim | exact iff_of_true rfl ((hplain rfl).mpr trivial)
  | pong =>
      cases method <;> first | exact h.elim | exact iff_of_true rfl ((hplain rfl).mpr trivial)
  | getPublicKey pk =>
      cases method <;> first | exact h.elim | skip
      refine iff_of_true ?_ ((hplain rfl).mpr trivial)
      obtain ⟨hauth, herror⟩ := not_or.mp (not_sentinel_toHex pk)
      simp only [ResponseResult.toWire, ResponseResult.fromWire, if_neg hauth, if_neg herror, Request.parseKey_toHex]
      rfl
  | signEvent event =>
      cases method <;> first | exact h.elim | skip
      refine iff_of_true ?_ ((hplain rfl).mpr trivial)
      have hread := json.read_write _ event.depth_toJson
      obtain ⟨hauth, herror⟩ := not_or.mp (not_sentinel_of_read json hread)
      have hevent := Event.fromJson_asJson json event
      rw [Event.asJson] at hevent
      simp only [ResponseResult.toWire, ResponseResult.fromWire, Event.asJson, if_neg hauth, if_neg herror, hevent]
  | switchRelays relays =>
      cases method <;> first | exact h.elim | skip
      refine iff_of_true ?_ ((hplain rfl).mpr trivial)
      cases relays with
      | none =>
          have htrim := trim_write json .null
          rw [json.write_null] at htrim
          simp [ResponseResult.toWire, ResponseResult.fromWire, htrim]
      | some relays => exact fromWire_switchRelays json urls laws (h relays rfl)
  | connectSecret s =>
      cases method <;> first | exact h.elim | skip
      refine fromWire_text_iff json urls (s := s) rfl (fun hword => ?_)
      obtain ⟨hauth, herror⟩ := not_or.mp hword
      by_cases hack : s = "ack"
      · simp [ResponseResult.fromWire, hack]
      · simp [ResponseResult.fromWire, hauth, herror, hack]
  | nip04Encrypt s | nip04Decrypt s | nip44Encrypt s | nip44Decrypt s =>
      cases method <;> first | exact h.elim | skip
      refine fromWire_text_iff json urls (s := s) rfl (fun hword => ?_)
      obtain ⟨hauth, herror⟩ := not_or.mp hword
      simp [ResponseResult.fromWire, hauth, herror]

end

/-! ## Requests -/

section

variable (ctx : Ctx) (env : Env) (keys : NostrConnectKeys)

/-- A request on its way to the bunker and back. -/
def remote (secret : Option String) (client : PublicKey) (id : String) (request : Request) : Option Decoded := do
  let envelope ← Message.fromJson ctx.json ((Message.ofRequest ctx.json id request).asJson ctx.json)
  let received ← (envelope.intoRequest ctx.json).toOption
  let answer ← Message.fromJson ctx.json
    (replyText ctx envelope.id (buildResponse ctx env keys secret client received))
  match answer with
  | .response _ result error => return decodeResponse ctx.json ctx.urls request.method result error
  | .request .. => none

/-- The caller gets the value of the operation where it has one, and an error where it fails. -/
def Transparent (secret : Option String) (client : PublicKey) (id : String) (request : Request) : Prop :=
  (∀ v, remote ctx env keys secret client id request = some (.result (.ok v)) ↔
    perform ctx env keys.user request = .ok v) ∧
  ((∃ e, remote ctx env keys secret client id request = some (.result (.error e))) ↔
    ∃ e, perform ctx env keys.user request = .error e)

/-- What the bunker makes of a request that is approved. -/
theorem remote_eq {secret : Option String} {client : PublicKey} {id : String} {request : Request}
    (hmethod : request.method ≠ .connect) (happrove : env.approve client request = true) :
    remote ctx env keys secret client id request =
      some (decodeResponse ctx.json ctx.urls request.method
        ((handleAuthorized ctx env keys request).result.map (·.toWire ctx.json))
        (handleAuthorized ctx env keys request).error) := by
  have hread := Request.fromWire_params ctx.json hmethod
  have hbuild : buildResponse ctx env keys secret client request = handleAuthorized ctx env keys request := by
    rw [buildResponse_of_ne ctx env keys hmethod, if_pos happrove]
  simp only [remote, Message.fromJson_asJson, Message.ofRequest, Option.bind_eq_bind, Option.bind_some,
    Message.intoRequest, hread, Except.toOption, replyText, Message.id, hbuild, Message.ofResponse]
  rfl

/-- An operation answers its method, and with no control word. -/
theorem perform_answers {request : Request} {v : ResponseResult}
    (h : perform ctx env keys.user request = .ok v) : ResponseResult.Answers ctx.urls request.method v ∧
      v ≠ .authUrl ∧ v ≠ .connectSecret "ack" := by
  cases request with
  | connect pk secret perms => cases h
  | getPublicKey | ping =>
      cases h
      exact ⟨trivial, nofun, nofun⟩
  | switchRelays =>
      cases h
      exact ⟨nofun, nofun, nofun⟩
  | signEvent unsigned =>
      obtain ⟨event, -, rfl⟩ := map_ok_iff.mp h
      exact ⟨trivial, nofun, nofun⟩
  | nip04Encrypt peer text | nip44Encrypt peer text =>
      obtain ⟨ciphertext, -, rfl⟩ := map_ok_iff.mp h
      exact ⟨trivial, nofun, nofun⟩
  | nip04Decrypt peer ciphertext | nip44Decrypt peer ciphertext =>
      obtain ⟨plaintext, -, rfl⟩ := map_ok_iff.mp h
      exact ⟨trivial, nofun, nofun⟩

/-- **One request is transparent** exactly if what the signer returns is no sentinel, and comes back from its text.
    Two cases, as the operation gives a value or fails; a failure comes back as the rejection that it is. -/
theorem transparent_request_iff (laws : RelayUrl.Lawful ctx.urls) {secret : Option String} {client : PublicKey}
    {id : String} {request : Request} (hmethod : request.method ≠ .connect)
    (happrove : env.approve client request = true) :
    Transparent ctx env keys secret client id request ↔
      ∀ v s, perform ctx env keys.user request = .ok v → v.userText = some s → ¬Sentinel s := by
  rw [Transparent, remote_eq ctx env keys hmethod happrove]
  rcases handleAuthorized_eq ctx env keys request with ⟨v, hv, hresponse⟩ | ⟨e, text, he, hresponse⟩
  · obtain ⟨hanswers, hauth, hack⟩ := perform_answers ctx env keys hv
    have hshadowed : Shadowed v ↔ ∃ s, v.userText = some s ∧ Sentinel s := or_iff_left hack
    have hwire := fromWire_toWire ctx.json ctx.urls laws hanswers
    rw [hshadowed] at hwire
    rw [hresponse, hv]
    simp only [Response.withResult, Option.map_some, Except.ok.injEq, reduceCtorEq, exists_false, iff_false,
      Option.some.injEq]
    constructor
    · rintro ⟨hvalues, -⟩ v' s rfl hs hword
      obtain ⟨t, ht, -, hok, -⟩ := (decodeResponse_eq_ok_iff ctx.json ctx.urls).mp ((hvalues v).mpr rfl)
      cases ht
      exact hwire.mp hok ⟨s, hs, hword⟩
    · intro h
      have hok := hwire.mpr (fun ⟨s, hs, hword⟩ => h v s rfl hs hword)
      have hdecoded : decodeResponse ctx.json ctx.urls request.method (some (v.toWire ctx.json)) none =
          .result (.ok v) := (decodeResponse_eq_ok_iff ctx.json ctx.urls).mpr ⟨_, rfl, rfl, hok, hauth⟩
      rw [hdecoded]
      simp
  · rw [hresponse, he]
    have hdecoded : decodeResponse ctx.json ctx.urls request.method none (some text) =
        .result (.error (.rejected request.method text)) := by
      simp [decodeResponse, Response.fromWire]
    simp [Response.withError, hdecoded]

/-- **What a remote signer changes.** An approved request comes back as the operation's own value or error exactly
    when the value is not a text that is a control word, and a result is read back from its string exactly when it
    is neither such a text nor a secret `ack`.

    A result comes back unless the decoder takes its text for a control word, which it looks for before it looks at
    the method (`fromWire_of_sentinel`); the rest is one round trip for each method. -/
theorem transparent_iff (laws : RelayUrl.Lawful ctx.urls) :
    (∀ secret client id request, request.method ≠ .connect → env.approve client request = true →
      (Transparent ctx env keys secret client id request ↔
        ∀ v s, perform ctx env keys.user request = .ok v → v.userText = some s → ¬Sentinel s)) ∧
    ∀ method x, ResponseResult.Answers ctx.urls method x →
      (ResponseResult.fromWire ctx.json ctx.urls method (x.toWire ctx.json) = .ok x ↔ ¬Shadowed x) := by
  constructor
  · intro secret client id request hmethod happrove
    exact transparent_request_iff ctx env keys laws hmethod happrove
  · intro method x hanswers
    exact fromWire_toWire ctx.json ctx.urls laws hanswers

end

/-- The sample crate is lawful: it changes nothing. -/
theorem Sample.urls_lawful : RelayUrl.Lawful Sample.ctx.urls where
  reparse url h := by
    induction h with
    | @parse s url hparse =>
        change (if _ then _ else _) = _ at hparse
        change (if _ then _ else _) = _
        split at hparse
        · cases hparse
          rw [if_pos ‹_›]
        · cases hparse
    | clearFragment _ ih => exact ih
    | clearPort _ hsame ih =>
        cases hsame
        exact ih
  scheme_clearFragment _ _ := rfl
  hostStr_clearFragment _ _ := rfl
  clearFragment_again _ _ := rfl
  scheme_clearPort _ _ _ _ := rfl
  hostStr_clearPort _ _ _ h := by
    cases h
    rfl
  port_clearPort _ _ _ _ := rfl
  fragment_clearPort _ _ _ _ _ := rfl

/-- A payload that opens to `hello` comes back as it is. -/
theorem transparent_iff_hello :
    Transparent Sample.ctx Sample.env Sample.keys none Sample.bob "1" (.nip44Decrypt Sample.alice "hello") ∧
      ResponseResult.fromWire Sample.ctx.json Sample.ctx.urls .nip44Decrypt "hello" = .ok (.nip44Decrypt "hello") := by
  obtain ⟨hrequests, hresults⟩ := transparent_iff Sample.ctx Sample.env Sample.keys Sample.urls_lawful
  have hhello : ¬Sentinel "hello" := by
    rw [Sentinel]
    decide
  constructor
  · refine (hrequests none Sample.bob "1" (.nip44Decrypt Sample.alice "hello") (by decide) rfl).mpr ?_
    intro v s hv hs
    cases hv
    cases hs
    exact hhello
  · refine (hresults .nip44Decrypt (.nip44Decrypt "hello") trivial).mpr ?_
    rintro (⟨s, hs, hword⟩ | h)
    · cases hs
      exact hhello hword
    · cases h

/-- A payload that opens to `error` comes back as another result. -/
theorem error_opaque :
    ¬Transparent Sample.ctx Sample.env Sample.keys none Sample.bob "1" (.nip44Decrypt Sample.alice "error") ∧
      ResponseResult.fromWire Sample.ctx.json Sample.ctx.urls .nip44Decrypt
        (ResponseResult.toWire Sample.ctx.json (.nip44Decrypt "error")) ≠ .ok (.nip44Decrypt "error") := by
  constructor
  · intro h
    have hremote := (h.1 (.nip44Decrypt "error")).mpr rfl
    rw [remote_eq Sample.ctx Sample.env Sample.keys (by decide) rfl] at hremote
    cases hremote
  · exact nofun

end Nula.Signer
