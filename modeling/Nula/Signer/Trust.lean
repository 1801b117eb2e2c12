import Nula.Lib.Always
import Nula.Signer.Client
import Nula.Signer.Transparent

/-!
# `Signer.Trust` — what a client makes of a signed event

The event that answers `sign_event` travels as a text in a response. A reply says what its response says
(`brings_run`), so `sign_event` gives the event that the text holds, whichever it is (`trusted_iff`).
-/

namespace Nula.Signer

open Nip46

section

variable (cfg : Config)

/-! ## Where replies come from -/

/-- A reply says what its response says. One case for each action; what goes into a channel is a failure, or what the
    response says. -/
theorem brings_step {s : State} (h : s.table.Brings (Faithful cfg)) (a : Action) :
    (step cfg s a).table.Brings (Faithful cfg) := by
  have hfailure : ∀ e request, Faithful cfg request (.failure e) := fun e request => faithful_failure cfg request e
  cases a with
  | dispatch id request entropy aux clock =>
      rcases dispatch_cases cfg s id request entropy aux clock with ⟨e, heq⟩ | ⟨-, e, event, heq⟩
      · rw [step, heq]
        exact h.append _ rfl
      · rw [step, heq]
        refine h.enter request (fun i c r hold hr => ?_)
        rcases Channel.send_eq_sent hr with hsame | rfl
        · exact hold hsame
        · exact hfailure e i
  | published n outcome =>
      rcases published_cases s n outcome with
        heq | ⟨c, -, -, ⟨text, -, heq⟩ | ⟨failed, reply, -, hreply, heq⟩ | ⟨-, heq⟩⟩
      · rwa [step, heq]
      · rw [step, heq]
        exact h.finish
      · rw [step, heq, hreply]
        exact (h.drain (hfailure _)).finish
      · rw [step, heq]
        exact h.await
  | receive n => exact h.receive
  | timeout n =>
      rcases expire_cases s n with heq | ⟨c, -, -, -, heq⟩
      · rwa [step, heq]
      · rw [step, heq]
        exact h.finish
  | event e =>
      rw [step]
      rcases handleEvent_cases cfg s e with ⟨-, -, heq⟩ | ⟨heard, -, -, heq⟩ |
        ⟨heard, n, call, -, -, -, -, hcall, htook⟩
      · rwa [heq]
      · rw [heq]
        exact h
      · generalize handleEvent cfg s e = next at htook
        cases htook with
        | answer value hfaithful =>
            refine InFlight.Brings.send (t := s.table.remove heard.id) h (fun c hc => ?_)
            obtain rfl := Option.some.inj (hcall.symm.trans hc)
            exact hfaithful
        | park _ _ => exact h
  | authUrlHandled outcome =>
      cases outcome with
      | ok u => exact h.unpark
      | error text => exact h.failParked (hfailure _)

/-- Every answer is faithful to a response that was heard, in every run. -/
theorem brings_run (actions : List Action) : (run cfg actions).table.Brings (Faithful cfg) := by
  induction actions using List.reverseRecOn with
  | nil => exact InFlight.brings_empty
  | append_singleton actions a ih =>
      rw [run_append_singleton]
      exact brings_step cfg ih a

/-! ## What `sign_event` gives -/

/-- `NostrConnect::sign_event`, from what `dispatch` returned. -/
def signEvent (json : JsonCodec) (r : Except Error ResponseResult) : Except Error Event :=
  match r with
  | .error e => .error e
  | .ok (.signEvent event) => .ok event
  | .ok other => .error (.rejected .signEvent ("unexpected response: " ++ other.toWire json))

/-- `From<Error> for SignerError`; the texts of the other errors are a parameter. -/
def mapError (display : Error → String) : Error → SignerError
  | .rejected method message => .rejected message (some method.asStr)
  | other => .backend (display other)

/-- `sign_event` of `NostrSigner for NostrConnect`. -/
def signerSignEvent (json : JsonCodec) (display : Error → String) (r : Except Error ResponseResult) :
    Except SignerError Event :=
  (signEvent json r).mapError (mapError display)

/-- Signing succeeds with the event of the response. -/
theorem signEvent_eq_ok_iff {json : JsonCodec} {r : Except Error ResponseResult} {e : Event} :
    signEvent json r = .ok e ↔ r = .ok (.signEvent e) := by
  constructor
  · intro h
    unfold signEvent at h
    split at h
    · cases h
    · cases h
      rfl
    · cases h
  · rintro rfl
    rfl

theorem signerSignEvent_eq_ok_iff {json : JsonCodec} {display : Error → String} {r : Except Error ResponseResult}
    {e : Event} : signerSignEvent json display r = .ok e ↔ signEvent json r = .ok e := by
  rw [signerSignEvent]
  cases signEvent json r <;> simp [Except.mapError]

/-- The event that was asked for, with a good id and a good signature. -/
def Genuine (ctx : Ctx) (u : UnsignedEvent) (e : Event) : Prop :=
  e.verify ctx.crypto.toCrypto = .ok () ∧ e.pubkey = u.pubkey ∧ e.createdAt = u.createdAt ∧ e.kind = u.kind ∧
    e.tags = u.tags ∧ e.content = u.content

/-- Whatever `sign_event` gives is genuine, called directly or as a `NostrSigner`. -/
def Trusted (display : Error → String) (request : Request) (reply : Reply) : Prop :=
  ∀ u, request = .signEvent u → ∀ e,
    (signEvent cfg.ctx.json reply.value = .ok e ∨ signerSignEvent cfg.ctx.json display reply.value = .ok e) →
      Genuine cfg.ctx u e

/-- A call of `sign_event` that takes its answer finds the event it asked for in the text of the response. -/
def TextGenuine (s : State) (a : Action) : Prop :=
  ∀ n, a = .receive n → ∀ c reply heard u text e, s.table.calls[n]? = some c → c.phase = .waiting →
    c.channel = .sent reply → reply.response = some heard → c.request = .signEvent u →
      heard.result = some text → heard.error = none → Event.fromJson cfg.ctx.json text = some e →
        Genuine cfg.ctx u e

/-- **An event is what the text says**, unchecked. -/
theorem fromWire_signEvent_iff {json : JsonCodec} {urls : UrlCrate} {text : String} {e : Event} :
    ResponseResult.fromWire json urls .signEvent text = .ok (.signEvent e) ↔ Event.fromJson json text = some e := by
  by_cases hword : Sentinel text
  · have hread : Event.fromJson json text ≠ some e := by
      intro h
      obtain ⟨c, hc, -⟩ := Option.bind_eq_some_iff.mp h
      exact not_sentinel_of_read json hc hword
    refine iff_of_false ?_ hread
    rcases fromWire_of_sentinel json urls .signEvent hword with h | h
    · rw [h]
      exact nofun
    · rw [h]
      exact nofun
  · obtain ⟨hauth, herror⟩ := not_or.mp hword
    simp only [ResponseResult.fromWire, if_neg hauth, if_neg herror]
    cases Event.fromJson json text <;> simp

/-- A faithful reply gives the event that is in the text of its response. -/
theorem value_eq_signEvent_iff {u : UnsignedEvent} {reply : Reply} {e : Event}
    (h : Faithful cfg (.signEvent u) reply) : reply.value = .ok (.signEvent e) ↔
      ∃ heard text, reply.response = some heard ∧ heard.result = some text ∧ heard.error = none ∧
        Event.fromJson cfg.ctx.json text = some e := by
  have htells : ∀ heard, tells cfg (.signEvent u) heard = .result (.ok (.signEvent e)) ↔
      ∃ text, heard.result = some text ∧ heard.error = none ∧ Event.fromJson cfg.ctx.json text = some e := by
    intro heard
    rw [tells, decodeResponse_eq_ok_iff]
    simp only [Request.method, fromWire_signEvent_iff]
    simp
  obtain ⟨value, response⟩ := reply
  cases response with
  | none =>
      obtain ⟨err, rfl⟩ := h
      simp
  | some heard =>
      simp only [Option.some.injEq, exists_and_left, exists_eq_left', ← htells]
      rcases h with h | ⟨⟨target, h⟩, err, hvalue⟩
      · rw [h]
        simp
      · rw [h]
        simp only at hvalue
        simp [hvalue]

theorem trusted_failure (display : Error → String) (request : Request) (e : Error) :
    Trusted cfg display request (.failure e) := by
  rintro u - event (h | h)
  · cases h
  · cases h

/-- A reply is to be trusted exactly if the text it came from is a signed event of the user's, as it was asked for. -/
theorem trusted_iff_text {display : Error → String} {request : Request} {reply : Reply}
    (h : Faithful cfg request reply) : Trusted cfg display request reply ↔
      ∀ heard u text e, reply.response = some heard → request = .signEvent u → heard.result = some text →
        heard.error = none → Event.fromJson cfg.ctx.json text = some e → Genuine cfg.ctx u e := by
  simp only [Trusted, signerSignEvent_eq_ok_iff, or_self, signEvent_eq_ok_iff]
  constructor
  · intro htrusted heard u text e hresponse hrequest hresult herror hevent
    rw [hrequest] at h
    exact htrusted u hrequest e ((value_eq_signEvent_iff cfg h).mpr ⟨heard, text, hresponse, hresult, herror, hevent⟩)
  · intro htext u hrequest e hvalue
    rw [hrequest] at h
    obtain ⟨heard, text, hresponse, hresult, herror, hevent⟩ := (value_eq_signEvent_iff cfg h).mp hvalue
    exact htext heard u text e hresponse hrequest hresult herror hevent

/-- A call that receives returns what is in its channel. Three cases: the call does not wait, takes its reply, or
    finds its channel closed. -/
theorem trusted_receive {display : Error → String} {s : State} {n : Nat}
    (h : s.table.Returns (Trusted cfg display)) (hfaithful : s.table.Brings (Faithful cfg)) :
    (receive s n).table.Returns (Trusted cfg display) ↔ TextGenuine cfg s (.receive n) := by
  rw [receive]
  rcases InFlight.receive_cases s.table n (.failure (.dispatcherDown "pending channel cancelled")) with
    ⟨heq, hempty⟩ | ⟨c, hc, hphase, ⟨reply, hsent, heq⟩ | ⟨hclosed, heq⟩⟩
  · rw [heq]
    refine iff_of_true h ?_
    rintro n' hn c reply heard u text e hc hphase hsent
    cases hn
    rw [hempty c hc hphase] at hsent
    cases hsent
  · rw [heq]
    have hiff := InFlight.returns_finish_iff (r := reply) h hc
    rw [hiff, trusted_iff_text cfg (hfaithful n c reply hc hsent)]
    constructor
    · intro htext n' hn c' reply' heard u text e hc' _ hsent' hresponse hrequest hresult herror hevent
      cases hn
      rw [hc] at hc'
      cases hc'
      rw [hsent] at hsent'
      cases hsent'
      exact htext heard u text e hresponse hrequest hresult herror hevent
    · intro htext heard u text e hresponse hrequest hresult herror hevent
      exact htext n rfl c reply heard u text e hc hphase hsent hresponse hrequest hresult herror hevent
  · rw [heq]
    refine iff_of_true ((InFlight.returns_finish_iff h hc).mpr (trusted_failure cfg display _ _)) ?_
    rintro n' hn c' reply heard u text e hc' _ hsent
    cases hn
    rw [hc] at hc'
    cases hc'
    rw [hclosed] at hsent
    cases hsent

/-- **One action**: what is returned is trusted exactly if what is received is. Of all actions only a receive returns
    what somebody else has written. -/
theorem trusted_step {display : Error → String} {s : State} (h : s.table.Returns (Trusted cfg display))
    (hfaithful : s.table.Brings (Faithful cfg)) (a : Action) :
    (step cfg s a).table.Returns (Trusted cfg display) ↔ TextGenuine cfg s a := by
  cases a with
  | receive n => exact trusted_receive cfg h hfaithful
  | dispatch id request entropy aux clock =>
      refine iff_of_true ?_ (fun n hreceive => by cases hreceive)
      rcases dispatch_cases cfg s id request entropy aux clock with ⟨e, heq⟩ | ⟨-, e, event, heq⟩
      · rw [step, heq]
        exact h.refuse (trusted_failure cfg display request e)
      · rw [step, heq]
        exact h.enter request
  | published n outcome =>
      refine iff_of_true ?_ (fun n hreceive => by cases hreceive)
      rcases published_cases s n outcome with
        heq | ⟨c, hc, -, ⟨text, -, heq⟩ | ⟨failed, reply, -, hreply, heq⟩ | ⟨-, heq⟩⟩
      · rwa [step, heq]
      · rw [step, heq]
        exact (InFlight.returns_finish_iff h hc).mpr (trusted_failure cfg display _ _)
      · rw [step, heq, hreply]
        exact h.drain.finish (fun c _ => trusted_failure cfg display c.request _)
      · rw [step, heq]
        exact h.await
  | timeout n =>
      refine iff_of_true ?_ (fun n hreceive => by cases hreceive)
      rcases expire_cases s n with heq | ⟨c, hc, -, -, heq⟩
      · rwa [step, heq]
      · rw [step, heq]
        exact (InFlight.returns_finish_iff h hc).mpr (trusted_failure cfg display _ _)
  | event e =>
      refine iff_of_true ?_ (fun n hreceive => by cases hreceive)
      rw [step]
      rcases handleEvent_cases cfg s e with ⟨-, -, heq⟩ | ⟨heard, -, -, heq⟩ |
        ⟨heard, n, call, -, -, -, -, -, htook⟩
      · rwa [heq]
      · rw [heq]
        exact h
      · generalize handleEvent cfg s e = next at htook
        cases htook with
        | answer value _ => exact InFlight.Returns.send (t := s.table.remove heard.id) h
        | park _ _ => exact h
  | authUrlHandled outcome =>
      refine iff_of_true ?_ (fun n hreceive => by cases hreceive)
      cases outcome with
      | ok u => exact h.unpark
      | error text => exact h.failParked

/-- **What `sign_event` is worth.** Along every run `sign_event` gives nothing but genuine events exactly when each
    call that takes its answer finds the event it asked for in the text of the response: nobody looks but the
    caller.

    In every run each answer is faithful to a response that was heard (`brings_run`); given that, an action returns
    nothing untrusted exactly if the text it takes is genuine (`trusted_step`). -/
theorem trusted_iff (display : Error → String) (actions : List Action) :
    Always (fun past => (run cfg past).table.Returns (Trusted cfg display)) actions ↔
      EachStep (fun past a => TextGenuine cfg (run cfg past) a) actions := by
  refine always_iff_eachStep (brings_run cfg) InFlight.returns_empty ?_
  intro past a hfaithful hpast
  rw [run_append_singleton]
  exact trusted_step cfg hpast hfaithful a

end

/-- A request to sign a short event fits. -/
theorem Sample.fits_signEvent {unsigned : UnsignedEvent} (htags : unsigned.tags = ⟨[]⟩)
    (hcontent : unsigned.content.toList.length ≤ 100) :
    Nip44.Fits ((Message.ofRequest Sample.ctx.json "1" (.signEvent unsigned)).asJson Sample.ctx.json) := by
  obtain ⟨hpos, hle⟩ := unsigned.length_writeValue_le
  have hnone : (Json.writeValue (.array (unsigned.tags.items.map Json.tagValue))).length = 2 := by
    rw [htags]
    rfl
  have hparam := Json.length_writeString_le (unsigned.asJson Json.codec)
  have htext : (unsigned.asJson Json.codec).toList.length = (Json.writeValue unsigned.toJson).length :=
    congrArg List.length String.toList_ofList
  have hwords : (Json.writeString "id").length = 4 ∧ (Json.writeString "1").length = 3 ∧
      (Json.writeString "method").length = 8 ∧ (Json.writeString "sign_event").length = 12 ∧
      (Json.writeString "params").length = 8 := by decide +kernel
  obtain ⟨hw1, hw2, hw3, hw4, hw5⟩ := hwords
  have hsize : (Json.writeValue (.object [("id", .string "1"), ("method", .string "sign_event"),
      ("params", .array [.string (unsigned.asJson Json.codec)])])).length ≤ 16000 := by
    simp only [Json.writeValue, Json.writeMembers, Json.writeElements, List.length_cons, List.length_append,
      List.length_nil]
    omega
  exact Nip44.fits_of_length (Nat.succ_pos _) hsize

/-- Alice is asked to sign for bob and sends an event of her own, with no signature to speak of. -/
theorem anything_signed :
    ¬Always (fun past => (run Sample.config past).table.Returns (Trusted Sample.config (fun _ => "failed")))
      (Sample.call (.signEvent (.new Sample.ctx.crypto.toCrypto Sample.bob 0 ⟨1⟩ ⟨[]⟩ "hello")) ++
        [.event (Sample.reply Sample.alice ((Sample.event 1 Sample.alice 0 1 []).asJson Sample.ctx.json))] ++
          [.receive 0]) := by
  intro h
  have hfits : Nip44.Fits ((Message.ofRequest Sample.ctx.json "1" (.signEvent
      (.new Sample.ctx.crypto.toCrypto Sample.bob 0 ⟨1⟩ ⟨[]⟩ "hello"))).asJson Sample.ctx.json) :=
    Sample.fits_signEvent rfl (by decide)
  have hevent : ResponseResult.fromWire Sample.ctx.json Sample.ctx.urls .signEvent
      ((Sample.event 1 Sample.alice 0 1 []).asJson Sample.ctx.json) =
        .ok (.signEvent (Sample.event 1 Sample.alice 0 1 [])) :=
    fromWire_signEvent_iff.mpr (Event.fromJson_asJson Sample.ctx.json (Sample.event 1 Sample.alice 0 1 []))
  obtain ⟨c, response, hc, hrequest, hphase⟩ := Sample.run_answered hfits
    ((decodeResponse_eq_ok_iff _ _).mpr ⟨_, rfl, rfl, hevent, nofun⟩)
  have hgenuine := h.last 0 c _ hc hphase _ hrequest _ (Or.inl rfl)
  have hauthor := hgenuine.2.1
  revert hauthor
  decide

end Nula.Signer
