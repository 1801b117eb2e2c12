import Nula.Lib.InFlight
import Nula.Signer.Dispatcher

/-!
# `Signer.Client` — a client of a remote signer

`NostrConnect` (`client.rs`) with its dispatcher (`dispatcher.rs`) and the table between them (`pending.rs`): calls
come and go, events arrive in any order from anybody who can write to the client's key, relays fail and time runs
out. One step is what happens between two awaits.

A response is matched to its call by the id alone (`handleEvent_cases`); the other steps do one thing to one call,
but for a publish that fails everywhere (`published_cases`).
-/

namespace Nula.Signer

open Nip46

/-! ## The state -/

/-- The connection URI: the signer's key, or the secret that a signer is to echo. -/
inductive Flow where
  | bunker (remoteSignerPublicKey : PublicKey)
  | nostrconnect (secret : String)

/-- What a client is made with. -/
structure Config where
  ctx : Ctx
  clientKeys : Keys
  relays : List RelayUrl
  flow : Flow
  /-- An `AuthUrlHandler` is installed. -/
  handler : Bool

/-- `nostrconnect_secret`. -/
def Config.secret (cfg : Config) : Option String :=
  match cfg.flow with
  | .bunker _ => none
  | .nostrconnect secret => some secret

/-- A response as it was read: its author, its id and its two slots. -/
structure Heard where
  author : PublicKey
  id : String
  result : Option String
  error : Option String
  deriving DecidableEq

/-- What goes through a channel, with the response it was made of, if it was. -/
structure Reply where
  value : Except Error ResponseResult
  response : Option Heard

/-- A failure of the client's own making. -/
def Reply.failure (e : Error) : Reply := ⟨.error e, none⟩

/-- The client between two actions. -/
structure State where
  remoteSignerPk : Option PublicKey
  table : InFlight String Request Reply
  /-- The requests handed to `send_event_to`. -/
  requests : List Event
  /-- The responses that `validate_secret_echo` saw. -/
  heard : List Heard
  /-- The responses that took an entry out of the table, with the call. -/
  taken : List (Nat × Heard)

/-- The state that `NostrConnectBuilder::build` starts from. -/
def Config.start (cfg : Config) : State where
  remoteSignerPk := match cfg.flow with
    | .bunker pk => some pk
    | .nostrconnect _ => none
  table := .empty
  requests := []
  heard := []
  taken := []

/-! ## The steps -/

/-- What `send_event_to` gives back. -/
inductive SendOutcome where
  | error (text : String)
  /-- `is_total_failure`; the failed relays as text. -/
  | totalFailure (failed : String)
  | accepted

/-- What can happen next. -/
inductive Action where
  /-- A call; the id from `generate_id`, the randomness and the time it uses. -/
  | dispatch (id : String) (request : Request) (entropy : Entropy) (aux : Bytes) (clock : Clock)
  | published (n : Nat) (outcome : SendOutcome)
  /-- The call looks at its channel. -/
  | receive (n : Nat)
  | timeout (n : Nat)
  | event (e : Event)
  /-- `on_auth_url` returns. -/
  | authUrlHandled (outcome : Except String Unit)

section

variable (cfg : Config)

/-- `dispatch`, up to `send_event_to`. -/
def dispatch (s : State) (id : String) (request : Request) (entropy : Entropy) (aux : Bytes) (clock : Clock) : State :=
  let fail (e : Error) : State := { s with table := s.table.refuse id request (.failure e) }
  match s.remoteSignerPk with
  | none => fail (.dispatcherDown "signer pubkey unknown")
  | some signerPk =>
      let plain := (Message.ofRequest cfg.ctx.json id request).asJson cfg.ctx.json
      match Nip44.encrypt cfg.ctx.crypto entropy cfg.clientKeys.secretKey signerPk plain with
      | .error e => fail (.nip44 e)
      | .ok cipher =>
          match ((EventBuilder.new kind cipher).tag (Tag.p signerPk)).signWithKeys cfg.ctx.crypto clock aux
              cfg.clientKeys with
          | .error e => fail (.event e)
          | .ok event =>
              { s with
                table := s.table.enter id request (Channel.send (.failure (.cancelled "id collision in PendingMap")))
                requests := s.requests ++ [event] }

/-- `publish failed on every relay`. -/
def publishFailed (method : Method) (failed : String) : Reply :=
  .failure (.rejected method ("publish failed on every relay: " ++ failed))

/-- `dispatch`, after `send_event_to`. -/
def published (s : State) (n : Nat) (outcome : SendOutcome) : State :=
  match s.table.calls[n]? with
  | some ⟨_, request, _, .sending⟩ =>
      match outcome with
      | .error text => { s with table := s.table.finish n (.failure (.pool text)) }
      | .totalFailure failed =>
          -- `cancel_all` tells every call in the table
          let reply := publishFailed request.method failed
          { s with table := (s.table.drain reply).finish n reply }
      | .accepted => { s with table := s.table.await n }
  | _ => s

/-- `dispatch`, when its receiver is ready. -/
def receive (s : State) (n : Nat) : State :=
  { s with table := s.table.receive n (.failure (.dispatcherDown "pending channel cancelled")) }

/-- `dispatch`, when its time is over; a receiver that is ready goes first. -/
def expire (s : State) (n : Nat) : State :=
  match s.table.calls[n]? with
  | some ⟨_, request, .empty, .waiting⟩ =>
      { s with table := s.table.finish n (.failure (.timeout request.method)) }
  | _ => s

/-- `deliver_outcome` and the start of `handle_auth_url`. -/
def deliverOutcome (s : State) (id : String) (n : Nat) (heard : Heard) (outcome : Decoded) (method : Method) : State :=
  match outcome with
  | .result r => { s with table := s.table.answer id n ⟨r, some heard⟩ }
  | .authUrl target =>
      if cfg.handler then { s with table := s.table.park id n }
      else
        let message := "auth_url received but no handler installed (target = " ++ target.serialization ++ ")"
        { s with table := s.table.answer id n ⟨.error (.rejected method message), some heard⟩ }

/-- The loop of the dispatcher, once: an event is read while no handler runs. -/
def handleEvent (s : State) (event : Event) : State :=
  if s.table.parked.isSome ∨ cfg.relays = [] then s
  else
    match readResponse cfg.ctx cfg.clientKeys event with
    | none => s
    | some (id, result, error) =>
        let heard : Heard := ⟨event.pubkey, id, result, error⟩
        let s := { s with
          -- the pairing is looked at before the call is
          remoteSignerPk := validateSecretEcho s.remoteSignerPk cfg.secret event.pubkey result
          heard := s.heard ++ [heard] }
        match s.table.lookup id with
        | none => s
        | some n =>
            match s.table.calls[n]? with
            | none => s
            | some call =>
                let method := call.request.method
                deliverOutcome cfg { s with taken := s.taken ++ [(n, heard)] } id n heard
                  (decodeResponse cfg.ctx.json cfg.ctx.urls method result error) method

/-- The end of `handle_auth_url`. -/
def authUrlHandled (s : State) (outcome : Except String Unit) : State :=
  match outcome with
  | .ok () => { s with table := s.table.unpark }
  | .error text => { s with table := s.table.failParked (.failure (.authUrl text)) }

def step (s : State) : Action → State
  | .dispatch id request entropy aux clock => dispatch cfg s id request entropy aux clock
  | .published n outcome => published s n outcome
  | .receive n => receive s n
  | .timeout n => expire s n
  | .event e => handleEvent cfg s e
  | .authUrlHandled outcome => authUrlHandled s outcome

/-- The state after a run. -/
def run (actions : List Action) : State := actions.foldl (step cfg) cfg.start

@[simp] theorem run_nil : run cfg [] = cfg.start := rfl

theorem run_append_singleton (actions : List Action) (a : Action) :
    run cfg (actions ++ [a]) = step cfg (run cfg actions) a := by
  rw [run, List.foldl_append]
  rfl

/-! ## What an event does -/

/-- The response that an event is read as, while no handler runs. -/
def hears (s : State) (event : Event) : Option Heard :=
  if s.table.parked.isSome ∨ cfg.relays = [] then none
  else (readResponse cfg.ctx cfg.clientKeys event).map (fun r => ⟨event.pubkey, r.1, r.2.1, r.2.2⟩)

/-- The call whose entry it takes out of the table. -/
def takes (s : State) (event : Event) : Option (Nat × Heard) := do
  let heard ← hears cfg s event
  let n ← s.table.lookup heard.id
  let _ ← s.table.calls[n]?
  return (n, heard)

/-- What a call is told by a response. -/
def tells (request : Request) (heard : Heard) : Decoded :=
  decodeResponse cfg.ctx.json cfg.ctx.urls request.method heard.result heard.error

/-- A reply that was made of a response says what the response says, or refuses its `auth_url`; others are
    failures. -/
def Faithful (request : Request) (reply : Reply) : Prop :=
  match reply.response with
  | none => ∃ e, reply.value = .error e
  | some heard =>
      tells cfg request heard = .result reply.value ∨
        ((∃ target, tells cfg request heard = .authUrl target) ∧ ∃ e, reply.value = .error e)

theorem faithful_failure (request : Request) (e : Error) : Faithful cfg request (.failure e) := ⟨e, rfl⟩

theorem hears_author {s : State} {event : Event} {heard : Heard} (h : hears cfg s event = some heard) :
    heard.author = event.pubkey := by
  rw [hears] at h
  split at h
  · cases h
  · obtain ⟨r, -, rfl⟩ := Option.map_eq_some_iff.mp h
    rfl

/-- An event that is heard goes through the echo of the secret and is noted. -/
def State.hear (cfg : Config) (s : State) (heard : Heard) : State :=
  { s with
    remoteSignerPk := validateSecretEcho s.remoteSignerPk cfg.secret heard.author heard.result
    heard := s.heard ++ [heard] }

/-- An entry that was taken out answers its call or waits for the handler. -/
inductive Takes (s : State) (n : Nat) (heard : Heard) (call : Call String Request Reply) : State → Prop where
  | answer (value : Except Error ResponseResult) : Faithful cfg call.request ⟨value, some heard⟩ →
      Takes s n heard call { s with
        table := s.table.answer heard.id n ⟨value, some heard⟩
        taken := s.taken ++ [(n, heard)] }
  | park : cfg.handler = true → (∃ target, tells cfg call.request heard = .authUrl target) →
      Takes s n heard call { s with
        table := s.table.park heard.id n
        taken := s.taken ++ [(n, heard)] }

theorem takes_deliverOutcome (s : State) (n : Nat) (heard : Heard) (call : Call String Request Reply) :
    Takes cfg s n heard call (deliverOutcome cfg { s with taken := s.taken ++ [(n, heard)] } heard.id n heard
      (tells cfg call.request heard) call.request.method) := by
  cases htells : tells cfg call.request heard with
  | result r => exact .answer r (Or.inl htells)
  | authUrl target =>
      rw [deliverOutcome]
      split
      · exact .park ‹_› ⟨target, htells⟩
      · exact .answer _ (Or.inr ⟨⟨target, htells⟩, _, rfl⟩)

/-- An event is passed over, or heard and dropped, or heard and delivered. The checks are made in the order of the
    source: a dispatcher that is busy, a response that is read, an entry under its id. -/
theorem handleEvent_cases (s : State) (event : Event) :
    (hears cfg s event = none ∧ takes cfg s event = none ∧ handleEvent cfg s event = s) ∨
    (∃ heard, hears cfg s event = some heard ∧ takes cfg s event = none ∧
      handleEvent cfg s event = s.hear cfg heard) ∨
    (∃ heard n call, hears cfg s event = some heard ∧ takes cfg s event = some (n, heard) ∧
      s.table.parked = none ∧ (heard.id, n) ∈ s.table.pending ∧ s.table.calls[n]? = some call ∧
      Takes cfg (s.hear cfg heard) n heard call (handleEvent cfg s event)) := by
  by_cases hbusy : s.table.parked.isSome ∨ cfg.relays = []
  · have hnone : hears cfg s event = none := if_pos hbusy
    exact Or.inl ⟨hnone, by rw [takes, hnone]; rfl, by rw [handleEvent, if_pos hbusy]⟩
  have hears_eq : hears cfg s event = _ := if_neg hbusy
  rw [handleEvent, if_neg hbusy]
  cases hread : readResponse cfg.ctx cfg.clientKeys event with
  | none =>
      rw [hread] at hears_eq
      exact Or.inl ⟨hears_eq, by rw [takes, hears_eq]; rfl, rfl⟩
  | some r =>
      obtain ⟨id, result, error⟩ := r
      rw [hread] at hears_eq
      refine Or.inr ?_
      simp only
      cases hlookup : s.table.lookup id with
      | none =>
          refine Or.inl ⟨_, hears_eq, ?_, rfl⟩
          rw [takes, hears_eq]
          simp [hlookup]
      | some n =>
          cases hcall : s.table.calls[n]? with
          | none =>
              refine Or.inl ⟨_, hears_eq, ?_, ?_⟩
              · rw [takes, hears_eq]
                simp [hlookup, hcall]
              · simp only [hcall]
                rfl
          | some call =>
              refine Or.inr ⟨_, n, call, hears_eq, ?_, ?_, InFlight.lookup_eq_some hlookup, hcall, ?_⟩
              · rw [takes, hears_eq]
                simp [hlookup, hcall]
              · exact Option.not_isSome_iff_eq_none.mp (not_or.mp hbusy).1
              · simp only [hcall]
                exact takes_deliverOutcome cfg (s.hear cfg ⟨event.pubkey, id, result, error⟩) n _ call

/-! ## What the other steps do -/

/-- A call is refused, or it enters the table and its request is sent. -/
theorem dispatch_cases (s : State) (id : String) (request : Request) (entropy : Entropy) (aux : Bytes)
    (clock : Clock) :
    (∃ e, dispatch cfg s id request entropy aux clock =
      { s with table := s.table.refuse id request (.failure e) }) ∨
    (s.remoteSignerPk ≠ none ∧ ∃ e event, dispatch cfg s id request entropy aux clock =
      { s with table := s.table.enter id request (Channel.send (.failure e)), requests := s.requests ++ [event] }) := by
  unfold dispatch
  cases hpk : s.remoteSignerPk with
  | none => exact Or.inl ⟨_, rfl⟩
  | some signerPk =>
      simp only
      split
      · exact Or.inl ⟨_, rfl⟩
      · split
        · exact Or.inl ⟨_, rfl⟩
        · exact Or.inr ⟨Option.some_ne_none _, _, _, rfl⟩

/-- A call whose request fits is sent and waits. -/
theorem dispatch_of_fits {s : State} {id : String} {request : Request} {signerPk : PublicKey} {nonce : Bytes}
    {now : Timestamp} (aux : Bytes) (hpk : s.remoteSignerPk = some signerPk)
    (hfits : Nip44.Fits ((Message.ofRequest cfg.ctx.json id request).asJson cfg.ctx.json)) :
    ∃ e event, dispatch cfg s id request (.ok nonce) aux (.ok now) =
      { s with table := s.table.enter id request (Channel.send (.failure e)), requests := s.requests ++ [event] } := by
  have hseal : Nip44.encrypt cfg.ctx.crypto (.ok nonce) cfg.clientKeys.secretKey signerPk
      ((Message.ofRequest cfg.ctx.json id request).asJson cfg.ctx.json) = .ok _ :=
    Nip44.encrypt_eq_ok_iff.mpr ⟨nonce, rfl, hfits, rfl⟩
  obtain ⟨event, hevent, -⟩ := EventBuilder.signWithKeys_ok cfg.ctx.crypto now aux cfg.clientKeys
    ((EventBuilder.new kind (cfg.ctx.crypto.nip44Seal cfg.clientKeys.secretKey signerPk nonce
      ((Message.ofRequest cfg.ctx.json id request).asJson cfg.ctx.json))).tag (Tag.p signerPk))
  refine ⟨.cancelled "id collision in PendingMap", event, ?_⟩
  simp only [dispatch, hpk, hseal, hevent]

/-- A publish that returns moves its own call on, or nothing. -/
theorem published_cases (s : State) (n : Nat) (outcome : SendOutcome) :
    published s n outcome = s ∨ ∃ c, s.table.calls[n]? = some c ∧ c.phase = .sending ∧
      ((∃ text, outcome = .error text ∧
          published s n outcome = { s with table := s.table.finish n (.failure (.pool text)) }) ∨
        (∃ failed reply, outcome = .totalFailure failed ∧ reply = publishFailed c.request.method failed ∧
          published s n outcome = { s with table := (s.table.drain reply).finish n reply }) ∨
        (outcome = .accepted ∧ published s n outcome = { s with table := s.table.await n })) := by
  unfold published
  split
  · rename_i key request channel hc
    refine Or.inr ⟨_, hc, rfl, ?_⟩
    cases outcome with
    | error text => exact Or.inl ⟨text, rfl, rfl⟩
    | totalFailure failed => exact Or.inr (Or.inl ⟨failed, _, rfl, rfl, rfl⟩)
    | accepted => exact Or.inr (Or.inr ⟨rfl, rfl⟩)
  · exact Or.inl rfl

theorem published_of_sending {s : State} {n : Nat} {c : Call String Request Reply} (hc : s.table.calls[n]? = some c)
    (hphase : c.phase = .sending) (outcome : SendOutcome) :
    published s n outcome = match outcome with
      | .error text => { s with table := s.table.finish n (.failure (.pool text)) }
      | .totalFailure failed =>
          let reply := publishFailed c.request.method failed
          { s with table := (s.table.drain reply).finish n reply }
      | .accepted => { s with table := s.table.await n } := by
  obtain ⟨key, request, channel, phase⟩ := c
  obtain rfl : phase = .sending := hphase
  unfold published
  rw [hc]

/-- A timeout ends its own call, if that waits, or does nothing. -/
theorem expire_cases (s : State) (n : Nat) :
    expire s n = s ∨ ∃ c, s.table.calls[n]? = some c ∧ c.phase = .waiting ∧ c.channel = .empty ∧
      expire s n = { s with table := s.table.finish n (.failure (.timeout c.request.method)) } := by
  unfold expire
  split
  · rename_i key request hc
    exact Or.inr ⟨_, hc, rfl, rfl, rfl⟩
  · exact Or.inl rfl

theorem expire_of_waiting {s : State} {n : Nat} {c : Call String Request Reply} (hc : s.table.calls[n]? = some c)
    (hphase : c.phase = .waiting) (hchannel : c.channel = .empty) :
    expire s n = { s with table := s.table.finish n (.failure (.timeout c.request.method)) } := by
  obtain ⟨key, request, channel, phase⟩ := c
  obtain rfl : phase = .waiting := hphase
  obtain rfl : channel = .empty := hchannel
  unfold expire
  rw [hc]

/-- Only events touch the signer's key and the logs. -/
theorem step_logs (s : State) {a : Action} (h : ∀ e, a ≠ .event e) :
    (step cfg s a).remoteSignerPk = s.remoteSignerPk ∧ (step cfg s a).heard = s.heard ∧
      (step cfg s a).taken = s.taken := by
  cases a with
  | event e => exact absurd rfl (h e)
  | dispatch id request entropy aux clock =>
      rcases dispatch_cases cfg s id request entropy aux clock with ⟨e, heq⟩ | ⟨-, e, event, heq⟩ <;>
        simp [step, heq]
  | published n outcome =>
      rcases published_cases s n outcome with
        heq | ⟨c, -, -, ⟨text, -, heq⟩ | ⟨failed, reply, -, -, heq⟩ | ⟨-, heq⟩⟩ <;>
        simp [step, heq]
  | receive n => exact ⟨rfl, rfl, rfl⟩
  | timeout n =>
      rcases expire_cases s n with heq | ⟨c, -, -, -, heq⟩ <;> simp [step, heq]
  | authUrlHandled outcome =>
      cases outcome <;> exact ⟨rfl, rfl, rfl⟩

end

/-! ## Sample values

A client of alice's bunker that calls once; `reply` is an event in which anybody answers. -/

namespace Sample

open Nula.Sample

/-- A client of alice's bunker. -/
def config : Config := ⟨ctx, ⟨keys.signer.secretKey, bob⟩, [Gossip.Sample.one], .bunker alice, true⟩

/-- A call that is published and accepted. -/
def call (request : Request) : List Action :=
  [.dispatch "1" request (.ok []) [] (.ok 1700000000), .published 0 .accepted]

/-- A reply to it. -/
def reply (author : PublicKey) (result : String) : Event :=
  carrying author ((Message.response "1" (some result) none).asJson ctx.json)

/-- The call waits with its entry in the table. -/
theorem run_call {request : Request}
    (hfits : Nip44.Fits ((Message.ofRequest ctx.json "1" request).asJson ctx.json)) :
    (run config (call request)).remoteSignerPk = some alice ∧
      (run config (call request)).table = ⟨[⟨"1", request, .empty, .waiting⟩], [("1", 0)], none⟩ := by
  have hstart : config.start.remoteSignerPk = some alice := rfl
  obtain ⟨e, event, hdispatch⟩ : ∃ e event, dispatch config config.start "1" request (.ok []) [] (.ok 1700000000) =
      { config.start with
        table := config.start.table.enter "1" request (Channel.send (.failure e))
        requests := config.start.requests ++ [event] } := dispatch_of_fits config [] hstart hfits
  rw [run, call, List.foldl_cons, List.foldl_cons, List.foldl_nil, step, step, hdispatch]
  exact ⟨rfl, rfl⟩

theorem hears_reply {request : Request} (author : PublicKey) (result : String)
    (hfits : Nip44.Fits ((Message.ofRequest ctx.json "1" request).asJson ctx.json)) :
    hears config (run config (call request)) (reply author result) = some ⟨author, "1", some result, none⟩ := by
  obtain ⟨-, htable⟩ := run_call hfits
  have hopen : Nip44.decrypt config.ctx.crypto config.clientKeys.secretKey (reply author result).pubkey
      (reply author result).content = .ok ((Message.response "1" (some result) none).asJson config.ctx.json) := rfl
  have hread : readResponse config.ctx config.clientKeys (reply author result) = some ("1", some result, none) := by
    rw [readResponse, if_neg (by exact not_not.mpr rfl), hopen]
    simp only [Message.fromJson_asJson]
  rw [hears, htable, hread]
  rfl

/-- Anybody's answer takes the entry. -/
theorem takes_reply {request : Request} (author : PublicKey) (result : String)
    (hfits : Nip44.Fits ((Message.ofRequest ctx.json "1" request).asJson ctx.json)) :
    takes config (run config (call request)) (reply author result) = some (0, ⟨author, "1", some result, none⟩) := by
  obtain ⟨-, htable⟩ := run_call hfits
  rw [takes, hears_reply author result hfits, htable]
  rfl

/-- A call that was answered takes its answer. The answer is heard by the call's own entry, which takes it because it
    decodes; a challenge would be parked instead. -/
theorem run_answered {request : Request} {author : PublicKey} {result : String} {v : ResponseResult}
    (hfits : Nip44.Fits ((Message.ofRequest ctx.json "1" request).asJson ctx.json))
    (hv : tells config request ⟨author, "1", some result, none⟩ = .result (.ok v)) :
    ∃ c response,
      (run config (call request ++ [.event (reply author result)] ++ [.receive 0])).table.calls[0]? = some c ∧
      c.request = request ∧ c.phase = .returned ⟨.ok v, some response⟩ := by
  obtain ⟨-, htable⟩ := run_call hfits
  have htakes := takes_reply author result hfits
  rw [run_append_singleton, run_append_singleton, step, step]
  rcases handleEvent_cases config (run config (call request)) (reply author result) with ⟨-, hnone, -⟩ |
    ⟨heard, -, hnone, -⟩ | ⟨heard, n, c, -, hsome, -, -, hcall, htook⟩
  · rw [htakes] at hnone
    cases hnone
  · rw [htakes] at hnone
    cases hnone
  · rw [htakes] at hsome
    cases hsome
    rw [htable] at hcall
    cases hcall
    generalize handleEvent config (run config (call request)) (reply author result) = next at htook ⊢
    cases htook with
    | answer value hfaithful =>
        rcases hfaithful with htells | ⟨⟨target, htells⟩, -⟩
        · rw [hv] at htells
          cases htells
          simp only [State.hear, htable]
          exact ⟨_, _, rfl, rfl, rfl⟩
        · rw [hv] at htells
          cases htells
    | park _ htells =>
        obtain ⟨target, htells⟩ := htells
        rw [hv] at htells
        cases htells

end Sample

end Nula.Signer
