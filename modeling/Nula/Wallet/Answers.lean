import Nula.Core.GiftWrap
import Nula.Lib.Always
import Nula.Wallet.Client

/-!
# `Wallet.Answers` — who answers a call to the wallet

The dispatcher takes the author of an event for its signer. An event answers a call when it names the wallet as its
author, decrypts, and carries the id of the request in its first valid `e` tag (`Answers`); nobody has verified it
on the way. A call is answered by what the wallet signed as long as the events that answer calls verify
(`answeredByWallet_run`). A relay needs no key for one that does not: a payload of the wallet's can be copied.
-/

namespace Nula.Wallet

section

variable (cfg : Config)

/-! ## Answers -/

/-- For the dispatcher the event answers the call `n`. -/
structure Answers (s : State) (e : Event) (id : EventId) (n : Nat) (response : Response) : Prop where
  listens : cfg.relays ≠ []
  author : e.pubkey = cfg.walletPubkey
  kind : e.kind = kindResponse
  reads : decryptResponse cfg.ctx e cfg.clientKeys.secretKey = .ok response
  names : e.tags.eventIds.head? = some id
  waits : s.table.lookup id = some n

/-- The wallet signed this response for the request. -/
structure SignedFor (request : Event) (response : Response) (e : Event) : Prop where
  verified : e.verify cfg.ctx.crypto.toCrypto = .ok ()
  author : e.pubkey = cfg.walletPubkey
  kind : e.kind = kindResponse
  names : e.tags.eventIds.head? = some request.id
  reads : decryptResponse cfg.ctx e cfg.clientKeys.secretKey = .ok response

/-- Every call that returned a response has published its request, and an event was delivered in which the wallet
    signed this response for it. -/
def AnsweredByWallet (past : List Action) : Prop :=
  ∀ (n : Nat) (c : Call EventId Request Reply) (response : Response), (run cfg past).table.calls[n]? = some c →
    c.phase = .returned (.ok response) →
    ∃ request, (run cfg past).requests[n]? = some request ∧
      (∃ entropy aux clock, requestEvent cfg c.request entropy aux clock = .ok request) ∧
      ∃ e, .event e ∈ past ∧ SignedFor cfg request response e

/-- An event that answers a call verifies. -/
def Verified (s : State) : Action → Prop
  | .event e => (∃ id n response, Answers cfg s e id n response) → e.verify cfg.ctx.crypto.toCrypto = .ok ()
  | _ => True

/-! ## What the dispatcher takes -/

theorem handleEvent_answers (s : State) (e : Event) :
    handleEvent cfg s e = s ∨ ∃ id n response, Answers cfg s e id n response ∧
      handleEvent cfg s e = { s with table := s.table.answer id n (.ok response) } := by
  unfold handleEvent
  split
  · exact Or.inl rfl
  · rename_i hlisten
    simp only [not_or, not_not] at hlisten
    obtain ⟨hrelays, hauthor, hkind⟩ := hlisten
    split
    · exact Or.inl rfl
    · rename_i response hresponse
      split
      · exact Or.inl rfl
      · rename_i id ids hids
        unfold resolve
        cases hlookup : s.table.lookup id with
        | none => exact Or.inl rfl
        | some n =>
            have hnames : e.tags.eventIds.head? = some id := by
              rw [hids]
              rfl
            exact Or.inr ⟨id, n, response, ⟨hrelays, hauthor, hkind, hresponse, hnames, hlookup⟩, rfl⟩

/-! ## The invariant -/

/-- The call has its request, and what its channel holds or it has returned was signed for it. -/
def Backed (past : List Action) (requests : List Event) (n : Nat) (c : Call EventId Request Reply) : Prop :=
  ∃ request, requests[n]? = some request ∧ request.id = c.key ∧
    (∃ entropy aux clock, requestEvent cfg c.request entropy aux clock = .ok request) ∧
    ∀ response, c.channel = .sent (.ok response) ∨ c.phase = .returned (.ok response) →
      ∃ e, .event e ∈ past ∧ SignedFor cfg request response e

variable {cfg} {past : List Action} {requests : List Event} {n : Nat} {c : Call EventId Request Reply}

theorem Backed.later (h : Backed cfg past requests n c) (a : Action) : Backed cfg (past ++ [a]) requests n c := by
  obtain ⟨request, hrequest, hid, hbuilt, hsigned⟩ := h
  refine ⟨request, hrequest, hid, hbuilt, fun response hr => ?_⟩
  obtain ⟨e, he, hfor⟩ := hsigned response hr
  exact ⟨e, List.mem_append_left _ he, hfor⟩

theorem Backed.append (h : Backed cfg past requests n c) (event : Event) :
    Backed cfg past (requests ++ [event]) n c := by
  obtain ⟨request, hrequest, hrest⟩ := h
  exact ⟨request, getElem?_append_of_some hrequest, hrest⟩

/-- A change that brings no response. -/
theorem Backed.keep (h : Backed cfg past requests n c) {c' : Call EventId Request Reply} (hkey : c'.key = c.key)
    (hrequest : c'.request = c.request)
    (hsame : ∀ response, c'.channel = .sent (.ok response) ∨ c'.phase = .returned (.ok response) →
      c.channel = .sent (.ok response) ∨ c.phase = .returned (.ok response)) :
    Backed cfg past requests n c' := by
  obtain ⟨request, hget, hid, hbuilt, hsigned⟩ := h
  refine ⟨request, hget, hid.trans hkey.symm, by rwa [hrequest], fun response hr => ?_⟩
  exact hsigned response (hsame response hr)

/-- A call that fails. -/
theorem Backed.fail (h : Backed cfg past requests n c) (e : Error) :
    Backed cfg past requests n { c with phase := .returned (.error e) } := by
  refine h.keep rfl rfl (fun response hr => ?_)
  rcases hr with hr | hr
  · exact Or.inl hr
  · cases hr

/-- The invariant of a run. -/
structure Sourced (cfg : Config) (past : List Action) (s : State) : Prop where
  backed : s.table.Each (Backed cfg past s.requests)
  keyed : s.table.Keyed
  length : s.requests.length = s.table.calls.length

variable {s : State}

theorem Sourced.later (h : Sourced cfg past s) (a : Action) : Sourced cfg (past ++ [a]) s :=
  ⟨h.backed.mono (fun _ _ hc => hc.later a), h.keyed, h.length⟩

/-- A call that fails, with its entry or without. -/
theorem Sourced.finish (h : Sourced cfg past s) (n : Nat) (e : Error) :
    Sourced cfg past { s with table := s.table.finish n (.error e) } where
  backed := h.backed.update (fun _ _ hc => hc.fail e)
  keyed := h.keyed.update (fun _ => rfl)
  length := by
    show _ = (s.table.calls.modify n _).length
    rw [List.length_modify]
    exact h.length

theorem Sourced.remove (h : Sourced cfg past s) (key : EventId) :
    Sourced cfg past { s with table := s.table.remove key } := ⟨h.backed.remove, h.keyed.remove, h.length⟩

/-- A call that is sent waits under the id of its request. -/
theorem sourced_dispatch (h : Sourced cfg past s) (request : Request) (entropy : Entropy) (aux : Bytes)
    (clock : Clock) : Sourced cfg past (dispatch cfg s request entropy aux clock) := by
  unfold dispatch
  cases hevent : requestEvent cfg request entropy aux clock with
  | error e => exact h
  | ok event =>
      refine ⟨?_, h.keyed.enter request, ?_⟩
      · -- the calls that are there keep their requests, the new one gets its own
        refine InFlight.Each.enter (P := Backed cfg past (s.requests ++ [event]))
          (h.backed.mono (fun _ _ hc => hc.append event)) (fun n c hc => ?_) ?_
        · refine hc.keep rfl rfl (fun response hr => ?_)
          exact hr.imp_left Channel.drop_eq_sent
        · refine ⟨event, ?_, rfl, ⟨entropy, aux, clock, hevent⟩, fun response hr => ?_⟩
          · rw [← h.length]
            exact List.getElem?_concat_length
          · rcases hr with hr | hr <;> cases hr
      · have hkeys : ((s.table.enter event.id request Channel.drop).calls.map (·.key)).length =
            (s.table.calls.map (·.key) ++ [event.id]).length := congrArg List.length (InFlight.enter_keys request)
        simp only [List.length_map, List.length_append, List.length_singleton] at hkeys ⊢
        rw [hkeys, h.length]

theorem sourced_published (h : Sourced cfg past s) (n : Nat) (outcome : SendOutcome) :
    Sourced cfg past (published s n outcome) := by
  unfold published
  split
  · cases outcome with
    | error text => exact h.finish n _
    | totalFailure failed => exact (h.remove _).finish n _
    | accepted =>
        refine ⟨h.backed.update (fun c _ hc => ?_), h.keyed.update (fun _ => rfl), ?_⟩
        · refine hc.keep rfl rfl (fun response hr => ?_)
          rcases hr with hr | hr
          · exact Or.inl hr
          · cases hr
        · show _ = (s.table.calls.modify n _).length
          rw [List.length_modify]
          exact h.length
  · exact h

/-- A call that receives returns what is in its channel. -/
theorem sourced_receive (h : Sourced cfg past s) (n : Nat) : Sourced cfg past (receive s n) where
  backed := by
    refine h.backed.receive (fun c r hr hc => ?_) (fun c hc => hc.fail _)
    refine hc.keep rfl rfl (fun response hr' => ?_)
    rcases hr' with hr' | hr'
    · exact Or.inl hr'
    · cases hr'
      exact Or.inl hr
  keyed := h.keyed.receive
  length := by
    have hkeys := congrArg List.length (InFlight.receive_keys (t := s.table) (n := n)
      (r := Except.error (Error.dispatcherDown "pending channel cancelled")))
    rw [List.length_map, List.length_map] at hkeys
    exact h.length.trans hkeys.symm

theorem sourced_expire (h : Sourced cfg past s) (n : Nat) : Sourced cfg past (expire s n) := by
  unfold expire
  split
  · exact (h.remove _).finish n _
  · exact h

/-- **An event**: it answers a call of its request's id, and then it verifies. -/
theorem sourced_handleEvent (h : Sourced cfg past s) {e : Event} (hverified : Verified cfg s (.event e)) :
    Sourced cfg (past ++ [.event e]) (handleEvent cfg s e) := by
  rcases handleEvent_answers cfg s e with heq | ⟨id, n, response, hanswers, heq⟩
  · rw [heq]
    exact h.later _
  · have hverify := hverified ⟨id, n, response, hanswers⟩
    obtain ⟨c₀, hc₀, hkey⟩ := h.keyed id n (InFlight.lookup_eq_some hanswers.waits)
    rw [heq]
    refine ⟨(h.later (.event e)).backed.remove.update (fun c hc hbacked => ?_), ?_, ?_⟩
    · cases hc₀.symm.trans hc
      obtain ⟨request, hget, hid, hbuilt, hsigned⟩ := hbacked
      refine ⟨request, hget, hid, hbuilt, fun response' hr => ?_⟩
      have hnames : e.tags.eventIds.head? = some request.id := by rw [hid, hkey, hanswers.names]
      rcases hr with hr | hr
      · rcases Channel.send_eq_sent hr with hr | hr
        · exact hsigned response' (Or.inl hr)
        · cases hr
          exact ⟨e, List.mem_append_right _ List.mem_cons_self,
            ⟨hverify, hanswers.author, hanswers.kind, hnames, hanswers.reads⟩⟩
      · exact hsigned response' (Or.inr hr)
    · exact h.keyed.remove.update (fun _ => rfl)
    · show _ = (s.table.calls.modify n _).length
      rw [List.length_modify]
      exact h.length

/-- **One action keeps every answer sourced**, if the event that answers one verifies. -/
theorem sourced_step (h : Sourced cfg past s) (a : Action) (hverified : Verified cfg s a) :
    Sourced cfg (past ++ [a]) (step cfg s a) := by
  cases a with
  | dispatch request entropy aux clock => exact (sourced_dispatch h request entropy aux clock).later _
  | published n outcome => exact (sourced_published h n outcome).later _
  | receive n => exact (sourced_receive h n).later _
  | timeout n => exact (sourced_expire h n).later _
  | event e => exact sourced_handleEvent h hverified

theorem AnsweredByWallet.of_sourced (h : Sourced cfg past (run cfg past)) : AnsweredByWallet cfg past := by
  intro n c response hc hreturned
  obtain ⟨request, hget, -, hbuilt, hsigned⟩ := h.backed n c hc
  exact ⟨request, hget, hbuilt, hsigned response (Or.inr hreturned)⟩

/-- **Who answers.** As long as the events that answer calls verify, calls are answered by what the wallet signed for
    them.

    The invariant is `Sourced`: every call waits under the id of its own request, and what is in its channel or was
    returned came with an event that names this id and that the wallet signed. -/
theorem answeredByWallet_run (cfg : Config) (actions : List Action)
    (h : EachStep (fun past a => Verified cfg (run cfg past) a) actions) :
    Always (AnsweredByWallet cfg) actions := by
  have hsourced : Always (fun past => Sourced cfg past (run cfg past)) actions := by
    refine Always.of_eachStep (I := fun _ => True) (fun _ => trivial) ?_ ?_ h
    · exact ⟨InFlight.each_empty, InFlight.keyed_empty, rfl⟩
    · intro past a _ hpast hverified
      rw [run_append_singleton]
      exact sourced_step hpast a hverified
  exact hsourced.mono (fun _ => AnsweredByWallet.of_sourced)

end

/-! ## Sample values

Carol's wallet has dave's key. She pays two invoices; the wallet answers the first payment. A relay copies that
answer, puts the id of the second request into it and computes its id anew. The primitives know these events. -/

namespace Sample

open Nula.Sample Nip59.Sample

/-- A payment. -/
def pay (invoice : String) : Request := ⟨"pay_invoice", .object [("invoice", .string invoice)]⟩

/-- Its text. -/
def requestText (invoice : String) : String :=
  Json.codec.write (.object [("method", .string (pay invoice).method), ("params", (pay invoice).params)])

/-- The first payment, encrypted. -/
def firstPayload : String :=
  "AgEBAQEBAQEBAQEBAQEBAQEBAQEBAQEBAQEBAQEBAQEBhn5M0OquUUOqgJ7dynS7bd9kiSxkPDQbLay+4NFBbF0ujv9vzheanWowuoC8IY6a" ++
    "BMshovpUBy2fPiGDNr86TxIyI+0INR3pJ+MkfbvHoHeOhw5kZRBkgmPtInj270pnCuE="

/-- The second. -/
def secondPayload : String :=
  "AgICAgICAgICAgICAgICAgICAgICAgICAgICAgICAgICMb7Yy1NbFwOexzs+rfhCWSi5guoJeX7Tce2rmafb4MAldyGGSqP3KX5MpfHKHZ4X" ++
    "//jkLUymJm6VSls20OwGrwNEQ7bnr+8fr5bgjYdEmxBYpm2CtDc8cCVZUY91C7UGiTU="

/-- The wallet's answer. -/
def answerText : String :=
  Json.codec.write (.object [("result_type", .string "pay_invoice"), ("result", .object [("preimage", .string "00")])])

/-- The answer, encrypted. -/
def answerPayload : String :=
  "AgMDAwMDAwMDAwMDAwMDAwMDAwMDAwMDAwMDAwMDAwMDGu5y7i7kZWdYOMIRBIt3mVqnvlmbbZQzkuhAvz02hMldcNRy9j6arEOAz1U3eMKF" ++
    "nGsyt5kigGKGbZvdJNrKKaa2nzGtNR0qXvF5byzTapvEtlZHQHvwpHAAkd69Mph9hX4="

/-- The tag of the encryption. -/
def nip44Tag : Tag := ⟨[encryptionTag, Encryption.nip44V2.asToken], List.cons_ne_nil _ _⟩

/-- The tags of a request. -/
def requestTags : Tags := ⟨[.p dave, nip44Tag]⟩

/-- The tag of the request that is answered. -/
def eTag (id : EventId) : Tag := ⟨["e", id.toHex], List.cons_ne_nil _ _⟩

/-- The tags of an answer. -/
def responseTags (id : EventId) : Tags := ⟨[.p carol, eTag id, nip44Tag]⟩

/-- The request of the first payment. -/
def firstRequest : Event where
  id := ⟨hexBytes "5d4bbd4c2b3ba36aff6c327d494631145551e88da078fb292be6c6e1a2cada8a", by decide +kernel⟩
  pubkey := carol
  createdAt := 1700000000
  kind := kindRequest
  tags := requestTags
  content := firstPayload
  sig := ⟨hexBytes ("72f23dab86228f63d479cedc2c4ecd5bf3e7f87fadb55e65ac379a7d0a5acf31" ++
    "3a8a58f4d8e64c1af96a5cb4513ac906c1a19a83432eeba678bf09a68794be3d"), by decide +kernel⟩

/-- That of the second. -/
def secondRequest : Event where
  id := ⟨hexBytes "c707b94ee5e52e89a4aaceda274fda44bb4e72e43b2aea55c5a60da17da83410", by decide +kernel⟩
  pubkey := carol
  createdAt := 1700000000
  kind := kindRequest
  tags := requestTags
  content := secondPayload
  sig := ⟨hexBytes ("1e2c66f0b832ae1088e22a76ec9daf915eea251e846b91c6c921288e8afcab77" ++
    "e614f7b5a42c6f8a6778d47a6bfa2f9fc01a96ff31bf6590d09a6a2b32e5ef21"), by decide +kernel⟩

/-- The wallet's answer to the first. -/
def answer : Event where
  id := ⟨hexBytes "262bdd10a2fdac39e04454f0c99526e4e0d835d42a29427cdb55d27b52d3c6e8", by decide +kernel⟩
  pubkey := dave
  createdAt := 1700000000
  kind := kindResponse
  tags := responseTags firstRequest.id
  content := answerPayload
  sig := ⟨hexBytes ("f0bd7fb0f8f0e3baa3b4a737d4ec60abe36802948cc581307d55e98e5bdffdef" ++
    "0433a102e1930773cb342ae140b8ccf734b61b68d721d8160eb34bff08582be0"), by decide +kernel⟩

/-- The answer, addressed to the second request. -/
def readdressed : Event :=
  { answer with
    id := ⟨hexBytes "029181746a9936a623b824376879308a9d9a44d0c9408cfd1b38ff9862da1a7c", by decide +kernel⟩
    tags := responseTags secondRequest.id }

/-- The events that were signed. -/
def signed : List Event := [firstRequest, secondRequest, answer]

/-- The digests of all events in the example, the copy included. -/
def digests : List (Bytes × EventId) := (readdressed :: signed).map (fun e => (canonicalOf e, e.id))

/-- Primitives that know the example. -/
def ctx : Signer.Ctx where
  crypto := {
    sha256 := fun b => ((digests.find? (fun d => d.1 = b)).map (fun d => d.2.bytes)).getD (List.replicate 32 0)
    sha256_size := by
      intro b
      cases digests.find? (fun d => d.1 = b) with
      | none => simp
      | some d => exact d.2.size
    verifySchnorr := fun sig message pubkey =>
      signed.any (fun e => e.sig = sig && e.id.bytes = message && e.pubkey = pubkey)
    signSchnorr := fun _ _ message =>
      ((signed.find? (fun e => e.id.bytes = message)).map Event.sig).getD Nip59.Sample.goodForAll
    nip44Seal := fun _ _ nonce text =>
      if nonce = List.replicate 32 1 ∧ text = requestText "lnbc1" then firstPayload
      else if nonce = List.replicate 32 2 ∧ text = requestText "lnbc2" then secondPayload
      else text
    nip44Open := fun s peer payload =>
      if s = secret 3 ∧ peer = dave ∧ payload = answerPayload then .ok answerText else .error "invalid MAC"
    nip04Seal := fun _ _ _ text => text
    nip04Open := fun _ _ payload => .ok payload }
  json := Json.codec
  urls := Gossip.Sample.urlCrate
  nip04 := true

/-- The client that pays. -/
def payer : Config := ⟨ctx, ⟨secret 3, carol⟩, dave, .nip44V2, [Gossip.Sample.one]⟩

/-- The first payment and its answer. -/
def paid : List Action :=
  [.dispatch (pay "lnbc1") (.ok (List.replicate 32 1)) [] (.ok 1700000000), .published 0 .accepted, .event answer,
    .receive 0]

/-- The second payment and the copy. -/
def paidTwice : List Action :=
  paid ++ [.dispatch (pay "lnbc2") (.ok (List.replicate 32 2)) [] (.ok 1700000000), .published 1 .accepted,
    .event readdressed, .receive 1]

/-- The call has returned a response. -/
def responded (s : State) (n : Nat) : Bool :=
  match s.table.calls[n]? with
  | some ⟨_, _, _, .returned (.ok _)⟩ => true
  | _ => false

/-- The digest of the answer: the copy has other tags, and the requests have another author. -/
theorem sha256_answer : ctx.crypto.sha256 (canonicalOf answer) = answer.id.bytes := by
  have hkey : carol ≠ dave := ne_carol.2.2.2.symm
  have htags : readdressed.tags ≠ answer.tags := by decide +kernel
  have hcopy : ¬(canonicalOf readdressed = canonicalOf answer) :=
    fun hsame => htags ((canonicalBytes_inj _ _ _ _ _ _ _ _ _ _).mp hsame).2.2.2.1
  have hrequest : ∀ e : Event, e.pubkey ≠ dave → ¬(canonicalOf e = canonicalOf answer) :=
    fun e hne hsame => hne ((canonicalBytes_inj _ _ _ _ _ _ _ _ _ _).mp hsame).1
  have hfind : digests.find? (fun d => d.1 = canonicalOf answer) = some (canonicalOf answer, answer.id) := by
    rw [digests, signed, List.map_cons, List.map_cons, List.map_cons, List.map_cons,
      List.find?_cons_of_neg (by simpa using hcopy), List.find?_cons_of_neg (by simpa using hrequest firstRequest hkey),
      List.find?_cons_of_neg (by simpa using hrequest secondRequest hkey), List.find?_cons_of_pos (by simp)]
  unfold ctx
  dsimp only
  rw [hfind, Option.map_some, Option.getD_some]

theorem verify_answer : answer.verify ctx.crypto.toCrypto = .ok () := by
  refine Event.verify_ok_iff.mpr ⟨?_, by decide +kernel⟩
  exact EventId.mk.injEq .. ▸ sha256_answer

/-- The digest of a request: the answers have another author. -/
theorem sha256_request :
    ctx.crypto.sha256 (canonicalOf firstRequest) = firstRequest.id.bytes ∧
      ctx.crypto.sha256 (canonicalOf secondRequest) = secondRequest.id.bytes := by
  have hkey : dave ≠ carol := ne_carol.2.2.2
  have hpayload : firstRequest.content ≠ secondRequest.content := by decide +kernel
  have hcopy : ∀ e : Event, e.pubkey ≠ dave → ¬(canonicalOf readdressed = canonicalOf e) :=
    fun e hne hsame => hne ((canonicalBytes_inj _ _ _ _ _ _ _ _ _ _).mp hsame).1.symm
  have hother : ¬(canonicalOf firstRequest = canonicalOf secondRequest) :=
    fun hsame => hpayload ((canonicalBytes_inj _ _ _ _ _ _ _ _ _ _).mp hsame).2.2.2.2
  constructor
  · have hfind : digests.find? (fun d => d.1 = canonicalOf firstRequest) =
        some (canonicalOf firstRequest, firstRequest.id) := by
      rw [digests, signed, List.map_cons, List.map_cons,
        List.find?_cons_of_neg (by simpa using hcopy firstRequest hkey.symm), List.find?_cons_of_pos (by simp)]
    unfold ctx
    dsimp only
    rw [hfind, Option.map_some, Option.getD_some]
  · have hfind : digests.find? (fun d => d.1 = canonicalOf secondRequest) =
        some (canonicalOf secondRequest, secondRequest.id) := by
      rw [digests, signed, List.map_cons, List.map_cons, List.map_cons,
        List.find?_cons_of_neg (by simpa using hcopy secondRequest hkey.symm),
        List.find?_cons_of_neg (by simpa using hother), List.find?_cons_of_pos (by simp)]
    unfold ctx
    dsimp only
    rw [hfind, Option.map_some, Option.getD_some]

/-- A request that carol's client signs. The encryption, the id and the signature are given; what is left is to run
    the builder. -/
theorem requestEvent_of {invoice : String} {nonce : Bytes} {e : Event} (hfits : Nip44.Fits (requestText invoice))
    (hseal : ctx.crypto.nip44Seal (secret 3) dave nonce (requestText invoice) = e.content)
    (hpubkey : e.pubkey = carol) (hcreated : e.createdAt = 1700000000) (hkind : e.kind = kindRequest)
    (htags : e.tags = requestTags) (hid : ctx.crypto.sha256 (canonicalOf e) = e.id.bytes)
    (hsig : ctx.crypto.signSchnorr (secret 3) [] e.id.bytes = e.sig) :
    requestEvent payer (pay invoice) (.ok nonce) [] (.ok 1700000000) = .ok e := by
  obtain ⟨id, pubkey, createdAt, kind, tags, content, sig⟩ := e
  dsimp only at *
  subst hpubkey hcreated hkind htags
  have hencrypt : Nip44.encrypt ctx.crypto (.ok nonce) (secret 3) dave (requestText invoice) = .ok content :=
    Nip44.encrypt_eq_ok_iff.mpr ⟨nonce, rfl, hfits, hseal⟩
  have hrequest : nwcRequest ctx (.ok nonce) (secret 3) dave (pay invoice) .nip44V2 =
      .ok (((EventBuilder.new kindRequest content).tag (Tag.p dave)).tag nip44Tag) := by
    unfold nwcRequest encryptWith
    dsimp only
    have htext : ctx.json.write (.object [("method", .string (pay invoice).method), ("params", (pay invoice).params)]) =
        requestText invoice := rfl
    rw [htext, hencrypt]
    rfl
  have hcompute : computeEventId ctx.crypto.toCrypto carol 1700000000 kindRequest requestTags content = id :=
    EventId.mk.injEq .. ▸ hid
  have hsigned : (((EventBuilder.new kindRequest content).tag (Tag.p dave)).tag nip44Tag).signWithKeys ctx.crypto
      (.ok 1700000000) [] ⟨secret 3, carol⟩ = .ok ⟨id, carol, 1700000000, kindRequest, requestTags, content, sig⟩ := by
    rw [EventBuilder.signWithKeys_now rfl]
    change Except.ok (Event.mk (computeEventId ctx.crypto.toCrypto carol 1700000000 kindRequest requestTags content) _ _
      _ _ _ (ctx.crypto.signSchnorr (secret 3) []
        (computeEventId ctx.crypto.toCrypto carol 1700000000 kindRequest requestTags content).bytes)) = _
    rw [hcompute, hsig]
    rfl
  unfold requestEvent payer
  dsimp only
  rw [hrequest]
  dsimp only
  rw [hsigned]
  rfl

theorem requestEvent_pay :
    requestEvent payer (pay "lnbc1") (.ok (List.replicate 32 1)) [] (.ok 1700000000) = .ok firstRequest ∧
      requestEvent payer (pay "lnbc2") (.ok (List.replicate 32 2)) [] (.ok 1700000000) = .ok secondRequest := by
  have hfits : ∀ invoice ∈ ["lnbc1", "lnbc2"], Nip44.Fits (requestText invoice) := by decide +kernel
  have hsig : ∀ e ∈ [firstRequest, secondRequest], ctx.crypto.signSchnorr (secret 3) [] e.id.bytes = e.sig := by
    decide +kernel
  constructor
  · have hseal : ctx.crypto.nip44Seal (secret 3) dave (List.replicate 32 1) (requestText "lnbc1") = firstPayload := by
      simp only [ctx]
      exact if_pos ⟨trivial, trivial⟩
    exact requestEvent_of (hfits _ (by simp)) hseal rfl rfl rfl rfl sha256_request.1 (hsig _ (by simp))
  · have hseal : ctx.crypto.nip44Seal (secret 3) dave (List.replicate 32 2) (requestText "lnbc2") = secondPayload := by
      have hnonce : List.replicate 32 (2 : UInt8) ≠ List.replicate 32 1 := by decide
      simp only [ctx, hnonce, false_and, if_false]
      exact if_pos ⟨trivial, trivial⟩
    exact requestEvent_of (hfits _ (by simp)) hseal rfl rfl rfl rfl sha256_request.2 (hsig _ (by simp))

/-- A call of the client from its request to its response, with no other call under way. -/
theorem foldl_exchange {s : State} (hpending : s.table.pending = []) {request : Request} {entropy : Entropy}
    {clock : Clock} {event reply : Event} {response : Response}
    (hrequest : requestEvent payer request entropy [] clock = .ok event)
    (hreply : ∀ s', handleEvent payer s' reply = resolve s' event.id (.ok response)) :
    [.dispatch request entropy [] clock, .published s.table.calls.length .accepted, .event reply,
        .receive s.table.calls.length].foldl (step payer) s =
      ⟨⟨s.table.calls ++ [⟨event.id, request, .sent (.ok response), .returned (.ok response)⟩], [], s.table.parked⟩,
        s.requests ++ [event]⟩ := by
  obtain ⟨⟨calls, pending, parked⟩, requests⟩ := s
  obtain rfl : pending = [] := hpending
  simp only [List.foldl_cons, List.foldl_nil, step, dispatch, hrequest, hreply]
  simp [published, resolve, receive, InFlight.enter, InFlight.lookup, InFlight.put, InFlight.remove, InFlight.await,
    InFlight.answer, InFlight.send, InFlight.update, InFlight.receive, InFlight.finish, Channel.send,
    InFlight.modify_last]

/-- What a response to one of the requests does. -/
theorem handleEvent_reply {reply request : Event} {response : Response} (hpubkey : reply.pubkey = dave)
    (hkind : reply.kind = kindResponse) (hopened : decryptResponse ctx reply (secret 3) = .ok response)
    (hids : reply.tags.eventIds = [request.id]) (s : State) :
    handleEvent payer s reply = resolve s request.id (.ok response) := by
  unfold handleEvent
  rw [if_neg]
  · simp only [payer, hopened, hids]
  · rw [hpubkey, hkind]
    simp [payer]

theorem decryptResponse_copies : ∃ response, decryptResponse ctx answer (secret 3) = .ok response ∧
    decryptResponse ctx readdressed (secret 3) = .ok response := by
  have henc : ∀ id, (responseTags id).items.findSome?
      (fun tag => if tag.name = encryptionTag then tag.content else none) = some "nip44_v2" := by
    intro id
    simp [responseTags, Tag.p, eTag, nip44Tag, Tag.name, Tag.content, encryptionTag, Encryption.asToken]
  have hread : ctx.json.read answerText = some _ := Json.codec.read_write _ (by decide)
  have hparse : ∃ response, Response.ofContent (JsonValue.content (.object [("result_type", .string "pay_invoice"),
      ("result", .object [("preimage", .string "00")])])) = some response := ⟨_, rfl⟩
  obtain ⟨response, hresponse⟩ := hparse
  have hopened : ∀ e : Event, e.kind = kindResponse → (∃ id, e.tags = responseTags id) → e.pubkey = dave →
      e.content = answerPayload → decryptResponse ctx e (secret 3) = .ok response := by
    rintro ⟨id, pubkey, createdAt, kind, tags, content, sig⟩ hkind ⟨id, htags⟩ hpubkey hcontent
    dsimp only at hkind htags hpubkey hcontent
    subst hkind htags hpubkey hcontent
    have hopen : ctx.crypto.nip44Open (secret 3) dave answerPayload = .ok answerText := by
      simp only [ctx]
      exact if_pos ⟨trivial, trivial, trivial⟩
    unfold decryptResponse encryptionForEvent decryptWith
    rw [if_neg (not_not.mpr rfl)]
    dsimp only
    rw [henc]
    simp only [Encryption.parse, Nip44.decrypt, hopen, Except.mapError, hread, Option.bind_some, hresponse]
  exact ⟨response, hopened _ rfl ⟨_, rfl⟩ rfl rfl, hopened _ rfl ⟨_, rfl⟩ rfl rfl⟩

theorem eventIds_responseTags (id : EventId) : (responseTags id).eventIds = [id] := by
  have hkinds : TagKind.fromWire "p" ≠ .singleLetter (.lowercase .E) ∧
      TagKind.fromWire "e" = .singleLetter (.lowercase .E) ∧
        TagKind.fromWire encryptionTag ≠ .singleLetter (.lowercase .E) := by decide +kernel
  have hletters : (responseTags id).findLetter .E = [eTag id] := by
    simp [Tags.findLetter, responseTags, Tag.p, eTag, nip44Tag, Tag.kind, Tag.name, hkinds]
  rw [Tags.eventIds, hletters]
  simp [eTag, Tag.content, EventId.parse_toHex, Except.toOption]

/-- What the two runs come to. -/
theorem runs_pay : (run payer paidTwice).requests = [firstRequest, secondRequest] ∧
    responded (run payer paid) 0 = true ∧ responded (run payer paidTwice) 1 = true := by
  obtain ⟨hfirst, hsecond⟩ := requestEvent_pay
  obtain ⟨response, hanswer, hcopy⟩ := decryptResponse_copies
  have hpaid : run payer paid =
      ⟨⟨[⟨firstRequest.id, pay "lnbc1", .sent (.ok response), .returned (.ok response)⟩], [], none⟩,
        [firstRequest]⟩ :=
    foldl_exchange (s := start) rfl hfirst (handleEvent_reply rfl rfl hanswer (eventIds_responseTags _))
  have htwice : run payer paidTwice =
      ⟨⟨[⟨firstRequest.id, pay "lnbc1", .sent (.ok response), .returned (.ok response)⟩,
        ⟨secondRequest.id, pay "lnbc2", .sent (.ok response), .returned (.ok response)⟩], [], none⟩,
        [firstRequest, secondRequest]⟩ := by
    rw [paidTwice, run, List.foldl_append]
    rw [run] at hpaid
    rw [hpaid]
    exact foldl_exchange rfl hsecond (handleEvent_reply rfl rfl hcopy (eventIds_responseTags _))
  rw [hpaid, htwice]
  exact ⟨rfl, rfl, rfl⟩

theorem exists_of_responded {s : State} {n : Nat} (h : responded s n = true) :
    ∃ c response, s.table.calls[n]? = some c ∧ c.phase = .returned (.ok response) := by
  unfold responded at h
  split at h
  · rename_i response hc
    exact ⟨_, response, hc, rfl⟩
  · cases h

end Sample

/-- The first payment returns what the wallet signed for it. -/
theorem answeredByWallet_paid :
    Always (AnsweredByWallet Sample.payer) Sample.paid ∧ Sample.responded (run Sample.payer Sample.paid) 0 = true := by
  refine ⟨answeredByWallet_run Sample.payer Sample.paid ?_, Sample.runs_pay.2.1⟩
  intro k a ha
  have hmem := List.mem_of_getElem? ha
  simp only [Sample.paid, List.mem_cons, List.not_mem_nil, or_false] at hmem
  rcases hmem with rfl | rfl | rfl | rfl
  · trivial
  · trivial
  · exact fun _ => Sample.verify_answer
  · trivial

/-- The second payment returns what the wallet signed for the first. -/
theorem answered_by_copy : ¬Always (AnsweredByWallet Sample.payer) Sample.paidTwice := by
  intro h
  obtain ⟨c, response, hc, hreturned⟩ := Sample.exists_of_responded Sample.runs_pay.2.2
  obtain ⟨request, hget, -, e, he, hsigned⟩ := h.last 1 c response hc hreturned
  rw [Sample.runs_pay.1] at hget
  obtain rfl : Sample.secondRequest = request := Option.some.inj hget
  have hevents : e = Sample.answer ∨ e = Sample.readdressed := by
    simpa [Sample.paidTwice, Sample.paid] using he
  rcases hevents with rfl | rfl
  · -- the genuine answer is to the first request
    have hnames := hsigned.names
    revert hnames
    decide +kernel
  · -- the copy carries the signature of another id
    have hverified := (Event.verify_ok_iff.mp hsigned.verified).2
    revert hverified
    decide +kernel

end Nula.Wallet
