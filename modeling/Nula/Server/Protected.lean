import Nula.Server.Gate

/-!
# `Server.Protected` — protected events come from their author

A protected event is stored only where the key of the connection is its author's, and that key was set by an
`AUTH`. What such an `AUTH` proves (`Proves`) rests on the challenge: `verify_client_auth` takes no empty one,
and one that is not empty was written, at connect or by the gate for protected events — where the write fails
the connection ends, so no `AUTH` is read after it.
-/

namespace Nula.Server

open Std

variable {N : Negentropy}

/-- The `AUTH` event proves to the connection that its sender holds `key`. -/
structure Proves (ctx : ConnectionContext) (env : Env) (c : Connection N) (key : PublicKey) (event : Event) :
    Prop where
  verifies : event.verify ctx.crypto = .ok ()
  author : event.pubkey = key
  kind : event.kind = Kind.authentication
  relay : ∃ text, (event.tags.findFirst (TagKind.fromWire "relay")).bind (fun tag => tag.values[1]?) = some text ∧
    RelayUrl.parse ctx.urls text = .ok ctx.relayUrl
  fresh : ∃ now, env.now = .ok now ∧ now.toNat - event.createdAt.toNat ≤ Nip42.defaultMaxAgeSecs ∧
    event.createdAt.toNat - now.toNat ≤ Nip42.defaultMaxAgeSecs
  challenged : ∃ challenge, challenge ≠ "" ∧
    (event.tags.findFirst (TagKind.fromWire "challenge")).bind (fun tag => tag.values[1]?) = some challenge ∧
    ∃ turn, (turn, Effect.wrote (.text (.auth challenge))) ∈ c.log

/-- The wakeup brings an `AUTH` that proves `key`. -/
def BringsProof (ctx : ConnectionContext) (c : Connection N) (w : Wakeup × Env) (key : PublicKey) : Prop :=
  ∃ event, Connection.received ctx c w.1 = some (.auth event) ∧ Proves ctx w.2 c key event

namespace Connection

variable {c c' : Connection N} {ctx : ConnectionContext} {env : Env}

/-! ## The challenge was written -/

/-- A challenge that an open connection holds has been written. -/
def ChallengeWritten (c : Connection N) : Prop :=
  c.isOpen = true → c.auth.challenge ≠ "" → ∃ turn, (turn, Effect.wrote (.text (.auth c.auth.challenge))) ∈ c.log

/-- A handler whose loop goes on has not broken off. -/
theorem settled_isOpen {flow : Flow N} (h : (settled flow).isOpen = true) : ∃ d, flow = .ok d := by
  cases flow with
  | ok d => exact ⟨d, rfl⟩
  | error d => cases h

/-- A message that could be written is in the log, and authenticates nobody. -/
theorem send_ok {m : RelayMessage} {d : Connection N} (h : c.send env m = .ok d) :
    d.auth = c.auth ∧ d.log = c.log ++ [(c.turn, .wrote (.text m))] := by
  rw [send, push] at h
  split at h
  · cases h
  · cases h
    exact ⟨rfl, rfl⟩

/-- A handler that starts with a frame and does not end the connection wrote the frame. -/
theorem send_bind_wrote {m : RelayMessage} {g : Connection N → Flow N} {d : Connection N}
    (hg : ∀ c', Adds (fun _ => True) c' (g c').left) (h : (c.send env m >>= g) = .ok d) :
    (c.turn, Effect.wrote (.text m)) ∈ d.log := by
  cases hsend : c.send env m with
  | error c' =>
      rw [hsend] at h
      cases h
  | ok c' =>
      rw [hsend] at h
      have hgrows := hg c'
      have hd : g c' = .ok d := h
      rw [hd] at hgrows
      obtain ⟨fx, hlog, _⟩ := hgrows.log
      rw [show d.log = _ from hlog, (send_ok hsend).2]
      apply List.mem_append_left
      exact List.mem_append_right _ (List.mem_singleton.mpr rfl)

/-- Where an `EVENT` changes the authentication state, the challenge is written first. -/
theorem handleEvent_challenged {event : Event} (h : authAfterEvent ctx env event c.auth ≠ c.auth) :
    ∃ refusal, c.handleEvent ctx env event =
      (({ c with auth := authAfterEvent ctx env event c.auth } : Connection N).send env
        (.auth (authAfterEvent ctx env event c.auth).challenge) >>= fun c => c.send env refusal) := by
  have hgates : (checkExpired env event).isNone && (ctx.minPow.bind (checkPow event)).isNone := by
    by_contra hgate
    exact h (if_neg hgate)
  rw [authAfterEvent, if_pos hgates] at h ⊢
  rw [Bool.and_eq_true, Option.isNone_iff_eq_none, Option.isNone_iff_eq_none] at hgates
  rw [handleEvent, hgates.1, hgates.2]
  unfold checkProtected at h ⊢
  split at h
  · exact absurd rfl h
  rename_i hprotected
  split at h
  · rename_i hnone
    rw [if_neg hprotected, if_pos hnone]
    exact ⟨_, rfl⟩
  · exact absurd rfl h

/-- A wakeup does not reopen a connection. A challenge was there before, and then so was its frame, or it is new, and
    then this wakeup wrote the frame before it stored anything. -/
theorem step_challengeWritten (w : Wakeup × Env) (hc : ChallengeWritten c) :
    ChallengeWritten (c.step ctx w) := by
  intro hopen hchallenge
  have hkept : ∀ challenge turn, (turn, Effect.wrote (.text (.auth challenge))) ∈ c.log →
      (turn, Effect.wrote (.text (.auth challenge))) ∈ (c.step ctx w).log := by
    intro challenge turn hmem
    obtain ⟨fx, hlog, _⟩ := step_passed ctx c w
    rw [hlog]
    exact List.mem_append_left _ hmem
  have hold : (c.step ctx w).auth.challenge = c.auth.challenge →
      ∃ turn, (turn, Effect.wrote (.text (.auth (c.step ctx w).auth.challenge))) ∈ (c.step ctx w).log := by
    intro hsame
    rw [hsame] at hchallenge ⊢
    obtain ⟨turn, hmem⟩ := hc (isOpen_of_step hopen) hchallenge
    exact ⟨turn, hkept _ _ hmem⟩
  rcases step_auth_cases ctx c w with
    ⟨event, _, hauth⟩ | ⟨_, hsame | ⟨event, hsubmitted, hempty, _, hnew, hafter⟩⟩
  · apply hold
    rw [hauth]
  · apply hold
    rw [hsame]
  · -- the challenge was made up by this wakeup, which is still open
    obtain ⟨d, ⟨hlog, hturn, _⟩, hdauth, _, hstep⟩ := step_submitted hsubmitted
    have hchanged : authAfterEvent ctx w.2 event d.auth ≠ d.auth := by
      rw [hdauth, hafter]
      intro heq
      rw [heq] at hchallenge
      exact hchallenge hempty
    obtain ⟨refusal, hflow⟩ := handleEvent_challenged hchanged
    rw [hstep] at hopen
    obtain ⟨d', hok⟩ := settled_isOpen (show (settled (d.handleEvent ctx w.2 event)).isOpen = true from hopen)
    have hsame : (c.step ctx w).auth.challenge = (authAfterEvent ctx w.2 event d.auth).challenge := by
      rw [hdauth, hafter]
    have hlog' : (c.step ctx w).log = d'.log := by
      rw [hstep, hok]
      rfl
    refine ⟨c.turn, ?_⟩
    rw [hsame, hlog', ← hturn]
    apply send_bind_wrote (c := { d with auth := authAfterEvent ctx w.2 event d.auth })
      (g := fun c => c.send w.2 refusal) _ (hflow ▸ hok)
    intro c'
    exact .push trivial trivial

/-- A new connection has written the challenge that it holds, if any. -/
theorem accept_challengeWritten (ctx : ConnectionContext) (first : Env) :
    ChallengeWritten (accept ctx first : Connection N) := by
  unfold ChallengeWritten accept
  split
  · intro hopen _
    obtain ⟨d, hok⟩ := settled_isOpen (show (settled (send first _ _)).isOpen = true from hopen)
    obtain ⟨hauth, hlog⟩ := send_ok hok
    dsimp only
    rw [hok]
    refine ⟨0, ?_⟩
    show (0, Effect.wrote (.text (.auth d.auth.challenge))) ∈ d.log
    rw [hauth, hlog]
    exact List.mem_append_right _ (List.mem_singleton.mpr rfl)
  · intro _ hchallenge
    exact absurd rfl hchallenge

/-! ## The key was proved -/

theorem isOpen_of_received {wakeup : Wakeup} {message : ClientMessage}
    (h : received ctx c wakeup = some message) : c.isOpen = true := by
  unfold received at h
  split at h
  · split at h
    · rename_i hready
      exact (Bool.and_eq_true _ _ ▸ hready).1
    · cases h
  · cases h

/-- An `AUTH` that is accepted proves its author's key. -/
theorem bringsProof_of_authenticates {w : Wakeup × Env} {event : Event} (hc : ChallengeWritten c)
    (h : authenticates ctx c w = some event) : BringsProof ctx c w event.pubkey := by
  obtain ⟨hreceived, haccepted⟩ := authenticates_iff.mp h
  unfold verifyClientAuth at haccepted
  split at haccepted
  · cases haccepted
  rename_i hverifies
  split at haccepted
  · cases haccepted
  rename_i now hnow
  cases hauth : Nip42.verifyAuthEvent ctx.urls event ctx.relayUrl c.auth.challenge now Nip42.defaultMaxAgeSecs with
  | error e =>
      rw [hauth] at haccepted
      cases haccepted
  | ok _ =>
      obtain ⟨hkind, hrelay, ⟨hnonempty, hanswers⟩, hpast, hfuture⟩ := Nip42.verifyAuthEvent_ok hauth
      refine ⟨event, hreceived, hverifies, rfl, hkind, hrelay, ⟨now, hnow, hpast, hfuture⟩, ?_⟩
      exact ⟨c.auth.challenge, hnonempty, hanswers, hc (isOpen_of_received hreceived) hnonempty⟩

/-- A protected event behind the gates has the key of the connection for its author. -/
theorem Admits.key {auth : AuthState} {event : Event} (h : Admits ctx env auth event)
    (hprotected : event.isProtected = true) : auth.pubkey = some event.pubkey := by
  have hgate := h.unprotected
  unfold checkProtected at hgate
  split at hgate
  · rename_i hpasses
    simpa [hprotected] using hpasses
  split at hgate
  · cases hgate
  · cases hgate

/-! ## Runs -/

theorem run_challengeWritten (ctx : ConnectionContext) (first : Env) (past : List (Wakeup × Env)) :
    ChallengeWritten (run ctx first past : Connection N) := by
  induction past using List.reverseRecOn with
  | nil => exact accept_challengeWritten ctx first
  | append_singleton past w ih =>
      rw [run_append_singleton]
      exact step_challengeWritten w ih

theorem accept_pubkey (ctx : ConnectionContext) (first : Env) :
    (accept ctx first : Connection N).auth.pubkey = none := by
  rw [accept]
  split
  · refine (congrArg AuthState.pubkey (settled_unwritten unwritten_auth _ _)).trans ?_
    rw [send_auth]
  · rfl

/-- The key of a connection was proved to it. -/
theorem run_pubkey (ctx : ConnectionContext) (first : Env) (past : List (Wakeup × Env)) (key : PublicKey)
    (h : (run ctx first past : Connection N).auth.pubkey = some key) :
    ∃ k w, past[k]? = some w ∧ BringsProof ctx (run ctx first (past.take k) : Connection N) w key := by
  induction past using List.reverseRecOn with
  | nil =>
      rw [show (run ctx first [] : Connection N) = accept ctx first from rfl, accept_pubkey] at h
      cases h
  | append_singleton past w ih =>
      have hold : (run ctx first past : Connection N).auth.pubkey = some key → _ := fun hkey =>
        let ⟨k, w', hk, hproof⟩ := ih hkey
        (⟨k, w', getElem?_append_of_some hk, by rwa [take_append_of_some hk]⟩ :
          ∃ k w', (past ++ [w])[k]? = some w' ∧
            BringsProof ctx (run ctx first ((past ++ [w]).take k) : Connection N) w' key)
      rw [run_append_singleton] at h
      rcases step_auth_cases ctx (run ctx first past) w with
        ⟨event, haccepted, hauth⟩ | ⟨_, hsame | ⟨event, _, _, _, hnew, _⟩⟩
      · rw [hauth] at h
        cases h
        refine ⟨past.length, w, List.getElem?_concat_length, ?_⟩
        rw [List.take_left]
        exact bringsProof_of_authenticates (run_challengeWritten ctx first past) haccepted
      · rw [hsame] at h
        exact hold h
      · rw [hnew] at h
        exact hold h

end Connection

/-- **Protected events need their author's own proof.** Whatever the mode, a protected event is passed to storage
    only after the client, on the same connection, proved the key of its author.

    By induction on the run. What a wakeup stores was admitted in it, a protected event with its author's key
    authenticated; and whoever is authenticated brought the proof in an earlier wakeup (`run_pubkey`), for a
    challenge that was written before that. -/
theorem protected_proved (ctx : ConnectionContext) (first : Env) (schedule : List (Wakeup × Env)) :
    ∀ entry ∈ (Connection.run ctx first schedule : Connection N).log, ∀ event, entry.2.stored = some event →
      event.isProtected = true →
      ∃ k w, schedule[k]? = some w ∧ k + 1 < entry.1 ∧
        BringsProof ctx (Connection.run ctx first (schedule.take k) : Connection N) w event.pubkey := by
  induction schedule using List.reverseRecOn with
  | nil =>
      intro entry hentry event hstored _
      rw [(Connection.accept_aside entry hentry).stored] at hstored
      cases hstored
  | append_singleton past w ih =>
      intro entry hentry event hstored hprotected
      rw [Connection.run_append_singleton] at hentry
      obtain ⟨fx, hlog, hfx⟩ := Connection.step_passed ctx (Connection.run ctx first past) w
      rw [hlog, List.mem_append] at hentry
      rcases hentry with hold | hnew
      · obtain ⟨k, w', hk, hbefore, hproof⟩ := ih entry hold event hstored hprotected
        exact ⟨k, w', getElem?_append_of_some hk, hbefore, by rwa [take_append_of_some hk]⟩
      · obtain ⟨e, he, rfl⟩ := List.mem_map.mp hnew
        obtain ⟨_, hadmits⟩ := hfx e he event (Effect.passed_of_stored hstored)
        obtain ⟨k, w', hk, hproof⟩ := Connection.run_pubkey ctx first past event.pubkey (hadmits.key hprotected)
        refine ⟨k, w', getElem?_append_of_some hk, ?_, by rwa [take_append_of_some hk]⟩
        show k + 1 < (Connection.run ctx first past).turn
        rw [Connection.run_turn]
        have hlt := (List.getElem?_eq_some_iff.mp hk).1
        omega

end Nula.Server

namespace Nula.Sample

open Server

/-- The answer of `carol` to the challenge of `serverEnv`. -/
def authEvent : Event where
  id := ⟨hexBytes "c94b853bcd1e3287e9f32bfae9161b604d4a76ff17053814b638cb2781da586c", by decide +kernel⟩
  pubkey := carol
  createdAt := 1700000000
  kind := ⟨22242⟩
  tags := ⟨[⟨["relay", "wss://relay/"], by decide⟩, ⟨["challenge", "nula-mock-0000000000000000"], by decide⟩]⟩
  content := ""
  sig :=
    ⟨hexBytes ("c281a759dd7f61200128533691c3c0e6d450cf3f6e29fd1428c8b29c71670494" ++
      "578a47edc3297f2c44289a68d12e89b04a7772d9986f85bc981a2570631b5c25"), by decide +kernel⟩

/-- A note of `carol`'s that only she may publish. -/
def protectedNote : Event where
  id := ⟨hexBytes "fa03b0a155887834774d25d9c8f9bb64ed3b65730f3ff47fb7e48deeca1aaefe", by decide +kernel⟩
  pubkey := carol
  createdAt := 1700000000
  kind := ⟨1⟩
  tags := ⟨[⟨["-"], by decide⟩]⟩
  content := "genuine"
  sig :=
    ⟨hexBytes ("4715da74ae263a7dd543e73aeb7959e9e16fc29993602b122d0df3d7e20df4bd" ++
      "c14f7155fe2aaf0f075c5e1d84787c7604fb21095817c67a549e8f7308d2c686"), by decide +kernel⟩

/-- The digest and the signature of `authEvent`. -/
def authCrypto : Crypto where
  sha256 b :=
    if b = strBytes ("[0,\"f9308a019258c31049344f85f89d5229b531c845836f99b08601f113bce036f9\",1700000000,22242," ++
        "[[\"relay\",\"wss://relay/\"],[\"challenge\",\"nula-mock-0000000000000000\"]],\"\"]") then
      authEvent.id.bytes
    else List.replicate 32 0
  sha256_size b := by
    split
    · exact authEvent.id.size
    · decide
  verifySchnorr sig message pubkey :=
    sig = authEvent.sig ∧ message = authEvent.id.bytes ∧ pubkey = authEvent.pubkey

/-- Without authentication at connect. -/
def protectedCtx : ConnectionContext where
  __ := serverCtx (fun text => .ok (if text = "AUTH" then .auth authEvent else .event protectedNote))
  crypto := authCrypto

/-- The note is refused with a challenge, the challenge is answered, the note is sent again. -/
def protectedRun : List (Wakeup × Env) :=
  [(.inbound (some (.ok (.text "EVENT"))), serverEnv 8), (.inbound (some (.ok (.text "AUTH"))), serverEnv 8),
    (.inbound (some (.ok (.text "EVENT"))), serverEnv 8)]

end Nula.Sample

namespace Nula.Server

open Nula.Sample

/-- The note of the example comes after its author's proof. -/
theorem protected_proved_note : ∃ k w, protectedRun[k]? = some w ∧ k + 1 < 3 ∧
    BringsProof protectedCtx
      (Connection.run protectedCtx (serverEnv 8) (protectedRun.take k) : Connection negentropy) w carol := by
  have hany : (Connection.run protectedCtx (serverEnv 8) protectedRun : Connection negentropy).log.any
      (fun entry => entry.1 = 3 ∧ entry.2.stored = some protectedNote) = true := by
    decide +kernel
  obtain ⟨entry, hentry, hnote⟩ := List.any_eq_true.mp hany
  obtain ⟨hturn, hstored⟩ := of_decide_eq_true hnote
  rw [← hturn]
  exact protected_proved protectedCtx (serverEnv 8) protectedRun entry hentry protectedNote hstored
    (by decide +kernel)

end Nula.Server
