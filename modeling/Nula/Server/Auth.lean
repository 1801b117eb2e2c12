import Nula.Lib.Always
import Nula.Server.Effects

/-!
# `Server.Auth` — who the client has proved to be

The authentication state changes in two places: an `AUTH` that `verify_client_auth` accepts sets the key
(`authenticates`), and the gate for protected events makes up a challenge where none was issued at connect.
Every other handler leaves it alone. `step_auth` says what a wakeup makes of it (`nextAuth`); the rest of the
module is read off that.
-/

namespace Nula.Server

open Std

variable {N : Negentropy}

namespace Connection

variable {c c' : Connection N} {ctx : ConnectionContext} {env : Env} {α : Type}

/-! ## What writing leaves alone -/

/-- `f` reads nothing that writing a frame or turning to the next wakeup changes. -/
def Unwritten (f : Connection N → α) : Prop :=
  ∀ (c : Connection N) (isOpen : Bool) (turn attempts : Nat) (log : List (Nat × Effect)),
    f { c with isOpen, turn, attempts, log } = f c

section

variable {f : Connection N → α} (hf : Unwritten f)
include hf

/-- A frame that is pushed changes nothing but what is written. -/
theorem push_unwritten (frame : Frame) (c : Connection N) : f (c.push env frame).left = f c := by
  rw [push]
  split
  · exact hf c _ _ _ _
  · exact hf c _ _ _ _

theorem sendAll_unwritten (ms : List RelayMessage) (c : Connection N) : f (c.sendAll env ms).left = f c := by
  induction ms generalizing c with
  | nil => rfl
  | cons m ms ih =>
      rw [sendAll, List.foldlM_cons]
      have hpush : f (c.push env (.text m)).left = f c := push_unwritten hf (.text m) c
      cases hsend : c.send env m with
      | error d =>
          rw [send] at hsend
          rwa [hsend] at hpush
      | ok d =>
          rw [send] at hsend
          rw [hsend] at hpush
          exact (ih d).trans hpush

/-- After a frame, whatever follows it. -/
theorem send_bind_unwritten {m : RelayMessage} {g : Connection N → Flow N} {c : Connection N}
    (hg : ∀ d, f (g d).left = f d) : f (Flow.left (c.send env m >>= g)) = f c := by
  have hpush : f (c.push env (.text m)).left = f c := push_unwritten hf (.text m) c
  rw [send]
  cases hsend : c.push env (.text m) with
  | error d => rwa [hsend] at hpush
  | ok d =>
      rw [hsend] at hpush
      exact (hg d).trans hpush

theorem sendAll_bind_unwritten {ms : List RelayMessage} {g : Connection N → Flow N} {c : Connection N}
    (hg : ∀ d, f (g d).left = f d) : f (Flow.left (c.sendAll env ms >>= g)) = f c := by
  have hall : f (c.sendAll env ms).left = f c := sendAll_unwritten hf ms c
  cases hsend : c.sendAll env ms with
  | error d => rwa [hsend] at hall
  | ok d =>
      rw [hsend] at hall
      exact (hg d).trans hall

end

theorem unwritten_auth : Unwritten (fun c : Connection N => c.auth) := fun _ _ _ _ _ => rfl
theorem unwritten_negSessions : Unwritten (fun c : Connection N => c.negSessions) := fun _ _ _ _ _ => rfl
theorem unwritten_subscriptions : Unwritten (fun c : Connection N => c.subscriptions) := fun _ _ _ _ _ => rfl

theorem send_auth (m : RelayMessage) (c : Connection N) : (c.send env m).left.auth = c.auth :=
  push_unwritten unwritten_auth _ c

/-! ## Handlers that leave the authentication state alone -/

theorem streamStored_unwritten {f : Connection N → α} (hf : Unwritten f)
    (hsubs : ∀ (c : Connection N) subscriptions, f { c with subscriptions } = f c) (id : SubscriptionId)
    (all filters : List Filter) (n : Nat) (c : Connection N) :
    f (c.streamStored env id all n filters).left = f c := by
  induction filters generalizing n c with
  | nil =>
      apply send_bind_unwritten hf
      intro d
      exact hsubs d _
  | cons filter filters ih =>
      rw [streamStored]
      have hemit : f (c.emit (.queried filter)) = f c := hf c _ _ _ _
      rw [← hemit]
      split
      · exact push_unwritten hf _ _
      · apply sendAll_bind_unwritten hf
        intro d
        exact ih _ d

/-- A `REQ` touches the subscriptions and nothing else of the state. -/
theorem handleReq_unwritten {f : Connection N → α} (hf : Unwritten f)
    (hsubs : ∀ (c : Connection N) subscriptions, f { c with subscriptions } = f c) (id : SubscriptionId)
    (filters : List Filter) (c : Connection N) : f (c.handleReq ctx env id filters).left = f c := by
  rw [handleReq]
  split
  · exact push_unwritten hf _ c
  split
  · exact push_unwritten hf _ c
  split
  · rw [streamRandomEvents]
    split
    · rfl
    · apply sendAll_bind_unwritten hf
      intro d
      exact push_unwritten hf _ d
  split
  · exact push_unwritten hf _ c
  split
  · exact push_unwritten hf _ c
  · exact streamStored_unwritten hf hsubs id _ _ _ c

/-- A session that is opened authenticates nobody. -/
theorem handleNegOpen_auth (id : SubscriptionId) (filter : Filter) (hex : String) (c : Connection N) :
    (c.handleNegOpen ctx env id filter hex).left.auth = c.auth := by
  rw [handleNegOpen]
  split
  · exact send_auth _ c
  split
  · exact send_auth _ c
  split
  · exact send_auth _ c
  dsimp only
  split
  · exact send_auth _ _
  split
  · exact send_auth _ _
  split
  · exact send_auth _ _
  · exact send_auth _ _

theorem handleNegMsg_auth (id : SubscriptionId) (hex : String) (c : Connection N) :
    (c.handleNegMsg env id hex).left.auth = c.auth := by
  rw [handleNegMsg]
  split
  · exact send_auth _ c
  split
  · exact send_auth _ _
  · exact send_auth _ _

/-! ## `AUTH` and `EVENT` -/

/-- The authentication state after an `AUTH`. -/
def authAfterAuth (ctx : ConnectionContext) (env : Env) (event : Event) (auth : AuthState) : AuthState :=
  match verifyClientAuth ctx env event auth.challenge with
  | .ok () => { auth with authenticated := true, pubkey := some event.pubkey }
  | .error _ => auth

/-- **An `AUTH` authenticates** whom its event names, if it answers the challenge. -/
theorem handleAuth_auth (event : Event) (c : Connection N) :
    (c.handleAuth ctx env event).left.auth = authAfterAuth ctx env event c.auth := by
  unfold handleAuth authAfterAuth
  cases verifyClientAuth ctx env event c.auth.challenge with
  | ok _ => exact send_auth _ _
  | error why => exact send_auth _ c

/-- The authentication state after an `EVENT`: the gate for protected events is reached behind those for
    deadline and work. -/
def authAfterEvent (ctx : ConnectionContext) (env : Env) (event : Event) (auth : AuthState) : AuthState :=
  if (checkExpired env event).isNone && (ctx.minPow.bind (checkPow event)).isNone then
    (checkProtected env event auth).2
  else auth

/-- What an event makes of the authentication: the gates are walked through in order, and only the one on protected
    events makes a challenge. -/
theorem handleEvent_auth (event : Event) (c : Connection N) :
    (c.handleEvent ctx env event).left.auth = authAfterEvent ctx env event c.auth := by
  rw [handleEvent, authAfterEvent]
  split
  · rename_i hexpired
    rw [hexpired]
    exact send_auth _ c
  rename_i hunexpired
  split
  · rename_i hpow
    rw [hunexpired, hpow]
    exact send_auth _ c
  rename_i hworked
  rw [hunexpired, hworked]
  show _ = (checkProtected env event c.auth).2
  dsimp only
  split
  · -- the challenge first, then the refusal
    apply send_bind_unwritten unwritten_auth
    intro d
    exact send_auth _ d
  · exact send_auth _ _
  split
  · exact send_auth _ _
  · apply send_bind_unwritten unwritten_auth
    intro d
    show (if _ then d.emit _ else d).auth = d.auth
    split
    · rfl
    · rfl

/-- `AUTH` and `EVENT` touch the authentication state and nothing else. -/
theorem handleAuth_unwritten {f : Connection N → α} (hf : Unwritten f)
    (hauth : ∀ (c : Connection N) auth, f { c with auth } = f c) (event : Event) (c : Connection N) :
    f (c.handleAuth ctx env event).left = f c := by
  rw [handleAuth]
  split
  · exact (push_unwritten hf _ _).trans (hauth c _)
  · exact push_unwritten hf _ c

theorem handleEvent_unwritten {f : Connection N → α} (hf : Unwritten f)
    (hauth : ∀ (c : Connection N) auth, f { c with auth } = f c) (event : Event) (c : Connection N) :
    f (c.handleEvent ctx env event).left = f c := by
  rw [handleEvent]
  split
  · exact push_unwritten hf _ c
  split
  · exact push_unwritten hf _ c
  dsimp only
  rw [← hauth c (checkProtected env event c.auth).2]
  split
  · apply send_bind_unwritten hf
    intro d
    exact push_unwritten hf _ d
  · exact push_unwritten hf _ _
  split
  · exact push_unwritten hf _ _
  · refine (send_bind_unwritten hf ?_).trans (hf _ _ _ _ _)
    intro d
    show f (if _ then d.emit _ else d) = f d
    split
    · exact hf d _ _ _ _
    · rfl

/-- The gate for protected events never touches who the client is, and keeps a challenge that is there. -/
theorem checkProtected_snd (event : Event) (auth : AuthState) :
    (checkProtected env event auth).2 = auth ∨
      auth.challenge = "" ∧ auth.pubkey = none ∧
        (checkProtected env event auth).2 = { auth with challenge := "nula-mock-" ++ env.randomHexToken } := by
  rw [checkProtected]
  split
  · exact Or.inl rfl
  split
  · rename_i hnone
    dsimp only
    split
    · rename_i hempty
      exact Or.inr ⟨hempty, hnone, rfl⟩
    · exact Or.inl rfl
  · exact Or.inl rfl

theorem authAfterEvent_cases (ctx : ConnectionContext) (env : Env) (event : Event) (auth : AuthState) :
    authAfterEvent ctx env event auth = auth ∨
      auth.challenge = "" ∧ auth.pubkey = none ∧
        authAfterEvent ctx env event auth = { auth with challenge := "nula-mock-" ++ env.randomHexToken } := by
  rw [authAfterEvent]
  split
  · exact checkProtected_snd event auth
  · exact Or.inl rfl

/-! ## Wakeups -/

/-- The authentication state after a message that passed the gates. -/
def authAfter (ctx : ConnectionContext) (env : Env) (message : ClientMessage) (auth : AuthState) : AuthState :=
  match message with
  | .auth event => authAfterAuth ctx env event auth
  | .event event => authAfterEvent ctx env event auth
  | _ => auth

/-- What a message does to who is authenticated. -/
theorem dispatch_auth (message : ClientMessage) (c : Connection N) :
    (c.dispatch ctx env message).left.auth = authAfter ctx env message c.auth := by
  cases message with
  | event event => exact handleEvent_auth event c
  | req id filters => exact handleReq_unwritten unwritten_auth (fun _ _ => rfl) id filters c
  | close id => rfl
  | auth event => exact handleAuth_auth event c
  | count id filter => exact send_auth _ _
  | negOpen id filter hex => exact handleNegOpen_auth id filter hex c
  | negMsg id hex => exact handleNegMsg_auth id hex c
  | negClose id => rfl

theorem settled_unwritten {f : Connection N → α} (hf : Unwritten f) (flow : Flow N) (turn : Nat) :
    f { settled flow with turn } = f flow.left := by
  cases flow with
  | ok d => exact hf d _ _ _ _
  | error d => exact hf d _ _ _ _

/-- A wakeup without a message writes at most. -/
theorem step_unreceived_unwritten {f : Connection N → α} (hf : Unwritten f) {w : Wakeup × Env}
    (h : received ctx c w.1 = none) : f (c.step ctx w) = f c := by
  cases hopen : c.isOpen with
  | false =>
      rw [step_left ctx hopen]
      exact hf c _ _ _ _
  | true =>
      obtain ⟨flow, hidles, hstep⟩ := step_idles hopen h
      have hattempts : f { c with attempts := 0 } = f c := hf c _ _ _ _
      rw [hstep, settled_unwritten hf, ← hattempts]
      cases hidles with
      | rest => rfl
      | leave => rfl
      | notice text => exact push_unwritten hf _ _
      | pong payload => exact push_unwritten hf _ _
      | shutdown => exact push_unwritten hf _ _
      | live event => exact sendAll_unwritten hf _ _

/-- The authentication state after a wakeup. -/
def nextAuth (ctx : ConnectionContext) (c : Connection N) (w : Wakeup × Env) : AuthState :=
  match received ctx c w.1 with
  | some message => if passes ctx w.2 c message then authAfter ctx w.2 message c.auth else c.auth
  | none => c.auth

/-- **One wakeup** changes who is authenticated only as the message in it says. -/
theorem step_auth (ctx : ConnectionContext) (c : Connection N) (w : Wakeup × Env) :
    (c.step ctx w).auth = nextAuth ctx c w := by
  rw [nextAuth]
  cases hreceived : received ctx c w.1 with
  | none => exact step_unreceived_unwritten unwritten_auth hreceived
  | some message =>
      dsimp only
      rw [step_received hreceived]
      refine (settled_unwritten unwritten_auth _ _).trans ?_
      split
      · rename_i hpasses
        rw [handleMessage_passes (c := { c with attempts := 0 }) hpasses]
        exact dispatch_auth message _
      · rename_i hpasses
        obtain ⟨rate, refusal, _, hstopped⟩ :=
          handleMessage_stopped (c := { c with attempts := 0 }) (Bool.not_eq_true _ ▸ hpasses)
        rw [hstopped]
        exact push_unwritten unwritten_auth _ _

/-- The `AUTH` a wakeup brings, if `verify_client_auth` accepts it. -/
def authenticates (ctx : ConnectionContext) (c : Connection N) (w : Wakeup × Env) : Option Event :=
  match received ctx c w.1 with
  | some (.auth event) =>
      match verifyClientAuth ctx w.2 event c.auth.challenge with
      | .ok () => some event
      | .error _ => none
  | _ => none

/-- An `AUTH` is gated by nothing. -/
theorem passes_auth (event : Event) : passes ctx env c (.auth event) = true := by
  simp [passes, messageNeedsAuth, RateLimiter.check]

/-- A wakeup authenticates exactly if it reads an `AUTH` whose event verifies. -/
theorem authenticates_iff {w : Wakeup × Env} {event : Event} : authenticates ctx c w = some event ↔
    received ctx c w.1 = some (.auth event) ∧ verifyClientAuth ctx w.2 event c.auth.challenge = .ok () := by
  unfold authenticates
  constructor
  · intro h
    split at h
    · rename_i event' hreceived
      split at h
      · rename_i haccepts
        cases h
        exact ⟨hreceived, haccepts⟩
      · cases h
    · cases h
  · rintro ⟨hreceived, haccepts⟩
    simp only [hreceived, haccepts]

/-- **What a wakeup makes of the authentication state.** An accepted `AUTH` sets the key; otherwise the client
    stays who it was, and the challenge is at most made up where there was none and nobody had authenticated. -/
theorem step_auth_cases (ctx : ConnectionContext) (c : Connection N) (w : Wakeup × Env) :
    (∃ event, authenticates ctx c w = some event ∧
      (c.step ctx w).auth = { c.auth with authenticated := true, pubkey := some event.pubkey }) ∨
    (authenticates ctx c w = none ∧ ((c.step ctx w).auth = c.auth ∨
      ∃ event, submitted ctx c w = some event ∧ c.auth.challenge = "" ∧ c.auth.pubkey = none ∧
        (c.step ctx w).auth = { c.auth with challenge := "nula-mock-" ++ w.2.randomHexToken } ∧
        authAfterEvent ctx w.2 event c.auth = (c.step ctx w).auth)) := by
  rw [step_auth]
  unfold nextAuth authenticates
  cases hreceived : received ctx c w.1 with
  | none => exact Or.inr ⟨rfl, Or.inl rfl⟩
  | some message =>
      dsimp only
      cases message with
      | auth event =>
          rw [if_pos (passes_auth event)]
          dsimp only [authAfter, authAfterAuth]
          cases verifyClientAuth ctx w.2 event c.auth.challenge with
          | ok _ => exact Or.inl ⟨event, rfl, rfl⟩
          | error why => exact Or.inr ⟨rfl, Or.inl rfl⟩
      | event event =>
          refine Or.inr ⟨rfl, ?_⟩
          by_cases hpasses : passes ctx w.2 c (.event event) = true
          · rw [if_pos hpasses]
            dsimp only [authAfter]
            rcases authAfterEvent_cases ctx w.2 event c.auth with hsame | ⟨hempty, hnone, hnew⟩
            · exact Or.inl hsame
            · refine Or.inr ⟨event, ?_, hempty, hnone, hnew, rfl⟩
              rw [submitted, hreceived]
              exact if_pos hpasses
          · rw [if_neg hpasses]
            exact Or.inl rfl
      | req id filters => exact Or.inr ⟨rfl, Or.inl (ite_self _)⟩
      | close id => exact Or.inr ⟨rfl, Or.inl (ite_self _)⟩
      | count id filter => exact Or.inr ⟨rfl, Or.inl (ite_self _)⟩
      | negOpen id filter hex => exact Or.inr ⟨rfl, Or.inl (ite_self _)⟩
      | negMsg id hex => exact Or.inr ⟨rfl, Or.inl (ite_self _)⟩
      | negClose id => exact Or.inr ⟨rfl, Or.inl (ite_self _)⟩

end Connection

end Nula.Server
