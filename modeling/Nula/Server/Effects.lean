import Nula.Server.Connection

/-!
# `Server.Effects` — what a wakeup adds to the log

A handler never rewrites the log: it adds effects stamped with the current wakeup (`Adds`). The rules take a
handler apart at its `>>=`; then each handler says what kind of effects it adds. Most of them answer on the
side (`Effect.Aside`): they leave the subscriptions alone, write no frame of a subscription, and pass nothing
to storage or to the broadcast. The exception among the first two is `REQ`, among the last `EVENT`, whose gates
`Admits` names.
-/

namespace Nula.Server

open Std

variable {N : Negentropy}

/-! ## Kinds of effects -/

/-- The subscription a frame belongs to: `EVENT`, `EOSE` and `CLOSED` have one. -/
def subject : RelayMessage → Option SubscriptionId
  | .event id _ => some id
  | .endOfStoredEvents id => some id
  | .closed id _ => some id
  | _ => none

namespace Effect

/-- The text frame the sink took. -/
def message : Effect → Option RelayMessage
  | .wrote (.text m) => some m
  | _ => none

/-- The event passed to storage. -/
def stored : Effect → Option Event
  | .saved event _ => some event
  | _ => none

/-- The event put on the broadcast. -/
def announced : Effect → Option Event
  | .broadcast event => some event
  | _ => none

/-- No frame of a subscription, nothing to storage, nothing to the broadcast. -/
structure Aside (e : Effect) : Prop where
  message : ∀ m, e.message = some m → subject m = none
  stored : e.stored = none
  announced : e.announced = none

/-- It reaches nobody but this client. -/
structure Local (e : Effect) : Prop where
  stored : e.stored = none
  announced : e.announced = none

theorem Aside.local {e : Effect} (h : e.Aside) : e.Local := ⟨h.stored, h.announced⟩

theorem local_wrote (frame : Frame) : (wrote frame).Local := ⟨rfl, rfl⟩
theorem local_refused (frame : Frame) : (refused frame).Local := ⟨rfl, rfl⟩

/-- A local effect whose frame, if it belongs to a subscription, is an `EVENT` for one of `subscriptions`. -/
structure Forwarded (subscriptions : HashMap SubscriptionId (List Filter)) (e : Effect) : Prop where
  isLocal : e.Local
  member : ∀ m id, e.message = some m → subject m = some id → id ∈ subscriptions ∧ ∃ event, m = .event id event

theorem Aside.forwarded {subscriptions : HashMap SubscriptionId (List Filter)} {e : Effect} (h : e.Aside) :
    e.Forwarded subscriptions := by
  refine ⟨h.local, ?_⟩
  intro m id hm hsubject
  rw [h.message m hm] at hsubject
  cases hsubject

theorem aside_queried (filter : Filter) : (queried filter).Aside := ⟨nofun, rfl, rfl⟩
theorem aside_counted (filter : Filter) : (counted filter).Aside := ⟨nofun, rfl, rfl⟩
theorem aside_listed (filter : Filter) : (listed filter).Aside := ⟨nofun, rfl, rfl⟩
theorem aside_refused (frame : Frame) : (refused frame).Aside := ⟨nofun, rfl, rfl⟩

theorem aside_wrote {m : RelayMessage} (h : subject m = none) : (wrote (.text m)).Aside := by
  refine ⟨fun m' hm => ?_, rfl, rfl⟩
  cases hm
  exact h

theorem aside_pong (payload : Bytes) : (wrote (.pong payload)).Aside := ⟨nofun, rfl, rfl⟩
theorem aside_close : (wrote .close).Aside := ⟨nofun, rfl, rfl⟩

end Effect

/-! ## Growth of the log -/

namespace Connection

/-- From `c` to `c'` the log grew by effects that satisfy `P`, and a subscription is new only if its `EOSE` is
    one of them. -/
structure Adds (P : Effect → Prop) (c c' : Connection N) : Prop where
  turn : c'.turn = c.turn
  log : ∃ fx : List Effect, c'.log = c.log ++ fx.map (c.turn, ·) ∧ (∀ e ∈ fx, P e) ∧
    ∀ id ∈ c'.subscriptions, id ∈ c.subscriptions ∨ .wrote (.text (.endOfStoredEvents id)) ∈ fx

variable {P Q : Effect → Prop} {c c' c'' : Connection N} {env : Env} {ctx : ConnectionContext}

namespace Adds

/-- The log is the same. -/
theorem same (hturn : c'.turn = c.turn) (hlog : c'.log = c.log)
    (hsubs : ∀ id ∈ c'.subscriptions, id ∈ c.subscriptions) : Adds P c c' := by
  refine ⟨hturn, [], ?_, fun e he => absurd he List.not_mem_nil, fun id hid => Or.inl (hsubs id hid)⟩
  rw [hlog, List.map_nil, List.append_nil]

theorem refl : Adds P c c := same rfl rfl (fun _ h => h)

theorem mono (h : Adds P c c') (hPQ : ∀ e, P e → Q e) : Adds Q c c' := by
  obtain ⟨fx, hlog, hP, hsubs⟩ := h.log
  exact ⟨h.turn, fx, hlog, fun e he => hPQ e (hP e he), hsubs⟩

theorem trans (h : Adds P c c') (h' : Adds P c' c'') : Adds P c c'' := by
  obtain ⟨fx, hlog, hP, hsubs⟩ := h.log
  obtain ⟨fx', hlog', hP', hsubs'⟩ := h'.log
  refine ⟨h'.turn.trans h.turn, fx ++ fx', ?_, ?_, ?_⟩
  · rw [hlog', hlog, h.turn, List.map_append, List.append_assoc]
  · intro e he
    rcases List.mem_append.mp he with he | he
    · exact hP e he
    · exact hP' e he
  · intro id hid
    rcases hsubs' id hid with hold | hnew
    · rcases hsubs id hold with hold | hnew
      · exact Or.inl hold
      · exact Or.inr (List.mem_append_left _ hnew)
    · exact Or.inr (List.mem_append_right _ hnew)

theorem emit {e : Effect} (h : P e) : Adds P c (c.emit e) := by
  refine ⟨rfl, [e], rfl, ?_, fun id hid => Or.inl hid⟩
  intro x hx
  rw [List.mem_singleton.mp hx]
  exact h

/-- A pushed frame is written or refused. -/
theorem push {frame : Frame} (hw : P (.wrote frame)) (hr : P (.refused frame)) :
    Adds P c (c.push env frame).left := by
  rw [Connection.push]
  have hcount : Adds P c { c with attempts := c.attempts + 1 } := same rfl rfl (fun _ h => h)
  split
  · exact hcount.trans (emit hr)
  · exact hcount.trans (emit hw)

/-- A handler and what follows it, if it goes on. -/
theorem bind {f : Flow N} {g : Connection N → Flow N} (hf : Adds P c f.left)
    (hg : ∀ c', f = .ok c' → Adds P c' (g c').left) : Adds P c (Flow.left (f >>= g)) := by
  cases f with
  | error c' => exact hf
  | ok c' => exact hf.trans (hg c' rfl)

/-- Messages whose frames are allowed, written or not. -/
theorem sendAll {ms : List RelayMessage} (hw : ∀ m ∈ ms, P (.wrote (.text m)))
    (hr : ∀ m ∈ ms, P (.refused (.text m))) : Adds P c (c.sendAll env ms).left := by
  induction ms generalizing c with
  | nil => exact refl
  | cons m ms ih =>
      rw [Connection.sendAll, List.foldlM_cons]
      apply bind
      · exact push (hw m List.mem_cons_self) (hr m List.mem_cons_self)
      · intro c' _
        exact ih (fun m' hm' => hw m' (List.mem_cons_of_mem _ hm'))
          (fun m' hm' => hr m' (List.mem_cons_of_mem _ hm'))

/-- A frame of no subscription. -/
theorem send {m : RelayMessage} (h : subject m = none) : Adds Effect.Aside c (c.send env m).left :=
  push (Effect.aside_wrote h) (Effect.aside_refused _)

/-- Whatever a later part of the handler starts from, if it differs from `c` in nothing that counts. -/
theorem from_same {d : Connection N} (h : Adds P d c') (hturn : d.turn = c.turn) (hlog : d.log = c.log)
    (hsubs : d.subscriptions = c.subscriptions) : Adds P c c' :=
  (same hturn hlog (fun _ hid => hsubs ▸ hid)).trans h

end Adds

/-! ## Handlers that answer on the side -/

/-- Frames of no subscription satisfy `P`. -/
def SideFrames (P : Effect → Prop) : Prop :=
  ∀ m, subject m = none → P (.wrote (.text m)) ∧ P (.refused (.text m))

theorem sideFrames_aside : SideFrames Effect.Aside := fun _ hm => ⟨Effect.aside_wrote hm, Effect.aside_refused _⟩

theorem SideFrames.send (hP : SideFrames P) {m : RelayMessage} (h : subject m = none) :
    Adds P c (c.send env m).left :=
  .push (hP m h).1 (hP m h).2

theorem handleAuth_adds (hP : SideFrames P) (event : Event) : Adds P c (c.handleAuth ctx env event).left := by
  rw [handleAuth]
  split
  · exact .from_same (hP.send rfl) rfl rfl rfl
  · exact hP.send rfl

/-- The filter a `NEG-OPEN` hands to storage, past its gates. -/
def negOpenFilter (ctx : ConnectionContext) (env : Env) (c : Connection N) (id : SubscriptionId)
    (filter : Filter) : Option Filter :=
  if (subidTooLong ctx id).isSome || c.negSessions.contains id then none
  else match env.admitQuery 0 filter with
    | (_, .reject _ _) => none
    | (filter, .accept) => some filter

/-- A session that is opened lists what its filter asks for, and answers. -/
theorem handleNegOpen_adds (hP : SideFrames P) (id : SubscriptionId) (filter : Filter) (hex : String)
    (hlisted : ∀ f, negOpenFilter ctx env c id filter = some f → P (.listed f)) :
    Adds P c (c.handleNegOpen ctx env id filter hex).left := by
  rw [handleNegOpen]
  split
  · exact hP.send rfl
  rename_i hshort
  split
  · exact hP.send rfl
  rename_i hnew
  split
  · exact hP.send rfl
  rename_i listed hadmitted
  have hlist : Adds P c (c.emit (.listed listed)) := by
    apply Adds.emit
    apply hlisted
    rw [negOpenFilter, hshort, if_neg (by simp [hnew]), hadmitted]
  apply hlist.trans
  dsimp only
  split
  · exact hP.send rfl
  split
  · exact hP.send rfl
  split
  · exact hP.send rfl
  · exact .from_same (hP.send rfl) rfl rfl rfl

theorem handleNegMsg_adds (hP : SideFrames P) (id : SubscriptionId) (hex : String) :
    Adds P c (c.handleNegMsg env id hex).left := by
  rw [handleNegMsg]
  split
  · exact hP.send rfl
  split
  · exact .from_same (hP.send rfl) rfl rfl rfl
  · exact .from_same (hP.send rfl) rfl rfl rfl

/-! ## `EVENT` -/

/-- The gates of `handle_event`: deadline, work, the protected marker, the write policy. -/
structure Admits (ctx : ConnectionContext) (env : Env) (auth : AuthState) (event : Event) : Prop where
  unexpired : checkExpired env event = none
  worked : ctx.minPow.bind (checkPow event) = none
  unprotected : (checkProtected env event auth).1 = none
  policy : env.admitEvent event = .accept

instance {auth : AuthState} {event : Event} : Decidable (Admits ctx env auth event) :=
  decidable_of_iff (checkExpired env event = none ∧ ctx.minPow.bind (checkPow event) = none ∧
      (checkProtected env event auth).1 = none ∧ env.admitEvent event = .accept)
    ⟨fun ⟨h₁, h₂, h₃, h₄⟩ => ⟨h₁, h₂, h₃, h₄⟩, fun h => ⟨h.1, h.2, h.3, h.4⟩⟩

/-- An event that may be stored leaves the authentication state alone. -/
theorem checkProtected_none {event : Event} {auth : AuthState} (h : (checkProtected env event auth).1 = none) :
    checkProtected env event auth = (none, auth) := by
  rw [checkProtected] at h ⊢
  split
  · rfl
  · rename_i hgate
    rw [if_neg hgate] at h
    split at h
    · cases h
    · cases h

/-- Past the gates the event is stored, answered and broadcast. -/
theorem handleEvent_admitted {event : Event} (h : Admits ctx env c.auth event) :
    c.handleEvent ctx env event =
      ((c.emit (.saved event (env.saveEvent event))).send env (saveReply event.id (env.saveEvent event)).2 >>=
        fun c => .ok (if (saveReply event.id (env.saveEvent event)).1 then c.emit (.broadcast event) else c)) := by
  rw [handleEvent, h.unexpired, h.worked, checkProtected_none h.unprotected, h.policy]

/-- What `check_protected` answers with: a challenge perhaps, and a refusal. -/
theorem checkProtected_some {event : Event} {auth : AuthState} {challenge : Option RelayMessage}
    {refusal : RelayMessage} (h : (checkProtected env event auth).1 = some (challenge, refusal)) :
    (∃ why, refusal = .ok event.id false why) ∧ ∀ m, challenge = some m → ∃ challenge, m = .auth challenge := by
  rw [checkProtected] at h
  split at h
  · cases h
  · split at h
    · cases h
      refine ⟨⟨_, rfl⟩, ?_⟩
      intro m hm
      cases hm
      exact ⟨_, rfl⟩
    · cases h
      exact ⟨⟨_, rfl⟩, nofun⟩

theorem checkExpired_some {event : Event} {m : RelayMessage} (h : checkExpired env event = some m) :
    ∃ why, m = .ok event.id false why := by
  rw [checkExpired] at h
  split at h
  · cases h
  · split at h
    · cases h
      exact ⟨_, rfl⟩
    · cases h

theorem checkPow_some {event : Event} {m : RelayMessage} (h : ctx.minPow.bind (checkPow event) = some m) :
    ∃ why, m = .ok event.id false why := by
  obtain ⟨min, _, hcheck⟩ := Option.bind_eq_some_iff.mp h
  rw [checkPow] at hcheck
  split at hcheck
  · cases hcheck
    exact ⟨_, rfl⟩
  · cases hcheck

/-- Whatever storage says, the publisher gets an `OK` frame. -/
theorem saveReply_snd (id : EventId) (result : Except String SaveEventStatus) :
    ∃ accepted why, (saveReply id result).2 = .ok id accepted why := by
  unfold saveReply
  split
  · exact ⟨_, _, rfl⟩
  · exact ⟨_, _, rfl⟩
  · exact ⟨_, _, rfl⟩
  · exact ⟨_, _, rfl⟩

/-- What `handle_event` adds: `OK`, a challenge, and past the gates the storage call and the broadcast. Past the gates
    there are the storage call, the reply and the broadcast; in front of them one of the gates answers. -/
theorem handleEvent_adds {event : Event}
    (hok : ∀ accepted why, P (.wrote (.text (.ok event.id accepted why))) ∧
      P (.refused (.text (.ok event.id accepted why))))
    (hauth : ∀ challenge, P (.wrote (.text (.auth challenge))) ∧ P (.refused (.text (.auth challenge))))
    (hstored : Admits ctx env c.auth event → (∀ result, P (.saved event result)) ∧ P (.broadcast event)) :
    Adds P c (c.handleEvent ctx env event).left := by
  have hrefusal : ∀ {d : Connection N} {m : RelayMessage}, (∃ why, m = .ok event.id false why) →
      Adds P d (d.send env m).left := by
    rintro d m ⟨why, rfl⟩
    exact .push (hok false why).1 (hok false why).2
  by_cases hadmits : Admits ctx env c.auth event
  · obtain ⟨hsaved, hbroadcast⟩ := hstored hadmits
    rw [handleEvent_admitted hadmits]
    have hsave : Adds P c (c.emit (.saved event (env.saveEvent event))) := .emit (hsaved _)
    apply hsave.trans
    apply Adds.bind
    · obtain ⟨accepted, why, hreply⟩ := saveReply_snd event.id (env.saveEvent event)
      rw [hreply]
      exact .push (hok accepted why).1 (hok accepted why).2
    · intro d _
      show Adds P d (if _ then d.emit _ else d)
      split
      · exact .emit hbroadcast
      · exact .refl
  -- one of the four gates answers, and the rest of the handler is not reached
  rw [handleEvent]
  split
  · rename_i m hm
    exact hrefusal (checkExpired_some hm)
  rename_i hunexpired
  split
  · rename_i m hm
    exact hrefusal (checkPow_some hm)
  rename_i hworked
  cases hgate : checkProtected env event c.auth with
  | mk refused auth =>
      have hrefused : (checkProtected env event c.auth).1 = refused := by rw [hgate]
      cases refused with
      | some answers =>
          obtain ⟨challenge, refusal⟩ := answers
          obtain ⟨hok', hchallenge⟩ := checkProtected_some hrefused
          cases challenge with
          | none => exact .from_same (hrefusal hok') rfl rfl rfl
          | some m =>
              -- the challenge first, then the refusal
              obtain ⟨challenge, rfl⟩ := hchallenge m rfl
              refine .from_same (.bind (.push (hauth challenge).1 (hauth challenge).2) ?_) rfl rfl rfl
              intro d _
              exact hrefusal hok'
      | none =>
          dsimp only
          split
          · exact .from_same (hrefusal ⟨_, rfl⟩) rfl rfl rfl
          · rename_i hpolicy
            exact absurd ⟨hunexpired, hworked, hrefused, hpolicy⟩ hadmits

/-- A refused event is answered on the side. -/
theorem handleEvent_refused {event : Event} (h : ¬Admits ctx env c.auth event) :
    Adds Effect.Aside c (c.handleEvent ctx env event).left := by
  apply handleEvent_adds
  · intro accepted why
    exact ⟨Effect.aside_wrote rfl, Effect.aside_refused _⟩
  · intro challenge
    exact ⟨Effect.aside_wrote rfl, Effect.aside_refused _⟩
  · intro hadmits
    exact absurd hadmits h

/-! ## `REQ` and the live events -/

/-- The `EOSE` and the subscription it announces. -/
theorem sendEose_adds {id : SubscriptionId} {all : List Filter}
    (hw : P (.wrote (.text (.endOfStoredEvents id)))) (hr : P (.refused (.text (.endOfStoredEvents id)))) :
    Adds P c (Flow.left (c.send env (.endOfStoredEvents id) >>= fun c =>
      .ok { c with subscriptions := c.subscriptions.insert id all })) := by
  rw [send, push]
  split
  · refine ⟨rfl, [.refused (.text (.endOfStoredEvents id))], rfl, ?_, fun k hk => Or.inl hk⟩
    intro e he
    rw [List.mem_singleton.mp he]
    exact hr
  · refine ⟨rfl, [.wrote (.text (.endOfStoredEvents id))], rfl, ?_, ?_⟩
    · intro e he
      rw [List.mem_singleton.mp he]
      exact hw
    · -- the one subscription that is new is the one just announced
      intro k hk
      by_cases hid : id = k
      · subst hid
        exact Or.inr List.mem_cons_self
      · refine Or.inl ?_
        have hmem : k ∈ c.subscriptions.insert id all := hk
        rw [ExtTreeMap.mem_insert] at hmem
        rcases hmem with heq | hmem
        · exact absurd (LawfulEqOrd.eq_of_compare heq) hid
        · exact hmem

/-- Every frame satisfies `P`. -/
def AllFrames (P : Effect → Prop) : Prop := ∀ frame, P (.wrote frame) ∧ P (.refused frame)

theorem allFrames_local : AllFrames Effect.Local := fun _ => ⟨Effect.local_wrote _, Effect.local_refused _⟩

/-- Where every frame is allowed, those aside are. -/
theorem AllFrames.side (hP : AllFrames P) : SideFrames P := fun m _ => hP (.text m)

theorem AllFrames.push (hP : AllFrames P) (frame : Frame) : Adds P c (c.push env frame).left :=
  .push (hP frame).1 (hP frame).2

theorem AllFrames.sendAll (hP : AllFrames P) (ms : List RelayMessage) : Adds P c (c.sendAll env ms).left :=
  .sendAll (fun _ _ => (hP _).1) (fun _ _ => (hP _).2)

/-- A stream of stored events queries its filters, and answers. -/
theorem streamStored_adds (hP : AllFrames P) {id : SubscriptionId} {all filters : List Filter} {n : Nat}
    (hqueried : ∀ f ∈ filters, P (.queried f)) : Adds P c (c.streamStored env id all n filters).left := by
  induction filters generalizing n c with
  | nil => exact sendEose_adds (hP _).1 (hP _).2
  | cons filter filters ih =>
      rw [streamStored]
      have hquery : Adds P c (c.emit (.queried filter)) := .emit (hqueried filter List.mem_cons_self)
      apply hquery.trans
      split
      · exact hP.push _
      · refine .bind (hP.sendAll _) ?_
        intro c' _
        exact ih (fun f hf => hqueried f (List.mem_cons_of_mem _ hf))

/-- **A `REQ`** queries the filters that were admitted, and answers. -/
theorem handleReq_adds (hP : AllFrames P) (id : SubscriptionId) (filters : List Filter)
    (hqueried : ∀ admitted, admitFilters ctx env 0 filters = .ok admitted → ∀ f ∈ admitted, P (.queried f)) :
    Adds P c (c.handleReq ctx env id filters).left := by
  -- every gate answers with one frame; behind them the notes or the stored events are streamed
  rw [handleReq]
  split
  · exact hP.push _
  split
  · exact hP.push _
  split
  · rw [streamRandomEvents]
    split
    · exact .refl
    · refine .bind (hP.sendAll _) ?_
      intro c' _
      exact hP.push _
  split
  · exact hP.push _
  split
  · exact hP.push _
  · rename_i admitted hadmitted
    exact streamStored_adds hP (hqueried admitted hadmitted)

/-- Every live event goes to a subscription of the map. -/
theorem forwardToSubscriptions_forwarded (event : Event) :
    Adds (Effect.Forwarded c.subscriptions) c (c.forwardToSubscriptions env event).left := by
  rw [forwardToSubscriptions]
  apply Adds.sendAll
  · intro m hm
    obtain ⟨entry, hentry, rfl⟩ := List.mem_map.mp hm
    have hmem : (entry.1, entry.2) ∈ c.subscriptions.iter env.subscriptionOrder := (List.mem_filter.mp hentry).1
    refine ⟨Effect.local_wrote _, ?_⟩
    intro m' id hm' hsubject
    cases hm'
    cases hsubject
    refine ⟨?_, event, rfl⟩
    rw [ExtTreeMap.mem_iff_isSome_getElem?, HashMap.mem_iter.mp hmem]
    rfl
  · intro m _
    exact ⟨Effect.local_refused _, nofun⟩

/-! ## Dispatch -/

/-- What a dispatched message adds besides frames, each with the gates it is behind. -/
theorem dispatch_adds (hP : AllFrames P) (message : ClientMessage)
    (hstored : ∀ event, message = .event event → Admits ctx env c.auth event →
      (∀ result, P (.saved event result)) ∧ P (.broadcast event))
    (hqueried : ∀ id filters admitted, message = .req id filters → admitFilters ctx env 0 filters = .ok admitted →
      ∀ f ∈ admitted, P (.queried f))
    (hcounted : ∀ id filter, message = .count id filter → P (.counted filter))
    (hlisted : ∀ id filter hex f, message = .negOpen id filter hex → negOpenFilter ctx env c id filter = some f →
      P (.listed f)) : Adds P c (c.dispatch ctx env message).left := by
  cases message with
  | event event => exact handleEvent_adds (fun _ _ => hP _) (fun _ => hP _) (hstored event rfl)
  | req id filters => exact handleReq_adds hP id filters (fun admitted => hqueried id filters admitted rfl)
  | close id =>
      refine .same rfl rfl ?_
      intro k hk
      have hmem : k ∈ c.subscriptions.erase id := hk
      exact (ExtTreeMap.mem_erase.mp hmem).2
  | auth event => exact handleAuth_adds hP.side event
  | count id filter =>
      have hcount : Adds P c (c.emit (.counted filter)) := .emit (hcounted id filter rfl)
      exact hcount.trans (hP.push _)
  | negOpen id filter hex => exact handleNegOpen_adds hP.side id filter hex (fun f => hlisted id filter hex f rfl)
  | negMsg id hex => exact handleNegMsg_adds hP.side id hex
  | negClose id => exact .same rfl rfl (fun _ h => h)

/-- The gates before `dispatch`: authentication, then the rate limiter. -/
def passes (ctx : ConnectionContext) (env : Env) (c : Connection N) (message : ClientMessage) : Bool :=
  (c.auth.authenticated || !messageNeedsAuth message ctx.nip42Mode) &&
    (c.rate.check ctx.rateLimit env message).1.isNone

/-- A message that passes is counted and dispatched. -/
theorem handleMessage_passes {message : ClientMessage} (h : passes ctx env c message = true) :
    c.handleMessage ctx env message =
      ({ c with rate := (c.rate.check ctx.rateLimit env message).2 } : Connection N).dispatch ctx env message := by
  simp only [passes, Bool.and_eq_true, Bool.or_eq_true, Bool.not_eq_true', Option.isNone_iff_eq_none] at h
  obtain ⟨hauth, hrate⟩ := h
  rw [handleMessage, if_neg]
  · cases hcheck : c.rate.check ctx.rateLimit env message with
    | mk refusal rate =>
        rw [hcheck] at hrate
        cases hrate
        rfl
  · rcases hauth with hauth | hneeds
    · simp [hauth]
    · simp [hneeds]

/-- What a gate answers: `CLOSED` to a `REQ`, a frame of no subscription to the rest. -/
def RefusalOf : ClientMessage → RelayMessage → Prop
  | .req id _, refusal => ∃ why, refusal = .closed id why
  | _, refusal => subject refusal = none

/-- The rate limiter refuses an `EVENT` or a `REQ`. -/
theorem check_some {limit : RateLimit} {rate : RateLimiter} {message : ClientMessage}
    {refusal : RelayMessage} (h : (rate.check limit env message).1 = some refusal) :
    (∃ event why, message = .event event ∧ refusal = .ok event.id false why) ∨
      ∃ id filters why, message = .req id filters ∧ refusal = .closed id why := by
  unfold RateLimiter.check at h
  cases message with
  | event event =>
      dsimp only at h
      split at h
      · cases h
      split at h
      · cases h
        exact Or.inl ⟨event, _, rfl, rfl⟩
      · cases h
  | req id filters =>
      dsimp only at h
      split at h
      · cases h
      split at h
      · cases h
        exact Or.inr ⟨id, filters, _, rfl, rfl⟩
      · cases h
  | close id => cases h
  | auth event => cases h
  | count id filter => cases h
  | negOpen id filter hex => cases h
  | negMsg id hex => cases h
  | negClose id => cases h

/-- What the rate limiter refuses is refused by the message's kind. -/
theorem refusalOf_check {limit : RateLimit} {rate : RateLimiter} {message : ClientMessage}
    {refusal : RelayMessage} (h : (rate.check limit env message).1 = some refusal) :
    RefusalOf message refusal := by
  rcases check_some h with ⟨event, why, rfl, rfl⟩ | ⟨id, filters, why, rfl, rfl⟩
  · rfl
  · exact ⟨why, rfl⟩

/-- A message that a gate stops is answered by one frame. -/
theorem handleMessage_stopped {message : ClientMessage} (h : passes ctx env c message = false) :
    ∃ (rate : RateLimiter) (refusal : RelayMessage), RefusalOf message refusal ∧
      c.handleMessage ctx env message =
        .ok (({ c with rate := rate } : Connection N).pushAnyway env (.text refusal)) := by
  rw [handleMessage]
  split
  · refine ⟨c.rate, authRefusal message, ?_, rfl⟩
    cases message with
    | req id filters => exact ⟨_, rfl⟩
    | event event => rfl
    | close id => rfl
    | auth event => rfl
    | count id filter => rfl
    | negOpen id filter hex => rfl
    | negMsg id hex => rfl
    | negClose id => rfl
  · rename_i hgate
    cases hcheck : c.rate.check ctx.rateLimit env message with
    | mk refusal rate =>
        cases refusal with
        | some refusal => exact ⟨rate, refusal, refusalOf_check (by rw [hcheck]), rfl⟩
        | none =>
            rw [passes, hcheck] at h
            cases hauth : c.auth.authenticated with
            | true => simp [hauth] at h
            | false =>
                simp only [hauth, Bool.not_false, Bool.true_and, Bool.not_eq_true] at hgate
                simp [hauth, hgate] at h

/-! ## Wakeups -/

/-- The message a wakeup brings: a readable text frame of an open connection. -/
def received (ctx : ConnectionContext) (c : Connection N) (wakeup : Wakeup) : Option ClientMessage :=
  match wakeup with
  | .inbound (some (.ok (.text text))) =>
      if c.isOpen && !ctx.unresponsive then (ctx.fromJson text).toOption else none
  | _ => none

theorem settled_log (f : Flow N) : (settled f).log = f.left.log := by
  cases f <;> rfl

theorem settled_subscriptions (f : Flow N) : (settled f).subscriptions = f.left.subscriptions := by
  cases f <;> rfl

theorem settled_adds {f : Flow N} (h : Adds P c f.left) : Adds P c (settled f) := by
  cases f with
  | ok d => exact h
  | error d => exact h.trans (.same rfl rfl (fun _ hid => hid))

/-- The handling of the message a wakeup brings is all there is to it. -/
theorem step_received {w : Wakeup × Env} {message : ClientMessage} (h : received ctx c w.1 = some message) :
    c.step ctx w = { settled (({ c with attempts := 0 } : Connection N).handleMessage ctx w.2 message) with
      turn := c.turn + 1 } := by
  obtain ⟨wakeup, env⟩ := w
  unfold received at h
  split at h
  · rename_i text hwakeup
    cases hwakeup
    split at h
    · rename_i hready
      rw [Bool.and_eq_true, Bool.not_eq_true'] at hready
      obtain ⟨hopen, hresponsive⟩ := hready
      have hparsed : ctx.fromJson text = .ok message := by
        cases hjson : ctx.fromJson text with
        | error e =>
            rw [hjson] at h
            cases h
        | ok m =>
            rw [hjson] at h
            cases h
            rfl
      rw [step, if_pos hopen]
      simp only [wake, handleInboundFrame, hresponsive, hparsed, Bool.false_eq_true, if_false]
    · cases h
  · cases h

/-- What a wakeup without a message comes to, from the connection `c` it finds. -/
inductive Idles (env : Env) (c : Connection N) : Flow N → Prop where
  | rest : Idles env c (.ok c)
  | leave : Idles env c (.error c)
  | notice (text : String) : Idles env c (.ok (c.pushAnyway env (.text (.notice text))))
  | pong (payload : Bytes) : Idles env c (.ok (c.pushAnyway env (.pong payload)))
  | shutdown : Idles env c (.error (c.pushAnyway env .close))
  | live (event : Event) : Idles env c (c.forwardToSubscriptions env event)

theorem step_turn (ctx : ConnectionContext) (c : Connection N) (w : Wakeup × Env) :
    (c.step ctx w).turn = c.turn + 1 := rfl

/-- Nothing happens once the loop has been left. -/
theorem step_left (ctx : ConnectionContext) {w : Wakeup × Env} (h : c.isOpen = false) :
    c.step ctx w = { c with turn := c.turn + 1 } := by
  rw [step, if_neg (by simp [h])]

/-- What is open after a wakeup was open before it. -/
theorem isOpen_of_step {w : Wakeup × Env} (h : (c.step ctx w).isOpen = true) : c.isOpen = true := by
  cases hopen : c.isOpen with
  | true => rfl
  | false =>
      rw [step_left ctx hopen] at h
      exact hopen ▸ h

/-- A wakeup without a message idles. One case for each wakeup, and for a frame one for each branch of
    `handle_inbound_frame`. -/
theorem step_idles {w : Wakeup × Env} (hopen : c.isOpen = true) (h : received ctx c w.1 = none) :
    ∃ flow, Idles w.2 { c with attempts := 0 } flow ∧ c.step ctx w = { settled flow with turn := c.turn + 1 } := by
  refine ⟨wake ctx w.2 { c with attempts := 0 } w.1, ?_, by rw [step, if_pos hopen]⟩
  obtain ⟨wakeup, env⟩ := w
  dsimp only at h ⊢
  cases wakeup with
  | shutdown => exact .shutdown
  | live event =>
      cases event with
      | none => exact .rest
      | some event => exact .live event
  | inbound frame =>
      show Idles _ _ (handleInboundFrame ctx env frame { c with attempts := 0 })
      unfold handleInboundFrame
      split
      · exact .leave
      · exact .leave
      · exact .leave
      · exact .notice _
      · exact .pong _
      · exact .rest
      · exact .rest
      · rename_i text
        split
        · exact .rest
        rename_i hresponsive
        split
        · exact .notice _
        · -- a message that parses is received
          rename_i message hmessage
          rw [received, hmessage, hopen] at h
          simp [hresponsive] at h
          cases h

/-- A wakeup without a message forwards live events, or answers on the side. -/
theorem step_unreceived {w : Wakeup × Env} (h : received ctx c w.1 = none) :
    ∃ d, Adds (Effect.Forwarded c.subscriptions) c d ∧ c.step ctx w = { d with turn := c.turn + 1 } := by
  cases hopen : c.isOpen with
  | false => exact ⟨c, .refl, step_left ctx hopen⟩
  | true =>
      obtain ⟨flow, hidles, hstep⟩ := step_idles hopen h
      refine ⟨settled flow, .from_same (d := { c with attempts := 0 }) (settled_adds ?_) rfl rfl rfl, hstep⟩
      have haside : ∀ {d : Connection N}, Adds Effect.Aside { c with attempts := 0 } d →
          Adds (Effect.Forwarded c.subscriptions) { c with attempts := 0 } d := fun hd =>
        hd.mono (fun _ he => he.forwarded)
      cases hidles with
      | rest => exact .refl
      | leave => exact .refl
      | notice text => exact haside (.send rfl)
      | pong payload => exact haside (.push (Effect.aside_pong _) (Effect.aside_refused _))
      | shutdown => exact haside (.push Effect.aside_close (Effect.aside_refused _))
      | live event => exact forwardToSubscriptions_forwarded (c := { c with attempts := 0 }) event

/-- The event a wakeup brings to `handle_event`. -/
def submitted (ctx : ConnectionContext) (c : Connection N) (w : Wakeup × Env) : Option Event :=
  match received ctx c w.1 with
  | some (.event event) => if passes ctx w.2 c (.event event) then some event else none
  | _ => none

/-- A submitted event is all its wakeup is about. -/
theorem step_submitted {w : Wakeup × Env} {event : Event} (h : submitted ctx c w = some event) :
    ∃ d : Connection N, (d.log = c.log ∧ d.turn = c.turn ∧ d.subscriptions = c.subscriptions) ∧
      d.auth = c.auth ∧ d.attempts = 0 ∧
      c.step ctx w = { settled (d.handleEvent ctx w.2 event) with turn := c.turn + 1 } := by
  rw [submitted] at h
  split at h
  · rename_i event' hreceived
    split at h
    · rename_i hpasses
      cases h
      rw [step_received hreceived, handleMessage_passes (c := { c with attempts := 0 }) hpasses]
      exact ⟨{ c with attempts := 0, rate := (c.rate.check ctx.rateLimit w.2 (.event event)).2 },
        ⟨rfl, rfl, rfl⟩, rfl, rfl, rfl⟩
    · cases h
  · cases h

/-- An event is submitted when it is read and passes. -/
theorem submitted_iff {w : Wakeup × Env} {event : Event} : submitted ctx c w = some event ↔
    received ctx c w.1 = some (.event event) ∧ passes ctx w.2 c (.event event) = true := by
  unfold submitted
  constructor
  · intro h
    split at h
    · rename_i event' hreceived
      split at h
      · rename_i hpasses
        cases h
        exact ⟨hreceived, hpasses⟩
      · cases h
    · cases h
  · rintro ⟨hreceived, hpasses⟩
    simp only [hreceived, hpasses, if_true]

/-- The filter a wakeup hands to `negentropy_items`. -/
def listedFilter (ctx : ConnectionContext) (c : Connection N) (w : Wakeup × Env) : Option Filter :=
  match received ctx c w.1 with
  | some (.negOpen id filter hex) =>
      if passes ctx w.2 c (.negOpen id filter hex) then negOpenFilter ctx w.2 c id filter else none
  | _ => none

/-- **What a wakeup adds besides frames**, each with what it takes. Two cases, as a message is received or not; one
    that passes the gates is dispatched, and the four conditions are on its handlers. -/
theorem step_adds (hP : AllFrames P) (w : Wakeup × Env)
    (hstored : ∀ event, submitted ctx c w = some event → Admits ctx w.2 c.auth event →
      (∀ result, P (.saved event result)) ∧ P (.broadcast event))
    (hqueried : ∀ id filters admitted, received ctx c w.1 = some (.req id filters) →
      admitFilters ctx w.2 0 filters = .ok admitted → ∀ f ∈ admitted, P (.queried f))
    (hcounted : ∀ id filter, received ctx c w.1 = some (.count id filter) → P (.counted filter))
    (hlisted : ∀ f, listedFilter ctx c w = some f → P (.listed f)) :
    ∃ d, Adds P c d ∧ c.step ctx w = { d with turn := c.turn + 1 } := by
  cases hreceived : received ctx c w.1 with
  | none =>
      cases hopen : c.isOpen with
      | false => exact ⟨c, .refl, step_left ctx hopen⟩
      | true =>
          obtain ⟨flow, hidles, hstep⟩ := step_idles hopen hreceived
          refine ⟨settled flow, .from_same (d := { c with attempts := 0 }) (settled_adds ?_) rfl rfl rfl, hstep⟩
          cases hidles with
          | rest => exact .refl
          | leave => exact .refl
          | notice text => exact hP.push _
          | pong payload => exact hP.push _
          | shutdown => exact hP.push _
          | live event => exact hP.sendAll _
  | some message =>
      rw [step_received hreceived]
      refine ⟨_, .from_same (d := { c with attempts := 0 }) (settled_adds ?_) rfl rfl rfl, rfl⟩
      by_cases hpasses : passes ctx w.2 c message = true
      · rw [handleMessage_passes (c := { c with attempts := 0 }) hpasses]
        refine .from_same (dispatch_adds hP message ?_ ?_ ?_ ?_) rfl rfl rfl
        · rintro event rfl hadmits
          exact hstored event (submitted_iff.mpr ⟨hreceived, hpasses⟩) hadmits
        · rintro id filters admitted rfl hadmitted
          exact hqueried id filters admitted hreceived hadmitted
        · rintro id filter rfl
          exact hcounted id filter hreceived
        · rintro id filter hex f rfl hf
          apply hlisted
          simp only [listedFilter, hreceived, hpasses, if_true]
          exact hf
      · obtain ⟨rate, refusal, _, hstopped⟩ :=
          handleMessage_stopped (c := { c with attempts := 0 }) (Bool.not_eq_true _ ▸ hpasses)
        rw [hstopped]
        exact .from_same (hP.push _) rfl rfl rfl

/-- A wakeup that submits no event has only local effects. -/
theorem step_local {w : Wakeup × Env} (h : submitted ctx c w = none) :
    ∃ d, Adds Effect.Local c d ∧ c.step ctx w = { d with turn := c.turn + 1 } := by
  apply step_adds allFrames_local w
  · intro event hevent
    rw [h] at hevent
    cases hevent
  · intro id filters admitted _ _ f _
    exact (Effect.aside_queried f).local
  · intro id filter _
    exact (Effect.aside_counted filter).local
  · intro f _
    exact (Effect.aside_listed f).local

/-! ## Runs -/

/-- Setting up writes the challenge at most. -/
theorem accept_aside {first : Env} : ∀ entry ∈ (accept ctx first : Connection N).log, entry.2.Aside := by
  intro entry hentry
  rw [accept] at hentry
  split at hentry
  · have hlog : entry ∈ (settled (send first (.auth ("nula-mock-" ++ first.randomHexToken))
        (⟨∅, ∅, _, _, true, 0, 0, []⟩ : Connection N))).log := hentry
    rw [settled_log, send, push] at hlog
    split at hlog
    · rw [List.mem_singleton.mp hlog]
      exact Effect.aside_refused _
    · rw [List.mem_singleton.mp hlog]
      exact Effect.aside_wrote rfl
  · cases hentry

theorem run_append_singleton {first : Env} (past : List (Wakeup × Env)) (w : Wakeup × Env) :
    (run ctx first (past ++ [w]) : Connection N) = (run ctx first past).step ctx w := by
  rw [run, run, List.foldl_append]
  rfl

end Connection

end Nula.Server
