import Nula.Server.Effects

/-!
# `Server.Replies` — the frames of a wakeup

Which text frames a wakeup writes. What a `REQ` writes depends on its gates (`turnedAway`), on what storage
answers to its filters (`answers`) and on which writes the transport refuses: it is refused (`Refused`), it sends
stored events (`Sends`), it gets to its `EOSE` (`Served`). A reply (`Reply`) is built in the order of the source's
loop, an answer of storage at a time, and `step_req` says it of a wakeup. Any other wakeup sends subscriptions
live events only (`step_other`).
-/

namespace Nula.Server

open Std

variable {N : Negentropy}

namespace Connection

variable {c c' c'' : Connection N} {env : Env} {ctx : ConnectionContext} {id : SubscriptionId}

/-! ## The frames a handler writes -/

/-- From `c` to `c'` exactly the text frames `ms` were written. -/
structure Writes (c c' : Connection N) (ms : List RelayMessage) : Prop where
  turn : c'.turn = c.turn
  log : ∃ fx : List Effect, c'.log = c.log ++ fx.map (c.turn, ·) ∧ fx.filterMap Effect.message = ms

namespace Writes

theorem same (hturn : c'.turn = c.turn) (hlog : c'.log = c.log) : Writes c c' [] := by
  refine ⟨hturn, [], ?_, rfl⟩
  rw [hlog, List.map_nil, List.append_nil]

/-- An effect writes its own message, if it is one. -/
theorem emit {e : Effect} : Writes c (c.emit e) e.message.toList := by
  refine ⟨rfl, [e], rfl, ?_⟩
  cases h : e.message with
  | none => rw [List.filterMap_cons_none h]; rfl
  | some m => rw [List.filterMap_cons_some h]; rfl

theorem trans {ms ms' : List RelayMessage} (h : Writes c c' ms) (h' : Writes c' c'' ms') :
    Writes c c'' (ms ++ ms') := by
  obtain ⟨fx, hlog, hms⟩ := h.log
  obtain ⟨fx', hlog', hms'⟩ := h'.log
  refine ⟨h'.turn.trans h.turn, fx ++ fx', ?_, ?_⟩
  · rw [hlog', hlog, h.turn, List.map_append, List.append_assoc]
  · rw [List.filterMap_append, hms, hms']

/-- A handler that begins with something else than writing. -/
theorem from_same {d : Connection N} {ms : List RelayMessage} (h : Writes d c' ms) (hturn : d.turn = c.turn)
    (hlog : d.log = c.log) : Writes c c' ms :=
  (same hturn hlog).trans h

theorem settled {f : Flow N} {ms : List RelayMessage} (h : Writes c f.left ms) : Writes c (settled f) ms := by
  cases f with
  | ok d => exact h
  | error d =>
      have hclosed : Writes d { d with isOpen := false } [] := same rfl rfl
      have := h.trans hclosed
      rwa [List.append_nil] at this

end Writes

/-- One `send`: the frame goes out, or the handler ends. -/
theorem send_cases (env : Env) (m : RelayMessage) (c : Connection N) :
    (env.refuses c.attempts = false ∧ ∃ d, c.send env m = .ok d ∧ Writes c d [m] ∧
      d.attempts = c.attempts + 1 ∧ d.subscriptions = c.subscriptions) ∨
    (env.refuses c.attempts = true ∧ ∃ d, c.send env m = .error d ∧ Writes c d []) := by
  have hcount : Writes c { c with attempts := c.attempts + 1 } [] := .same rfl rfl
  rw [send, push]
  cases hrefuses : env.refuses c.attempts with
  | true => exact Or.inr ⟨rfl, _, rfl, hcount.trans .emit⟩
  | false => exact Or.inl ⟨rfl, _, rfl, hcount.trans .emit, rfl, rfl⟩

/-- A loop of `send`s: all frames go out, or those before the first refused write. By induction on the frames. -/
theorem sendAll_cases (env : Env) (ms : List RelayMessage) (c : Connection N) :
    ((∀ k < ms.length, env.refuses (c.attempts + k) = false) ∧ ∃ d, c.sendAll env ms = .ok d ∧ Writes c d ms ∧
      d.attempts = c.attempts + ms.length ∧ d.subscriptions = c.subscriptions) ∨
    (∃ k < ms.length, env.refuses (c.attempts + k) = true ∧ (∀ j < k, env.refuses (c.attempts + j) = false) ∧
      ∃ d, c.sendAll env ms = .error d ∧ Writes c d (ms.take k)) := by
  induction ms generalizing c with
  | nil => exact Or.inl ⟨fun k hk => absurd hk (Nat.not_lt_zero k), c, rfl, .same rfl rfl, rfl, rfl⟩
  | cons m ms ih =>
      rw [sendAll, List.foldlM_cons]
      rcases send_cases env m c with ⟨haccepts, d, hsend, hwrites, hattempts, hsubs⟩ |
        ⟨hrefuses, d, hsend, hwrites⟩
      · -- the first frame is out: the rest decides
        rw [hsend]
        show ((∀ k < _, _) ∧ ∃ d', d.sendAll env ms = .ok d' ∧ _) ∨
          (∃ k < _, _ ∧ _ ∧ ∃ d', d.sendAll env ms = .error d' ∧ _)
        rcases ih d with ⟨hall, d', hok, hwrites', hattempts', hsubs'⟩ | ⟨k, hk, hat, hbefore, d', herr, hwrites'⟩
        · refine Or.inl ⟨?_, d', hok, hwrites.trans hwrites', ?_, hsubs'.trans hsubs⟩
          · intro k hk
            cases k with
            | zero => exact haccepts
            | succ k =>
                have := hall k (Nat.lt_of_succ_lt_succ hk)
                rwa [hattempts, Nat.add_assoc, Nat.add_comm 1] at this
          · rw [hattempts', hattempts, List.length_cons]
            omega
        · refine Or.inr ⟨k + 1, Nat.succ_lt_succ hk, ?_, ?_, d', herr, hwrites.trans hwrites'⟩
          · rwa [hattempts, Nat.add_assoc, Nat.add_comm 1] at hat
          · intro j hj
            cases j with
            | zero => exact haccepts
            | succ j =>
                have := hbefore j (Nat.lt_of_succ_lt_succ hj)
                rwa [hattempts, Nat.add_assoc, Nat.add_comm 1] at this
      · rw [hsend]
        exact Or.inr ⟨0, Nat.succ_pos _, hrefuses, fun j hj => absurd hj (Nat.not_lt_zero j), d, rfl, hwrites⟩

/-! ## What a `REQ` writes -/

/-- Storage fails on a filter after the events of all filters before it, and the sink takes these and the
    `CLOSED`; `a` frames were pushed before. -/
def Fails (env : Env) (a : Nat) (answers : List (Except String (List Event))) : Prop :=
  ∃ (pre : List (List Event)) (text : String) (post : _), answers = pre.map .ok ++ .error text :: post ∧
    ∀ k ≤ pre.flatten.length, env.refuses (a + k) = false

/-- Storage answers every filter, and the sink takes every event and the `EOSE`. -/
def Completes (env : Env) (a : Nat) (answers : List (Except String (List Event))) : Prop :=
  ∃ pre : List (List Event), answers = pre.map .ok ∧ ∀ k ≤ pre.flatten.length, env.refuses (a + k) = false

/-- Storage finds an event before it fails, and the sink takes it. -/
def Streams (env : Env) (a : Nat) (answers : List (Except String (List Event))) : Prop :=
  ∃ (pre : List (List Event)) (post : _), answers = pre.map .ok ++ post ∧ pre.flatten ≠ [] ∧ env.refuses a = false

/-- The frames a `REQ` for `id` writes: stored events, then `EOSE`, `CLOSED`, or nothing more. -/
inductive Reply (id : SubscriptionId) (completes fails streams : Prop) : List RelayMessage → Prop where
  | opened (events : List Event) (hstreams : events ≠ [] → streams) :
      Reply id completes fails streams (events.map (.event id) ++ [.endOfStoredEvents id])
  | refused (events : List Event) (why : String) (hstreams : events ≠ [] → streams) (hnot : ¬completes)
      (hfails : fails) : Reply id completes fails streams (events.map (.event id) ++ [.closed id why])
  | cut (events : List Event) (hstreams : events ≠ [] → streams) (hnot : ¬completes) :
      Reply id completes fails streams (events.map (.event id))

/-- Events in front of a reply. -/
theorem Reply.prepend {C F S C' F' S' : Prop} {ms : List RelayMessage} (events : List Event)
    (h : Reply id C F S ms) (hC : C' → C) (hF : F → F') (hS : S → S') (hevents : events ≠ [] → S') :
    Reply id C' F' S' (events.map (.event id) ++ ms) := by
  have hstreams : ∀ {more : List Event}, (more ≠ [] → S) → events ++ more ≠ [] → S' := by
    intro more hmore hne
    by_cases hnil : events = []
    · rw [hnil, List.nil_append] at hne
      exact hS (hmore hne)
    · exact hevents hnil
  -- the events before a reply join those of the reply
  cases h with
  | opened more hmore =>
      rw [← List.append_assoc, ← List.map_append]
      exact .opened _ (hstreams hmore)
  | refused more why hmore hnot hfails =>
      rw [← List.append_assoc, ← List.map_append]
      exact .refused _ why (hstreams hmore) (fun hc => hnot (hC hc)) (hF hfails)
  | cut more hmore hnot =>
      rw [← List.map_append]
      exact .cut _ (hstreams hmore) (fun hc => hnot (hC hc))

theorem Reply.mono {C F S C' F' S' : Prop} {ms : List RelayMessage} (h : Reply id C F S ms) (hC : C' → C)
    (hF : F → F') (hS : S → S') : Reply id C' F' S' ms :=
  h.prepend [] hC hF hS (fun hne => absurd rfl hne)

theorem Fails.cons {a : Nat} {events : List Event} {answers : List (Except String (List Event))}
    (hsent : ∀ k < events.length, env.refuses (a + k) = false) (h : Fails env (a + events.length) answers) :
    Fails env a (.ok events :: answers) := by
  obtain ⟨pre, text, post, hanswers, haccepts⟩ := h
  refine ⟨events :: pre, text, post, by rw [hanswers]; rfl, ?_⟩
  intro k hk
  rcases Nat.lt_or_ge k events.length with hlt | hge
  · exact hsent k hlt
  · have := haccepts (k - events.length) (by rw [List.flatten_cons, List.length_append] at hk; omega)
    rwa [show a + events.length + (k - events.length) = a + k by omega] at this

/-- Answers that were completed had their first events sent. -/
theorem Completes.of_cons {a : Nat} {events : List Event} {answers : List (Except String (List Event))}
    (h : Completes env a (.ok events :: answers)) :
    (∀ k < events.length, env.refuses (a + k) = false) ∧ Completes env (a + events.length) answers := by
  obtain ⟨pre, hanswers, haccepts⟩ := h
  cases pre with
  | nil => cases hanswers
  | cons events' pre =>
      rw [List.map_cons, List.cons.injEq] at hanswers
      obtain ⟨hevents, hrest⟩ := hanswers
      cases hevents
      rw [List.flatten_cons, List.length_append] at haccepts
      refine ⟨fun k hk => haccepts k (by omega), pre, hrest, ?_⟩
      intro k hk
      have := haccepts (events.length + k) (by omega)
      rwa [← Nat.add_assoc] at this

/-- Storage finds events for the first filter. -/
theorem Streams.of_first {a : Nat} {events : List Event} {answers : List (Except String (List Event))}
    (hsent : ∀ k < events.length, env.refuses (a + k) = false) (h : events ≠ []) :
    Streams env a (.ok events :: answers) := by
  refine ⟨[events], answers, rfl, ?_, hsent 0 (List.length_pos_of_ne_nil h)⟩
  rwa [List.flatten_singleton]

theorem Streams.cons {a : Nat} {events : List Event} {answers : List (Except String (List Event))}
    (hsent : ∀ k < events.length, env.refuses (a + k) = false) (h : Streams env (a + events.length) answers) :
    Streams env a (.ok events :: answers) := by
  by_cases hevents : events = []
  · obtain ⟨pre, post, hanswers, hne, haccepts⟩ := h
    rw [hevents] at haccepts ⊢
    exact ⟨[] :: pre, post, by rw [hanswers]; rfl, hne, haccepts⟩
  · exact .of_first hsent hevents

theorem not_completes_error {a : Nat} {text : String} {answers : List (Except String (List Event))} :
    ¬Completes env a (.error text :: answers) := by
  rintro ⟨pre, hanswers, _⟩
  cases pre with
  | nil => cases hanswers
  | cons events pre => cases hanswers

/-- The answers of storage to the filters, the first of which is the `n`-th. -/
def queryAnswers (env : Env) (n : Nat) (filters : List Filter) : List (Except String (List Event)) :=
  match filters with
  | [] => []
  | filter :: filters => env.query n filter :: queryAnswers env (n + 1) filters

/-- The reply a handler has begun, where `answers` are left. -/
def Replies (env : Env) (id : SubscriptionId) (c c' : Connection N) (answers : List (Except String (List Event))) :
    Prop :=
  ∃ ms, Writes c c' ms ∧
    Reply id (Completes env c.attempts answers) (Fails env c.attempts answers) (Streams env c.attempts answers) ms

/-- One frame that closes `id`. -/
theorem sendClosed_reply {env : Env} {id : SubscriptionId} {S C F : Prop} (why : String) (c : Connection N)
    (hF : env.refuses c.attempts = false → F) (hC : ¬C) :
    ∃ ms, Writes c (c.send env (.closed id why)).left ms ∧ Reply id C F S ms := by
  rcases send_cases env (.closed id why) c with ⟨haccepts, d, hsend, hwrites, _⟩ | ⟨_, d, hsend, hwrites⟩
  · rw [hsend]
    exact ⟨_, hwrites, .refused [] why (fun h => absurd rfl h) hC (hF haccepts)⟩
  · rw [hsend]
    exact ⟨_, hwrites, .cut [] (fun h => absurd rfl h) hC⟩

theorem sendEose_replies (env : Env) (id : SubscriptionId) (c : Connection N) :
    Replies env id c (c.send env (.endOfStoredEvents id)).left [] := by
  rcases send_cases env (.endOfStoredEvents id) c with
    ⟨_, d, hsend, hwrites, _⟩ | ⟨hrefuses, d, hsend, hwrites⟩
  · rw [hsend]
    exact ⟨_, hwrites, .opened [] (fun h => absurd rfl h)⟩
  · rw [hsend]
    refine ⟨_, hwrites, .cut [] (fun h => absurd rfl h) ?_⟩
    rintro ⟨pre, _, haccepts⟩
    have := haccepts 0 (Nat.zero_le _)
    rw [Nat.add_zero, hrefuses] at this
    cases this

/-- The events of one filter, then what the rest of the filters brings. Two cases, as all of the events are written or
    one of them is refused, which ends the reply. -/
theorem sendEvents_replies {events : List Event} {answers : List (Except String (List Event))} {c : Connection N}
    {g : Connection N → Flow N} (hg : ∀ d, Replies env id d (g d).left answers) :
    Replies env id c (Flow.left (c.sendAll env (events.map (.event id)) >>= g)) (.ok events :: answers) := by
  rcases sendAll_cases env (events.map (.event id)) c with
    ⟨hall, d, hok, hwrites, hattempts, _⟩ | ⟨k, hk, hat, hbefore, d, herr, hwrites⟩
  · -- every event is out, and the rest decides
    rw [hok]
    rw [List.length_map] at hall hattempts
    obtain ⟨ms, hrest, hreply⟩ := hg d
    rw [hattempts] at hreply
    refine ⟨_, hwrites.trans hrest, hreply.prepend events ?_ ?_ ?_ ?_⟩
    · intro h
      exact h.of_cons.2
    · intro h
      exact h.cons hall
    · intro h
      exact h.cons hall
    · intro hne
      exact .of_first hall hne
  · -- the sink refused an event
    rw [herr]
    rw [List.length_map] at hk
    refine ⟨_, hwrites, ?_⟩
    rw [← List.map_take]
    refine .cut _ ?_ ?_
    · intro hne
      have hpos : 0 < k := by
        rcases Nat.eq_zero_or_pos k with rfl | hpos
        · exact absurd List.take_zero hne
        · exact hpos
      refine ⟨[events], answers, rfl, ?_, hbefore 0 hpos⟩
      intro hnil
      rw [List.flatten_singleton] at hnil
      rw [hnil] at hk
      cases hk
    · intro h
      have := h.of_cons.1 k hk
      rw [this] at hat
      cases hat

/-- A handler that begins with something else than replying. -/
theorem Replies.from_same {d c' : Connection N} {answers : List (Except String (List Event))}
    (h : Replies env id d c' answers) (hwrites : Writes c d []) (hattempts : d.attempts = c.attempts) :
    Replies env id c c' answers := by
  obtain ⟨ms, hms, hreply⟩ := h
  rw [hattempts] at hreply
  exact ⟨ms, hwrites.trans hms, hreply⟩

/-- **A stream of stored events** replies what its queries answer, in their order, by induction on the filters. The
    end is `sendEose_replies`, and one filter is `sendEvents_replies`. -/
theorem streamStored_replies (all filters : List Filter) (n : Nat) (c : Connection N) :
    Replies env id c (c.streamStored env id all n filters).left (queryAnswers env n filters) := by
  -- along the filters: each one's events go out before the next is asked for
  induction filters generalizing n c with
  | nil =>
      obtain ⟨ms, hms, hreply⟩ := sendEose_replies env id c
      refine ⟨ms, ?_, hreply⟩
      rw [streamStored]
      cases hsend : c.send env (.endOfStoredEvents id) with
      | error d =>
          rw [hsend] at hms
          exact hms
      | ok d =>
          rw [hsend] at hms
          have hopened : Writes d { d with subscriptions := d.subscriptions.insert id all } [] := .same rfl rfl
          have := hms.trans hopened
          rwa [List.append_nil] at this
  | cons filter filters ih =>
      rw [streamStored, queryAnswers]
      have hqueried : Writes c (c.emit (.queried filter)) [] := .emit
      refine .from_same (d := c.emit (.queried filter)) ?_ hqueried rfl
      cases hquery : env.query n filter with
      | error text =>
          -- storage fails: what was sent of earlier filters stays, and `CLOSED` ends it
          apply sendClosed_reply
          · intro haccepts
            refine ⟨[], text, _, rfl, ?_⟩
            intro k hk
            rw [List.flatten_nil, List.length_nil, Nat.le_zero] at hk
            rw [hk]
            exact haccepts
          · exact not_completes_error
      | ok events => exact sendEvents_replies (ih (n + 1))

/-! ## `REQ` as a whole -/

/-- The gates of `handle_req` before anything is streamed. -/
def turnedAway (ctx : ConnectionContext) (env : Env) (c : Connection N) (id : SubscriptionId)
    (filters : List Filter) : Bool :=
  (subidTooLong ctx id).isSome || (c.tooManySubscriptions ctx id).isSome ||
    (ctx.sendRandomEvents.isNone &&
      (decide (filters = []) || (admitFilters ctx env 0 filters).toOption.isNone))

/-- What is streamed: the random notes, all at once, or storage's answers to the admitted filters. -/
def answers (ctx : ConnectionContext) (env : Env) (filters : List Filter) : List (Except String (List Event)) :=
  match ctx.sendRandomEvents, env.randomNote with
  | some count, some note => [.ok (randomEvents note count)]
  | some _, none => []
  | none, _ => queryAnswers env 0 ((admitFilters ctx env 0 filters).toOption.getD [])

/-- Random notes are asked for, and there is no key to sign them with. -/
def keyless (ctx : ConnectionContext) (env : Env) : Bool := ctx.sendRandomEvents.isSome && env.randomNote.isNone

/-- The `REQ` is answered with `CLOSED`. -/
def Refused (ctx : ConnectionContext) (env : Env) (c : Connection N) (id : SubscriptionId)
    (filters : List Filter) : Prop :=
  if passes ctx env c (.req id filters) && !turnedAway ctx env c id filters then Fails env 0 (answers ctx env filters)
  else env.refuses 0 = false

/-- The `REQ` sends a stored event. -/
def Sends (ctx : ConnectionContext) (env : Env) (c : Connection N) (id : SubscriptionId)
    (filters : List Filter) : Prop :=
  passes ctx env c (.req id filters) = true ∧ turnedAway ctx env c id filters = false ∧
    Streams env 0 (answers ctx env filters)

/-- The `REQ` is answered with `EOSE`. -/
def Served (ctx : ConnectionContext) (env : Env) (c : Connection N) (id : SubscriptionId)
    (filters : List Filter) : Prop :=
  passes ctx env c (.req id filters) = true ∧ turnedAway ctx env c id filters = false ∧ keyless ctx env = false ∧
    Completes env 0 (answers ctx env filters)

/-- A `REQ` that a gate of `handle_req` turns away. -/
theorem handleReq_turnedAway {filters : List Filter} (h : turnedAway ctx env c id filters = true) :
    ∃ why, c.handleReq ctx env id filters = c.send env (.closed id why) := by
  rw [handleReq]
  split
  · exact ⟨_, rfl⟩
  rename_i hshort
  split
  · exact ⟨_, rfl⟩
  rename_i hfew
  rw [turnedAway, hshort, hfew] at h
  split
  · rename_i hrandom
    rw [hrandom] at h
    cases h
  rename_i hstored
  split
  · exact ⟨_, rfl⟩
  rename_i hnonempty
  split
  · exact ⟨_, rfl⟩
  · rename_i hadmitted
    rw [hadmitted, hstored] at h
    simp [hnonempty] at h
    cases h

/-- A `REQ` past the gates of `handle_req` streams. -/
theorem handleReq_replies {filters : List Filter} (h : turnedAway ctx env c id filters = false)
    (hkeys : keyless ctx env = false) :
    Replies env id c (c.handleReq ctx env id filters).left (answers ctx env filters) := by
  simp only [turnedAway, Bool.or_eq_false_iff, Option.isSome_eq_false_iff, Option.isNone_iff_eq_none] at h
  obtain ⟨⟨hshort, hfew⟩, hfilters⟩ := h
  rw [handleReq, hshort, hfew, answers]
  cases hrandom : ctx.sendRandomEvents with
  | some count =>
      cases hnote : env.randomNote with
      | none =>
          rw [keyless, hrandom, hnote] at hkeys
          cases hkeys
      | some note =>
          dsimp only
          rw [streamRandomEvents, hnote]
          exact sendEvents_replies (sendEose_replies _ _)
  | none =>
      simp only [hrandom, Option.isNone_none, Bool.true_and, Bool.or_eq_false_iff, decide_eq_false_iff_not] at hfilters
      obtain ⟨hnonempty, hadmitted⟩ := hfilters
      dsimp only
      rw [if_neg hnonempty]
      cases hgate : admitFilters ctx env 0 filters with
      | error refusal =>
          rw [hgate] at hadmitted
          cases hadmitted
      | ok admitted => exact streamStored_replies admitted admitted 0 c

/-- Without a key there is nothing to stream. -/
theorem handleReq_keyless {filters : List Filter} (h : turnedAway ctx env c id filters = false)
    (hkeys : keyless ctx env = true) : c.handleReq ctx env id filters = .error c := by
  simp only [turnedAway, Bool.or_eq_false_iff, Option.isSome_eq_false_iff, Option.isNone_iff_eq_none] at h
  obtain ⟨⟨hshort, hfew⟩, _⟩ := h
  rw [keyless, Bool.and_eq_true, Option.isSome_iff_exists, Option.isNone_iff_eq_none] at hkeys
  obtain ⟨⟨count, hrandom⟩, hnote⟩ := hkeys
  rw [handleReq, hshort, hfew, hrandom]
  dsimp only
  rw [streamRandomEvents, hnote]

/-- A `REQ` past the authentication gate and the rate limiter; `d` is `c` with the bookkeeping of these two. In the
    order of the source: the gates, the key that is needed, and what storage answers. -/
theorem handleReq_reply {filters : List Filter} {d : Connection N} (hpasses : passes ctx env c (.req id filters) = true)
    (hattempts : d.attempts = 0) (hgates : turnedAway ctx env d id filters = turnedAway ctx env c id filters) :
    ∃ ms, Writes d (d.handleReq ctx env id filters).left ms ∧
      Reply id (Served ctx env c id filters) (Refused ctx env c id filters) (Sends ctx env c id filters) ms := by
  cases haway : turnedAway ctx env c id filters with
  | true =>
      -- turned away by a gate: one `CLOSED`
      obtain ⟨why, hclosed⟩ := handleReq_turnedAway (hgates.trans haway)
      rw [hclosed]
      apply sendClosed_reply
      · intro haccepts
        rw [Refused, hpasses, haway, if_neg (by decide)]
        rwa [hattempts] at haccepts
      · rintro ⟨_, haway', _⟩
        rw [haway] at haway'
        cases haway'
  | false =>
      cases hkeys : keyless ctx env with
      | true =>
          -- no key: the handler fails before it writes anything
          rw [handleReq_keyless (hgates.trans haway) hkeys]
          refine ⟨[], .same rfl rfl, .cut [] (fun h => absurd rfl h) ?_⟩
          rintro ⟨_, _, hkeys', _⟩
          rw [hkeys] at hkeys'
          cases hkeys'
      | false =>
          obtain ⟨ms, hwrites, hreply⟩ := handleReq_replies (hgates.trans haway) hkeys
          rw [hattempts] at hreply
          refine ⟨ms, hwrites, hreply.mono ?_ ?_ ?_⟩
          · rintro ⟨_, _, _, hcompletes⟩
            exact hcompletes
          · intro hfails
            rwa [Refused, hpasses, haway, if_pos (by decide)]
          · intro hstreams
            exact ⟨hpasses, haway, hstreams⟩

/-- **What a `REQ` writes.** -/
theorem step_req {w : Wakeup × Env} {filters : List Filter} (h : received ctx c w.1 = some (.req id filters)) :
    ∃ ms, (∃ d, Writes c d ms ∧ c.step ctx w = { d with turn := c.turn + 1 }) ∧
      Reply id (Served ctx w.2 c id filters) (Refused ctx w.2 c id filters) (Sends ctx w.2 c id filters) ms := by
  rw [step_received h]
  cases hpasses : passes ctx w.2 c (.req id filters) with
  | false =>
      -- the authentication gate or the rate limiter answers with a `CLOSED`
      obtain ⟨rate, refusal, ⟨why, rfl⟩, hstopped⟩ :=
        handleMessage_stopped (c := { c with attempts := 0 }) hpasses
      rw [hstopped]
      have hnot : ¬Served ctx w.2 c id filters := by
        rintro ⟨hp, _⟩
        rw [hpasses] at hp
        cases hp
      have hrefused : w.2.refuses 0 = false → Refused ctx w.2 c id filters := by
        intro haccepts
        rwa [Refused, hpasses, Bool.false_and, if_neg Bool.false_ne_true]
      obtain ⟨ms, hwrites, hreply⟩ := sendClosed_reply (S := Sends ctx w.2 c id filters) why
        ({ c with attempts := 0, rate := rate } : Connection N) hrefused hnot
      exact ⟨ms, ⟨_, .from_same hwrites rfl rfl, rfl⟩, hreply⟩
  | true =>
      rw [handleMessage_passes (c := { c with attempts := 0 }) hpasses]
      obtain ⟨ms, hwrites, hreply⟩ := handleReq_reply (d := { c with
        attempts := 0
        rate := (c.rate.check ctx.rateLimit w.2 (.req id filters)).2 }) hpasses rfl rfl
      exact ⟨ms, ⟨_, .from_same hwrites.settled rfl rfl, rfl⟩, hreply⟩

/-! ## Wakeups without a `REQ` -/

/-- A frame of the effect that belongs to a subscription is an `EVENT` for one of `subscriptions`. -/
def OnlyLive (subscriptions : HashMap SubscriptionId (List Filter)) (e : Effect) : Prop :=
  ∀ m id, e.message = some m → subject m = some id → id ∈ subscriptions ∧ ∃ event, m = .event id event

variable {subscriptions : HashMap SubscriptionId (List Filter)}

theorem onlyLive_of_aside {e : Effect} (h : e.Aside) : OnlyLive subscriptions e := h.forwarded.member

theorem handleEvent_onlyLive (event : Event) :
    Adds (OnlyLive subscriptions) c (c.handleEvent ctx env event).left := by
  by_cases hadmits : Admits ctx env c.auth event
  · rw [handleEvent_admitted hadmits]
    have hsaved : Adds (OnlyLive subscriptions) c (c.emit (.saved event (env.saveEvent event))) := .emit nofun
    apply hsaved.trans
    refine .bind ?_ ?_
    · have hreply : subject (saveReply event.id (env.saveEvent event)).2 = none := by
        cases env.saveEvent event with
        | error text => rfl
        | ok status =>
            cases status with
            | success => rfl
            | rejected why => cases why <;> rfl
      exact (Adds.send hreply).mono (fun _ => onlyLive_of_aside)
    · intro d _
      show Adds (OnlyLive subscriptions) d (if _ then _ else _)
      split
      · exact .emit nofun
      · exact .refl
  · exact (handleEvent_refused hadmits).mono (fun _ => onlyLive_of_aside)

/-- **Only a `REQ` opens a subscription**: any other message is answered within those there are. -/
theorem dispatch_onlyLive {message : ClientMessage} (h : ∀ id filters, message ≠ .req id filters) :
    Adds (OnlyLive subscriptions) c (c.dispatch ctx env message).left := by
  cases message with
  | event event => exact handleEvent_onlyLive event
  | req id filters => exact absurd rfl (h id filters)
  | close id =>
      refine .same rfl rfl ?_
      intro k hk
      have hmem : k ∈ c.subscriptions.erase id := hk
      exact (ExtTreeMap.mem_erase.mp hmem).2
  | auth event => exact (handleAuth_adds sideFrames_aside event).mono (fun _ => onlyLive_of_aside)
  | count id filter =>
      have hcounted : Adds Effect.Aside c (c.emit (.counted filter)) := .emit (Effect.aside_counted filter)
      exact (hcounted.trans (.send rfl)).mono (fun _ => onlyLive_of_aside)
  | negOpen id filter hex =>
      have haside : Adds Effect.Aside c (c.handleNegOpen ctx env id filter hex).left :=
        handleNegOpen_adds sideFrames_aside id filter hex (fun f _ => Effect.aside_listed f)
      exact haside.mono (fun _ => onlyLive_of_aside)
  | negMsg id hex => exact (handleNegMsg_adds sideFrames_aside id hex).mono (fun _ => onlyLive_of_aside)
  | negClose id => exact .same rfl rfl (fun _ h => h)

/-- Without a `REQ`, only live events go to subscriptions. A wakeup that receives nothing forwards live events; a
    message is dispatched, or stopped with a frame that is about no subscription. -/
theorem step_other {w : Wakeup × Env} (h : ∀ id filters, received ctx c w.1 ≠ some (.req id filters)) :
    ∃ d, Adds (OnlyLive c.subscriptions) c d ∧ c.step ctx w = { d with turn := c.turn + 1 } := by
  cases hreceived : received ctx c w.1 with
  | none =>
      obtain ⟨d, hd, hstep⟩ := step_unreceived hreceived
      exact ⟨d, hd.mono (fun _ he => he.member), hstep⟩
  | some message =>
      rw [hreceived] at h
      have hmessage : ∀ id filters, message ≠ .req id filters := fun id filters hreq => h id filters (hreq ▸ rfl)
      rw [step_received hreceived]
      refine ⟨_, .from_same (d := { c with attempts := 0 }) (settled_adds ?_) rfl rfl rfl, rfl⟩
      cases hpasses : passes ctx w.2 c message with
      | true =>
          rw [handleMessage_passes (c := { c with attempts := 0 }) hpasses]
          exact .from_same (dispatch_onlyLive hmessage) rfl rfl rfl
      | false =>
          obtain ⟨rate, refusal, hrefusal, hstopped⟩ :=
            handleMessage_stopped (c := { c with attempts := 0 }) hpasses
          rw [hstopped]
          have hsubject : subject refusal = none := by
            cases message with
            | req id filters => exact absurd rfl (hmessage id filters)
            | event event => exact hrefusal
            | close id => exact hrefusal
            | auth event => exact hrefusal
            | count id filter => exact hrefusal
            | negOpen id filter hex => exact hrefusal
            | negMsg id hex => exact hrefusal
            | negClose id => exact hrefusal
          exact .from_same ((Adds.send hsubject).mono (fun _ => onlyLive_of_aside)) rfl rfl rfl

/-- What is written about a subscription is about a live one. -/
theorem Writes.of_onlyLive (h : Adds (OnlyLive subscriptions) c c') : ∃ ms, Writes c c' ms ∧
    (∀ m ∈ ms, ∀ id, subject m = some id → id ∈ subscriptions ∧ ∃ event, m = .event id event) ∧
    ∀ id ∈ c'.subscriptions, id ∈ c.subscriptions := by
  obtain ⟨fx, hlog, hlive, hsubs⟩ := h.log
  refine ⟨_, ⟨h.turn, fx, hlog, rfl⟩, ?_, ?_⟩
  · intro m hm id hid
    obtain ⟨e, he, hmessage⟩ := List.mem_filterMap.mp hm
    exact hlive e he m id hmessage hid
  · intro id hid
    rcases hsubs id hid with hold | hnew
    · exact hold
    · obtain ⟨_, event, hevent⟩ := hlive _ hnew (.endOfStoredEvents id) id rfl rfl
      cases hevent

end Connection

end Nula.Server
