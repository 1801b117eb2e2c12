import Nula.Lib.Always
import Nula.Lib.Until
import Nula.Server.Replies

/-!
# `Server.Closed` — when `CLOSED` means closed

A `REQ` may reuse the id of a live subscription. If the server then refuses it, at any of its gates or on a
storage error, it writes `CLOSED` and leaves the old subscription in the map, so that live events go on under
an id the client was told is closed. The frames of an id are marks on it (`markOf`); `ClosedMeansClosed` says
they are shut until reopened, and it holds along every run whose `REQ`s are `Orderly`.
-/

namespace Nula.Server

open Std

variable {N : Negentropy}

/-! ## Frames as marks -/

/-- What a frame does to the subscription `id`. -/
def markOf (id : SubscriptionId) : RelayMessage → Option Mark
  | .event k _ => if k = id then some .use else none
  | .closed k _ => if k = id then some .shut else none
  | .endOfStoredEvents k => if k = id then some .reopen else none
  | _ => none

/-- The marks of the frames written so far. -/
def Connection.marks (id : SubscriptionId) (c : Connection N) : List (Nat × Mark) :=
  c.log.filterMap (fun entry => (entry.2.message.bind (markOf id)).map (entry.1, ·))

/-- After `CLOSED` for an id there is no `EVENT` for it until a later `REQ` for it is answered with `EOSE`; the
    stored events of that `REQ` come before its `EOSE`. -/
def ClosedMeansClosed (c : Connection N) : Prop := ∀ id, Mark.ShutUntilReopened (c.marks id)

theorem markOf_eq_none {id : SubscriptionId} {m : RelayMessage} (h : subject m ≠ some id) : markOf id m = none := by
  cases m with
  | event k event => exact if_neg (fun (hk : k = id) => h (hk ▸ rfl))
  | closed k why => exact if_neg (fun (hk : k = id) => h (hk ▸ rfl))
  | endOfStoredEvents k => exact if_neg (fun (hk : k = id) => h (hk ▸ rfl))
  | ok id accepted message => rfl
  | notice message => rfl
  | auth challenge => rfl
  | count id n => rfl
  | negMsg id message => rfl
  | negErr id message => rfl

namespace Connection

variable {c c' : Connection N} {ctx : ConnectionContext} {id : SubscriptionId}

/-! ## The marks of a wakeup -/

/-- Messages that are written leave their marks. -/
theorem Writes.marks {ms : List RelayMessage} (h : Writes c c' ms) (id : SubscriptionId) :
    c'.marks id = c.marks id ++ (ms.filterMap (markOf id)).map (c.turn, ·) := by
  obtain ⟨fx, hlog, rfl⟩ := h.log
  rw [Connection.marks, Connection.marks, hlog, List.filterMap_append, List.filterMap_map,
    List.filterMap_filterMap, List.map_filterMap]
  rfl

theorem markOf_events (events : List Event) :
    (events.map (.event id)).filterMap (markOf id) = events.map (fun _ => .use) := by
  rw [List.filterMap_map]
  have hmark : markOf id ∘ RelayMessage.event id = fun event => some ((fun _ => Mark.use) event) :=
    funext (fun event => if_pos rfl)
  rw [hmark, List.filterMap_eq_map']

/-- The marks a reply leaves on its own id. -/
theorem Reply.marks {C F S : Prop} {ms : List RelayMessage} (h : Reply id C F S ms) : ∃ uses : List Mark,
    (∀ m ∈ uses, m = .use) ∧ (uses ≠ [] → S) ∧
      (ms.filterMap (markOf id) = uses ++ [.reopen] ∨
        (¬C ∧ F ∧ ms.filterMap (markOf id) = uses ++ [.shut]) ∨ (¬C ∧ ms.filterMap (markOf id) = uses)) := by
  have huses : ∀ {events : List Event}, ∀ m ∈ events.map (fun _ => Mark.use), m = .use := by
    intro events m hm
    obtain ⟨_, _, rfl⟩ := List.mem_map.mp hm
    rfl
  have hne : ∀ {events : List Event}, events.map (fun _ => Mark.use) ≠ [] → events ≠ [] := by
    rintro events hmap rfl
    exact hmap rfl
  cases h with
  | opened events hstreams =>
      refine ⟨_, huses, fun h => hstreams (hne h), Or.inl ?_⟩
      rw [List.filterMap_append, markOf_events]
      simp [markOf]
  | refused events why hstreams hnot hfails =>
      refine ⟨_, huses, fun h => hstreams (hne h), Or.inr (Or.inl ⟨hnot, hfails, ?_⟩)⟩
      rw [List.filterMap_append, markOf_events]
      simp [markOf]
  | cut events hstreams hnot => exact ⟨_, huses, fun h => hstreams (hne h), Or.inr (Or.inr ⟨hnot, markOf_events _⟩)⟩

/-- Every frame of a reply belongs to its id. -/
theorem Reply.subject {C F S : Prop} {ms : List RelayMessage} (h : Reply id C F S ms) :
    ∀ m ∈ ms, subject m = some id := by
  have hevents : ∀ events : List Event, ∀ m ∈ events.map (RelayMessage.event id), Server.subject m = some id := by
    intro events m hm
    obtain ⟨_, _, rfl⟩ := List.mem_map.mp hm
    rfl
  cases h with
  | opened events _ => exact List.forall_mem_append.mpr ⟨hevents events, List.forall_mem_singleton.mpr rfl⟩
  | refused events why _ _ _ =>
      exact List.forall_mem_append.mpr ⟨hevents events, List.forall_mem_singleton.mpr rfl⟩
  | cut events _ _ => exact hevents events

/-- A reply leaves no marks on other ids. -/
theorem Reply.marks_other {C F S : Prop} {ms : List RelayMessage} {k : SubscriptionId} (h : Reply id C F S ms)
    (hk : k ≠ id) : ms.filterMap (markOf k) = [] := by
  rw [List.filterMap_eq_nil_iff]
  intro m hm
  apply markOf_eq_none
  rw [h.subject m hm]
  intro hid
  exact hk (Option.some.inj hid).symm

/-- A new subscription was reopened by a frame. -/
theorem Adds.reopened {P : Effect → Prop} {ms : List RelayMessage} {d : Connection N} (h : Adds P c c')
    (hw : Writes c d ms) (hsame : c'.log = d.log) :
    ∀ k ∈ c'.subscriptions, k ∈ c.subscriptions ∨ .reopen ∈ ms.filterMap (markOf k) := by
  obtain ⟨fx, hlog, _, hsubs⟩ := h.log
  obtain ⟨fx', hlog', rfl⟩ := hw.log
  have hfx : fx = fx' := by
    have hmap := List.append_cancel_left (hlog.symm.trans (hsame.trans hlog'))
    exact List.map_injective_iff.mpr (fun _ _ hpair => (Prod.mk.inj hpair).2) hmap
  subst hfx
  intro k hk
  rcases hsubs k hk with hold | hnew
  · exact Or.inl hold
  · refine Or.inr (List.mem_filterMap.mpr ⟨.endOfStoredEvents k, ?_, if_pos rfl⟩)
    exact List.mem_filterMap.mpr ⟨_, hnew, rfl⟩

/-- **The frames of a wakeup.** A `REQ` is replied to; any other wakeup sends subscriptions live events only. -/
theorem step_frames (ctx : ConnectionContext) (c : Connection N) (w : Wakeup × Env) : ∃ ms d, Writes c d ms ∧
    c.step ctx w = { d with turn := c.turn + 1 } ∧
    (∀ k ∈ d.subscriptions, k ∈ c.subscriptions ∨ .reopen ∈ ms.filterMap (markOf k)) ∧
    ((∀ m ∈ ms, ∀ k, subject m = some k → k ∈ c.subscriptions ∧ ∃ event, m = .event k event) ∨
      ∃ id filters, received ctx c w.1 = some (.req id filters) ∧
        Reply id (Served ctx w.2 c id filters) (Refused ctx w.2 c id filters) (Sends ctx w.2 c id filters) ms) := by
  by_cases hreq : ∃ id filters, received ctx c w.1 = some (.req id filters)
  · obtain ⟨id, filters, hreceived⟩ := hreq
    obtain ⟨ms, ⟨d, hwrites, hstep⟩, hreply⟩ := step_req hreceived
    have hsubmitted : submitted ctx c w = none := by
      rw [submitted, hreceived]
    -- the same wakeup by what it may add: a `REQ` enters the map only behind its `EOSE`
    obtain ⟨d', hlocal, hstep'⟩ := step_local hsubmitted
    have hsame := hstep'.symm.trans hstep
    have hlog := congrArg Connection.log hsame
    have hsubs := congrArg Connection.subscriptions hsame
    dsimp only at hlog hsubs
    refine ⟨ms, d, hwrites, hstep, ?_, Or.inr ⟨id, filters, hreceived, hreply⟩⟩
    rw [← hsubs]
    exact hlocal.reopened hwrites hlog
  · obtain ⟨d, hlive, hstep⟩ := step_other (fun id filters h => hreq ⟨id, filters, h⟩)
    obtain ⟨ms, hwrites, hms, hsubs⟩ := Writes.of_onlyLive hlive
    exact ⟨ms, d, hwrites, hstep, fun k hk => Or.inl (hsubs k hk), Or.inl hms⟩

/-- The marks of one id in a wakeup: uses, and at most one more at the end. Live events use ids of the map, and the
    reply to a `REQ` marks its own id only. -/
theorem step_marks (ctx : ConnectionContext) (c : Connection N) (w : Wakeup × Env) (k : SubscriptionId) :
    ∃ block : List Mark, (c.step ctx w).marks k = c.marks k ++ block.map (c.turn, ·) ∧
      (k ∈ (c.step ctx w).subscriptions → k ∈ c.subscriptions ∨ .reopen ∈ block) ∧
      ((∀ m ∈ block, m = .use) ∧ (block ≠ [] → k ∈ c.subscriptions) ∨
        ∃ filters uses, received ctx c w.1 = some (.req k filters) ∧ (∀ m ∈ uses, m = .use) ∧
          (uses ≠ [] → Sends ctx w.2 c k filters) ∧
          (block = uses ++ [.reopen] ∨
            (¬Served ctx w.2 c k filters ∧ Refused ctx w.2 c k filters ∧ block = uses ++ [.shut]) ∨
            (¬Served ctx w.2 c k filters ∧ block = uses))) := by
  obtain ⟨ms, d, hwrites, hstep, hsubs, hcase⟩ := step_frames ctx c w
  refine ⟨ms.filterMap (markOf k), ?_, ?_, ?_⟩
  · rw [hstep]
    exact hwrites.marks k
  · rw [hstep]
    exact hsubs k
  · rcases hcase with hlive | ⟨id, filters, hreceived, hreply⟩
    · -- live events: uses of ids in the map
      left
      have hmarks : ∀ mark ∈ ms.filterMap (markOf k), mark = .use ∧ k ∈ c.subscriptions := by
        intro mark hmark
        obtain ⟨m, hm, hmarkOf⟩ := List.mem_filterMap.mp hmark
        by_cases hsubject : subject m = some k
        · obtain ⟨hmem, event, rfl⟩ := hlive m hm k hsubject
          rw [markOf, if_pos rfl] at hmarkOf
          exact ⟨(Option.some.inj hmarkOf).symm, hmem⟩
        · rw [markOf_eq_none hsubject] at hmarkOf
          cases hmarkOf
      refine ⟨fun mark hmark => (hmarks mark hmark).1, ?_⟩
      intro hne
      obtain ⟨mark, hmark⟩ := List.exists_mem_of_ne_nil _ hne
      exact (hmarks mark hmark).2
    · -- a reply marks its own id only
      by_cases hk : k = id
      · subst hk
        obtain ⟨uses, huses, hstreams, hblock⟩ := hreply.marks
        exact Or.inr ⟨filters, uses, hreceived, huses, hstreams, hblock⟩
      · rw [hreply.marks_other hk]
        exact Or.inl ⟨nofun, fun h => absurd rfl h⟩

/-! ## Runs -/

/-- What keeps a connection honest about `CLOSED`: a `REQ` for a live id is not refused, and one for an id that is
    closed sends stored events only if it gets to its `EOSE`. -/
def Orderly (ctx : ConnectionContext) (c : Connection N) (w : Wakeup × Env) : Prop :=
  ∀ id filters, received ctx c w.1 = some (.req id filters) →
    (id ∈ c.subscriptions → ¬Refused ctx w.2 c id filters) ∧
    (Mark.isShut (c.marks id) = true → Sends ctx w.2 c id filters → Served ctx w.2 c id filters)

/-- No subscription of the map is shut. -/
def LiveOpen (c : Connection N) : Prop := ∀ id ∈ c.subscriptions, Mark.isShut (c.marks id) = false

/-- **One wakeup** leaves a block of marks that is in order by itself. -/
theorem closing_of_step (ctx : ConnectionContext) (c : Connection N) (w : Wakeup × Env) (k : SubscriptionId) :
    ∃ block : List Mark, (c.step ctx w).marks k = c.marks k ++ block.map (c.turn, ·) ∧ Mark.Closing block := by
  obtain ⟨block, hmarks, _, hcase⟩ := step_marks ctx c w k
  refine ⟨block, hmarks, ?_⟩
  rcases hcase with ⟨huses, _⟩ | ⟨_, uses, _, huses, _, rfl | ⟨_, _, rfl⟩ | ⟨_, rfl⟩⟩
  · exact Mark.closing_uses huses
  · exact Mark.closing_uses_append huses _
  · exact Mark.closing_uses_append huses _
  · exact Mark.closing_uses huses

theorem reopen_not_mem_uses {uses : List Mark} (h : ∀ m ∈ uses, m = .use) : .reopen ∉ uses := by
  intro hmem
  cases h _ hmem

/-- An orderly wakeup keeps closed closed. -/
theorem step_closed {w : Wakeup × Env} (hsettled : ∀ id, Mark.Settled (c.marks id) c.turn)
    (hclosed : ClosedMeansClosed c) (hlive : LiveOpen c) (horderly : Orderly ctx c w) :
    ClosedMeansClosed (c.step ctx w) := by
  intro k
  obtain ⟨block, hmarks, _, hcase⟩ := step_marks ctx c w k
  rw [hmarks]
  rcases hcase with ⟨huses, hmem⟩ | ⟨filters, uses, hreceived, huses, hsends, hblock⟩
  · -- live events go to the map only, and there nothing is shut
    apply (hclosed k).append (hsettled k) (Mark.closing_uses huses)
    intro hshut huse
    have hopen := hlive k (hmem (List.ne_nil_of_mem huse))
    rw [hshut] at hopen
    cases hopen
  · -- a `REQ` for a shut id that sends anything is served
    have hserved : Mark.isShut (c.marks k) = true → uses ≠ [] → Served ctx w.2 c k filters := fun hshut hne =>
      (horderly k filters hreceived).2 hshut (hsends hne)
    rcases hblock with rfl | ⟨hnot, _, rfl⟩ | ⟨hnot, rfl⟩
    · -- the `EOSE` at the end covers the stored events before it
      apply (hclosed k).append (hsettled k) (Mark.closing_uses_append huses _)
      intro _ _
      exact List.mem_append_right _ List.mem_cons_self
    · apply (hclosed k).append (hsettled k) (Mark.closing_uses_append huses _)
      intro hshut huse
      rcases List.mem_append.mp huse with huse | huse
      · exact absurd (hserved hshut (List.ne_nil_of_mem huse)) hnot
      · cases List.mem_singleton.mp huse
    · apply (hclosed k).append (hsettled k) (Mark.closing_uses huses)
      intro hshut huse
      exact absurd (hserved hshut (List.ne_nil_of_mem huse)) hnot

/-- An orderly wakeup leaves no shut subscription in the map. -/
theorem step_liveOpen {w : Wakeup × Env} (hlive : LiveOpen c) (horderly : Orderly ctx c w) :
    LiveOpen (c.step ctx w) := by
  intro k hk
  obtain ⟨block, hmarks, hsubs, hcase⟩ := step_marks ctx c w k
  rw [hmarks, Mark.isShut_append]
  rcases hcase with ⟨huses, _⟩ | ⟨filters, uses, hreceived, huses, _, rfl | ⟨_, hrefused, rfl⟩ | ⟨_, rfl⟩⟩
  · rw [Mark.isShutFrom_uses huses]
    exact hlive k ((hsubs hk).resolve_right (reopen_not_mem_uses huses))
  · rw [Mark.isShutFrom_append]
    rfl
  · -- only an id that is not live is refused
    have hreopen : .reopen ∉ uses ++ [.shut] := by
      intro hmem
      rcases List.mem_append.mp hmem with hmem | hmem
      · exact reopen_not_mem_uses huses hmem
      · cases List.mem_singleton.mp hmem
    exact absurd hrefused ((horderly k filters hreceived).1 ((hsubs hk).resolve_right hreopen))
  · rw [Mark.isShutFrom_uses huses]
    exact hlive k ((hsubs hk).resolve_right (reopen_not_mem_uses huses))

/-- Nothing is marked while a connection is set up. -/
theorem accept_marks {first : Env} (k : SubscriptionId) : (accept ctx first : Connection N).marks k = [] := by
  rw [marks, List.filterMap_eq_nil_iff]
  intro entry hentry
  have haside := accept_aside entry hentry
  cases hmessage : entry.2.message with
  | none => rfl
  | some m =>
      have hsubject := haside.message m hmessage
      rw [Option.bind_some, markOf_eq_none (by rw [hsubject]; nofun)]
      rfl

theorem accept_subscriptions {first : Env} : (accept ctx first : Connection N).subscriptions = ∅ := by
  rw [accept]
  split
  · rw [settled_subscriptions, send, push]
    split
    · rfl
    · rfl
  · rfl

/-- Every run leaves the marks in order, by induction. -/
theorem run_settled {first : Env} (past : List (Wakeup × Env)) (k : SubscriptionId) :
    Mark.Settled ((run ctx first past : Connection N).marks k) (run ctx first past : Connection N).turn := by
  induction past using List.reverseRecOn with
  | nil =>
      show Mark.Settled ((accept ctx first : Connection N).marks k) _
      rw [accept_marks]
      refine ⟨nofun, ?_⟩
      intro pre t post h
      exact absurd h (by simp)
  | append_singleton past w ih =>
      rw [run_append_singleton, step_turn]
      obtain ⟨block, hmarks, hclosing⟩ := closing_of_step ctx (run ctx first past) w k
      rw [hmarks]
      exact ih.append hclosing

end Connection

/-- **Closed means closed, while `REQ`s are orderly.** Along every run in which no `REQ` for a live id is refused,
    and none for a closed id stops between its stored events and its `EOSE`, no id gets an `EVENT` between
    `CLOSED` and the next `EOSE`.

    The log leaves a row of marks for each id, and a wakeup adds a block of them (`closing_of_step`). By induction
    on the run a live id's marks end reopened (`LiveOpen`), and in an orderly block nothing is used behind a shut
    mark. -/
theorem closed_means_closed (ctx : ConnectionContext) (first : Env) (schedule : List (Wakeup × Env))
    (h : EachStep (fun past w => Connection.Orderly ctx (Connection.run ctx first past : Connection N) w) schedule) :
    Always (fun past => ClosedMeansClosed (Connection.run ctx first past : Connection N)) schedule := by
  have hall : Always (fun past => ClosedMeansClosed (Connection.run ctx first past : Connection N) ∧
      Connection.LiveOpen (Connection.run ctx first past : Connection N)) schedule := by
    refine Always.of_eachStep (I := fun _ => True) (fun _ => trivial) ?_ ?_ h
    · constructor
      · intro id pre t post hsplit
        rw [show (Connection.run ctx first [] : Connection N) = Connection.accept ctx first from rfl,
          Connection.accept_marks] at hsplit
        exact absurd hsplit (by simp)
      · intro id hid
        rw [show (Connection.run ctx first [] : Connection N) = Connection.accept ctx first from rfl,
          Connection.accept_subscriptions] at hid
        exact absurd hid ExtTreeMap.not_mem_empty
    · rintro past w _ ⟨hclosed, hlive⟩ horderly
      rw [Connection.run_append_singleton]
      exact ⟨Connection.step_closed (Connection.run_settled past) hclosed hlive horderly,
        Connection.step_liveOpen hlive horderly⟩
  exact hall.mono (fun _ hpast => hpast.1)

end Nula.Server

namespace Nula.Sample

open Server

/-- The frame of a `REQ` for everything. -/
def reqFrame : Wakeup := .inbound (some (.ok (.text "[\"REQ\",\"a\",{}]")))

/-- A decoder that knows one request. -/
def readReq (text : String) : Except String ClientMessage :=
  if text = "[\"REQ\",\"a\",{}]" then .ok (.req subscription [everything]) else .error "malformed"

/-- One `REQ` a minute. -/
def limitedCtx : ConnectionContext := { serverCtx readReq with rateLimit := ⟨none, some 1⟩ }

/-- No filter is admitted. -/
def rejectingEnv : Env := { serverEnv 8 with admitQuery := fun _ filter => (filter, .reject .blocked "closed today") }

/-- A run of the example. -/
def runOf (ctx : ConnectionContext) (schedule : List (Wakeup × Env)) : Connection negentropy :=
  .run ctx (serverEnv 8) schedule

/-- The second `REQ` is over the limit, and a note comes in. -/
def overLimit : List (Wakeup × Env) :=
  [(reqFrame, serverEnv 8), (reqFrame, serverEnv 8), (.live (some genuine), serverEnv 8)]

/-- The first `REQ` is rejected by the policy, the second is not, and a note comes in. -/
def secondTry : List (Wakeup × Env) :=
  [(reqFrame, rejectingEnv), (reqFrame, serverEnv 8), (.live (some genuine), serverEnv 8)]

end Nula.Sample

namespace Nula.Server

open Nula.Sample

/-- The client is told that its subscription is closed, and then gets an event under it. -/
theorem overLimit_deliversAfterClosed : ¬ClosedMeansClosed (runOf limitedCtx overLimit) := by
  intro h
  have hmarks : (runOf limitedCtx overLimit).marks subscription = [(1, .reopen), (2, .shut), (3, .use)] := by
    decide +kernel
  obtain ⟨r, hr, _⟩ := h subscription [(1, .reopen)] 2 [(3, .use)] hmarks 3 (List.mem_singleton.mpr rfl)
  simp at hr

theorem secondTry_orderly : EachStep (fun past w => Connection.Orderly (serverCtx readReq)
    (runOf (serverCtx readReq) past) w) secondTry := by
  show EachStep _ ((([] ++ [(reqFrame, rejectingEnv)]) ++ [(reqFrame, serverEnv 8)]) ++
    [(.live (some genuine), serverEnv 8)])
  rw [eachStep_append_singleton, eachStep_append_singleton, eachStep_append_singleton]
  refine ⟨⟨⟨eachStep_nil, ?_⟩, ?_⟩, ?_⟩
  · intro id filters hreceived
    cases (show some (ClientMessage.req subscription [everything]) = some (.req id filters) from hreceived)
    refine ⟨fun hlive => absurd hlive (by decide +kernel), fun hshut => absurd hshut (by decide +kernel)⟩
  · intro id filters hreceived
    cases (show some (ClientMessage.req subscription [everything]) = some (.req id filters) from hreceived)
    refine ⟨fun hlive => absurd hlive (by decide +kernel), fun _ _ => ?_⟩
    refine ⟨by decide +kernel, by decide +kernel, rfl, [[]], rfl, ?_⟩
    intro k hk
    rw [Nat.le_zero.mp hk]
    rfl
  · intro id filters hreceived
    cases hreceived

/-- A rejected `REQ`, then one that is served, then a live event. -/
theorem closed_means_closed_secondTry :
    Always (fun past => ClosedMeansClosed (runOf (serverCtx readReq) past)) secondTry :=
  closed_means_closed (serverCtx readReq) (serverEnv 8) secondTry secondTry_orderly

end Nula.Server
