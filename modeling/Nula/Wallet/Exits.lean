import Nula.Signer.Exits
import Nula.Wallet.Client

/-!
# `Wallet.Exits` — how the calls of the two clients end

The wallet's client takes its entry along when time is up or no relay took the request, and forgets it in one place
only: the error of the pool (`tidy_run`). Side by side with the signer's client (`exits_iff`), each does what the
other misses.
-/

namespace Nula.Wallet

section

variable (cfg : Config)

/-! ## Ids -/

/-- The id of the request event of a call. -/
def idOf : Action → Option EventId
  | .dispatch request entropy aux clock => (requestEvent cfg request entropy aux clock).toOption.map (·.id)
  | _ => none

/-- The ids of the calls of a run. -/
def ids (actions : List Action) : List EventId := actions.filterMap (idOf cfg)

theorem ids_append_singleton (actions : List Action) (a : Action) :
    ids cfg (actions ++ [a]) = ids cfg actions ++ (idOf cfg a).toList := by
  rw [ids, List.filterMap_append, ids, List.append_cancel_left_eq]
  cases h : idOf cfg a <;> simp [h]

/-! ## What the steps do -/

/-- A call leaves no trace, or it enters the table under the id of its event. -/
theorem dispatch_cases (s : State) (request : Request) (entropy : Entropy) (aux : Bytes) (clock : Clock) :
    (idOf cfg (.dispatch request entropy aux clock) = none ∧ dispatch cfg s request entropy aux clock = s) ∨
    ∃ event, idOf cfg (.dispatch request entropy aux clock) = some event.id ∧
      dispatch cfg s request entropy aux clock =
        ⟨s.table.enter event.id request Channel.drop, s.requests ++ [event]⟩ := by
  rw [dispatch, idOf]
  cases requestEvent cfg request entropy aux clock with
  | error e => exact Or.inl ⟨rfl, rfl⟩
  | ok event => exact Or.inr ⟨event, rfl, rfl⟩

theorem published_of_sending {s : State} {n : Nat} {c : Call EventId Request Reply} (hc : s.table.calls[n]? = some c)
    (hphase : c.phase = .sending) (outcome : SendOutcome) :
    published s n outcome = match outcome with
      | .error text => { s with table := s.table.finish n (.error (.pool text)) }
      | .totalFailure failed => { s with table := (s.table.remove c.key).finish n (.error (.publishFailed failed)) }
      | .accepted => { s with table := s.table.await n } := by
  obtain ⟨key, request, channel, phase⟩ := c
  obtain rfl : phase = .sending := hphase
  cases outcome <;> simp only [published, hc]

/-- A publish that returns for another does nothing. -/
theorem published_of_not_sending {s : State} {n : Nat} (outcome : SendOutcome)
    (h : ∀ c, s.table.calls[n]? = some c → c.phase ≠ .sending) : published s n outcome = s := by
  unfold published
  split
  · rename_i key request channel hc
    exact absurd rfl (h _ hc)
  · rfl

/-- A timeout ends its own call and takes its entry out, or does nothing. -/
theorem expire_cases (s : State) (n : Nat) :
    expire s n = s ∨ ∃ c, s.table.calls[n]? = some c ∧
      expire s n = { s with table := (s.table.remove c.key).finish n (.error (.timeout c.request.method)) } := by
  unfold expire
  split
  · rename_i id request hc
    exact Or.inr ⟨_, hc, rfl⟩
  · exact Or.inl rfl

/-- An event from the wallet answers a call that waits, or does nothing. -/
theorem handleEvent_cases (s : State) (event : Event) :
    handleEvent cfg s event = s ∨ ∃ id n reply, event.pubkey = cfg.walletPubkey ∧ (id, n) ∈ s.table.pending ∧
      handleEvent cfg s event = { s with table := s.table.answer id n reply } := by
  rw [handleEvent]
  split
  · exact Or.inl rfl
  · rename_i hlisten
    obtain ⟨-, hauthor, -⟩ := by simpa only [not_or, not_not] using hlisten
    split
    · exact Or.inl rfl
    · rename_i response hresponse
      split
      · exact Or.inl rfl
      · rename_i id ids hids
        rw [resolve]
        cases hlookup : s.table.lookup id with
        | none => exact Or.inl rfl
        | some n => exact Or.inr ⟨id, n, _, hauthor, InFlight.lookup_eq_some hlookup, rfl⟩

/-! ## Exits -/

/-- The step ends this call by a failure. -/
def Fails (n : Nat) : Action → Prop
  | .published m (.error _) | .published m (.totalFailure _) | .timeout m => m = n
  | _ => False

/-- A call that the pool refuses finds its own entry gone. -/
def Tidy (s : State) : Action → Prop
  | .published n (.error _) => ∀ c, s.table.calls[n]? = some c → c.phase = .sending → s.table.Gone c.key
  | _ => True

/-- The failures of a step leave the other calls alone. -/
def Isolated (s s' : State) (a : Action) : Prop := ∀ n, Fails n a → InFlight.Apart n s.table s'.table

theorem isolated_of_not_fails {s s' : State} {a : Action} (h : ∀ n, ¬Fails n a) : Isolated s s' a :=
  fun n hn => absurd hn (h n)

theorem isolated_self {s : State} {a : Action} : Isolated s s a := fun _ _ _ _ => ⟨rfl, fun _ hk => hk⟩

/-- The calls are those of the run, in order: only a dispatch that has made an event adds one. -/
theorem keys_step (s : State) (a : Action) :
    (step cfg s a).table.calls.map (·.key) = s.table.calls.map (·.key) ++ (idOf cfg a).toList := by
  cases a with
  | dispatch request entropy aux clock =>
      rw [step]
      rcases dispatch_cases cfg s request entropy aux clock with ⟨hid, heq⟩ | ⟨event, hid, heq⟩
      · rw [hid, heq]
        exact (List.append_nil _).symm
      · rw [hid, heq]
        exact InFlight.enter_keys request
  | published n outcome =>
      refine Eq.trans ?_ (List.append_nil _).symm
      rw [step]
      by_cases hsending : ∃ c, s.table.calls[n]? = some c ∧ c.phase = .sending
      · obtain ⟨c, hc, hphase⟩ := hsending
        rw [published_of_sending hc hphase]
        cases outcome with
        | error text => exact InFlight.finish_keys
        | totalFailure failed => exact InFlight.finish_keys
        | accepted => exact InFlight.await_keys
      · rw [published_of_not_sending outcome (fun c hc hphase => hsending ⟨c, hc, hphase⟩)]
  | receive n =>
      refine Eq.trans ?_ (List.append_nil _).symm
      exact InFlight.receive_keys
  | timeout n =>
      refine Eq.trans ?_ (List.append_nil _).symm
      rw [step]
      rcases expire_cases s n with heq | ⟨c, -, heq⟩
      · rw [heq]
      · rw [heq]
        exact InFlight.finish_keys
  | event e =>
      refine Eq.trans ?_ (List.append_nil _).symm
      rw [step]
      rcases handleEvent_cases cfg s e with heq | ⟨id, n, reply, -, -, heq⟩
      · rw [heq]
      · rw [heq]
        exact InFlight.send_keys

/-- Every call waits under the id of its request. -/
theorem keys_run (actions : List Action) : (run cfg actions).table.calls.map (·.key) = ids cfg actions := by
  induction actions using List.reverseRecOn with
  | nil => rfl
  | append_singleton actions a ih => rw [run_append_singleton, keys_step, ih, ids_append_singleton]

theorem fresh_of_nodup {past : List Action} {a : Action} {id : EventId} (hid : idOf cfg a = some id)
    (h : (ids cfg (past ++ [a])).Nodup) : (run cfg past).table.Fresh id := by
  rw [InFlight.Fresh, keys_run]
  rw [ids_append_singleton, hid] at h
  exact fun hmem => List.disjoint_of_nodup_append h hmem List.mem_cons_self

/-- **One action keeps the table sound**, if its id is new. One case for each action, each with the lemma of the table
    on the move it makes. -/
theorem sound_step {past : List Action} (a : Action) (hids : (ids cfg (past ++ [a])).Nodup)
    (h : (run cfg past).table.Sound) : (run cfg (past ++ [a])).table.Sound := by
  rw [run_append_singleton]
  cases a with
  | dispatch request entropy aux clock =>
      rw [step]
      rcases dispatch_cases cfg (run cfg past) request entropy aux clock with ⟨-, heq⟩ | ⟨event, hid, heq⟩
      · rwa [heq]
      · rw [heq]
        exact h.enter (fresh_of_nodup cfg hid hids) request
  | published n outcome =>
      rw [step]
      by_cases hsending : ∃ c, (run cfg past).table.calls[n]? = some c ∧ c.phase = .sending
      · obtain ⟨c, hc, hphase⟩ := hsending
        rw [published_of_sending hc hphase]
        cases outcome with
        | error text => exact h.finish
        | totalFailure failed => exact h.remove.finish
        | accepted => exact h.await
      · rwa [published_of_not_sending outcome (fun c hc hphase => hsending ⟨c, hc, hphase⟩)]
  | receive n => exact h.receive
  | timeout n =>
      rw [step]
      rcases expire_cases (run cfg past) n with heq | ⟨c, -, heq⟩
      · rwa [heq]
      · rw [heq]
        exact h.remove.finish
  | event e =>
      rw [step]
      rcases handleEvent_cases cfg (run cfg past) e with heq | ⟨id, n, reply, -, hmem, heq⟩
      · rwa [heq]
      · rw [heq]
        exact h.answer hmem

/-- The table is sound in every run whose ids differ. -/
theorem sound_run (actions : List Action) (hids : (ids cfg actions).Nodup) : (run cfg actions).table.Sound := by
  induction actions using List.reverseRecOn with
  | nil => exact InFlight.sound_empty
  | append_singleton actions a ih =>
      refine sound_step cfg a hids (ih ?_)
      rw [ids_append_singleton] at hids
      exact hids.of_append_left

/-- **The end of a publish** leaves the table tidy exactly if it is `Tidy`. Only an error of the pool leaves the entry
    of its call behind; the other outcomes await or take it out. -/
theorem tidy_published {s : State} (hs : s.table.Sound) (h : s.table.NoLeak) (n : Nat) (outcome : SendOutcome) :
    ((published s n outcome).table.NoLeak ∧ Isolated s (published s n outcome) (.published n outcome)) ↔
      Tidy s (.published n outcome) := by
  by_cases hsending : ∃ c, s.table.calls[n]? = some c ∧ c.phase = .sending
  · obtain ⟨c, hc, hphase⟩ := hsending
    rw [published_of_sending hc hphase]
    cases outcome with
    | error text =>
        have hapart : Isolated s { s with table := s.table.finish n (.error (.pool text)) }
            (.published n (.error text)) := by
          rintro m rfl
          exact InFlight.apart_finish
        rw [and_iff_left hapart, Tidy, hc]
        refine (InFlight.noLeak_finish_iff h hc).trans ?_
        constructor
        · rintro hgone c' heq -
          cases heq
          exact hgone
        · intro hgone
          exact hgone c rfl hphase
    | totalFailure failed =>
        refine iff_of_true ⟨h.remove_finish hc, ?_⟩ trivial
        rintro m rfl
        exact InFlight.apart_remove_finish hs hc
    | accepted => exact iff_of_true ⟨h.await, isolated_of_not_fails (fun _ hf => hf)⟩ trivial
  · have hnot : ∀ c, s.table.calls[n]? = some c → c.phase ≠ .sending := fun c hc hphase => hsending ⟨c, hc, hphase⟩
    rw [published_of_not_sending outcome hnot]
    refine iff_of_true ⟨h, isolated_self⟩ ?_
    cases outcome with
    | error text => exact fun c hc hphase => absurd hphase (hnot c hc)
    | totalFailure failed => trivial
    | accepted => trivial

/-- From a table without leaks a step leaves none, and no other call notices its failure, exactly when it is
    tidy. -/
theorem tidy_step {past : List Action} (a : Action) (hids : (ids cfg (past ++ [a])).Nodup)
    (hs : (run cfg past).table.Sound) (h : (run cfg past).table.NoLeak) :
    ((run cfg (past ++ [a])).table.NoLeak ∧ Isolated (run cfg past) (run cfg (past ++ [a])) a) ↔
      Tidy (run cfg past) a := by
  rw [run_append_singleton]
  cases a with
  | dispatch request entropy aux clock =>
      refine iff_of_true ⟨?_, isolated_of_not_fails (fun _ hf => hf)⟩ trivial
      rw [step]
      rcases dispatch_cases cfg (run cfg past) request entropy aux clock with ⟨-, heq⟩ | ⟨event, hid, heq⟩
      · rwa [heq]
      · rw [heq]
        exact h.enter hs (fresh_of_nodup cfg hid hids) request
  | published n outcome => exact tidy_published hs h n outcome
  | receive n => exact iff_of_true ⟨h.receive hs, isolated_of_not_fails (fun _ hf => hf)⟩ trivial
  | timeout n =>
      refine iff_of_true ?_ trivial
      rw [step]
      rcases expire_cases (run cfg past) n with heq | ⟨c, hc, heq⟩
      · rw [heq]
        exact ⟨h, isolated_self⟩
      · rw [heq]
        refine ⟨h.remove_finish hc, ?_⟩
        rintro m rfl
        exact InFlight.apart_remove_finish hs hc
  | event e =>
      refine iff_of_true ⟨?_, isolated_of_not_fails (fun _ hf => hf)⟩ trivial
      rw [step]
      rcases handleEvent_cases cfg (run cfg past) e with heq | ⟨id, n, reply, -, -, heq⟩
      · rwa [heq]
      · rw [heq]
        exact h.answer

/-- Along a run with distinct ids nothing leaks and no failure is noticed by others, exactly when all steps are
    tidy. -/
theorem tidy_run {actions : List Action} (hids : (ids cfg actions).Nodup) :
    (Always (fun past => (run cfg past).table.NoLeak) actions ∧
        EachStep (fun past a => Isolated (run cfg past) (run cfg (past ++ [a])) a) actions) ↔
      EachStep (fun past a => Tidy (run cfg past) a) actions := by
  refine always_and_eachStep_iff (D := fun l => (ids cfg l).Nodup) ?_ (sound_run cfg) InFlight.noLeak_empty ?_ hids
  · intro past a hids
    rw [ids_append_singleton] at hids
    exact hids.of_append_left
  · intro past a hids hs h
    exact tidy_step cfg a hids hs h

end

/-- **How calls end.** In runs whose calls have distinct ids: the clients keep no id of a call that has returned, and
    no failure is noticed by another call, exactly when — for the signer's client — a call that the pool refuses or
    that times out finds its entry gone, one that reaches no relay finds nobody else in the table, and no handler
    succeeds for a call that has returned; for the wallet's, when a call that the pool refuses finds its entry
    gone.

    Both clients keep their calls in one kind of table (`InFlight`). That it is sound is an invariant of runs with
    distinct ids; given it, an action leaves no entry behind and no other call hurt exactly if it is tidy
    (`tidy_run`). -/
theorem exits_iff (signer : Signer.Config) (sent : List Signer.Action) (cfg : Config) (actions : List Action) :
    ((Signer.ids sent).Nodup →
      ((Always (fun past => (Signer.run signer past).table.NoLeak) sent ∧
          EachStep (fun past a => Signer.Isolated (Signer.run signer past) (Signer.run signer (past ++ [a])) a) sent) ↔
        EachStep (fun past a => Signer.Tidy (Signer.run signer past) a) sent)) ∧
    ((ids cfg actions).Nodup →
      ((Always (fun past => (run cfg past).table.NoLeak) actions ∧
          EachStep (fun past a => Isolated (run cfg past) (run cfg (past ++ [a])) a) actions) ↔
        EachStep (fun past a => Tidy (run cfg past) a) actions)) := by
  constructor
  · intro hids
    exact Signer.tidy_run signer hids
  · intro hids
    exact tidy_run cfg hids

/-! ## Sample values

A client of alice's wallet and its one call. -/

namespace Sample

/-- The client of the example. -/
def config : Config :=
  ⟨Signer.Sample.ctx, Signer.Sample.config.clientKeys, Nula.Sample.alice, .nip44V2, [Gossip.Sample.one]⟩

/-- A request for the balance. -/
def request : Request := ⟨"get_balance", .object []⟩

/-- A call with it. -/
def dispatch : Action := .dispatch request (.ok []) [] (.ok 1700000000)

theorem nodup_ids (outcome : SendOutcome) : (ids config [dispatch, .published 0 outcome]).Nodup := by
  have hone : ids config [dispatch, .published 0 outcome] = (idOf config dispatch).toList := by
    rw [ids, List.filterMap_cons]
    cases idOf config dispatch <;> rfl
  rw [hone]
  cases idOf config dispatch <;> simp

/-- The call has its entry in the table. -/
theorem run_dispatch : ∃ event, run config [dispatch] =
    ⟨⟨[⟨event.id, request, .empty, .sending⟩], [(event.id, 0)], none⟩, [event]⟩ := by
  have hfits : Nip44.Fits (config.ctx.json.write
      (.object [("method", .string request.method), ("params", request.params)])) := by
    decide +kernel
  have hseal : Nip44.encrypt config.ctx.crypto (.ok []) config.clientKeys.secretKey config.walletPubkey
      (config.ctx.json.write (.object [("method", .string request.method), ("params", request.params)])) = .ok _ :=
    Nip44.encrypt_eq_ok_iff.mpr ⟨[], rfl, hfits, rfl⟩
  have hencrypt : encryptWith config.ctx config.encryption (.ok []) config.clientKeys.secretKey config.walletPubkey
      (config.ctx.json.write (.object [("method", .string request.method), ("params", request.params)])) = .ok _ :=
    congrArg (Except.mapError NwcError.nip44) hseal
  obtain ⟨builder, hbuilder⟩ : ∃ builder, nwcRequest config.ctx (.ok []) config.clientKeys.secretKey
      config.walletPubkey request config.encryption = .ok builder := by
    rw [nwcRequest]
    simp only [hencrypt]
    exact ⟨_, rfl⟩
  obtain ⟨event, hevent, -⟩ := EventBuilder.signWithKeys_ok config.ctx.crypto 1700000000 [] config.clientKeys builder
  have hrequest : requestEvent config request (.ok []) [] (.ok 1700000000) = .ok event := by
    simp only [requestEvent, hbuilder, hevent]
    rfl
  refine ⟨event, ?_⟩
  rw [run, List.foldl_cons, List.foldl_nil, dispatch, step, Wallet.dispatch, hrequest]
  rfl

end Sample

/-- A call that is accepted, by either client. -/
theorem exits_iff_accepted :
    Always (fun past => (Signer.run Signer.Sample.config past).table.NoLeak) (Signer.Sample.call .ping) ∧
      Always (fun past => (run Sample.config past).table.NoLeak) [Sample.dispatch, .published 0 .accepted] := by
  obtain ⟨hsigner, hwallet⟩ :=
    exits_iff Signer.Sample.config (Signer.Sample.call .ping) Sample.config [Sample.dispatch, .published 0 .accepted]
  constructor
  · refine ((hsigner (List.nodup_singleton _)).mpr ?_).1
    intro k a hk
    rcases List.mem_cons.mp (List.mem_of_getElem? hk) with rfl | hmem
    · trivial
    · rw [List.mem_singleton.mp hmem]
      trivial
  · refine ((hwallet (Sample.nodup_ids .accepted)).mpr ?_).1
    intro k a hk
    rcases List.mem_cons.mp (List.mem_of_getElem? hk) with rfl | hmem
    · trivial
    · rw [List.mem_singleton.mp hmem]
      trivial

/-- A `ping` that times out stays in the table; so does a request to the wallet that the pool refuses. And a second
    `ping` that reaches no relay ends the first. -/
theorem calls_interfere :
    (¬Always (fun past => (Signer.run Signer.Sample.config past).table.NoLeak)
      (Signer.Sample.call .ping ++ [.timeout 0])) ∧
    (¬Always (fun past => (run Sample.config past).table.NoLeak) [Sample.dispatch, .published 0 (.error "shut down")]) ∧
    ¬EachStep (fun past a => Signer.Isolated (Signer.run Signer.Sample.config past)
        (Signer.run Signer.Sample.config (past ++ [a])) a)
      (Signer.Sample.call .ping ++ [.dispatch "2" .ping (.ok []) [] (.ok 1700000000)] ++
        [.published 1 (.totalFailure "one.example")]) := by
  have hfits : ∀ id, id = "1" ∨ id = "2" →
      Nip44.Fits ((Nip46.Message.ofRequest Signer.Sample.ctx.json id .ping).asJson Signer.Sample.ctx.json) := by
    rintro id (rfl | rfl) <;> decide +kernel
  obtain ⟨hpk, htable⟩ := Signer.Sample.run_call (hfits "1" (Or.inl rfl))
  refine ⟨?_, ?_, ?_⟩
  · intro h
    have hexpire : (Signer.run Signer.Sample.config (Signer.Sample.call .ping ++ [.timeout 0])).table =
        ⟨[⟨"1", .ping, .empty, .returned (.failure (.timeout .ping))⟩], [("1", 0)], none⟩ := by
      rw [Signer.run_append_singleton, Signer.step,
        Signer.expire_of_waiting (by rw [htable]; rfl) (by rfl) (by rfl), htable]
      rfl
    have hleak := h.last
    rw [hexpire] at hleak
    exact hleak 0 _ rfl rfl 0 List.mem_cons_self
  · intro h
    obtain ⟨event, hrun⟩ := Sample.run_dispatch
    have hleak := h.last
    rw [← List.singleton_append, run_append_singleton, hrun] at hleak
    exact hleak 0 _ rfl rfl 0 List.mem_cons_self
  · intro h
    obtain ⟨e, event, hdispatch⟩ : ∃ e event, Signer.dispatch Signer.Sample.config
        (Signer.run Signer.Sample.config (Signer.Sample.call .ping)) "2" .ping (.ok []) [] (.ok 1700000000) = _ :=
      Signer.dispatch_of_fits Signer.Sample.config [] hpk (hfits "2" (Or.inr rfl))
    have hstep := (eachStep_append_singleton.mp h).2 1 rfl
    rw [Signer.run_append_singleton, Signer.run_append_singleton, Signer.step, Signer.step, hdispatch, htable] at hstep
    cases (hstep 0 (by decide)).2 "1" (List.mem_cons_of_mem _ List.mem_cons_self)

end Nula.Wallet
