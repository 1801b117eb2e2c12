import Nula.Lib.Always
import Nula.Signer.Client

/-!
# `Signer.Exits` — how the calls of a client end

A call ends with its answer, with an error of the pool, with a publish that failed everywhere, or with time. Only the
third clears the table, and it clears all of it; the others leave what is there (`tidy_run`).
-/

namespace Nula.Signer

open Nip46

/-! ## Ids -/

/-- The ids of the calls of a run. -/
def ids (actions : List Action) : List String :=
  actions.filterMap (fun
    | .dispatch id _ _ _ _ => some id
    | _ => none)

theorem ids_append_singleton (actions : List Action) (a : Action) : ids (actions ++ [a]) = ids actions ++ ids [a] :=
  List.filterMap_append

section

variable (cfg : Config)

/-- The calls are those of the run, in order. One case for each action; only a dispatch adds a call, and the others
    change calls in place. -/
theorem keys_step (s : State) (a : Action) :
    (step cfg s a).table.calls.map (·.key) = s.table.calls.map (·.key) ++ ids [a] := by
  cases a with
  | dispatch id request entropy aux clock =>
      rcases dispatch_cases cfg s id request entropy aux clock with ⟨e, heq⟩ | ⟨-, e, event, heq⟩
      · rw [step, heq]
        exact InFlight.refuse_keys request
      · rw [step, heq]
        exact InFlight.enter_keys request
  | published n outcome =>
      refine Eq.trans ?_ (List.append_nil _).symm
      rcases published_cases s n outcome with heq | ⟨c, -, -, ⟨text, -, heq⟩ | ⟨failed, reply, -, -, heq⟩ | ⟨-, heq⟩⟩
      · rw [step, heq]
      · rw [step, heq]
        exact InFlight.finish_keys
      · rw [step, heq]
        exact InFlight.finish_keys.trans InFlight.drain_keys
      · rw [step, heq]
        exact InFlight.await_keys
  | receive n =>
      refine Eq.trans ?_ (List.append_nil _).symm
      exact InFlight.receive_keys
  | timeout n =>
      refine Eq.trans ?_ (List.append_nil _).symm
      rcases expire_cases s n with heq | ⟨c, -, -, -, heq⟩
      · rw [step, heq]
      · rw [step, heq]
        exact InFlight.finish_keys
  | event e =>
      refine Eq.trans ?_ (List.append_nil _).symm
      rw [step]
      rcases handleEvent_cases cfg s e with ⟨-, -, heq⟩ | ⟨heard, -, -, heq⟩ |
        ⟨heard, n, call, -, -, -, -, -, htook⟩
      · rw [heq]
      · rw [heq]
        rfl
      · generalize handleEvent cfg s e = next at htook
        cases htook with
        | answer value _ => exact InFlight.send_keys
        | park _ _ => rfl
  | authUrlHandled outcome =>
      refine Eq.trans ?_ (List.append_nil _).symm
      cases outcome with
      | ok u => exact InFlight.unpark_keys
      | error text => exact InFlight.failParked_keys

theorem keys_run (actions : List Action) : (run cfg actions).table.calls.map (·.key) = ids actions := by
  induction actions using List.reverseRecOn with
  | nil => rfl
  | append_singleton actions a ih => rw [run_append_singleton, keys_step, ih, ids_append_singleton]

/-- A call of a run whose ids are distinct has a new one. -/
theorem fresh_of_nodup {past : List Action} {id : String} {request : Request} {entropy : Entropy} {aux : Bytes}
    {clock : Clock} (h : (ids (past ++ [.dispatch id request entropy aux clock])).Nodup) :
    (run cfg past).table.Fresh id := by
  rw [InFlight.Fresh, keys_run]
  rw [ids_append_singleton] at h
  exact fun hmem => List.disjoint_of_nodup_append h hmem List.mem_cons_self

/-! ## Exits -/

/-- The step ends this call by a failure. -/
def Fails (n : Nat) : Action → Prop
  | .published m (.error _) | .published m (.totalFailure _) | .timeout m => m = n
  | _ => False

/-- An exit finds the table as it should leave it: it clears nothing, so its own entry must be gone, or everything,
    so there must be no other; and a sender is put back for a call that is still there. -/
def Tidy (s : State) : Action → Prop
  | .published n (.error _) => ∀ c, s.table.calls[n]? = some c → c.phase = .sending → s.table.Gone c.key
  | .published n (.totalFailure _) =>
      ∀ c, s.table.calls[n]? = some c → c.phase = .sending → ∀ e ∈ s.table.pending, e.2 = n
  | .timeout n => ∀ c, s.table.calls[n]? = some c → c.phase = .waiting → c.channel = .empty → s.table.Gone c.key
  | .authUrlHandled (.ok ()) => ∀ id n c, s.table.parked = some (id, n) → s.table.calls[n]? = some c →
      c.phase.isReturned = false
  | _ => True

/-- The failures of a step leave the other calls alone. -/
def Isolated (s s' : State) (a : Action) : Prop := ∀ n, Fails n a → InFlight.Apart n s.table s'.table

/-- **One action keeps the table sound**, if its id is new: an entry waits for the call that made it. One case for
    each action, each with the lemma of the table on the move it makes. -/
theorem sound_step {past : List Action} (a : Action) (hids : (ids (past ++ [a])).Nodup)
    (h : (run cfg past).table.Sound) : (run cfg (past ++ [a])).table.Sound := by
  rw [run_append_singleton]
  cases a with
  | dispatch id request entropy aux clock =>
      have hfresh := fresh_of_nodup cfg hids
      rcases dispatch_cases cfg (run cfg past) id request entropy aux clock with ⟨e, heq⟩ | ⟨-, e, event, heq⟩
      · rw [step, heq]
        exact h.refuse hfresh request
      · rw [step, heq]
        exact h.enter hfresh request
  | published n outcome =>
      rcases published_cases (run cfg past) n outcome with heq | ⟨c, -, -, ⟨text, -, heq⟩ |
        ⟨failed, reply, -, -, heq⟩ | ⟨-, heq⟩⟩
      · rwa [step, heq]
      · rw [step, heq]
        exact h.finish
      · rw [step, heq]
        exact h.drain.finish
      · rw [step, heq]
        exact h.await
  | receive n => exact h.receive
  | timeout n =>
      rcases expire_cases (run cfg past) n with heq | ⟨c, -, -, -, heq⟩
      · rwa [step, heq]
      · rw [step, heq]
        exact h.finish
  | event e =>
      rw [step]
      rcases handleEvent_cases cfg (run cfg past) e with ⟨-, -, heq⟩ | ⟨heard, -, -, heq⟩ |
        ⟨heard, n, call, -, -, -, hmem, -, htook⟩
      · rwa [heq]
      · rw [heq]
        exact h
      · generalize handleEvent cfg (run cfg past) e = next at htook
        cases htook with
        | answer value _ => exact h.answer hmem
        | park _ _ => exact h.park hmem
  | authUrlHandled outcome =>
      cases outcome with
      | ok u =>
          rw [step, authUrlHandled]
          cases hparked : (run cfg past).table.parked with
          | none =>
              have hsame : (run cfg past).table.unpark = (run cfg past).table := by
                simp only [InFlight.unpark, hparked]
              rwa [hsame]
          | some e => exact h.unpark hparked
      | error text => exact h.failParked

/-- The table is sound in every run whose ids differ. -/
theorem sound_run (actions : List Action) (hids : (ids actions).Nodup) : (run cfg actions).table.Sound := by
  induction actions using List.reverseRecOn with
  | nil => exact InFlight.sound_empty
  | append_singleton actions a ih =>
      refine sound_step cfg a hids (ih ?_)
      rw [ids_append_singleton] at hids
      exact hids.of_append_left

/-- A step that is no failure isolates. -/
theorem isolated_of_not_fails {s s' : State} {a : Action} (h : ∀ n, ¬Fails n a) : Isolated s s' a :=
  fun n hn => absurd hn (h n)

/-- A step without effect isolates. -/
theorem isolated_self {s : State} {a : Action} : Isolated s s a := fun _ _ _ _ => ⟨rfl, fun _ hk => hk⟩

/-- A publish that returns for a call that does not send does nothing. -/
theorem published_of_not_sending {s : State} {n : Nat} (outcome : SendOutcome)
    (h : ∀ c, s.table.calls[n]? = some c → c.phase ≠ .sending) : published s n outcome = s := by
  rcases published_cases s n outcome with heq | ⟨c, hc, hphase, -⟩
  · exact heq
  · exact absurd hphase (h c hc)

/-- **The end of a publish** clears nothing, or everything; so it leaves the table tidy exactly if its own entry is
    gone already, or is the only one. -/
theorem tidy_published {s : State} (h : s.table.NoLeak) (n : Nat) (outcome : SendOutcome) :
    ((published s n outcome).table.NoLeak ∧ Isolated s (published s n outcome) (.published n outcome)) ↔
      Tidy s (.published n outcome) := by
  by_cases hsending : ∃ c, s.table.calls[n]? = some c ∧ c.phase = .sending
  · obtain ⟨c, hc, hphase⟩ := hsending
    have honly : ∀ P : Call String Request Reply → Prop,
        (∀ c', s.table.calls[n]? = some c' → c'.phase = .sending → P c') ↔ P c := by
      intro P
      rw [hc]
      constructor
      · intro hP
        exact hP c rfl hphase
      · rintro hP c' heq -
        cases heq
        exact hP
    rw [published_of_sending hc hphase]
    cases outcome with
    | error text =>
        rw [Tidy, honly]
        have hapart : Isolated s { s with table := s.table.finish n (.failure (.pool text)) }
            (.published n (.error text)) := by
          rintro m rfl
          exact InFlight.apart_finish
        rw [and_iff_left hapart]
        exact InFlight.noLeak_finish_iff h hc
    | totalFailure failed =>
        rw [Tidy, honly]
        refine (and_iff_right ?_).trans ?_
        · intro m c' _ _ k hk
          cases hk
        · constructor
          · intro hisolated
            exact InFlight.apart_drain_iff.mp (hisolated n rfl)
          · rintro hnobody m rfl
            exact InFlight.apart_drain_iff.mpr hnobody
    | accepted => exact iff_of_true ⟨h.await, isolated_of_not_fails (fun _ hf => hf)⟩ trivial
  · have hnot : ∀ c, s.table.calls[n]? = some c → c.phase ≠ .sending := fun c hc hphase => hsending ⟨c, hc, hphase⟩
    rw [published_of_not_sending outcome hnot]
    refine iff_of_true ⟨h, isolated_self⟩ ?_
    cases outcome with
    | error text => exact fun c hc hphase => absurd hphase (hnot c hc)
    | totalFailure failed => exact fun c hc hphase => absurd hphase (hnot c hc)
    | accepted => trivial

/-- A timeout clears nothing, so its own entry must be gone. -/
theorem tidy_expire {s : State} (h : s.table.NoLeak) (n : Nat) :
    ((expire s n).table.NoLeak ∧ Isolated s (expire s n) (.timeout n)) ↔ Tidy s (.timeout n) := by
  by_cases hwaiting : ∃ c, s.table.calls[n]? = some c ∧ c.phase = .waiting ∧ c.channel = .empty
  · obtain ⟨c, hc, hphase, hchannel⟩ := hwaiting
    rw [expire_of_waiting hc hphase hchannel]
    have hapart : Isolated s { s with table := s.table.finish n (.failure (.timeout c.request.method)) }
        (.timeout n) := by
      rintro m rfl
      exact InFlight.apart_finish
    rw [and_iff_left hapart, Tidy, hc]
    refine (InFlight.noLeak_finish_iff h hc).trans ?_
    constructor
    · rintro hgone c' heq - -
      cases heq
      exact hgone
    · intro hgone
      exact hgone c rfl hphase hchannel
  · rcases expire_cases s n with heq | ⟨c, hc, hphase, hchannel, -⟩
    · rw [heq]
      refine iff_of_true ⟨h, isolated_self⟩ ?_
      intro c hc hphase hchannel
      exact absurd ⟨c, hc, hphase, hchannel⟩ hwaiting
    · exact absurd ⟨c, hc, hphase, hchannel⟩ hwaiting

/-- A response that is heard takes out the entry it is for. -/
theorem noLeak_handleEvent {s : State} (h : s.table.NoLeak) (e : Event) : (handleEvent cfg s e).table.NoLeak := by
  rcases handleEvent_cases cfg s e with ⟨-, -, heq⟩ | ⟨heard, -, -, heq⟩ | ⟨heard, n, call, -, -, -, -, -, htook⟩
  · rwa [heq]
  · rw [heq]
    exact h
  · generalize handleEvent cfg s e = next at htook
    cases htook with
    | answer value _ => exact InFlight.NoLeak.answer h
    | park _ _ => exact InFlight.NoLeak.park h

/-- A visited url puts a sender back, whose call must still be there. -/
theorem tidy_authUrlHandled {s : State} (hs : s.table.Sound) (h : s.table.NoLeak) (outcome : Except String Unit) :
    ((authUrlHandled s outcome).table.NoLeak ∧ Isolated s (authUrlHandled s outcome) (.authUrlHandled outcome)) ↔
      Tidy s (.authUrlHandled outcome) := by
  have hisolated : Isolated s (authUrlHandled s outcome) (.authUrlHandled outcome) :=
    isolated_of_not_fails (fun _ hf => hf)
  rw [and_iff_left hisolated]
  cases outcome with
  | error text => exact iff_of_true h.failParked trivial
  | ok u =>
      rw [authUrlHandled, Tidy]
      cases hparked : s.table.parked with
      | none =>
          have hsame : s.table.unpark = s.table := by simp only [InFlight.unpark, hparked]
          refine iff_of_true (hsame.symm ▸ h) ?_
          intro id n c hid
          cases hid
      | some e =>
          obtain ⟨id, n⟩ := e
          obtain ⟨⟨c, hc, -⟩, -⟩ := hs.parked id n hparked
          refine (InFlight.noLeak_unpark_iff h hs hparked hc).trans ?_
          constructor
          · intro hrunning id' n' c' heq hc'
            cases heq
            rw [hc] at hc'
            cases hc'
            exact hrunning
          · intro hrunning
            exact hrunning id n c rfl hc

/-- From a table without leaks a step leaves none, and no other call notices its failure, exactly when it is
    tidy. -/
theorem tidy_step {past : List Action} (a : Action) (hids : (ids (past ++ [a])).Nodup)
    (hs : (run cfg past).table.Sound) (h : (run cfg past).table.NoLeak) :
    ((run cfg (past ++ [a])).table.NoLeak ∧ Isolated (run cfg past) (run cfg (past ++ [a])) a) ↔
      Tidy (run cfg past) a := by
  rw [run_append_singleton]
  cases a with
  | dispatch id request entropy aux clock =>
      have hfresh := fresh_of_nodup cfg hids
      refine iff_of_true ⟨?_, isolated_of_not_fails (fun _ hf => hf)⟩ trivial
      rcases dispatch_cases cfg (run cfg past) id request entropy aux clock with ⟨e, heq⟩ | ⟨-, e, event, heq⟩
      · rw [step, heq]
        exact h.refuse hs hfresh request
      · rw [step, heq]
        exact h.enter hs hfresh request
  | published n outcome => exact tidy_published h n outcome
  | receive n => exact iff_of_true ⟨h.receive hs, isolated_of_not_fails (fun _ hf => hf)⟩ trivial
  | timeout n => exact tidy_expire h n
  | event e => exact iff_of_true ⟨noLeak_handleEvent cfg h e, isolated_of_not_fails (fun _ hf => hf)⟩ trivial
  | authUrlHandled outcome => exact tidy_authUrlHandled hs h outcome

/-- Along a run with distinct ids nothing leaks and no failure is noticed by others, exactly when all steps are
    tidy. -/
theorem tidy_run {actions : List Action} (hids : (ids actions).Nodup) :
    (Always (fun past => (run cfg past).table.NoLeak) actions ∧
        EachStep (fun past a => Isolated (run cfg past) (run cfg (past ++ [a])) a) actions) ↔
      EachStep (fun past a => Tidy (run cfg past) a) actions := by
  refine always_and_eachStep_iff (D := fun l => (ids l).Nodup) ?_ (sound_run cfg) InFlight.noLeak_empty ?_ hids
  · intro past a hids
    rw [ids_append_singleton] at hids
    exact hids.of_append_left
  · intro past a hids hs h
    exact tidy_step cfg a hids hs h

end

end Nula.Signer
