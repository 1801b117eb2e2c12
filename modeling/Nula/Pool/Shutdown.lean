import Nula.Lib.Always
import Nula.Pool.Registry

/-!
# `Pool.Shutdown` — when a shutdown is final

`add_relay` reads the shutdown flag before it takes the write lock, and `shutdown` sets the flag before it takes
the lock itself. A call that found the pool open and gets the lock after the map has been drained inserts into a
pool that is shut down. From the first drain on the map stays empty exactly as long as no call is `Late`
(`emptied_iff`), and then a shutdown is final (`shutdown_final`).
-/

namespace Nula.Pool

open Std

/-- A `shutdown` is past its flag. -/
def Outcome.closing : Outcome → Bool
  | .await .drain => true
  | .await (.drained _ _) => true
  | .done .shutdown => true
  | _ => false

/-- A `shutdown` has drained the map. -/
def Outcome.drained : Outcome → Bool
  | .await (.drained _ _) => true
  | .done .shutdown => true
  | _ => false

namespace Tasks

/-- How far the calls have got. -/
def outcomes (s : Tasks) : List Outcome := s.waiting.map .await ++ s.returned.map .done

/-- Some `shutdown` has drained the map. -/
def Drained (s : Tasks) : Prop := ∃ o ∈ s.outcomes, o.drained = true

/-- The map is empty from the first drain on. -/
def Emptied (s : Tasks) : Prop := s.Drained → s.pool.relays = ∅

/-- The flag is set while a `shutdown` is past it. -/
def Marked (s : Tasks) : Prop := ∀ o ∈ s.outcomes, o.closing = true → s.pool.shutdown = true

/-- An `add_relay` that found the pool open gets the lock. -/
def inserts (s : Tasks) : Turn → Bool
  | .call _ => false
  | .resume k _ =>
      match s.waiting[k]? with
      | some (.insert _ _ _) => true
      | _ => false

/-- An `add_relay` that found the pool open gets the lock after the drain. -/
def Late (s : Tasks) (turn : Turn) : Prop := s.Drained ∧ s.inserts turn = true

instance {s : Tasks} : Decidable s.Drained := inferInstanceAs (Decidable (∃ o ∈ s.outcomes, o.drained = true))
instance {s : Tasks} {turn : Turn} : Decidable (s.Late turn) :=
  inferInstanceAs (Decidable (s.Drained ∧ s.inserts turn = true))

end Tasks

/-- Once a `shutdown` has returned the map is empty, and every `add_relay` that returns after it fails with
    `Shutdown`. -/
structure ShutdownFinal (s : Tasks) : Prop where
  empty : .shutdown ∈ s.returned → s.pool.relays = ∅
  refused : s.returned.Pairwise (fun value value' => value = .shutdown →
    ∀ result, value' = .addRelay result → result = .error .shutdown)

/-! ## What a step does -/

namespace RelayPool

variable {p : RelayPool} {rank : RelayUrl → Nat}

/-- Shutting down takes no relay away by itself. -/
theorem markShutdown_relays : p.markShutdown.relays = p.relays := by
  unfold markShutdown
  split
  · rfl
  · rfl

theorem markShutdown_shutdown : p.markShutdown.shutdown = true := by
  unfold markShutdown
  split
  · assumption
  · rfl

theorem disconnectNext_fst (urls : List RelayUrl) : (p.disconnectNext urls).1 = p := by
  cases urls with
  | nil => rfl
  | cons url urls => rfl

theorem disconnectNext_drained (urls : List RelayUrl) : (p.disconnectNext urls).2.drained = true := by
  cases urls with
  | nil => rfl
  | cons url urls => rfl

/-- The first step of a call. -/
theorem call_cases (p : RelayPool) (c : Call) :
    (p.shutdown = true ∧ p.call c = (p, .done (.addRelay (.error .shutdown)))) ∨
    (p.shutdown = false ∧ ∃ url capabilities options, p.call c = (p, .await (.insert url capabilities options))) ∨
    (∃ url, p.call c = (p, .await (.remove url))) ∨
    p.call c = (p.markShutdown, .await .drain) := by
  have hadd : ∀ url capabilities options,
      (p.shutdown = true ∧ p.addRelayWithOptions url capabilities options =
        (p, .done (.addRelay (.error .shutdown)))) ∨
      (p.shutdown = false ∧ p.addRelayWithOptions url capabilities options =
        (p, .await (.insert url capabilities options))) := by
    intro url capabilities options
    unfold addRelayWithOptions
    split
    · rename_i hflag
      exact Or.inl ⟨hflag, rfl⟩
    · rename_i hflag
      exact Or.inr ⟨Bool.eq_false_iff.mpr hflag, rfl⟩
  cases c with
  | addRelay url capabilities =>
      exact (hadd url capabilities p.options.relayOptions).imp id (fun h => Or.inl ⟨h.1, _, _, _, h.2⟩)
  | addRelayWithOptions url capabilities options =>
      exact (hadd url capabilities options).imp id (fun h => Or.inl ⟨h.1, _, _, _, h.2⟩)
  | removeRelay url => exact Or.inr (Or.inr (Or.inl ⟨url, rfl⟩))
  | shutdown => exact Or.inr (Or.inr (Or.inr rfl))

/-- The first step of a call leaves the map alone. -/
theorem call_relays (c : Call) : (p.call c).1.relays = p.relays ∧ (p.call c).2.drained = false := by
  rcases p.call_cases c with ⟨_, h⟩ | ⟨_, _, _, _, h⟩ | ⟨_, h⟩ | h
  · rw [h]
    exact ⟨rfl, rfl⟩
  · rw [h]
    exact ⟨rfl, rfl⟩
  · rw [h]
    exact ⟨rfl, rfl⟩
  · rw [h]
    exact ⟨markShutdown_relays, rfl⟩

/-- The flag is set once and for all, and before a `shutdown` is under way. -/
theorem call_shutdown (c : Call) : (p.shutdown = true → (p.call c).1.shutdown = true) ∧
    ((p.call c).2.closing = true → (p.call c).1.shutdown = true) := by
  rcases p.call_cases c with ⟨hflag, h⟩ | ⟨_, _, _, _, h⟩ | ⟨_, h⟩ | h
  · rw [h]
    exact ⟨id, fun _ => hflag⟩
  · rw [h]
    exact ⟨id, fun hclosing => Bool.noConfusion hclosing⟩
  · rw [h]
    exact ⟨id, fun hclosing => Bool.noConfusion hclosing⟩
  · rw [h]
    exact ⟨fun _ => markShutdown_shutdown, fun _ => markShutdown_shutdown⟩

/-- `add_relay` fails at once with `Shutdown` or not at all. -/
theorem call_refused {c : Call} {result : Except PoolError Bool} (hdone : (p.call c).2 = .done (.addRelay result)) :
    result = .error .shutdown := by
  rcases p.call_cases c with ⟨_, h⟩ | ⟨_, _, _, _, h⟩ | ⟨_, h⟩ | h
  · rw [h] at hdone
    cases hdone
    rfl
  · rw [h] at hdone
    cases hdone
  · rw [h] at hdone
    cases hdone
  · rw [h] at hdone
    cases hdone

theorem insertRelay_shutdown (url : RelayUrl) (capabilities : RelayCapabilities) (options : Relay.RelayOptions) :
    (p.insertRelay url capabilities options).1.shutdown = p.shutdown := by
  unfold insertRelay
  split
  · rfl
  · split
    · rfl
    · rfl

theorem resume_shutdown (point : Await) : (p.resume rank point).1.shutdown = p.shutdown := by
  cases point with
  | insert url capabilities options => exact insertRelay_shutdown url capabilities options
  | remove url =>
      rw [resume]
      split
      · rfl
      · rfl
  | removed url => rfl
  | drain =>
      rw [resume, disconnectNext_fst]
  | drained url more =>
      rw [resume, disconnectNext_fst]
      rfl

/-- A step behind an await point is that of a `shutdown` where the await point was. -/
theorem resume_closing {point : Await} (h : (p.resume rank point).2.closing = true) :
    (Outcome.await point).closing = true := by
  cases point with
  | insert url capabilities options => cases h
  | remove url =>
      rw [resume] at h
      split at h
      · cases h
      · cases h
  | removed url => cases h
  | drain => rfl
  | drained url more => rfl

/-- Behind any await point but that of an insertion, a map that was empty from the first drain on still is. -/
theorem resume_emptied {point : Await} (hpoint : ∀ url capabilities options, point ≠ .insert url capabilities options)
    (h : (Outcome.await point).drained = true ∨ (p.resume rank point).2.drained = false → p.relays = ∅) :
    (p.resume rank point).1.relays = ∅ := by
  cases point with
  | insert url capabilities options => exact absurd rfl (hpoint url capabilities options)
  | remove url =>
      rw [resume] at h ⊢
      split
      · rename_i hmem
        rw [if_pos hmem] at h
        have hempty := h (.inr rfl)
        rw [hempty] at hmem
        exact absurd hmem ExtTreeMap.not_mem_empty
      · rename_i hmem
        rw [if_neg hmem] at h
        exact h (.inr rfl)
  | removed url => exact h (.inr rfl)
  | drain => rw [resume, disconnectNext_fst]
  | drained url more =>
      have hempty := h (.inl rfl)
      rw [resume, disconnectNext_fst]
      exact hempty

/-- Only an insertion gives an `add_relay` its value. -/
theorem resume_addRelay {point : Await} {result : Except PoolError Bool}
    (h : (p.resume rank point).2 = .done (.addRelay result)) :
    ∃ url capabilities options, point = .insert url capabilities options := by
  cases point with
  | insert url capabilities options => exact ⟨url, capabilities, options, rfl⟩
  | remove url =>
      rw [resume] at h
      split at h
      · cases h
      · cases h
  | removed url => cases h
  | drain =>
      have hdrained := ({ p with relays := ∅ } : RelayPool).disconnectNext_drained ((p.relays.iter rank).map Prod.fst)
      rw [show (disconnectNext _ _).2 = _ from h] at hdrained
      cases hdrained
  | drained url more =>
      have hdrained := (p.notify (.relayRemoved url)).disconnectNext_drained more
      rw [show (disconnectNext _ _).2 = _ from h] at hdrained
      cases hdrained

/-- An empty pool takes the relay, whatever its cap. -/
theorem insertRelay_empty (h : p.relays = ∅) (url : RelayUrl) (capabilities : RelayCapabilities)
    (options : Relay.RelayOptions) : (p.insertRelay url capabilities options).1.relays ≠ ∅ := by
  have hroom : p.full = none := by
    unfold full
    split
    · rename_i max _
      rw [h, ExtTreeMap.size_empty, if_neg (Nat.not_le.mpr max.pos)]
    · rfl
  rw [insertRelay, h, ExtTreeMap.getElem?_empty, hroom]
  intro hinsert
  have hmem : url ∈ (∅ : HashMap RelayUrl RelayEntry).insert url ⟨options, capabilities⟩ :=
    ExtTreeMap.mem_insert_self
  have hnone : ((∅ : HashMap RelayUrl RelayEntry).insert url ⟨options, capabilities⟩) = ∅ := hinsert
  rw [hnone] at hmem
  exact ExtTreeMap.not_mem_empty hmem

end RelayPool

namespace Tasks

variable {s : Tasks} {turn : Turn}

/-- What is known after the end of a step: the new outcome, and those of before. -/
theorem mem_outcomes_settle {waiting : List Await} {pool : RelayPool} {outcome o : Outcome} :
    o ∈ (s.settle waiting (pool, outcome)).outcomes ↔
      o = outcome ∨ o ∈ waiting.map .await ∨ o ∈ s.returned.map .done := by
  cases outcome with
  | await point =>
      show o ∈ (waiting ++ [point]).map .await ++ s.returned.map .done ↔ _
      rw [List.map_append, List.mem_append, List.mem_append, List.map_singleton, List.mem_singleton]
      tauto
  | done value =>
      show o ∈ waiting.map .await ++ (s.returned ++ [value]).map .done ↔ _
      rw [List.map_append, List.mem_append, List.mem_append, List.map_singleton, List.mem_singleton]
      tauto

/-- A turn inserts exactly if the call that goes on waits for the lock of an insert. -/
theorem inserts_iff {k : Nat} {rank : RelayUrl → Nat} : s.inserts (.resume k rank) = true ↔
    ∃ url capabilities options, s.waiting[k]? = some (.insert url capabilities options) := by
  unfold inserts
  dsimp only
  split
  · rename_i url capabilities options hinsert
    exact iff_of_true rfl ⟨url, capabilities, options, hinsert⟩
  · rename_i hother
    refine iff_of_false Bool.false_ne_true ?_
    rintro ⟨url, capabilities, options, hinsert⟩
    exact hother url capabilities options hinsert

/-- Whatever a call returns, the pool is what it made of it. -/
theorem settle_pool {waiting : List Await} {r : RelayPool × Outcome} : (s.settle waiting r).pool = r.1 := by
  obtain ⟨pool, outcome⟩ := r
  cases outcome with
  | await point => rfl
  | done value => rfl

/-- The outcome a call had before its step is among those of before. -/
theorem mem_outcomes_await {k : Nat} {point : Await} (h : s.waiting[k]? = some point) : .await point ∈ s.outcomes :=
  List.mem_append_left _ (List.mem_map_of_mem (List.mem_of_getElem? h))

/-- What is left of the outcomes when a call moves on. -/
theorem mem_outcomes_of_erase {k : Nat} {o : Outcome}
    (h : o ∈ (s.waiting.eraseIdx k).map .await ∨ o ∈ s.returned.map .done) : o ∈ s.outcomes := by
  rcases h with hwaiting | hreturned
  · exact List.mem_append_left _ (List.map_subset _ List.eraseIdx_subset hwaiting)
  · exact List.mem_append_right _ hreturned

/-- When `shutdown` has returned, the map was empty. -/
theorem drained_of_returned (h : .shutdown ∈ s.returned) : s.Drained :=
  ⟨.done .shutdown, List.mem_append_right _ (List.mem_map_of_mem h), rfl⟩

/-- One step keeps the flag set while a `shutdown` is past it. -/
theorem Marked.step (h : s.Marked) (turn : Turn) : (s.step turn).Marked := by
  cases turn with
  | call c =>
      obtain ⟨hkept, hset⟩ := s.pool.call_shutdown c
      intro o ho hclosing
      rw [Tasks.step, settle_pool]
      rcases mem_outcomes_settle.mp ho with rfl | hold
      · exact hset hclosing
      · exact hkept (h o (List.mem_append.mpr hold) hclosing)
  | resume k rank =>
      rw [Tasks.step]
      split
      · rename_i point hpoint
        intro o ho hclosing
        rw [settle_pool, RelayPool.resume_shutdown]
        rcases mem_outcomes_settle.mp ho with rfl | hold
        · exact h _ (mem_outcomes_await hpoint) (RelayPool.resume_closing hclosing)
        · exact h o (mem_outcomes_of_erase hold) hclosing
      · exact h

/-- The outcomes of before are left when another call moves on. -/
theorem mem_erase_of_outcomes {k : Nat} {point : Await} {o : Outcome} (ho : o ∈ s.outcomes)
    (hpoint : s.waiting[k]? = some point) (hne : o ≠ .await point) :
    o ∈ (s.waiting.eraseIdx k).map .await ∨ o ∈ s.returned.map .done := by
  rcases List.mem_append.mp ho with hwaiting | hreturned
  · obtain ⟨other, hother, rfl⟩ := List.mem_map.mp hwaiting
    refine Or.inl (List.mem_map_of_mem ?_)
    rw [List.mem_eraseIdx_iff_getElem?]
    obtain ⟨j, hj⟩ := List.getElem?_of_mem hother
    refine ⟨j, ?_, hj⟩
    rintro rfl
    exact hne (congrArg Outcome.await (Option.some.inj (hj.symm.trans hpoint)))
  · exact Or.inr hreturned

/-- The first step of a call leaves a drained map empty. -/
theorem Emptied.call (h : s.Emptied) (c : Call) : (s.step (.call c)).Emptied := by
  obtain ⟨hrelays, hfresh⟩ := s.pool.call_relays c
  rintro ⟨o, ho, hdrained⟩
  rw [Tasks.step, settle_pool, hrelays]
  rcases mem_outcomes_settle.mp ho with rfl | hold
  · exact Bool.noConfusion (hfresh.symm.trans hdrained)
  · exact h ⟨o, List.mem_append.mpr hold, hdrained⟩

/-- A late insertion finds room in the drained map. -/
theorem not_emptied_of_late {k : Nat} {rank : RelayUrl → Nat} (h : s.Emptied) (hlate : s.Late (.resume k rank)) :
    ¬(s.step (.resume k rank)).Emptied := by
  obtain ⟨⟨o, ho, hdrained⟩, hinserts⟩ := hlate
  obtain ⟨url, capabilities, options, hpoint⟩ := inserts_iff.mp hinserts
  intro hemptied
  rw [Tasks.step, hpoint] at hemptied
  have hfull : (s.pool.insertRelay url capabilities options).1.relays ≠ ∅ :=
    RelayPool.insertRelay_empty (h ⟨o, ho, hdrained⟩) url capabilities options
  apply hfull
  have hleft := mem_erase_of_outcomes ho hpoint (by
    rintro rfl
    cases hdrained)
  have hempty := hemptied ⟨o, mem_outcomes_settle.mpr (Or.inr hleft), hdrained⟩
  rw [settle_pool] at hempty
  exact hempty

/-- Any other step behind an await point leaves a drained map empty. -/
theorem Emptied.resume {k : Nat} {rank : RelayUrl → Nat} (h : s.Emptied) (hnot : ¬s.Late (.resume k rank)) :
    (s.step (.resume k rank)).Emptied := by
  rw [Tasks.step]
  split
  · rename_i point hpoint
    rintro ⟨o, ho, hdrained⟩
    rw [settle_pool]
    have hbefore : (Outcome.await point).drained = true ∨ (s.pool.resume rank point).2.drained = false →
        s.Drained := by
      rintro (hold | hnew)
      · exact ⟨_, mem_outcomes_await hpoint, hold⟩
      · rcases mem_outcomes_settle.mp ho with rfl | hold
        · exact Bool.noConfusion (hnew.symm.trans hdrained)
        · exact ⟨o, mem_outcomes_of_erase hold, hdrained⟩
    apply RelayPool.resume_emptied
    · rintro url capabilities options rfl
      exact hnot ⟨hbefore (.inr rfl), inserts_iff.mpr ⟨url, capabilities, options, hpoint⟩⟩
    · exact fun hcase => h (hbefore hcase)
  · exact h

/-- **One step keeps the drained map empty exactly when it is not late.** -/
theorem emptied_step_iff (h : s.Emptied) : (s.step turn).Emptied ↔ ¬s.Late turn := by
  cases turn with
  | call c =>
      refine iff_of_true (h.call c) ?_
      rintro ⟨_, hinserts⟩
      cases hinserts
  | resume k rank => exact ⟨fun hemptied hlate => not_emptied_of_late h hlate hemptied, h.resume⟩

/-- Every `add_relay` that returned after a `shutdown` failed with `Shutdown`. -/
def Refused (s : Tasks) : Prop := s.returned.Pairwise (fun value value' => value = .shutdown →
  ∀ result, value' = .addRelay result → result = .error .shutdown)

/-- What was refused stays refused, if a call that returns now is refused as well. -/
theorem Refused.settle {waiting : List Await} {pool : RelayPool} {outcome : Outcome} (h : s.Refused)
    (hnew : ∀ result, outcome = .done (.addRelay result) → .shutdown ∈ s.returned → result = .error .shutdown) :
    (s.settle waiting (pool, outcome)).Refused := by
  cases outcome with
  | await point => exact h
  | done value =>
      show (s.returned ++ [value]).Pairwise _
      rw [List.pairwise_append]
      refine ⟨h, List.pairwise_singleton _ _, ?_⟩
      intro old hold value' hvalue hshutdown result hresult
      rw [List.mem_singleton.mp hvalue] at hresult
      exact hnew result (congrArg Outcome.done hresult) (hshutdown ▸ hold)

/-- A step that is not late lets no `add_relay` through after a `shutdown`. -/
theorem Refused.step (h : s.Refused) (hnot : ¬s.Late turn) : (s.step turn).Refused := by
  cases turn with
  | call c =>
      apply h.settle
      exact fun result hdone _ => RelayPool.call_refused hdone
  | resume k rank =>
      rw [Tasks.step]
      split
      · rename_i point hpoint
        apply h.settle
        intro result hdone hreturned
        obtain ⟨url, capabilities, options, rfl⟩ := RelayPool.resume_addRelay hdone
        exact absurd ⟨drained_of_returned hreturned, inserts_iff.mpr ⟨url, capabilities, options, hpoint⟩⟩ hnot
      · exact h

theorem run_append_singleton (options : RelayPoolOptions) (past : List Turn) :
    run options (past ++ [turn]) = (run options past).step turn := by
  rw [run, run, List.foldl_append]
  rfl

/-- The flag is set while a `shutdown` is past it, in every run. -/
theorem run_marked (options : RelayPoolOptions) (past : List Turn) : (run options past).Marked := by
  have hall : Always (fun past => (run options past).Marked) past := by
    apply Always.invariant
    · exact fun o ho => absurd ho List.not_mem_nil
    · intro past turn h
      rw [run_append_singleton]
      exact h.step turn
  exact hall.last

/-- Only calls from before the flag can be late: once a `shutdown` is past it no new call waits to insert. -/
theorem run_refuses (options : RelayPoolOptions) (past : List Turn) {o : Outcome}
    (ho : o ∈ (run options past).outcomes) (hclosing : o.closing = true) (c : Call) (url : RelayUrl)
    (capabilities : RelayCapabilities) (relayOptions : Relay.RelayOptions) :
    ((run options past).pool.call c).2 ≠ .await (.insert url capabilities relayOptions) := by
  have hflag := run_marked options past o ho hclosing
  intro hwait
  rcases (run options past).pool.call_cases c with ⟨_, h⟩ | ⟨hopen, _⟩ | ⟨_, h⟩ | h
  · rw [h] at hwait
    cases hwait
  · exact Bool.noConfusion (hflag.symm.trans hopen)
  · rw [h] at hwait
    cases hwait
  · rw [h] at hwait
    cases hwait

/-- **From the first drain on the map stays empty exactly as long as no step is late.** -/
theorem emptied_iff (options : RelayPoolOptions) (turns : List Turn) :
    Always (fun past => (run options past).Emptied) turns ↔
      EachStep (fun past turn => ¬(run options past).Late turn) turns := by
  refine always_iff_eachStep (I := fun _ => True) (fun _ => trivial) ?_ ?_
  · rintro ⟨o, ho, _⟩
    exact absurd ho List.not_mem_nil
  · intro past turn _ hpast
    rw [run_append_singleton]
    exact emptied_step_iff hpast

end Tasks

/-- **A shutdown is final** along every run without a late step.

    Without a late step the map stays empty once it was drained, and every call that ends after the shutdown has
    returned is refused; both are invariants of one turn. -/
theorem shutdown_final (options : RelayPoolOptions) (turns : List Turn)
    (h : EachStep (fun past turn => ¬(Tasks.run options past).Late turn) turns) :
    Always (fun past => ShutdownFinal (Tasks.run options past)) turns := by
  have hemptied := (Tasks.emptied_iff options turns).mpr h
  have hrefused : Always (fun past => (Tasks.run options past).Refused) turns := by
    refine Always.of_eachStep (I := fun _ => True) (fun _ => trivial) List.Pairwise.nil ?_ h
    intro past turn _ hpast hnot
    rw [Tasks.run_append_singleton]
    exact hpast.step hnot
  intro k
  exact ⟨fun hreturned => hemptied k (Tasks.drained_of_returned hreturned), hrefused k⟩

end Nula.Pool

namespace Nula.Sample

open Pool

/-- `wss://relay/`. -/
def theRelay : RelayUrl := ⟨⟨"wss://relay/"⟩⟩

/-- `add_relay` finds the pool open, `shutdown` runs to its end, and `add_relay` gets the lock. -/
def lateAdd : List Turn :=
  [.call (.addRelay theRelay .default), .call .shutdown, .resume 1 (fun _ => 0), .resume 0 (fun _ => 0)]

/-- A relay is added, the pool is shut down, and the relay is added again. -/
def addedTwice : List Turn :=
  [.call (.addRelay theRelay .default), .resume 0 (fun _ => 0), .call .shutdown, .resume 0 (fun _ => 0),
    .resume 0 (fun _ => 0), .call (.addRelay theRelay .default)]

end Nula.Sample

namespace Nula.Pool

open Nula.Sample

/-- The late call returns `Ok(true)` after the shutdown. -/
theorem lateAdd_accepted : ¬Always (fun past => ShutdownFinal (Tasks.run .default past)) lateAdd := by
  intro h
  have hreturned : (Tasks.run .default lateAdd).returned = [.shutdown, .addRelay (.ok true)] := rfl
  have hrefused := h.last.refused
  rw [hreturned, List.pairwise_cons] at hrefused
  cases hrefused.1 _ List.mem_cons_self rfl _ rfl

/-- A relay that is added twice before the shutdown. -/
theorem shutdown_final_addedTwice :
    Always (fun past => ShutdownFinal (Tasks.run .default past)) addedTwice := by
  apply shutdown_final
  decide +kernel

end Nula.Pool
