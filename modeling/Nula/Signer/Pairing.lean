import Nula.Lib.Always
import Nula.Signer.Client

/-!
# `Signer.Pairing` — which key answers a client

The key of the signer comes from the URI or from the first response with its secret, and never changes
(`remoteSignerPk_run`). Requests are encrypted to it; whose responses are taken for answers is another matter
(`answeredByPaired_iff`).
-/

namespace Nula.Signer

open Nip46

section

variable (cfg : Config)

/-! ## Who answers -/

/-- The key that the client talks to: that of the URI, or the author of the first response with the secret. -/
def Config.paired (heard : List Heard) : Option PublicKey :=
  match cfg.flow with
  | .bunker pk => some pk
  | .nostrconnect secret => (heard.find? (fun h => h.result = some secret)).map (·.author)

/-- Who is paired stays paired, whoever answers. -/
theorem validateSecretEcho_some (pk : PublicKey) (secret : Option String) (author : PublicKey)
    (result : Option String) : validateSecretEcho (some pk) secret author result = some pk := rfl

theorem paired_append (heard : List Heard) (h : Heard) :
    cfg.paired (heard ++ [h]) = validateSecretEcho (cfg.paired heard) cfg.secret h.author h.result := by
  unfold Config.paired Config.secret
  cases cfg.flow with
  | bunker pk => rfl
  | nostrconnect secret =>
      simp only [List.find?_append]
      cases heard.find? (fun h => h.result = some secret) with
      | some first => rfl
      | none =>
          rw [Option.none_or, List.find?_singleton]
          cases hresult : h.result with
          | none => rfl
          | some value =>
              by_cases hsame : value = secret
              · simp [validateSecretEcho, hsame]
              · simp [validateSecretEcho, hsame]

/-- An event adds at most one response that was taken, and pairs only by it. -/
theorem handleEvent_logs (s : State) (event : Event) :
    (handleEvent cfg s event).taken = s.taken ++ (takes cfg s event).toList ∧
    ((handleEvent cfg s event).remoteSignerPk = s.remoteSignerPk ∧ (handleEvent cfg s event).heard = s.heard ∨
      ∃ heard, (handleEvent cfg s event).remoteSignerPk =
          validateSecretEcho s.remoteSignerPk cfg.secret heard.author heard.result ∧
        (handleEvent cfg s event).heard = s.heard ++ [heard]) := by
  rcases handleEvent_cases cfg s event with ⟨-, htakes, heq⟩ | ⟨heard, -, htakes, heq⟩ |
    ⟨heard, n, call, -, htakes, -, -, -, htook⟩
  · rw [htakes, heq]
    exact ⟨(List.append_nil _).symm, Or.inl ⟨rfl, rfl⟩⟩
  · rw [htakes, heq]
    exact ⟨(List.append_nil _).symm, Or.inr ⟨heard, rfl, rfl⟩⟩
  · rw [htakes]
    generalize handleEvent cfg s event = next at htook
    cases htook with
    | answer value _ => exact ⟨rfl, Or.inr ⟨heard, rfl, rfl⟩⟩
    | park _ _ => exact ⟨rfl, Or.inr ⟨heard, rfl, rfl⟩⟩

/-- The signer's key is that of the URI or of the first response with its secret. -/
theorem remoteSignerPk_run (actions : List Action) :
    (run cfg actions).remoteSignerPk = cfg.paired (run cfg actions).heard := by
  induction actions using List.reverseRecOn with
  | nil =>
      rw [run_nil, Config.start, Config.paired]
      cases cfg.flow <;> rfl
  | append_singleton actions a ih =>
      rw [run_append_singleton]
      by_cases hevent : ∃ e, a = .event e
      · obtain ⟨e, rfl⟩ := hevent
        obtain ⟨-, ⟨hpk, hheard⟩ | ⟨heard, hpk, hheard⟩⟩ := handleEvent_logs cfg (run cfg actions) e
        · rw [step, hpk, hheard, ih]
        · rw [step, hpk, hheard, ih, paired_append]
      · obtain ⟨hpk, hheard, -⟩ := step_logs cfg (run cfg actions) (fun e he => hevent ⟨e, he⟩)
        rw [hpk, hheard, ih]

/-- **One action** does not unpair. -/
theorem remoteSignerPk_step (s : State) {pk : PublicKey} (a : Action) (h : s.remoteSignerPk = some pk) :
    (step cfg s a).remoteSignerPk = some pk := by
  by_cases hevent : ∃ e, a = .event e
  · obtain ⟨e, rfl⟩ := hevent
    obtain ⟨-, ⟨hpk, -⟩ | ⟨heard, hpk, -⟩⟩ := handleEvent_logs cfg s e
    · rw [step, hpk, h]
    · rw [step, hpk, h, validateSecretEcho_some]
  · rw [(step_logs cfg s (fun e he => hevent ⟨e, he⟩)).1, h]

/-- Once it is set the key stays. -/
theorem remoteSignerPk_stays (past later : List Action) {pk : PublicKey}
    (h : (run cfg past).remoteSignerPk = some pk) : (run cfg (past ++ later)).remoteSignerPk = some pk := by
  induction later using List.reverseRecOn with
  | nil => rwa [List.append_nil]
  | append_singleton later a ih =>
      rw [← List.append_assoc, run_append_singleton]
      exact remoteSignerPk_step cfg _ a ih

/-- Before the key is known nothing is in the table. -/
def Unpaired (s : State) : Prop := s.remoteSignerPk = none → s.table.pending = [] ∧ s.table.parked = none

/-- **One action**: before the pairing nothing is put into the table. A dispatch is refused before the pairing, so
    nothing is entered, and with no entry nothing is parked. -/
theorem unpaired_step {s : State} (h : Unpaired s) (a : Action) : Unpaired (step cfg s a) := by
  intro hnone
  have hbefore : s.remoteSignerPk = none := by
    by_contra hsome
    obtain ⟨pk, hpk⟩ := Option.ne_none_iff_exists'.mp hsome
    rw [remoteSignerPk_step cfg s a hpk] at hnone
    cases hnone
  obtain ⟨hpending, hparked⟩ := h hbefore
  cases a with
  | dispatch id request entropy aux clock =>
      rcases dispatch_cases cfg s id request entropy aux clock with ⟨e, heq⟩ | ⟨hpk, -⟩
      · rw [step, heq]
        exact ⟨hpending, hparked⟩
      · exact absurd hbefore hpk
  | published n outcome =>
      rcases published_cases s n outcome with heq | ⟨c, -, -, ⟨text, -, heq⟩ | ⟨failed, reply, -, -, heq⟩ | ⟨-, heq⟩⟩
      · rw [step, heq]
        exact ⟨hpending, hparked⟩
      · rw [step, heq]
        exact ⟨hpending, hparked⟩
      · rw [step, heq]
        exact ⟨rfl, (InFlight.foldl_send_same s.table.pending s.table).2.1.trans hparked⟩
      · rw [step, heq]
        exact ⟨hpending, hparked⟩
  | receive n =>
      obtain ⟨hsame, hsame'⟩ : (receive s n).table.pending = s.table.pending ∧
          (receive s n).table.parked = s.table.parked := InFlight.receive_rest
      rw [step, hsame, hsame']
      exact ⟨hpending, hparked⟩
  | timeout n =>
      rcases expire_cases s n with heq | ⟨c, -, -, -, heq⟩ <;>
      · rw [step, heq]
        exact ⟨hpending, hparked⟩
  | event e =>
      rcases handleEvent_cases cfg s e with ⟨-, -, heq⟩ | ⟨heard, -, -, heq⟩ |
        ⟨heard, n, call, -, -, -, hmem, -, -⟩
      · rw [step, heq]
        exact ⟨hpending, hparked⟩
      · rw [step, heq]
        exact ⟨hpending, hparked⟩
      · rw [hpending] at hmem
        cases hmem
  | authUrlHandled outcome =>
      cases outcome with
      | ok u =>
          have hsame : s.table.unpark = s.table := by simp only [InFlight.unpark, hparked]
          rw [step, authUrlHandled, hsame]
          exact ⟨hpending, hparked⟩
      | error text =>
          have hsame : ∀ r, s.table.failParked r = s.table := by
            intro r
            simp only [InFlight.failParked, hparked]
          rw [step, authUrlHandled, hsame]
          exact ⟨hpending, hparked⟩

theorem unpaired_run (actions : List Action) : Unpaired (run cfg actions) := by
  induction actions using List.reverseRecOn with
  | nil => exact fun _ => ⟨rfl, rfl⟩
  | append_singleton actions a ih =>
      rw [run_append_singleton]
      exact unpaired_step cfg ih a

/-- Every response that answered a call or called the handler is of the paired signer. -/
def AnsweredByPaired (s : State) : Prop := ∀ x ∈ s.taken, s.remoteSignerPk = some x.2.author

/-- An event that takes an entry is of the paired signer. -/
def FromPaired (s : State) (a : Action) : Prop :=
  ∀ e, a = .event e → ∀ x, takes cfg s e = some x → s.remoteSignerPk = some e.pubkey

/-- What is taken is from the event's author, and something waited. -/
theorem takes_spec {s : State} {event : Event} {x : Nat × Heard} (h : takes cfg s event = some x) :
    x.2.author = event.pubkey ∧ s.table.pending ≠ [] := by
  rcases handleEvent_cases cfg s event with ⟨-, htakes, -⟩ | ⟨heard, -, htakes, -⟩ |
    ⟨heard, n, call, hhears, htakes, -, hmem, -, -⟩
  · rw [htakes] at h
    cases h
  · rw [htakes] at h
    cases h
  · rw [htakes] at h
    cases h
    exact ⟨hears_author cfg hhears, List.ne_nil_of_mem hmem⟩

/-- **One action** keeps every call answered by the paired signer exactly if the event that answers one is from it.
    Only an event answers a call, and one that does finds an entry, so a signer is paired by then. -/
theorem answeredByPaired_step {past : List Action} (a : Action) (h : AnsweredByPaired (run cfg past)) :
    AnsweredByPaired (run cfg (past ++ [a])) ↔ FromPaired cfg (run cfg past) a := by
  rw [run_append_singleton]
  by_cases hevent : ∃ e, a = .event e
  · obtain ⟨e, rfl⟩ := hevent
    have hold : ∀ x ∈ (run cfg past).taken, (step cfg (run cfg past) (.event e)).remoteSignerPk = some x.2.author :=
      fun x hx => remoteSignerPk_step cfg _ _ (h x hx)
    obtain ⟨htaken, -⟩ := handleEvent_logs cfg (run cfg past) e
    change (step cfg (run cfg past) (.event e)).taken = _ at htaken
    rw [AnsweredByPaired, htaken, List.forall_mem_append, and_iff_right hold]
    simp only [Option.mem_toList]
    have hset : ∀ x, takes cfg (run cfg past) e = some x →
        ∃ pk, (run cfg past).remoteSignerPk = some pk := by
      intro x hx
      by_contra hnone
      have hunset : (run cfg past).remoteSignerPk = none := by
        by_contra hsome
        exact hnone (Option.ne_none_iff_exists'.mp hsome)
      exact (takes_spec cfg hx).2 (unpaired_run cfg past hunset).1
    constructor
    · rintro hnew e' heq x hx
      cases heq
      obtain ⟨pk, hpk⟩ := hset x hx
      have hafter := hnew x hx
      rw [remoteSignerPk_step cfg _ _ hpk, (takes_spec cfg hx).1] at hafter
      rw [hpk, hafter]
    · intro hfrom x hx
      rw [(takes_spec cfg hx).1]
      exact remoteSignerPk_step cfg _ _ (hfrom e rfl x hx)
  · have hother : ∀ e, a ≠ .event e := fun e he => hevent ⟨e, he⟩
    obtain ⟨hpk, -, htaken⟩ := step_logs cfg (run cfg past) hother
    refine iff_of_true ?_ (fun e he => absurd he (hother e))
    rw [AnsweredByPaired, htaken, hpk]
    exact h

/-- **Who answers.** All answers come from the paired signer exactly when every event whose response carries the id
    of a call in the table does; which key is the signer's is settled by the URI or by the first response with its
    secret, once and for all.

    One action answers a call by the event it handles, if at all, and pairs only where there is no pairing yet; so
    the signer's key is a fold over the responses heard (`remoteSignerPk_run`). -/
theorem answeredByPaired_iff (actions : List Action) :
    (Always (fun past => AnsweredByPaired (run cfg past)) actions ↔
      EachStep (fun past a => FromPaired cfg (run cfg past) a) actions) ∧
    (∀ past later, actions = past ++ later → ∀ pk, (run cfg past).remoteSignerPk = some pk →
      (run cfg actions).remoteSignerPk = some pk) ∧
    (run cfg actions).remoteSignerPk = cfg.paired (run cfg actions).heard := by
  refine ⟨?_, ?_, remoteSignerPk_run cfg actions⟩
  · refine always_iff_eachStep (I := fun _ => True) (fun _ => trivial) nofun ?_
    intro past a _ hpast
    exact answeredByPaired_step cfg a hpast
  · rintro past later rfl pk hpk
    exact remoteSignerPk_stays cfg past later hpk

end

/-- Carol answers a `ping` that was sent to alice. -/
theorem anybody_answers :
    ¬Always (fun past => AnsweredByPaired (run Sample.config past))
      (Sample.call .ping ++ [.event (Sample.reply Sample.carol "pong")]) := by
  have hfits : Nip44.Fits ((Message.ofRequest Sample.ctx.json "1" .ping).asJson Sample.ctx.json) := by
    decide +kernel
  intro h
  have hbefore := (always_append_singleton.mp h).1.last
  have hfrom := (answeredByPaired_step Sample.config _ hbefore).mp h.last
  have hpk := hfrom _ rfl _ (Sample.takes_reply Sample.carol "pong" hfits)
  rw [(Sample.run_call hfits).1] at hpk
  revert hpk
  decide

end Nula.Signer
