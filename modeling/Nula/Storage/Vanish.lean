import Nula.Storage.Backend
import Nula.Storage.Tombstones

/-!
# `Storage.Vanish` — requests to vanish

Once a vanish request `v` is accepted, its author has nothing live but `v` and nothing of the author is
accepted again. The in-memory store sees to it by recording the author, and every later step keeps the record.
The redb store takes the same option and never reads it: there the guarantee holds exactly when there was
nothing to do, neither an event to purge nor a later one that only the record would have refused.
-/

namespace Nula

open Std

namespace Ledger

variable {o : MemoryDatabaseOptions} {L L' : Ledger} {v : Event}

/-- The author of `v` has nothing live but `v`. -/
def Only (L : Ledger) (v : Event) : Prop :=
  ∀ (id : EventId) (x : Event), L.live[id]? = some x → x.pubkey = v.pubkey → x = v

/-- Only an accepted event of the author could add to what the author has live. -/
theorem Step.only {op : StoreOp} (hs : Step o op L L') (h : L.Only v)
    (hrefused : ∀ e now, op = .saveEvent e now → e.pubkey = v.pubkey → L.refusal o e now ≠ none) :
    L'.Only v := by
  cases hs with
  | saveEvent e now =>
      rcases saveEvent_cases o L e now with ⟨reason, _, heq⟩ | ⟨hacc, heq⟩
      · rw [heq]
        exact h
      · rw [heq]
        intro id x hx hpk
        rcases accept_live hx with ⟨_, rfl⟩ | ⟨_, hx⟩
        · exact absurd hacc (hrefused x now rfl hpk)
        · exact h id x (prepare_live.mp hx).1 hpk
  | deleteMatching f p => exact fun id x hx => h id x ((keep_live L).mp hx).1
  | wipe =>
      intro id x hx
      simp [empty] at hx

/-! ## The record -/

/-- An accepted vanish request purges its author. -/
theorem accept_only (ho : o.processNip62 = true) (hv : v.kind = Kind.requestToVanish) :
    (L.accept o v).Only v := by
  intro id x hx hpk
  rcases accept_live hx with ⟨_, rfl⟩ | ⟨_, hx⟩
  · rfl
  · exact absurd hpk ((prepare_live.mp hx).2.2.2 ho hv)

/-- Until a wipe, an author stays on record. -/
theorem Step.vanished {op : StoreOp} (hs : Step o op L L') (hop : op ≠ .wipe) {a : PublicKey}
    (h : L.vanishedAuthors.contains a = true) : L'.vanishedAuthors.contains a = true := by
  cases hs with
  | saveEvent e now =>
      rcases saveEvent_cases o L e now with ⟨reason, _, heq⟩ | ⟨_, heq⟩
      · rw [heq]
        exact h
      · rw [heq]
        exact (accept_vanished o L e a).mpr (Or.inl h)
  | deleteMatching f p => exact h
  | wipe => exact absurd rfl hop

/-- Nothing of an author on record is accepted. -/
theorem refusal_vanished (ho : o.processNip62 = true) {e : Event} {now : Timestamp}
    (h : L.vanishedAuthors.contains e.pubkey = true) : L.refusal o e now = some .vanished := by
  unfold refusal
  rw [if_pos (by rw [ho, h]; rfl)]

/-- **After an accepted vanish request**, until a wipe, the author is on record and has nothing else live. -/
theorem Runs.vanished (ho : o.processNip62 = true) {ops : List StoreOp} (hrun : Runs o ops L L')
    (hops : .wipe ∉ ops) (hrec : L.vanishedAuthors.contains v.pubkey = true) (honly : L.Only v) :
    L'.vanishedAuthors.contains v.pubkey = true ∧ L'.Only v := by
  refine hrun.invariant
    (I := fun L => L.vanishedAuthors.contains v.pubkey = true ∧ L.Only v) ?_ ⟨hrec, honly⟩
  rintro op hop L₁ L₂ ⟨hrec₁, honly₁⟩ hs
  refine ⟨hs.vanished (fun hw => hops (hw ▸ hop)) hrec₁, hs.only honly₁ ?_⟩
  intro e now _ hpk
  rw [refusal_vanished ho (by rw [hpk]; exact hrec₁)]
  nofun

/-! ## Without the record -/

/-- With nothing of the author live but a vanish request, no rival beats an event of the author. -/
theorem Only.not_beaten (h : L.Only v) (hk : L.live.Keyed) (hv : v.kind = Kind.requestToVanish) {e : Event}
    (hpk : e.pubkey = v.pubkey) : L.beaten e = false := by
  rw [Bool.eq_false_iff, ne_eq, beaten_iff hk]
  rintro ⟨x, hx, hriv, _⟩
  have hxv : x = v := h x.id x hx ((rivals_pubkey hriv).trans hpk)
  have hnone : rivals e x = false := by
    rw [hxv]
    exact rivals_of_regular (by rw [hv]; decide) (by rw [hv]; decide)
  rw [rivals_comm hriv] at hnone
  cases hnone

/-- Everything live, of whatever author, survives a vanish request that is not carried out. -/
theorem accept_unrecorded (ho : o.processNip62 = false) (hcap : o.maxEvents = none)
    (hv : v.kind = Kind.requestToVanish) {id : EventId} {x : Event} (hid : id ≠ v.id)
    (hx : L.live[id]? = some x) : (L.accept o v).live[id]? = some x := by
  have hreq : requestOf o v = none := by
    rw [← Option.not_isSome_iff_eq_none, Option.isSome_iff_exists]
    rintro ⟨r, hr⟩
    have hk := fromEvent_kind (requestOf_fromEvent hr).2
    rw [hv] at hk
    cases hk
  rw [accept, enforceCapacity, hcap]
  refine (enter_live _ v).mpr (Or.inr ⟨hid, prepare_live.mpr ⟨hx, ?_, ?_, ?_⟩⟩)
  · exact rivals_of_regular (by rw [hv]; decide) (by rw [hv]; decide)
  · intro r hr
    rw [hreq] at hr
    cases hr
  · intro h62
    rw [ho] at h62
    cases h62

end Ledger

/-! ## The two backends -/

/-- The vanish request `v`, accepted after `ops`, is honoured along the writes that follow: in every state
    the author has nothing live but `v`, and every save of an event of the author is rejected. -/
structure Backend.Honours (B : Backend) (ops : List StoreOp) (v : Event) (ts : Timestamp)
    (later : List StoreOp) : Prop where
  live : ∀ done rest, later = done ++ rest →
    ∀ id x, B.Holds (ops ++ .saveEvent v ts :: done) id x → x.pubkey = v.pubkey → x = v
  refused : ∀ done e now rest, later = done ++ .saveEvent e now :: rest → e.pubkey = v.pubkey →
    ∃ reason, B.Saves (ops ++ .saveEvent v ts :: done) e now (.rejected reason)

/-- The event is refused without looking at vanish requests: it is ephemeral or expired, its id is stored or
    tombstoned, or its coordinate is stamped. -/
def Redb.refusedAnyway (t : Tables) (e : Event) (now : Timestamp) : Bool :=
  e.kind.isEphemeral || e.deadOnArrival now || decide (checkId t e.id ≠ .notExistent) ||
    (addressableIdentifier e).any (fun identifier =>
      (t.deletedCoordinates[Keys.byCoordinate e.kind e.pubkey identifier]?).any
        (fun deletedAt => e.createdAt ≤ deletedAt))

/-- There is nothing for the vanish request to do: nothing of its author is stored when it arrives, and what
    the author submits later is refused anyway. -/
structure Redb.Idle (pc : Postcard) (o : RedbDatabaseOptions) (ops : List StoreOp) (v : Event)
    (ts : Timestamp) (later : List StoreOp) : Prop where
  alone : ∀ t, run pc o ops = .ok t → ∀ x, Stored pc t x → x.pubkey ≠ v.pubkey
  refused : ∀ done e now rest t, later = done ++ .saveEvent e now :: rest → e.pubkey = v.pubkey →
    run pc o (ops ++ .saveEvent v ts :: done) = .ok t → refusedAnyway t e now = true

namespace Backend

variable {B : Backend} {ops later : List StoreOp} {v : Event} {ts : Timestamp}

/-- The ledger once `v` is accepted and some writes are done. -/
theorem ledger_after (hacc : B.Saves ops v ts .success) (done : List StoreOp) :
    Ledger.Runs B.options done ((B.ledger ops).accept B.options v)
      (B.ledger (ops ++ .saveEvent v ts :: done)) := by
  have hrun := B.ledger_runs (ops ++ [.saveEvent v ts]) done
  rw [B.ledger_success hacc, List.append_assoc, List.singleton_append] at hrun
  exact hrun

/-- A save is rejected exactly if the ledger refuses. -/
theorem saves_rejected_iff {e : Event} {now : Timestamp} :
    (∃ reason, B.Saves ops e now (.rejected reason)) ↔
      (B.ledger ops).refusal B.options e now ≠ none := by
  simp only [B.saves_iff]
  rcases Ledger.saveEvent_cases B.options (B.ledger ops) e now with ⟨reason, hr, heq⟩ | ⟨hr, heq⟩
  · rw [heq, hr]
    simp
  · rw [heq, hr]
    simp

/-- A backend that keeps the record honours every vanish request. -/
theorem honours_of_recorded (ho : B.options.processNip62 = true) (hv : v.kind = Kind.requestToVanish)
    (hacc : B.Saves ops v ts .success) (hlater : .wipe ∉ later) : B.Honours ops v ts later := by
  have hafter : ∀ done rest, later = done ++ rest →
      (B.ledger (ops ++ .saveEvent v ts :: done)).vanishedAuthors.contains v.pubkey = true ∧
        (B.ledger (ops ++ .saveEvent v ts :: done)).Only v := by
    intro done rest hsplit
    refine (ledger_after hacc done).vanished ho (fun hw => hlater ?_) ?_ (Ledger.accept_only ho hv)
    · rw [hsplit]
      exact List.mem_append_left rest hw
    · exact (Ledger.accept_vanished _ _ _ _).mpr (Or.inr ⟨ho, hv, rfl⟩)
  refine ⟨fun done rest hsplit id x hx hpk => ?_, fun done e now rest hsplit hpk => ?_⟩
  · exact (hafter done rest hsplit).2 id x (B.holds_iff.mp hx) hpk
  · have hrec := (hafter done _ hsplit).1
    rw [← hpk] at hrec
    rw [saves_rejected_iff, Ledger.refusal_vanished ho hrec]
    nofun

end Backend

/-- What redb refuses anyway the ledger refuses. -/
theorem Redb.Rep.refusedAnyway_iff {pc : Postcard} {t : Tables} {L : Ledger} (h : Redb.Rep pc t L)
    (e : Event) (now : Timestamp) : Redb.refusedAnyway t e now = true ↔ e.kind.isEphemeral = true ∨
      e.deadOnArrival now = true ∨ L.deletedIds.contains e.id = true ∨ L.live.contains e.id = true ∨
      L.stamped e = true := by
  have hcheck : Redb.checkId t e.id ≠ .notExistent ↔
      L.deletedIds.contains e.id = true ∨ L.live.contains e.id = true := by
    rw [h.checkId]
    by_cases hl : L.live.contains e.id = true
    · rw [if_pos hl]
      simp [hl]
    · rw [if_neg hl]
      by_cases hd : L.deletedIds.contains e.id = true
      · rw [if_pos hd]
        simp [hd]
      · rw [if_neg hd]
        simp [hd, hl]
  rw [Redb.refusedAnyway, h.stamped_eq]
  simp only [Bool.or_eq_true, decide_eq_true_eq, hcheck, or_assoc]

section Idle

variable {pc : Postcard} {o : RedbDatabaseOptions} {ops later : List StoreOp} {v : Event} {ts : Timestamp}

/-- Where an accepted vanish request is honoured there was nothing for it to do. -/
theorem Redb.Idle.of_honours (hv : v.kind = Kind.requestToVanish) (hacc : (Backend.redb pc o).Saves ops v ts .success)
    (h : (Backend.redb pc o).Honours ops v ts later) : Redb.Idle pc o ops v ts later := by
  have ho : (Backend.redb pc o).options.processNip62 = false := rfl
  have hfree := Ledger.live_of_refusal_none ((Backend.redb pc o).saves_success_iff.mp hacc)
  refine ⟨fun t hrun x hx hpk => ?_, fun done e now rest t hsplit hpk hrun => ?_⟩
  · -- what was stored survives the request, and is not the request
    obtain ⟨t₁, hrun₁, hrep⟩ := Redb.run_rep pc o ops
    obtain rfl := Except.ok.inj (hrun₁.symm.trans hrun)
    have hx : ((Backend.redb pc o).ledger ops).live[x.id]? = some x := (hrep.stored_iff x).mp hx
    have hid : x.id ≠ v.id := by
      intro heq
      rw [heq] at hx
      exact absurd (hfree.symm.trans hx) nofun
    have hkept := Ledger.accept_unrecorded ho rfl hv hid hx
    rw [← (Backend.redb pc o).ledger_success hacc, ← Backend.holds_iff] at hkept
    exact hid (congrArg Event.id (h.live [] later rfl x.id x hkept hpk))
  · obtain ⟨t₁, hrun₁, hrep⟩ := Redb.run_rep pc o (ops ++ .saveEvent v ts :: done)
    obtain rfl := Except.ok.inj (hrun₁.symm.trans hrun)
    rw [hrep.refusedAnyway_iff]
    have honly : ((Backend.redb pc o).ledger (ops ++ .saveEvent v ts :: done)).Only v :=
      fun id x hx hxpk => h.live done _ hsplit id x (Backend.holds_iff _ |>.mpr hx) hxpk
    have hbeaten := honly.not_beaten hrep.keyed hv hpk
    have hrej := Backend.saves_rejected_iff.mp (h.refused done e now rest hsplit hpk)
    by_contra hno
    simp only [not_or, Bool.not_eq_true] at hno
    obtain ⟨h1, h2, h3, h4, h5⟩ := hno
    exact hrej (Ledger.refusal_eq_none_iff.mpr ⟨by rw [ho]; rfl, h1, h2, h3, h5, h4, hbeaten⟩)

/-- Where a vanish request has nothing to do, the later events of its author are refused. -/
theorem Redb.Idle.refuses (h : Redb.Idle pc o ops v ts later) {done rest : List StoreOp} {e : Event} {now : Timestamp}
    (hsplit : later = done ++ .saveEvent e now :: rest) (hpk : e.pubkey = v.pubkey) :
    ((Backend.redb pc o).ledger (ops ++ .saveEvent v ts :: done)).refusal (Backend.redb pc o).options e now ≠ none := by
  intro hnone
  obtain ⟨t, hrun, hrep⟩ := Redb.run_rep pc o (ops ++ .saveEvent v ts :: done)
  obtain ⟨_, h1, h2, h3, h5, h4, _⟩ := Ledger.refusal_eq_none_iff.mp hnone
  rcases (hrep.refusedAnyway_iff e now).mp (h.refused done e now rest t hsplit hpk hrun) with
    hr | hr | hr | hr | hr
  · rw [h1] at hr
    cases hr
  · rw [h2] at hr
    cases hr
  · exact absurd (h3.symm.trans hr) nofun
  · exact absurd (h4.symm.trans hr) nofun
  · exact absurd (h5.symm.trans hr) nofun

/-- Then the request stays the only live event of its author. -/
theorem Redb.Idle.only (hacc : (Backend.redb pc o).Saves ops v ts .success) (h : Redb.Idle pc o ops v ts later)
    (done rest : List StoreOp) (hsplit : later = done ++ rest) :
    ((Backend.redb pc o).ledger (ops ++ .saveEvent v ts :: done)).Only v := by
  -- the writes done so far, from the last one back
  induction done using List.reverseRecOn generalizing rest with
  | nil =>
      intro id x hx hpk
      rw [(Backend.redb pc o).ledger_success hacc] at hx
      rcases Ledger.accept_live hx with ⟨_, rfl⟩ | ⟨_, hx⟩
      · rfl
      · obtain ⟨t, hrun, hrep⟩ := Redb.run_rep pc o ops
        have hx := (Ledger.prepare_live.mp hx).1
        exact absurd hpk (h.alone t hrun x ((hrep.stored_iff x).mpr (hrep.wf.live_id hx)))
  | append_singleton done op ih =>
      have hsplit' : later = done ++ op :: rest := by rw [hsplit]; simp
      have hs := (Backend.redb pc o).ledger_step (ops ++ .saveEvent v ts :: done) op
      rw [List.append_assoc, List.cons_append] at hs
      refine hs.only (ih _ hsplit') ?_
      rintro e now rfl hpk
      exact h.refuses hsplit' hpk

/-- The redb store honours a vanish request exactly when there is nothing for it to do. -/
theorem Redb.honours_iff_idle (hv : v.kind = Kind.requestToVanish)
    (hacc : (Backend.redb pc o).Saves ops v ts .success) :
    (Backend.redb pc o).Honours ops v ts later ↔ Redb.Idle pc o ops v ts later := by
  refine ⟨Redb.Idle.of_honours hv hacc, fun h => ?_⟩
  refine ⟨fun done rest hsplit id x hx hpk => ?_, fun done e now rest hsplit hpk => ?_⟩
  · exact h.only hacc done rest hsplit id x ((Backend.redb pc o).holds_iff.mp hx) hpk
  · exact Backend.saves_rejected_iff.mpr (h.refuses hsplit hpk)

end Idle

/-- **Vanish requests.** The in-memory store with the option on honours every accepted one until a wipe; the
    redb store, whatever its options, exactly those that leave nothing to do.

    An accepted request that is recorded holds until a wipe (`Backend.honours_of_recorded`). The redb store records
    none, so the author's events would have to be gone already and to be refused later (`Redb.honours_iff_idle`). -/
theorem vanish_honoured (pc : Postcard) (o : MemoryDatabaseOptions) (o' : RedbDatabaseOptions)
    (ops later : List StoreOp) (v : Event) (ts : Timestamp) (hv : v.kind = Kind.requestToVanish)
    (hlater : .wipe ∉ later) :
    (o.processNip62 = true → (Backend.memory o).Saves ops v ts .success →
      (Backend.memory o).Honours ops v ts later) ∧
    ((Backend.redb pc o').Saves ops v ts .success →
      ((Backend.redb pc o').Honours ops v ts later ↔ Redb.Idle pc o' ops v ts later)) :=
  ⟨fun ho hacc => Backend.honours_of_recorded ho hv hacc hlater, fun hacc => Redb.honours_iff_idle hv hacc⟩

namespace Sample

/-- A request to vanish, a note written before it and one written after it. -/
def vanishRequest : Event := event 2 alice 6 62 []

/-- A note before the request. -/
def noteBefore : Event := event 1 alice 5 1 []

/-- A note after it. -/
def noteAfter : Event := event 3 alice 7 1 []

end Sample

/-- The in-memory store purges the earlier note and refuses the later one. -/
theorem vanish_honoured_notes :
    (Backend.memory ⟨none, true, true⟩).Saves [.saveEvent Sample.noteBefore 10] Sample.vanishRequest 10
      .success ∧
    (Backend.memory ⟨none, true, true⟩).Honours [.saveEvent Sample.noteBefore 10] Sample.vanishRequest 10
      [.saveEvent Sample.noteAfter 10] := by
  have hacc : (Backend.memory ⟨none, true, true⟩).Saves [.saveEvent Sample.noteBefore 10]
      Sample.vanishRequest 10 .success := by
    rw [Backend.saves_iff]
    decide +kernel
  exact ⟨hacc, (vanish_honoured .wire ⟨none, true, true⟩ ⟨true, true⟩ [.saveEvent Sample.noteBefore 10]
    [.saveEvent Sample.noteAfter 10] Sample.vanishRequest 10 rfl (by simp)).1 rfl hacc⟩

/-- The redb store, opened with the option on, accepts the request, still holds the earlier note and accepts
    the later one. -/
theorem redb_ignores_vanish :
    (Backend.redb .wire ⟨true, true⟩).Saves [.saveEvent Sample.noteBefore 10] Sample.vanishRequest 10
      .success ∧
    (Backend.redb .wire ⟨true, true⟩).Holds
      [.saveEvent Sample.noteBefore 10, .saveEvent Sample.vanishRequest 10] Sample.noteBefore.id
      Sample.noteBefore ∧
    (Backend.redb .wire ⟨true, true⟩).Saves
      [.saveEvent Sample.noteBefore 10, .saveEvent Sample.vanishRequest 10] Sample.noteAfter 10 .success ∧
    Sample.vanishRequest.kind = Kind.requestToVanish ∧
    Sample.noteBefore.pubkey = Sample.vanishRequest.pubkey ∧ Sample.noteBefore ≠ Sample.vanishRequest ∧
    Sample.noteAfter.pubkey = Sample.vanishRequest.pubkey := by
  refine ⟨?_, ?_, ?_, by decide +kernel, by decide +kernel, by decide +kernel, by decide +kernel⟩
  · rw [Backend.saves_iff]
    decide +kernel
  · rw [Backend.holds_iff]
    decide +kernel
  · rw [Backend.saves_iff]
    decide +kernel

end Nula
