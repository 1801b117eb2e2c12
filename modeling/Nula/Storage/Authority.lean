import Nula.Storage.Backend
import Nula.Storage.Tombstones

/-!
# `Storage.Authority` — who can make an event undeliverable

A save is rejected as deleted because of a tombstone or a stamp, and each of those was left by an accepted
deletion request (`Backend.cause` finds it in the history). A stamp is only ever left by the coordinate's own
author. A tombstone is left on an id that the requester owns *or that nobody holds yet*: in the second case
the backends cannot know whose event it will be, and a stranger's request takes effect. Where every stranger
names an id that is held, only the author's own requests count.
-/

namespace Nula

open Std

namespace Ledger

variable {o : MemoryDatabaseOptions} {L : Ledger}

/-- **When an event is refused as deleted**: its id is tombstoned, or its coordinate up to its time. -/
theorem saveEvent_deleted_iff {e : Event} {now : Timestamp} :
    (L.saveEvent o e now).1 = .rejected .deleted ↔
      ((o.processNip62 && L.vanishedAuthors.contains e.pubkey) = false ∧ e.kind.isEphemeral = false ∧
        e.deadOnArrival now = false) ∧ (L.deletedIds.contains e.id = true ∨ L.stamped e = true) := by
  have hfst : (L.saveEvent o e now).1 = .rejected .deleted ↔ L.refusal o e now = some .deleted := by
    unfold saveEvent
    cases L.refusal o e now with
    | none => simp
    | some reason => simp
  rw [hfst, refusal]
  by_cases h1 : (o.processNip62 && L.vanishedAuthors.contains e.pubkey) = true
  · simp [h1]
  rw [Bool.not_eq_true] at h1
  by_cases h2 : e.kind.isEphemeral = true
  · simp [h1, h2]
  rw [Bool.not_eq_true] at h2
  by_cases h3 : e.deadOnArrival now = true
  · simp [h1, h2, h3]
  rw [Bool.not_eq_true] at h3
  by_cases h4 : L.deletedIds.contains e.id = true
  · simp [h1, h2, h3, h4]
  by_cases h5 : L.stamped e = true
  · simp [h1, h2, h3, h4, h5]
  · rw [h1, h2, h3, if_neg (by simp), if_neg (by simp), if_neg (by simp), if_neg h4, if_neg h5]
    refine iff_of_false ?_ (by simp [h4, h5])
    split
    · simp
    · split <;> simp

/-- A stamp that covers the event was there, or comes from a request of the coordinate's author. -/
theorem accept_stamped (o : MemoryDatabaseOptions) (L : Ledger) (d e : Event) :
    (L.accept o d).stamped e = true ↔ L.stamped e = true ∨
      ∃ r, requestOf o d = some r ∧ (∃ c ∈ r.coordinates, addressableCoord e = some c.key) ∧
        d.pubkey = e.pubkey ∧ e.createdAt ≤ d.createdAt := by
  rw [stamped_iff, stamped_iff]
  constructor
  · rintro ⟨c, ts, hc, hts, hle⟩
    rw [accept_stamp] at hts
    split at hts
    · rename_i hnamed
      obtain ⟨r, hr, x, hx, hxa, hxc⟩ := hnamed
      obtain rfl := Option.some.inj hts
      rcases raised_cases L.deletedCoordinates[c]? d.createdAt with heq | hold
      · rw [heq] at hle
        refine Or.inr ⟨r, hr, ⟨x, hx, by rw [hc, hxc]⟩, ?_, hle⟩
        rw [← (addressableCoord_kind hc).2.2, ← hxc]
        exact hxa.symm
      · exact Or.inl ⟨c, _, hc, hold, hle⟩
    · exact Or.inl ⟨c, ts, hc, hts, hle⟩
  · rintro (⟨c, ts, hc, hts, hle⟩ | ⟨r, hr, ⟨x, hx, hxc⟩, hpk, hle⟩)
    · obtain ⟨ts', hts', hle'⟩ := (accept_grows o L d).stamps c ts hts
      exact ⟨c, ts', hc, hts', UInt64.le_trans hle hle'⟩
    · have hxa : x.author = d.pubkey := by
        rw [hpk, ← (addressableCoord_kind hxc).2.2]
        rfl
      refine ⟨x.key, raised L.deletedCoordinates[x.key]? d.createdAt, hxc, ?_,
        UInt64.le_trans hle (le_raised _ _)⟩
      rw [accept_stamp, if_pos ⟨r, hr, x, hx, hxa, rfl⟩]

/-! ## Room -/

theorem prepare_size (o : MemoryDatabaseOptions) (L : Ledger) (e : Event) :
    (L.prepare o e).live.size ≤ L.live.size := by
  have hkeep : ∀ (M : Ledger) (p : Event → Bool), (M.keep p).live.size ≤ M.live.size :=
    fun M p => ExtTreeMap.size_filter_le_size
  have hdel : ∀ M : Ledger, (M.applyDeletion e).live.size ≤ M.live.size := by
    intro M
    unfold applyDeletion
    split
    · exact Nat.le_refl _
    · exact ExtTreeMap.size_filter_le_size
  have hvanish : ∀ M : Ledger, (M.applyVanish e.pubkey).live.size ≤ M.live.size := fun M => hkeep M _
  unfold prepare
  dsimp only
  split <;> split
  · exact ((hvanish _).trans (hdel _)).trans (hkeep L _)
  · exact (hvanish _).trans (hkeep L _)
  · exact (hdel _).trans (hkeep L _)
  · exact hkeep L _

/-- With room for one more, nothing is evicted. -/
theorem accept_eq_enter {e : Event} (hroom : ∀ n : ℕ+, o.maxEvents = some n → L.live.size < n) :
    L.accept o e = (L.prepare o e).enter e := by
  unfold accept enforceCapacity
  cases hn : o.maxEvents with
  | none => rfl
  | some n =>
      have hsize : ((L.prepare o e).enter e).live.size ≤ n := by
        have h1 := prepare_size o L e
        have h2 : ((L.prepare o e).enter e).live.size ≤ (L.prepare o e).live.size + 1 :=
          ExtTreeMap.size_insert_le
        have h3 := hroom n hn
        omega
      have hid : ∀ fuel, evict n fuel ((L.prepare o e).enter e).live = ((L.prepare o e).enter e).live := by
        intro fuel
        cases fuel with
        | zero => rfl
        | succ fuel => rw [evict, if_pos hsize]
      dsimp only
      rw [hid]

/-- A stranger's deletion request removes nothing of anyone else's. -/
theorem accept_spares {d x : Event} {id : EventId} (hd : d.kind = Kind.eventDeletion)
    (hfree : L.live[d.id]? = none) (hroom : ∀ n : ℕ+, o.maxEvents = some n → L.live.size < n)
    (hpk : d.pubkey ≠ x.pubkey) (hx : L.live[id]? = some x) : (L.accept o d).live[id]? = some x := by
  rw [accept_eq_enter hroom, enter_live]
  refine Or.inr ⟨?_, prepare_live.mpr ⟨hx, ?_, ?_, ?_⟩⟩
  · rintro rfl
    rw [hfree] at hx
    cases hx
  · exact rivals_of_regular (by rw [hd]; decide) (by rw [hd]; decide)
  · intro r _
    simp [DeletionRequest.deletes, Ne.symm hpk]
  · intro _ hk
    rw [hd] at hk
    cases hk

end Ledger

namespace Sample

/-- A note, and a request for it by some author. -/
def note : Event := event 1 alice 5 1 []

/-- A deletion of the first note, by the author. -/
def requestBy (n : UInt8) (author : PublicKey) : Event := event n author 6 5 [["e", (id 1).toHex]]

/-- The note, a stranger's request for it, and its author's own. -/
def contested : List StoreOp :=
  [.saveEvent note 10, .saveEvent (requestBy 2 bob) 10, .saveEvent (requestBy 3 alice) 10]

/-- A stranger's request that arrives before the note. -/
def strangerFirst : List StoreOp := [.saveEvent (requestBy 2 bob) 10]

end Sample

/-! ## Histories -/

/-- A deletion request of the event's author for the event: it names its id, or its coordinate and is not
    older. -/
def Asks (d e : Event) : Prop :=
  d.kind = Kind.eventDeletion ∧ d.pubkey = e.pubkey ∧ ∃ r, DeletionRequest.fromEvent d = .ok r ∧
    (e.id ∈ r.eventIds ∨
      ((∃ c ∈ r.coordinates, addressableCoord e = some c.key) ∧ e.createdAt ≤ d.createdAt))

namespace Backend

variable (B : Backend)

/-- If the request names the event's id, someone other than the requester holds that id. -/
def TargetKnown (before : List StoreOp) (d e : Event) : Prop :=
  ∀ r, DeletionRequest.fromEvent d = .ok r → e.id ∈ r.eventIds →
    ∃ x, B.Holds before e.id x ∧ x.pubkey ≠ d.pubkey

/-- **Causes.** What holds of a ledger, did not hold at first and is not brought about by dropping live
    events was brought about by an accepted event. -/
theorem cause {P : Ledger → Prop} (hempty : ¬ P .empty) (hkeep : ∀ L p, P (Ledger.keep L p) → P L)
    {history : List StoreOp} (h : P (B.ledger history)) :
    ∃ before d now after, history = before ++ .saveEvent d now :: after ∧
      (B.ledger before).refusal B.options d now = none ∧ ¬ P (B.ledger before) ∧
      P ((B.ledger before).accept B.options d) := by
  induction history using List.reverseRecOn with
  | nil =>
      rw [B.ledger_nil] at h
      exact absurd h hempty
  | append_singleton history op ih =>
      by_cases hbefore : P (B.ledger history)
      · obtain ⟨before, d, now, after, rfl, hrest⟩ := ih hbefore
        exact ⟨before, d, now, after ++ [op], by simp, hrest⟩
      · have hs := B.ledger_step history op
        generalize B.ledger (history ++ [op]) = L at h hs
        cases hs with
        | saveEvent d now =>
            rcases Ledger.saveEvent_cases B.options (B.ledger history) d now with
              ⟨reason, _, heq⟩ | ⟨hacc, heq⟩
            · rw [heq] at h
              exact absurd h hbefore
            · rw [heq] at h
              exact ⟨history, d, now, [], rfl, hacc, hbefore, h⟩
        | deleteMatching f p => exact absurd (hkeep _ p h) hbefore
        | wipe => exact absurd h hempty

/-- A stranger's request for an id that someone else holds leaves no tombstone. -/
theorem TargetKnown.not_tombstones {B : Backend} {before : List StoreOp} {d e : Event}
    (h : B.TargetKnown before d e) {r : DeletionRequest} (hr : Ledger.requestOf B.options d = some r)
    (hid : e.id ∈ r.eventIds) : (B.ledger before).tombstones d e.id = false := by
  obtain ⟨x, hx, hne⟩ := h r (Ledger.requestOf_fromEvent hr).2 hid
  rw [Ledger.tombstones, B.holds_iff.mp hx]
  simpa using hne

/-- **Only the author can make an event undeliverable.** Where strangers name the event's id only while
    someone else holds it, a save of the event is rejected as deleted only after an accepted request of its
    own author for it. A further request of a stranger, of the same kind, leaves that verdict as it is and
    the event, if stored, in place.

    A tombstone or a stamp that the ledger has now and did not have at first was left by one accepted save of the
    history (`cause`); what `accept` adds then says what that save was a request for. -/
theorem deleted_only_by_author (history : List StoreOp) (e : Event)
    (hknown : ∀ before d now after, history = before ++ .saveEvent d now :: after →
      B.Saves before d now .success → d.pubkey ≠ e.pubkey → B.TargetKnown before d e) :
    (∀ now, B.Saves history e now (.rejected .deleted) →
      ∃ before d ts after, history = before ++ .saveEvent d ts :: after ∧
        B.Saves before d ts .success ∧ Asks d e) ∧
    (∀ d ts, d.kind = Kind.eventDeletion → d.pubkey ≠ e.pubkey →
      B.Saves history d ts .success → B.TargetKnown history d e →
      (∀ now, B.Saves (history ++ [.saveEvent d ts]) e now (.rejected .deleted) ↔
        B.Saves history e now (.rejected .deleted)) ∧
      (B.HasRoom history → B.Holds history e.id e →
        B.Holds (history ++ [.saveEvent d ts]) e.id e)) := by
  refine ⟨fun now hdel => ?_, fun d ts hd hpk hacc htarget => ⟨fun now => ?_, fun hroom he => ?_⟩⟩
  · rw [B.saves_iff, Ledger.saveEvent_deleted_iff] at hdel
    rcases hdel.2 with hid | hst
    · obtain ⟨before, d, ts, after, hsplit, hacc, hno, hyes⟩ :=
        B.cause (P := fun L => L.deletedIds.contains e.id = true) (by simp [Ledger.empty])
          (fun _ _ h => h) hid
      obtain ⟨r, hr, hmem, htomb⟩ := ((Ledger.accept_deletedIds _ _ _ _).mp hyes).resolve_left hno
      have hsaved := B.saves_success_iff.mpr hacc
      obtain ⟨_, hf⟩ := Ledger.requestOf_fromEvent hr
      refine ⟨before, d, ts, after, hsplit, hsaved, Ledger.fromEvent_kind hf, ?_, r, hf, Or.inl hmem⟩
      -- a stranger would have found the id held, and left no tombstone
      by_contra hpk
      have := (hknown before d ts after hsplit hsaved hpk).not_tombstones hr hmem
      rw [htomb] at this
      cases this
    · obtain ⟨before, d, ts, after, hsplit, hacc, hno, hyes⟩ :=
        B.cause (P := fun L => L.stamped e = true) (by simp [Ledger.stamped_iff, Ledger.empty])
          (fun _ _ h => h) hst
      obtain ⟨r, hr, hcoord, hpk, hle⟩ := ((Ledger.accept_stamped _ _ _ _).mp hyes).resolve_left hno
      obtain ⟨_, hf⟩ := Ledger.requestOf_fromEvent hr
      exact ⟨before, d, ts, after, hsplit, B.saves_success_iff.mpr hacc, Ledger.fromEvent_kind hf, hpk, r, hf,
        Or.inr ⟨hcoord, hle⟩⟩
  · rw [B.saves_iff, B.saves_iff, Ledger.saveEvent_deleted_iff, Ledger.saveEvent_deleted_iff,
      B.ledger_success hacc, Ledger.accept_deletedIds, Ledger.accept_stamped]
    have hvanished : ((B.ledger history).accept B.options d).vanishedAuthors.contains e.pubkey
        = (B.ledger history).vanishedAuthors.contains e.pubkey := by
      rw [Bool.eq_iff_iff, Ledger.accept_vanished, hd]
      exact or_iff_left (fun h => absurd h.2.1 (by decide))
    rw [hvanished]
    refine and_congr_right (fun _ => or_congr ?_ ?_)
    · refine or_iff_left ?_
      rintro ⟨r, hr, hmem, htomb⟩
      rw [htarget.not_tombstones hr hmem] at htomb
      cases htomb
    · refine or_iff_left ?_
      rintro ⟨r, _, _, hown, _⟩
      exact hpk hown
  · rw [B.holds_iff] at he ⊢
    rw [B.ledger_success hacc]
    exact Ledger.accept_spares hd (Ledger.live_of_refusal_none (B.saves_success_iff.mp hacc))
      (B.hasRoom_iff.mp hroom) hpk he

/-- The note is deleted in the end, and the history has its author's request. -/
theorem deleted_only_by_author_contested :
    (∀ before d now after, Sample.contested = before ++ .saveEvent d now :: after →
      (Backend.memory ⟨none, true, true⟩).Saves before d now .success → d.pubkey ≠ Sample.note.pubkey →
      (Backend.memory ⟨none, true, true⟩).TargetKnown before d Sample.note) ∧
    (Backend.memory ⟨none, true, true⟩).Saves Sample.contested Sample.note 10 (.rejected .deleted) ∧
    ∃ before d ts after, Sample.contested = before ++ .saveEvent d ts :: after ∧
      (Backend.memory ⟨none, true, true⟩).Saves before d ts .success ∧ Asks d Sample.note := by
  have hknown : ∀ before d now after, Sample.contested = before ++ .saveEvent d now :: after →
      (Backend.memory ⟨none, true, true⟩).Saves before d now .success → d.pubkey ≠ Sample.note.pubkey →
      (Backend.memory ⟨none, true, true⟩).TargetKnown before d Sample.note := by
    intro before d now after hsplit _ hpk r _ _
    match before with
    | [] =>
        simp only [Sample.contested, List.nil_append, List.cons.injEq, StoreOp.saveEvent.injEq] at hsplit
        exact absurd (by rw [← hsplit.1.1]) hpk
    | [x] =>
        simp only [Sample.contested, List.cons_append, List.nil_append, List.cons.injEq,
          StoreOp.saveEvent.injEq] at hsplit
        obtain ⟨rfl, ⟨rfl, _⟩, _⟩ := hsplit
        refine ⟨Sample.note, ?_, by decide +kernel⟩
        show (MemoryStore.run ⟨none, true, true⟩ [.saveEvent Sample.note 10]).eventById Sample.note.id =
          some Sample.note
        decide +kernel
    | [x, y] =>
        simp only [Sample.contested, List.cons_append, List.nil_append, List.cons.injEq,
          StoreOp.saveEvent.injEq] at hsplit
        obtain ⟨_, _, ⟨rfl, _⟩, _⟩ := hsplit
        exact absurd rfl hpk
    | x :: y :: z :: rest => simp [Sample.contested] at hsplit
  have hdel : (Backend.memory ⟨none, true, true⟩).Saves Sample.contested Sample.note 10
      (.rejected .deleted) := by
    show ((MemoryStore.run ⟨none, true, true⟩ Sample.contested).saveEvent Sample.note 10).1 =
      .rejected .deleted
    decide +kernel
  exact ⟨hknown, hdel, (deleted_only_by_author _ Sample.contested Sample.note hknown).1 10 hdel⟩

/-- Both backends accept the note into an empty store, and reject it as deleted after the stranger's request,
    with no request of its author in the history. -/
theorem stranger_deletes :
    ((Backend.memory ⟨none, true, true⟩).Saves [] Sample.note 10 .success ∧
      (Backend.memory ⟨none, true, true⟩).Saves Sample.strangerFirst Sample.note 10 (.rejected .deleted)) ∧
    ((Backend.redb .wire ⟨true, true⟩).Saves [] Sample.note 10 .success ∧
      (Backend.redb .wire ⟨true, true⟩).Saves Sample.strangerFirst Sample.note 10 (.rejected .deleted)) ∧
    ¬ ∃ before d ts after, Sample.strangerFirst = before ++ .saveEvent d ts :: after ∧ Asks d Sample.note := by
  refine ⟨⟨?_, ?_⟩, ⟨?_, ?_⟩, ?_⟩
  · rw [saves_iff]
    decide +kernel
  · rw [saves_iff]
    decide +kernel
  · rw [saves_iff]
    decide +kernel
  · rw [saves_iff]
    decide +kernel
  · rintro ⟨before, d, ts, after, hsplit, _, hpk, _⟩
    have hmem : .saveEvent d ts ∈ Sample.strangerFirst := by
      rw [hsplit]
      simp
    simp only [Sample.strangerFirst, List.mem_singleton, StoreOp.saveEvent.injEq] at hmem
    rw [hmem.1] at hpk
    revert hpk
    decide +kernel

end Backend

end Nula
