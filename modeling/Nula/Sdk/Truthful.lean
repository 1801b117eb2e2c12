import Nula.Sdk.Sync

/-!
# `Sdk.Truthful` — what the summary of a sync says

`SyncSummary` names the events a sync sent, failed to send and received. The upload keeps its books exactly; the
download takes every answer of `save_event` but an error for a receipt, whether the store took the event or refused
it, and whatever the relay sent; and it notes its errors among the failures of the upload. `truthful_iff` says for
which events that makes no difference.
-/

namespace Nula.Sdk

open Std
open Gossip (checkAdmitEvent)

section

variable {D σ : Type} [NostrDatabase D]

/-- Each id of an upload has one outcome, what was received was asked for, and each id received was live right after
    its save. -/
structure Truthful (opts : SyncOptions) (s : SyncSummary) (log : List (Effect D)) : Prop where
  uploaded : opts.direction.doUp = true → ∀ id ∈ s.localSide, Xor (id ∈ s.sent) (id ∈ s.sendFailures)
  requested : ∀ id ∈ s.received, id ∈ s.remote
  saved : ∀ id ∈ s.received, ∃ event status after,
    event.id = id ∧ Effect.saved .sync event (.ok status) after ∈ log
  stored : ∀ id ∈ s.received, ∀ event status after,
    event.id = id → Effect.saved .sync event (.ok status) after ∈ log → live after id = true

/-! ## The upload -/

/-- The event is found under the id, and the relay takes it. -/
def delivers (w : World σ) (database : D) (id : EventId) : Bool := live database id && (w.publish id).isOk

/-- An event is reported as sent or as failed, and it was. -/
theorem uploadOne_cases (w : World σ) (database : D) (s : SyncSummary) (id : EventId) :
    (delivers w database id = true ∧ uploadOne w database s id = { s with sent := s.sent.insert id }) ∨
      (delivers w database id = false ∧ ∃ text,
        uploadOne w database s id = { s with sendFailures := s.sendFailures.insert id text }) := by
  unfold uploadOne delivers live
  cases NostrDatabase.eventById database id with
  | error text => exact Or.inr ⟨rfl, text, rfl⟩
  | ok found =>
      cases found with
      | none => exact Or.inr ⟨rfl, _, rfl⟩
      | some event =>
          cases w.publish id with
          | ok u => exact Or.inl ⟨rfl, rfl⟩
          | error text => exact Or.inr ⟨rfl, text, rfl⟩

/-- What the ids of an upload add to a summary. -/
structure Uploads (w : World σ) (database : D) (ids : List EventId) (s s' : SyncSummary) : Prop where
  localSide : s'.localSide = s.localSide
  remote : s'.remote = s.remote
  received : s'.received = s.received
  sent : ∀ id, id ∈ s'.sent ↔ id ∈ s.sent ∨ id ∈ ids ∧ delivers w database id = true
  sendFailures : ∀ id, id ∈ s'.sendFailures ↔ id ∈ s.sendFailures ∨ id ∈ ids ∧ delivers w database id = false

theorem uploads_one (w : World σ) (database : D) (s : SyncSummary) (id : EventId) :
    Uploads w database [id] s (uploadOne w database s id) := by
  rcases uploadOne_cases w database s id with ⟨hdelivers, heq⟩ | ⟨hdelivers, text, heq⟩
  · rw [heq]
    refine ⟨rfl, rfl, rfl, fun k => ?_, fun k => ?_⟩
    · rw [ExtTreeSet.mem_insert, LawfulEqCmp.compare_eq_iff_eq, List.mem_singleton, or_comm]
      exact or_congr_right ⟨fun h => ⟨h.symm, h ▸ hdelivers⟩, fun h => h.1.symm⟩
    · rw [List.mem_singleton]
      refine ⟨Or.inl, fun h => h.resolve_right ?_⟩
      rintro ⟨rfl, hnot⟩
      rw [hdelivers] at hnot
      cases hnot
  · rw [heq]
    refine ⟨rfl, rfl, rfl, fun k => ?_, fun k => ?_⟩
    · rw [List.mem_singleton]
      refine ⟨Or.inl, fun h => h.resolve_right ?_⟩
      rintro ⟨rfl, hnot⟩
      rw [hdelivers] at hnot
      cases hnot
    · rw [ExtTreeMap.mem_insert, LawfulEqCmp.compare_eq_iff_eq, List.mem_singleton, or_comm]
      exact or_congr_right ⟨fun h => ⟨h.symm, h ▸ hdelivers⟩, fun h => h.1.symm⟩

theorem uploads_fold (w : World σ) (database : D) (ids : List EventId) (s : SyncSummary) :
    Uploads w database ids s (ids.foldl (uploadOne w database) s) := by
  induction ids generalizing s with
  | nil => exact ⟨rfl, rfl, rfl, fun id => by simp, fun id => by simp⟩
  | cons id rest ih =>
      have hone := uploads_one w database s id
      have hrest := ih (uploadOne w database s id)
      rw [List.foldl_cons]
      refine ⟨hrest.localSide.trans hone.localSide, hrest.remote.trans hone.remote,
        hrest.received.trans hone.received, fun k => ?_, fun k => ?_⟩
      · rw [hrest.sent, hone.sent, List.mem_singleton, List.mem_cons, or_assoc, ← or_and_right]
      · rw [hrest.sendFailures, hone.sendFailures, List.mem_singleton, List.mem_cons, or_assoc, ← or_and_right]

/-- What holds of every phase of the download after this reconciliation: the outcomes of the upload are in the
    summary, and the ids received are those whose save was answered. -/
structure Booked (client : Client D) (w : World σ) (opts : SyncOptions) (s : SyncSummary) (p : Phase D) : Prop where
  localSide : p.summary.localSide = s.localSide
  remote : p.summary.remote = s.remote
  sent : ∀ id, id ∈ p.summary.sent ↔
    opts.direction.doUp = true ∧ id ∈ s.localSide ∧ delivers w client.database id = true
  failed : opts.direction.doUp = true → ∀ id ∈ s.localSide, delivers w client.database id = false →
    id ∈ p.summary.sendFailures
  saved : ∀ id ∈ p.summary.received, ∃ event status after,
    event.id = id ∧ Effect.saved .sync event (.ok status) after ∈ p.log
  received : ∀ event status after, Effect.saved .sync event (.ok status) after ∈ p.log →
    event.id ∈ p.summary.received

/-- Nothing was sent or received so far. -/
structure Blank (s : SyncSummary) : Prop where
  sent : s.sent = ∅
  received : s.received = ∅
  sendFailures : s.sendFailures = ∅

/-- What is only needed or had is not reported as moved. -/
theorem Blank.foldOutcome {direction : SyncDirection} {outcome : ReconcileOutcome} {s : SyncSummary} (h : Blank s) :
    Blank (foldOutcome direction outcome s) := by
  unfold Sdk.foldOutcome
  cases direction <;> exact ⟨h.sent, h.received, h.sendFailures⟩

/-- No round of the reconciliation reports anything as moved. -/
theorem Blank.reconcileLoop {w : World σ} {direction : SyncDirection} {rounds : Nat} {session : σ}
    {items : List (Relay.SubscriptionItem × Except String Unit)} {s s' : SyncSummary} (h : Blank s)
    (hloop : reconcileLoop w direction rounds session items s = .ok s') : Blank s' := by
  fun_induction Sdk.reconcileLoop w direction rounds session items s with
  | case1 => cases hloop
  | case2 => cases hloop
  | case3 => cases hloop
  | case4 =>
      rw [← Except.ok.inj hloop]
      exact h.foldOutcome
  | case5 => cases hloop
  | case6 _ _ _ _ _ _ _ _ _ _ _ ih => exact ih h.foldOutcome hloop
  | case7 => cases hloop
  | case8 _ _ _ _ _ _ _ ih => exact ih h hloop

/-- A computation that ends well has passed its first step. -/
theorem bind_eq_ok {ε α β : Type} {x : Except ε α} {f : α → Except ε β} {b : β} (h : x >>= f = .ok b) :
    ∃ a, f a = .ok b := by
  cases x with
  | error e => cases h
  | ok a => exact ⟨a, h⟩

theorem blank_reconcile {client : Client D} {w : World σ} {url : RelayUrl} {filter : Filter} {opts : SyncOptions}
    {subscriptionId : SubscriptionId} {s : SyncSummary}
    (h : client.reconcile w url filter opts = .ok (subscriptionId, s)) : Blank s := by
  unfold Client.reconcile at h
  split at h
  · cases h
  · obtain ⟨items, h⟩ := bind_eq_ok h
    obtain ⟨⟨session, opening⟩, h⟩ := bind_eq_ok h
    obtain ⟨id, h⟩ := bind_eq_ok h
    obtain ⟨u, h⟩ := bind_eq_ok h
    cases hloop : reconcileLoop w opts.direction maxNegRounds session w.rounds .default with
    | error e =>
        rw [hloop] at h
        cases h
    | ok summary =>
        rw [hloop] at h
        cases h
        exact Blank.reconcileLoop ⟨rfl, rfl, rfl⟩ hloop

/-! ## The download -/

section Download

variable {client : Client D} {w : World σ} {url : RelayUrl} {subscriptionId : SubscriptionId} {opts : SyncOptions}
  {p : Phase D} {s : SyncSummary} {event : Event}

variable (client w) in
/-- What an upload from nothing has done. -/
theorem Blank.uploads (h : Blank s) (hup : opts.direction.doUp = true) :
    Uploads w client.database s.localSide.toList s (client.uploaded w opts s) ∧
      (∀ id, id ∈ (client.uploaded w opts s).sent ↔ id ∈ s.localSide ∧ delivers w client.database id = true) ∧
      ∀ id, id ∈ (client.uploaded w opts s).sendFailures ↔
        id ∈ s.localSide ∧ delivers w client.database id = false := by
  have hfold := uploads_fold w client.database s.localSide.toList s
  rw [Client.uploaded, if_pos hup, uploadPhase]
  refine ⟨hfold, fun id => ?_, fun id => ?_⟩
  · rw [hfold.sent, h.sent, ExtTreeSet.mem_toList]
    exact or_iff_right ExtTreeSet.not_mem_empty
  · rw [hfold.sendFailures, h.sendFailures, ExtTreeSet.mem_toList]
    exact or_iff_right ExtTreeMap.not_mem_empty

/-- The upload receives nothing. -/
theorem Blank.uploaded_received (h : Blank s) : (client.uploaded w opts s).received = ∅ := by
  by_cases hup : opts.direction.doUp = true
  · exact (h.uploads client w hup).1.received.trans h.received
  · rw [Client.uploaded, if_neg hup]
    exact h.received

/-- An upload from nothing leaves each id with one outcome. -/
theorem Blank.uploaded (h : Blank s) (log : List (Effect D)) : Truthful opts (client.uploaded w opts s) log := by
  have hnone : ∀ id, id ∉ (client.uploaded w opts s).received := by
    intro id
    rw [h.uploaded_received]
    exact ExtTreeSet.not_mem_empty
  refine ⟨fun hup id hid => ?_, fun id hid => absurd hid (hnone id), fun id hid => absurd hid (hnone id),
    fun id hid => absurd hid (hnone id)⟩
  obtain ⟨hfold, hsent, hfailed⟩ := h.uploads client w hup
  rw [hfold.localSide] at hid
  cases hdelivers : delivers w client.database id with
  | true =>
      refine Or.inl ⟨(hsent id).mpr ⟨hid, hdelivers⟩, fun hbad => ?_⟩
      have hnot := ((hfailed id).mp hbad).2
      rw [hdelivers] at hnot
      cases hnot
  | false =>
      refine Or.inr ⟨(hfailed id).mpr ⟨hid, hdelivers⟩, fun hbad => ?_⟩
      have hnot := ((hsent id).mp hbad).2
      rw [hdelivers] at hnot
      cases hnot

/-- What the pool saves is in no book. -/
theorem poolSaves (p : Phase D) (stored : List Event) :
    (stored.foldl (poolSave w) p).summary = p.summary ∧ ∀ event result after,
      Effect.saved .sync event result after ∈ (stored.foldl (poolSave w) p).log →
        Effect.saved .sync event result after ∈ p.log := by
  induction stored generalizing p with
  | nil => exact ⟨rfl, fun _ _ _ h => h⟩
  | cons event rest ih =>
      obtain ⟨hsummary, hlog⟩ := ih (poolSave w p event)
      refine ⟨hsummary, fun x result after h => ?_⟩
      rcases List.mem_append.mp (hlog x result after h) with hold | hnew
      · exact hold
      · cases List.mem_singleton.mp hnew

/-- An upload from nothing, and what the pool saved since, is booked. -/
theorem Blank.booked (h : Blank s) (database : D) (stored : List Event) :
    Booked client w opts s (stored.foldl (poolSave w) ⟨client.uploaded w opts s, database, []⟩) := by
  obtain ⟨hsummary, hlog⟩ := poolSaves (w := w) ⟨client.uploaded w opts s, database, []⟩ stored
  have hsides : (client.uploaded w opts s).localSide = s.localSide ∧ (client.uploaded w opts s).remote = s.remote := by
    by_cases hup : opts.direction.doUp = true
    · obtain ⟨hfold, -, -⟩ := h.uploads client w hup
      exact ⟨hfold.localSide, hfold.remote⟩
    · rw [Client.uploaded, if_neg hup]
      exact ⟨rfl, rfl⟩
  refine ⟨hsummary ▸ hsides.1, hsummary ▸ hsides.2, fun id => ?_, fun hup id hid hdelivers => ?_, ?_,
    fun event status after hmem => ?_⟩
  · rw [hsummary]
    by_cases hup : opts.direction.doUp = true
    · rw [and_iff_right hup]
      exact (h.uploads client w hup).2.1 id
    · rw [Client.uploaded, if_neg hup, h.sent]
      exact iff_of_false ExtTreeSet.not_mem_empty (fun hbad => hup hbad.1)
  · rw [hsummary]
    exact ((h.uploads client w hup).2.2 id).mpr ⟨hid, hdelivers⟩
  · rw [hsummary, h.uploaded_received]
    exact fun id hid => absurd hid ExtTreeSet.not_mem_empty
  · exact absurd (hlog event _ after hmem) List.not_mem_nil

/-- A step that leaves the uploads alone and has no save answered is booked. -/
theorem Booked.of_log (h : Booked client w opts s p) {p' : Phase D}
    (hlocal : p'.summary.localSide = p.summary.localSide) (hremote : p'.summary.remote = p.summary.remote)
    (hsent : p'.summary.sent = p.summary.sent) (hreceived : p'.summary.received = p.summary.received)
    (hfailed : ∀ id ∈ p.summary.sendFailures, id ∈ p'.summary.sendFailures)
    (hlog : ∀ x status after, Effect.saved .sync x (.ok status) after ∈ p'.log ↔
      Effect.saved .sync x (.ok status) after ∈ p.log) : Booked client w opts s p' where
  localSide := hlocal.trans h.localSide
  remote := hremote.trans h.remote
  sent := hsent ▸ h.sent
  failed hup id hid hdelivers := hfailed id (h.failed hup id hid hdelivers)
  saved := by
    rw [hreceived]
    intro id hid
    obtain ⟨x, status, after, rfl, hmem⟩ := h.saved id hid
    exact ⟨x, status, after, rfl, (hlog x status after).mpr hmem⟩
  received x status after hmem := by
    rw [hreceived]
    exact h.received x status after ((hlog x status after).mp hmem)

variable (url subscriptionId) in
/-- **One event keeps the books**: it is counted once, under what became of it. -/
theorem Booked.downloadOne (h : Booked client w opts s p) (event : Event) :
    Booked client w opts s (client.downloadOne w url subscriptionId p event).2 := by
  have hturn := handling client w url subscriptionId p event
  generalize client.downloadOne w url subscriptionId p event = turn at hturn
  cases hturn with
  | failed hverdict => exact h.of_log rfl rfl rfl rfl (fun _ hid => hid) (fun x status after => by simp)
  | rejected hverdict => exact h.of_log rfl rfl rfl rfl (fun _ hid => hid) (fun x status after => by simp)
  | @refused text database hverdict hsave =>
      refine h.of_log rfl rfl rfl rfl (fun id hid => ?_) (fun x status after => by simp)
      exact ExtTreeMap.mem_insert.mpr (Or.inr hid)
  | @saved status database hverdict hsave =>
      refine ⟨h.localSide, h.remote, h.sent, h.failed, fun id hid => ?_, fun x st after hmem => ?_⟩
      · rcases ExtTreeSet.mem_insert.mp hid with heq | hold
        · obtain rfl := LawfulEqCmp.compare_eq_iff_eq.mp heq
          exact ⟨event, status, database, rfl, by simp⟩
        · obtain ⟨x, st, after, rfl, hmem⟩ := h.saved id hold
          exact ⟨x, st, after, rfl, by simp [hmem]⟩
      · rcases List.mem_append.mp hmem with hold | hnew
        · refine ExtTreeSet.mem_insert.mpr (Or.inr (h.received x st after ?_))
          simpa using hold
        · cases List.mem_singleton.mp hnew
          exact ExtTreeSet.mem_insert_self

end Download

end

/-! ## When the books are true -/

section

variable {D σ : Type} [LawfulDatabase D] (client : Client D) (w : World σ) (url : RelayUrl)
  (subscriptionId : SubscriptionId) (opts : SyncOptions) (s : SyncSummary)

/-- An event that the policy admits was asked for and is in the store after its save, where that is answered; where
    it is not, the upload has not delivered this event. -/
def Handled (database : D) (event : Event) : Prop :=
  checkAdmitEvent client.admitPolicy url subscriptionId event = .ok () →
    ((NostrDatabase.saveEvent database event (w.clock event)).1.isOk = true →
      event.id ∈ s.remote ∧ LawfulDatabase.keeps database event (w.clock event) = true) ∧
    ((NostrDatabase.saveEvent database event (w.clock event)).1.isOk = false →
      ¬ (opts.direction.doUp = true ∧ event.id ∈ s.localSide ∧ delivers w client.database event.id = true))

instance (database : D) (event : Event) :
    Decidable (Handled client w url subscriptionId opts s database event) :=
  inferInstanceAs (Decidable (_ → _ ∧ _))

/-- Each event of the download, where there is one, is handled well when its turn has come. -/
def DownloadsWell (lru : Lru EventId) (filter : Filter) : Prop :=
  ∀ subscriptionId s p events, client.reconcile w url filter opts = .ok (subscriptionId, s) →
    opts.direction.doDown = true → s.remote.isEmpty = false →
    client.fetchEventsFrom lru w url (client.uploaded w opts s) opts.opTimeout = .ok (p, events) →
    EachStep (fun past event => Handled client w url subscriptionId opts s
      (client.phaseAfter w url subscriptionId p past).database event) events

variable {client w url subscriptionId opts s}

/-- A step that receives nothing: only what it does to the uploads matters. -/
theorem Truthful.of_log {s' : SyncSummary} {log log' : List (Effect D)} (h : Truthful opts s log)
    (huploaded : opts.direction.doUp = true → ∀ id ∈ s'.localSide, Xor (id ∈ s'.sent) (id ∈ s'.sendFailures))
    (hremote : s'.remote = s.remote) (hreceived : s'.received = s.received)
    (hlog : ∀ x status after, Effect.saved .sync x (.ok status) after ∈ log' ↔
      Effect.saved .sync x (.ok status) after ∈ log) : Truthful opts s' log' where
  uploaded := huploaded
  requested := by
    rw [hreceived, hremote]
    exact h.requested
  saved := by
    rw [hreceived]
    intro id hid
    obtain ⟨x, status, after, rfl, hmem⟩ := h.saved id hid
    exact ⟨x, status, after, rfl, (hlog x status after).mpr hmem⟩
  stored := by
    rw [hreceived]
    intro id hid x status after hx hmem
    exact h.stored id hid x status after hx ((hlog x status after).mp hmem)

/-- One event keeps the summary truthful exactly if it is handled as it is reported. One case for each way an event
    can be handled; what it adds to the log is what its summary must say. -/
theorem truthful_step {p : Phase D} (hbooked : Booked client w opts s p) (event : Event) :
    Truthful opts (client.downloadOne w url subscriptionId p event).2.summary
        (client.downloadOne w url subscriptionId p event).2.log ↔
      Truthful opts p.summary p.log ∧ Handled client w url subscriptionId opts s p.database event := by
  have hturn := handling client w url subscriptionId p event
  have hbooked' := hbooked.downloadOne url subscriptionId event
  generalize client.downloadOne w url subscriptionId p event = turn at hturn hbooked'
  cases hturn with
  | failed hverdict =>
      have hhandled : Handled client w url subscriptionId opts s p.database event := by
        intro hadmitted
        rw [hverdict] at hadmitted
        cases hadmitted
      rw [and_iff_left hhandled]
      exact ⟨fun h => h.of_log h.uploaded rfl rfl (fun x status after => by simp),
        fun h => h.of_log h.uploaded rfl rfl (fun x status after => by simp)⟩
  | rejected hverdict =>
      have hhandled : Handled client w url subscriptionId opts s p.database event := by
        intro hadmitted
        rw [hverdict] at hadmitted
        cases hadmitted
      rw [and_iff_left hhandled]
      exact ⟨fun h => h.of_log h.uploaded rfl rfl (fun x status after => by simp),
        fun h => h.of_log h.uploaded rfl rfl (fun x status after => by simp)⟩
  | @refused text database hverdict hsave =>
      have hhandled : Handled client w url subscriptionId opts s p.database event ↔
          ¬ (opts.direction.doUp = true ∧ event.id ∈ s.localSide ∧
            delivers w client.database event.id = true) := by
        unfold Handled
        rw [hsave]
        exact ⟨fun h => (h hverdict).2 rfl, fun h _ => ⟨nofun, fun _ => h⟩⟩
      rw [hhandled, ← hbooked.sent]
      constructor
      · intro h
        have hlost : ∀ id, id ∈ p.summary.sendFailures →
            id ∈ p.summary.sendFailures.insert event.id text :=
          fun id hid => ExtTreeMap.mem_insert.mpr (Or.inr hid)
        refine ⟨h.of_log (fun hup id hid => ?_) rfl rfl (fun x status after => by simp), fun hsent => ?_⟩
        · rcases h.uploaded hup id hid with ⟨hsent, hkept⟩ | ⟨-, hunsent⟩
          · exact Or.inl ⟨hsent, fun hbad => hkept (hlost id hbad)⟩
          · refine Or.inr ⟨?_, hunsent⟩
            have hlocal : id ∈ s.localSide := hbooked.localSide ▸ hid
            refine hbooked.failed hup id hlocal (Bool.eq_false_iff.mpr (fun hdelivers => hunsent ?_))
            exact (hbooked.sent id).mpr ⟨hup, hlocal, hdelivers⟩
        · obtain ⟨hup, hlocal, -⟩ := (hbooked.sent event.id).mp hsent
          rcases h.uploaded hup event.id (hbooked.localSide.symm ▸ hlocal) with ⟨-, hkept⟩ | ⟨-, hunsent⟩
          · exact hkept ExtTreeMap.mem_insert_self
          · exact hunsent hsent
      · rintro ⟨h, hunsent⟩
        refine h.of_log (fun hup id hid => ?_) rfl rfl (fun x status after => by simp)
        rcases h.uploaded hup id hid with ⟨hsent, hkept⟩ | ⟨hfailed, hmissed⟩
        · refine Or.inl ⟨hsent, fun hbad => ?_⟩
          rcases ExtTreeMap.mem_insert.mp hbad with heq | hold
          · exact hunsent (LawfulEqCmp.compare_eq_iff_eq.mp heq ▸ hsent)
          · exact hkept hold
        · exact Or.inr ⟨ExtTreeMap.mem_insert.mpr (Or.inr hfailed), hmissed⟩
  | @saved status database hverdict hsave =>
      have hhandled : Handled client w url subscriptionId opts s p.database event ↔
          event.id ∈ s.remote ∧ live database event.id = true := by
        have hkeeps := LawfulDatabase.live_saveEvent p.database event (w.clock event) status
        rw [hsave] at hkeeps
        unfold Handled
        rw [hsave, ← hkeeps rfl]
        exact ⟨fun h => (h hverdict).1 rfl, fun h _ => ⟨fun _ => h, nofun⟩⟩
      rw [hhandled, ← hbooked.remote]
      constructor
      · intro h
        have hself : event.id ∈ p.summary.received.insert event.id := ExtTreeSet.mem_insert_self
        refine ⟨⟨h.uploaded, fun id hid => h.requested id (ExtTreeSet.mem_insert.mpr (Or.inr hid)), hbooked.saved,
          fun id hid x st after hx hmem => ?_⟩, h.requested event.id hself, ?_⟩
        · exact h.stored id (ExtTreeSet.mem_insert.mpr (Or.inr hid)) x st after hx (by simp [hmem])
        · exact h.stored event.id hself event status database rfl (by simp)
      · rintro ⟨h, hremote, hlive⟩
        refine ⟨h.uploaded, fun id hid => ?_, hbooked'.saved, fun id hid x st after hx hmem => ?_⟩
        · rcases ExtTreeSet.mem_insert.mp hid with heq | hold
          · exact LawfulEqCmp.compare_eq_iff_eq.mp heq ▸ hremote
          · exact h.requested id hold
        · rcases List.mem_append.mp hmem with hold | hnew
          · have hlog : Effect.saved .sync x (.ok st) after ∈ p.log := by simpa using hold
            exact h.stored id (hx ▸ hbooked.received x st after hlog) x st after hx hlog
          · cases List.mem_singleton.mp hnew
            exact hx ▸ hlive

/-- After a reconciliation a download keeps true books exactly when each event is handled well. -/
theorem truthful_phaseAfter {p : Phase D} (hbooked : Booked client w opts s p)
    (htrue : Truthful opts p.summary p.log) (events : List Event) :
    Truthful opts (client.phaseAfter w url subscriptionId p events).summary
        (client.phaseAfter w url subscriptionId p events).log ↔
      EachStep (fun past event => Handled client w url subscriptionId opts s
        (client.phaseAfter w url subscriptionId p past).database event) events := by
  have hkept : ∀ past, Booked client w opts s (client.phaseAfter w url subscriptionId p past) := by
    intro past
    induction past using List.reverseRecOn with
    | nil => exact hbooked
    | append_singleton past event ih =>
        rw [phaseAfter_append_singleton]
        exact ih.downloadOne url subscriptionId event
  refine last_iff_eachStep (P := fun past => Truthful opts (client.phaseAfter w url subscriptionId p past).summary
    (client.phaseAfter w url subscriptionId p past).log) htrue (fun past event => ?_)
  rw [phaseAfter_append_singleton]
  exact truthful_step (hkept past) event

/-- A call that returns a summary was not cut off. -/
theorem syncToRelay_eq_run {lru : Lru EventId} {filter : Filter} {summary : SyncSummary}
    (h : (client.syncToRelay lru w url filter opts).result = .ok summary) :
    client.syncToRelay lru w url filter opts = client.runSyncToRelay lru w url filter opts := by
  unfold Client.syncToRelay at h ⊢
  split at h
  · cases h
  · rfl

/-- **A summary tells the truth exactly when its download is handled well.**

    A summary starts blank and is booked event by event; one event keeps it truthful exactly if it is handled well
    (`truthful_step`), and the loop over the download adds these conditions up. -/
theorem truthful_iff (lru : Lru EventId) (client : Client D) (w : World σ) (url : RelayUrl) (filter : Filter)
    (opts : SyncOptions) (hrun : opts.dryRun = false) (summary : SyncSummary)
    (h : (client.syncToRelay lru w url filter opts).result = .ok summary) :
    Truthful opts summary (client.syncToRelay lru w url filter opts).log ↔
      DownloadsWell client w url opts lru filter := by
  have hrunning := syncToRelay_eq_run h
  rw [hrunning] at h ⊢
  unfold Client.runSyncToRelay at h ⊢
  unfold DownloadsWell
  cases hreconcile : client.reconcile w url filter opts with
  | error e =>
      rw [hreconcile] at h
      cases h
  | ok found =>
      obtain ⟨subscriptionId, s⟩ := found
      have hblank : Blank s := blank_reconcile hreconcile
      have hremote : (client.uploaded w opts s).remote = s.remote := by
        have hbooked : Booked client w opts s ⟨client.uploaded w opts s, client.database, []⟩ :=
          hblank.booked client.database []
        exact hbooked.remote
      rw [hreconcile] at h
      simp only [hrun, Bool.false_eq_true, if_false, hremote] at h ⊢
      split at h
      next hdown =>
        rw [if_pos hdown]
        rw [Bool.and_eq_true, Bool.not_eq_true'] at hdown
        unfold Client.downloadPhase at h ⊢
        cases hfetch : client.fetchEventsFrom lru w url (client.uploaded w opts s) opts.opTimeout with
        | error e =>
            rw [hfetch] at h
            cases h
        | ok fetched =>
            obtain ⟨p, events⟩ := fetched
            rw [hfetch] at h
            obtain ⟨stored, -, -, hp, -⟩ := fetchEventsFrom_eq_ok hfetch
            have hbooked : Booked client w opts s p := hp ▸ hblank.booked client.database stored
            have htrue : Truthful opts p.summary p.log := by
              rw [hp, (poolSaves _ stored).1]
              exact hblank.uploaded _
            dsimp only at h ⊢
            split at h
            · cases h
            next p' hend =>
              cases h
              rw [downloadAll_eq_ok client w url subscriptionId hend, truthful_phaseAfter hbooked htrue]
              constructor
              · rintro hsteps _ _ _ _ heq - - hfetched
                cases heq
                rw [hfetch] at hfetched
                cases hfetched
                exact hsteps
              · intro hwell
                exact hwell subscriptionId s p events rfl hdown.1 hdown.2 hfetch
      next hdown =>
        rw [if_neg hdown]
        cases h
        refine iff_of_true (hblank.uploaded _) ?_
        rintro _ _ _ _ heq hdoDown hneeded -
        cases heq
        rw [hdoDown, hneeded] at hdown
        exact absurd rfl hdown

end

namespace Sample

open Nula.Sample

/-- A note, and an event that stores do not keep. -/
def note : Event := noteOf 1 alice

/-- An ephemeral event. -/
def passing : Event := event 1 alice 5 20001 []

/-- The relay holds this event, and it is asked for. -/
def offering (e : Event) : World Unit := world [] [e.id] [e]

/-- Both directions. -/
def both : SyncOptions := ⟨.both, none, false⟩

/-- A sync with a relay that offers one event. -/
def synced (e : Event) : Outcome MemoryDatabase :=
  (client none).syncToRelay .ofList (offering e) relay everything both

/-- The events of this download are handled well. -/
def wellHandled (e : Event) (subscriptionId : SubscriptionId) (s : SyncSummary) : Bool :=
  ((client none).fetchEventsFrom .ofList (offering e) relay ((client none).uploaded (offering e) both s)
    both.opTimeout).toOption.all (fun fetched => decide (EachStep (fun past event =>
      Handled (client none) (offering e) relay subscriptionId both s
        ((client none).phaseAfter (offering e) relay subscriptionId fetched.1 past).database event) fetched.2))

end Sample

/-- A note that is offered is received and stored. -/
theorem truthful_iff_note : ∃ summary, (Sample.synced Sample.note).result = .ok summary ∧
    Sample.note.id ∈ summary.received ∧ Truthful Sample.both summary (Sample.synced Sample.note).log := by
  have hreceived : (Sample.synced Sample.note).result.toOption.any
      (fun summary => decide (Sample.note.id ∈ summary.received)) = true := by decide +kernel
  have hwell : ((Sample.client none).reconcile (Sample.offering Sample.note) Sample.relay Nula.Sample.everything
      Sample.both).toOption.all (fun found => Sample.wellHandled Sample.note found.1 found.2) = true := by
    decide +kernel
  cases hresult : (Sample.synced Sample.note).result with
  | error e =>
      rw [hresult] at hreceived
      cases hreceived
  | ok summary =>
      rw [hresult] at hreceived
      refine ⟨summary, rfl, of_decide_eq_true hreceived, ?_⟩
      refine (truthful_iff .ofList (Sample.client none) (Sample.offering Sample.note) Sample.relay
        Nula.Sample.everything Sample.both rfl summary hresult).mpr ?_
      intro subscriptionId s p events hreconcile _ _ hfetch
      rw [hreconcile] at hwell
      have hsteps : Sample.wellHandled Sample.note subscriptionId s = true := hwell
      unfold Sample.wellHandled at hsteps
      rw [hfetch] at hsteps
      exact of_decide_eq_true hsteps

/-- After a save of the sync that went well its event is not live. -/
def leavesDead : Effect MemoryDatabase → Bool
  | .saved .sync event (.ok _) after => !live after event.id
  | _ => true

/-- The store refuses an ephemeral event, and the summary counts it among those it has received. -/
theorem refusal_received : ∃ summary, (Sample.synced Sample.passing).result = .ok summary ∧
    ¬ Truthful Sample.both summary (Sample.synced Sample.passing).log := by
  have hreceived : (Sample.synced Sample.passing).result.toOption.any
      (fun summary => decide (Sample.passing.id ∈ summary.received)) = true := by decide +kernel
  have hdead : (Sample.synced Sample.passing).log.all leavesDead = true := by decide +kernel
  cases hresult : (Sample.synced Sample.passing).result with
  | error e =>
      rw [hresult] at hreceived
      cases hreceived
  | ok summary =>
      rw [hresult] at hreceived
      refine ⟨summary, rfl, fun h => ?_⟩
      have hid := of_decide_eq_true hreceived
      obtain ⟨event, status, after, heq, hmem⟩ := h.saved _ hid
      have hlive := h.stored _ hid event status after heq hmem
      have hnot : (!live after event.id) = true := List.all_eq_true.mp hdead _ hmem
      rw [heq, hlive] at hnot
      cases hnot

end Nula.Sdk
