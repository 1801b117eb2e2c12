import Nula.Storage.Redb.Scan

/-!
# `Storage.Redb.Refine` — the redb backend computes the ledger

On tables that represent a ledger, every write succeeds and leaves tables that represent the updated
ledger: `Rep.saveEvent`, `Rep.deleteMatching`, and `run_rep` for a whole run. The ledger of a redb store has
no cap and does not process vanish requests, whatever its options say.
-/

namespace Nula

open Std

/-- What the store makes of its options: `process_nip62` is never read, and there is no cap. -/
def RedbDatabaseOptions.ledger (o : RedbDatabaseOptions) : MemoryDatabaseOptions :=
  ⟨none, o.processNip09, false⟩

namespace Redb

variable {pc : Postcard} {t : Tables} {L : Ledger}

/-! ## Replacement -/

theorem newestStep_none (e : Event) :
    newestStep none (Keys.byKindAuthorTs e.kind e.pubkey e.createdAt e.id)
      = some (e.createdAt, e.id) := by
  have hlen := Keys.byKindAuthorTs_length e.kind e.pubkey e.createdAt e.id
  have hpre := Keys.kindAuthorPrefix_length e.kind e.pubkey
  have hts : UInt64.ofNat (ofBe (((Keys.byKindAuthorTs e.kind e.pubkey e.createdAt e.id).drop
      (Keys.kindLen + Keys.pubkeyLen)).take Keys.tsLen)) = e.createdAt := by
    rw [Keys.byKindAuthorTs, ← Keys.kindAuthorPrefix, List.drop_left' hpre,
      List.take_left' (beBytes_length _ _), ofBe_beBytes e.createdAt.toNat_lt, UInt64.ofNat_toNat]
  have hid : (Keys.byKindAuthorTs e.kind e.pubkey e.createdAt e.id).drop
      (Keys.kindLen + Keys.pubkeyLen + Keys.tsLen) = e.id.bytes := by
    rw [Keys.byKindAuthorTs, ← Keys.kindAuthorPrefix, ← List.append_assoc, List.drop_left']
    rw [List.length_append, hpre, beBytes_length]
  unfold newestStep
  rw [dif_pos hlen]
  simp only [hts, Option.some.injEq, Prod.mk.injEq, true_and]
  exact EventId.bytes_injective hid

/-- Stamping a list of keys. -/
theorem contains_foldl_stamp (table : StampTable) (ts : Timestamp) (ks : List Bytes) (k : Bytes) :
    (ks.foldl (fun table key => table.insert key ts) table).contains k = true ↔
      table.contains k = true ∨ k ∈ ks := by
  induction ks generalizing table with
  | nil => simp
  | cons a ks ih =>
      rw [List.foldl_cons, ih, ExtTreeMap.contains_insert]
      simp only [Bool.or_eq_true, beq_iff_eq, Std.compare_eq_iff_eq, List.mem_cons]
      constructor
      · rintro ((rfl | hk) | hk)
        · exact Or.inr (Or.inl rfl)
        · exact Or.inl hk
        · exact Or.inr (Or.inr hk)
      · rintro (hk | rfl | hk)
        · exact Or.inl (Or.inr hk)
        · exact Or.inl (Or.inl rfl)
        · exact Or.inr hk

namespace Rep

/-- The replaceable rule finds a live rival, or there is none. The scan returns the events of the kind and the author,
    of which at most one is live. -/
theorem resolveReplaceable (h : Rep pc t L) {e : Event} (he : e.kind.isReplaceable = true) :
    (∃ x : Event, L.live[x.id]? = some x ∧ rivals x e = true ∧
      Redb.resolveReplaceable t e = some (pickLoserId x.createdAt x.id e)) ∨
    ((∀ (k : EventId) (x : Event), L.live[k]? = some x → rivals x e = false) ∧
      Redb.resolveReplaceable t e = none) := by
  obtain ⟨evs, hrange, hsorted, hmem⟩ := h.byKindAuthorTs.range_spec
    (g := fun e => Keys.kindAuthorPrefix e.kind e.pubkey)
    (fun e => Keys.kindAuthorPrefix_length e.kind e.pubkey)
    (Keys.kindAuthorPrefix_length e.kind e.pubkey)
  have hriv : ∀ x : Event, x ∈ evs ↔ L.live[x.id]? = some x ∧ rivals x e = true := by
    intro x
    rw [hmem, rivals_of_replaceable he]
    refine and_congr_right (fun _ => ⟨fun hg => Keys.kindAuthorPrefix_inj hg, fun hg => ?_⟩)
    rw [hg.1, hg.2]
  unfold Redb.resolveReplaceable
  rw [hrange]
  match evs, hsorted with
  | [], _ =>
      right
      refine ⟨unrivalled h.keyed (fun x hx hr => ?_), rfl⟩
      exact absurd ((hriv x).mpr ⟨hx, hr⟩) List.not_mem_nil
  | [x], _ =>
      left
      obtain ⟨hx, hr⟩ := (hriv x).mp List.mem_cons_self
      refine ⟨x, hx, hr, ?_⟩
      simp only [List.map_cons, List.map_nil, List.foldl_cons, List.foldl_nil]
      rw [show newestStep none (Keys.kindAuthorPrefix x.kind x.pubkey ++ Keys.byCreatedAt x.createdAt x.id)
        = some (x.createdAt, x.id) from newestStep_none x]
      rfl
  | x :: y :: rest, hsorted =>
      -- two rivals would be the same event
      obtain ⟨hx, hrx⟩ := (hriv x).mp List.mem_cons_self
      obtain ⟨hy, hry⟩ := (hriv y).mp (List.mem_cons_of_mem _ List.mem_cons_self)
      have hxy : x = y := h.wf.unique x y hx hy (rivals_trans hrx (rivals_comm hry))
      rw [List.pairwise_cons] at hsorted
      have := hsorted.1 y List.mem_cons_self
      rw [hxy] at this
      exact absurd this (irrefl_of (StampedRel stamp (flip idLt)) y)

/-- An addressable event takes its rival's place, if it wins. The table of coordinates holds the id of the rival,
    whose record says when it was created. -/
theorem resolveAddressable (h : Rep pc t L) {e : Event} {c : CoordKey}
    (hc : addressableCoord e = some c) :
    (∃ x : Event, L.live[x.id]? = some x ∧ rivals x e = true ∧
      Redb.resolveAddressable pc t e = .ok (some (pickLoserId x.createdAt x.id e))) ∨
    ((∀ (k : EventId) (x : Event), L.live[k]? = some x → rivals x e = false) ∧
      Redb.resolveAddressable pc t e = .ok none) := by
  obtain ⟨d, hd, rfl⟩ : ∃ d, addressableIdentifier e = some d ∧ (e.kind, e.pubkey, d) = c := by
    rw [addressableCoord_eq, Option.map_eq_some_iff] at hc
    exact hc
  unfold Redb.resolveAddressable
  rw [hd]
  dsimp only
  cases hval : t.byCoordinate[Keys.byCoordinate e.kind e.pubkey d]? with
  | none =>
      right
      refine ⟨unrivalled h.keyed (fun x hx hr => ?_), rfl⟩
      have hxc := (rivals_of_addressable hc).mp hr
      have hget : t.byCoordinate[Keys.byCoordinate e.kind e.pubkey d]? = some x.id.bytes :=
        (h.coordinate_get (e.kind, e.pubkey, d) _).mpr ⟨x, hx, hxc, rfl⟩
      rw [hval] at hget
      cases hget
  | some value =>
      left
      obtain ⟨x, hx, hxc, rfl⟩ := (h.coordinate_get (e.kind, e.pubkey, d) value).mp hval
      refine ⟨x, hx, (rivals_of_addressable hc).mpr hxc, ?_⟩
      dsimp only
      rw [dif_pos (show x.id.bytes.length = Keys.idLen from x.id.size), h.events_get, hx, Option.map_some]
      dsimp only
      rw [Codec.decodeCreatedAt_record]
      rfl

/-- Step 6 finds a live rival, or there is none. -/
theorem resolve (h : Rep pc t L) (e : Event) :
    (∃ x : Event, L.live[x.id]? = some x ∧ rivals x e = true ∧
      Redb.resolve pc t e = .ok (some (pickLoserId x.createdAt x.id e))) ∨
    ((∀ (k : EventId) (x : Event), L.live[k]? = some x → rivals x e = false) ∧
      Redb.resolve pc t e = .ok none) := by
  unfold Redb.resolve
  cases hr : e.kind.isReplaceable with
  | true =>
      rw [if_pos rfl]
      rcases h.resolveReplaceable hr with ⟨x, hx, hriv, hres⟩ | ⟨hno, hres⟩
      · exact Or.inl ⟨x, hx, hriv, by rw [hres]⟩
      · exact Or.inr ⟨hno, by rw [hres]⟩
  | false =>
      rw [if_neg (by simp)]
      cases ha : e.kind.isAddressable with
      | true =>
          rw [if_pos rfl]
          have hc : addressableCoord e = some (e.kind, e.pubkey, e.tags.identifier.getD "") := by
            rw [addressableCoord, if_pos ha]
          exact h.resolveAddressable hc
      | false =>
          right
          exact ⟨fun _ x _ => rivals_of_regular hr ha, rfl⟩

/-! ## Deletion requests -/

/-- Removing a list of ids keeps the events whose id is not listed. -/
theorem removeAll (h : Rep pc t L) {ks : List Bytes} (hks : ∀ k ∈ ks, ∃ id : EventId, id.bytes = k) :
    Yields (ks.foldlM (Redb.removeEventInner pc) t)
      (fun t' => Rep pc t' (L.keep (fun x => decide (x.id.bytes ∉ ks)))) := by
  induction ks generalizing t L with
  | nil =>
      rw [Ledger.keep_eq_self (fun _ _ _ => by simp)]
      exact Yields.ok h
  | cons k ks ih =>
      obtain ⟨id, rfl⟩ := hks k List.mem_cons_self
      have hstep : (L.keep (fun x => decide (x.id ≠ id))).keep (fun x => decide (x.id.bytes ∉ ks))
          = L.keep (fun x => decide (x.id.bytes ∉ id.bytes :: ks)) := by
        have hid : ∀ x : Event, x.id = id ↔ x.id.bytes = id.bytes :=
          fun x => ⟨fun hx => by rw [hx], fun hx => EventId.bytes_injective hx⟩
        simp only [Ledger.keep_keep, List.mem_cons, not_or, Bool.decide_and, ne_eq, hid]
      rw [List.foldlM_cons, ← hstep]
      exact (h.removeEventInner id).bind (fun t' h' => ih h' (fun k hk => hks k (List.mem_cons_of_mem _ hk)))

/-- The live event under an id is the requester's. -/
def owns (L : Ledger) (request : Event) (id : EventId) : Bool :=
  (L.live[id]?).any (fun x => decide (x.pubkey = request.pubkey))

/-- The two sets of a request: what it removes and what it tombstones. By induction on the ids, each of which is
    owned, tombstoned, both or neither. -/
theorem collectTargets (h : Rep pc t L) (request : Event) (ids : List EventId)
    (acc : HashSet Bytes × HashSet Bytes) :
    Yields (ids.foldlM (collectTarget pc t request) acc) (fun acc' =>
      (∀ k, k ∈ acc'.1 ↔ k ∈ acc.1 ∨ ∃ id ∈ ids, owns L request id = true ∧ id.bytes = k) ∧
      (∀ k, k ∈ acc'.2 ↔ k ∈ acc.2 ∨ ∃ id ∈ ids, L.tombstones request id = true ∧ id.bytes = k)) := by
  induction ids generalizing acc with
  | nil => exact Yields.ok ⟨by simp, by simp⟩
  | cons id ids ih =>
      rw [List.foldlM_cons]
      have hstep : collectTarget pc t request acc id = .ok
          (if owns L request id = true then acc.1.insert id.bytes else acc.1,
            if L.tombstones request id = true then acc.2.insert id.bytes else acc.2) := by
        unfold collectTarget owns Ledger.tombstones
        rw [h.events_get]
        cases hl : L.live[id]? with
        | none => simp
        | some x =>
            rw [Option.map_some]
            dsimp only
            rw [Codec.decode_record]
            by_cases hown : x.pubkey = request.pubkey
            · simp only [hown, if_true, Option.any_some, decide_true]
              exact if_pos hown
            · simp only [hown, Option.any_some, decide_false, Bool.false_eq_true, if_false]
              exact if_neg hown
      refine Yields.bind_of_eq hstep ((ih _).mono ?_)
      rintro acc' ⟨hrem, htomb⟩
      have hinsert : ∀ (s : HashSet Bytes) (b : Bool) (k : Bytes),
          k ∈ (if b = true then s.insert id.bytes else s) ↔ k ∈ s ∨ (b = true ∧ id.bytes = k) := by
        intro s b k
        cases b with
        | true => simp [ExtTreeSet.mem_insert, or_comm]
        | false => simp
      refine ⟨fun k => ?_, fun k => ?_⟩
      · rw [hrem, hinsert, or_assoc]
        simp only [List.mem_cons, exists_eq_or_imp]
      · rw [htomb, hinsert, or_assoc]
        simp only [List.mem_cons, exists_eq_or_imp]

/-- **Deleting several ids** in one pass: what is to go and what is to be tombstoned are collected first, which comes
    to the same as one by one. -/
theorem deleteIds (h : Rep pc t L) (request : Event) (ids : List EventId) :
    Yields (do
      let (toRemove, toTombstone) ← ids.foldlM (collectTarget pc t request) (∅, ∅)
      let t ← toRemove.toList.foldlM (Redb.removeEventInner pc) t
      return { t with
        deletedIds := toTombstone.toList.foldl
          (fun table key => table.insert key request.createdAt) t.deletedIds })
      (fun t' => Rep pc t' (L.deleteIds request ids)) := by
  refine (h.collectTargets request ids (∅, ∅)).bind ?_
  rintro ⟨toRemove, toTombstone⟩ ⟨hrem, htomb⟩
  simp only [ExtTreeSet.not_mem_empty, false_or] at hrem htomb
  have hks : ∀ k ∈ toRemove.toList, ∃ id : EventId, id.bytes = k := by
    intro k hk
    obtain ⟨id, _, _, hid⟩ := (hrem k).mp (ExtTreeSet.mem_toList.mp hk)
    exact ⟨id, hid⟩
  refine (h.removeAll hks).bind (fun t' h' => ?_)
  -- the removed ids are those of the requester's own targets
  have hlive : L.keep (fun x => decide (x.id.bytes ∉ toRemove.toList))
      = L.keep (fun x => !(decide (x.pubkey = request.pubkey) && decide (x.id ∈ ids))) := by
    refine Ledger.keep_congr (fun k x hx => ?_)
    have hxl := h.wf.live_id hx
    rw [Bool.eq_iff_iff]
    simp only [decide_eq_true_eq, Bool.not_eq_true', Bool.and_eq_false_iff, decide_eq_false_iff_not,
      ExtTreeSet.mem_toList, hrem]
    constructor
    · intro hno
      by_contra hc
      push Not at hc
      exact hno ⟨x.id, hc.2, by simp [owns, hxl, hc.1], rfl⟩
    · rintro hcase ⟨id, hid, hown, hb⟩
      obtain rfl := EventId.bytes_injective hb
      simp only [owns, hxl, Option.any_some, decide_eq_true_eq] at hown
      rcases hcase with hc | hc
      · exact hc hown
      · exact hc hid
  rw [hlive] at h'
  refine Yields.ok ⟨⟨h'.wf.keyed, h'.wf.unique⟩, h'.events, h'.byCreatedAt, h'.byAuthorTs,
    h'.byKindAuthorTs, h'.byCoordinate, fun id => ?_, h'.deletedCoordinates⟩
  rw [Bool.eq_iff_iff, contains_foldl_stamp, ExtTreeSet.mem_toList, htomb]
  show _ ↔ ((ids.filter (L.tombstones request)).foldl ExtTreeSet.insert L.deletedIds).contains id = true
  rw [Ledger.contains_foldl_insert, List.mem_filter, h'.deletedIds]
  refine or_congr Iff.rfl ⟨?_, ?_⟩
  · rintro ⟨id', hid', ht, hb⟩
    obtain rfl := EventId.bytes_injective hb
    exact ⟨hid', ht⟩
  · rintro ⟨hid, ht⟩
    exact ⟨id, hid, ht, rfl⟩

/-- Raising the stamp of a coordinate. -/
theorem bumpStamp (h : Rep pc t L) (c : CoordKey) (ts : Timestamp) :
    Rep pc (if (match t.deletedCoordinates[coordBytes c]? with
        | none => true
        | some p => decide (p < ts)) = true then
        { t with deletedCoordinates := t.deletedCoordinates.insert (coordBytes c) ts } else t)
      { L with deletedCoordinates := Nula.bumpStamp L.deletedCoordinates c ts } := by
  have hinsert : Rep pc { t with deletedCoordinates := t.deletedCoordinates.insert (coordBytes c) ts }
      { L with deletedCoordinates := L.deletedCoordinates.insert c ts } := by
    refine ⟨⟨h.wf.keyed, h.wf.unique⟩, h.events, h.byCreatedAt, h.byAuthorTs, h.byKindAuthorTs,
      h.byCoordinate, h.deletedIds, fun c' => ?_⟩
    dsimp only
    rw [ExtTreeMap.getElem?_insert, ExtTreeMap.getElem?_insert, h.deletedCoordinates]
    by_cases hc : c = c'
    · rw [if_pos (by rw [hc]; exact Std.compare_self), if_pos (by rw [hc]; exact Std.compare_self)]
    · rw [if_neg (by simpa using fun hb => hc (coordBytes_injective hb)), if_neg (by simpa using hc)]
  unfold Nula.bumpStamp
  rw [h.deletedCoordinates]
  cases L.deletedCoordinates[c]? with
  | none => exact hinsert
  | some p =>
      by_cases hp : p < ts
      · simp only [hp, decide_true, if_true]
        exact hinsert
      · simp only [hp, decide_false, Bool.false_eq_true, if_false]
        exact h

/-- What the coordinate lookup removes is what the filter drops. -/
theorem removeIncumbent (h : Rep pc t L) (request : Event) (c : Coordinate) :
    Yields (Redb.removeIncumbent pc request t (coordBytes c.key))
      (fun t' => Rep pc t' (L.keep (fun x => !Ledger.covers request c x))) := by
  have hget := h.coordinate_get c.key
  unfold Redb.removeIncumbent
  cases hval : t.byCoordinate[coordBytes c.key]? with
  | none =>
      rw [Ledger.keep_covers_of_none (fun k x hx hxc => ?_)]
      · exact Yields.ok h
      · rw [(hget x.id.bytes).mpr ⟨x, h.wf.live_id hx, hxc, rfl⟩] at hval
        cases hval
  | some value =>
      obtain ⟨w, hw, hwc, rfl⟩ := (hget value).mp hval
      have hfilter : (some w.id.bytes).filter (fun value => decide (value.length = Keys.idLen))
          = some w.id.bytes := by
        simp [Option.filter, Keys.idLen, w.id.size]
      rw [hfilter, h.wf.keep_covers hw hwc]
      dsimp only
      rw [h.events_get, hw, Option.map_some]
      dsimp only
      refine Yields.bind_of_eq (Codec.decodeCreatedAt_record pc w) ?_
      split
      · exact h.removeEventInner w.id
      · exact Yields.ok h

/-- Deleting a coordinate: the event goes if it is old enough, and the stamp is raised. -/
theorem deleteCoordinate (h : Rep pc t L) (request : Event) (c : Coordinate) :
    Yields (Redb.deleteCoordinate pc request t c) (fun t' => Rep pc t' (L.deleteCoordinate request c)) := by
  unfold Redb.deleteCoordinate Ledger.deleteCoordinate
  by_cases hc : c.author = request.pubkey
  · rw [if_neg (by simpa using hc), if_pos hc]
    exact (h.removeIncumbent request c).bind
      (fun t' h' => Yields.ok (h'.bumpStamp c.key request.createdAt))
  · rw [if_pos (by simpa using hc), if_neg hc]
    exact Yields.ok h

theorem applyDeletion (h : Rep pc t L) (request : Event) :
    Yields (Redb.applyDeletion pc t request) (fun t' => Rep pc t' (L.applyDeletion request)) := by
  unfold Redb.applyDeletion
  split
  · rename_i herr
    rw [Ledger.applyDeletion, herr]
    exact Yields.ok h
  · rename_i r hr
    rw [Ledger.applyDeletion_eq hr]
    have hcoords : ∀ t', Rep pc t' (L.deleteIds request r.eventIds) →
        Yields (r.coordinates.foldlM (Redb.deleteCoordinate pc request) t') (fun t'' =>
          Rep pc t'' (r.coordinates.foldl (Ledger.deleteCoordinate request) (L.deleteIds request r.eventIds))) :=
      fun t' h' => Yields.foldlM (R := Rep pc) h' (fun c _ _ _ hcs => hcs.deleteCoordinate request c)
    have hids := (h.deleteIds request r.eventIds).bind hcoords
    simpa only [bind_assoc, pure_bind] using hids

/-! ## Saves -/

/-- Steps 7 and 8, once the rivals are gone. -/
theorem store {o : RedbDatabaseOptions} {e : Event} (h : Rep pc t (L.keep (fun x => !rivals x e)))
    (hfree : L.live[e.id]? = none) :
    Yields (Redb.store pc o t e) (fun t' => Rep pc t' (L.accept o.ledger e)) := by
  have hprep : Yields (processDeletion pc o t e) (fun t' => Rep pc t' (L.prepare o.ledger e)) := by
    have hL : L.prepare o.ledger e = if o.processNip09 && e.kind = Kind.eventDeletion then
        (L.keep (fun x => !rivals x e)).applyDeletion e else L.keep (fun x => !rivals x e) := rfl
    rw [hL, processDeletion]
    by_cases hdel : (o.processNip09 && decide (e.kind = Kind.eventDeletion)) = true
    · rw [if_pos hdel, if_pos hdel]
      exact h.applyDeletion e
    · rw [if_neg hdel, if_neg hdel]
      exact Yields.ok h
  have hfree' : (L.prepare o.ledger e).live[e.id]? = none := by
    cases hx : (L.prepare o.ledger e).live[e.id]? with
    | none => rfl
    | some x =>
        have := Ledger.prepare_below o.ledger L e e.id x hx
        rw [hfree] at this
        cases this
  exact hprep.bind (fun t' h' => h'.insertEventInner hfree' (fun k x hx => Ledger.prepare_not_rivals hx))

theorem stamped_eq (h : Rep pc t L) (e : Event) :
    (addressableIdentifier e).any (fun identifier =>
      (t.deletedCoordinates[Keys.byCoordinate e.kind e.pubkey identifier]?).any
        (fun deletedAt => decide (e.createdAt ≤ deletedAt))) = L.stamped e := by
  rw [Ledger.stamped, addressableCoord_eq]
  cases addressableIdentifier e with
  | none => rfl
  | some d =>
      rw [Option.any_some, Option.map_some]
      rw [show Keys.byCoordinate e.kind e.pubkey d = coordBytes (e.kind, e.pubkey, d) from rfl,
        h.deletedCoordinates]
      dsimp only
      cases L.deletedCoordinates[(e.kind, e.pubkey, d)]? with
      | none => rfl
      | some deletedAt => rfl

/-- `save_with` returns the ledger's verdict; a success leaves tables for the ledger's outcome. The refusals are
    compared one by one, as for the store in memory; past them the rival is resolved, and the event enters the tables.
     -/
theorem saveWith (h : Rep pc t L) (o : RedbDatabaseOptions) (e : Event) (now : Timestamp) :
    Yields (Redb.saveWith pc o t e now) (fun p => p.1 = (L.saveEvent o.ledger e now).1 ∧
      (p.1 = .success → Rep pc p.2 (L.saveEvent o.ledger e now).2)) := by
  unfold Redb.saveWith Ledger.saveEvent Ledger.refusal
  rw [h.stamped_eq, h.deletedIds, h.contains_events]
  -- the redb backend has no vanish gate; the other five refusals come in the ledger's order
  rw [if_neg (by simp [RedbDatabaseOptions.ledger] :
    ¬ (o.ledger.processNip62 && L.vanishedAuthors.contains e.pubkey) = true)]
  by_cases h2 : e.kind.isEphemeral = true
  · rw [if_pos h2, if_pos h2]
    exact Yields.ok ⟨rfl, nofun⟩
  rw [if_neg h2, if_neg h2]
  by_cases h3 : e.deadOnArrival now = true
  · rw [if_pos h3, if_pos h3]
    exact Yields.ok ⟨rfl, nofun⟩
  rw [if_neg h3, if_neg h3]
  by_cases h4 : L.deletedIds.contains e.id = true
  · rw [if_pos h4, if_pos h4]
    exact Yields.ok ⟨rfl, nofun⟩
  rw [if_neg h4, if_neg h4]
  by_cases h5 : L.stamped e = true
  · rw [if_pos h5, if_pos h5]
    exact Yields.ok ⟨rfl, nofun⟩
  rw [if_neg h5, if_neg h5]
  by_cases h6 : L.live.contains e.id = true
  · rw [if_pos h6, if_pos h6]
    exact Yields.ok ⟨rfl, nofun⟩
  rw [if_neg h6, if_neg h6]
  have hfree : L.live[e.id]? = none :=
    ExtTreeMap.getElem?_eq_none_of_contains_eq_false (Bool.eq_false_iff.mpr h6)
  rcases h.resolve e with ⟨x, hx, hriv, hres⟩ | ⟨hno, hres⟩
  · have hne : x.id ≠ e.id := by
      intro hid
      rw [hid, hfree] at hx
      cases hx
    obtain ⟨hbeaten, hkeep⟩ := h.wf.rival hx hriv
    rw [show pickLoserId x.createdAt x.id e = _ from loser_eq hne] at hres
    refine Yields.bind_of_eq hres ?_
    by_cases hp : x.precedes e
    · -- the stored rival is newer: superseded
      rw [if_pos hp, if_pos (hbeaten.mpr hp)]
      dsimp only
      rw [if_pos rfl]
      exact Yields.ok ⟨rfl, nofun⟩
    · -- the stored rival gives way
      rw [if_neg hp, if_neg (fun hb => hp (hbeaten.mp hb))]
      dsimp only
      rw [if_neg hne]
      refine (h.removeEventInner x.id).bind (fun t' h' => ?_)
      refine (Rep.store (hkeep ▸ h') hfree).bind (fun t'' h'' => ?_)
      exact Yields.ok ⟨rfl, fun _ => h''⟩
  · obtain ⟨hb, hkeep⟩ := h.wf.no_rival hno
    refine Yields.bind_of_eq hres ?_
    rw [if_neg (by simp [hb])]
    refine (Rep.store (hkeep.symm ▸ h) hfree).bind (fun t' h' => ?_)
    exact Yields.ok ⟨rfl, fun _ => h'⟩

/-- **A save returns the ledger's verdict, leaves tables for the ledger's outcome, and changes no table
    unless it succeeds.** -/
theorem saveEvent (h : Rep pc t L) (o : RedbDatabaseOptions) (e : Event) (now : Timestamp) :
    Yields (Redb.saveEvent pc o t e now) (fun p => p.1 = (L.saveEvent o.ledger e now).1 ∧
      Rep pc p.2 (L.saveEvent o.ledger e now).2 ∧ (p.1 ≠ .success → p.2 = t)) := by
  refine (h.saveWith o e now).bind ?_
  rintro ⟨outcome, written⟩ ⟨hout, hrep⟩
  dsimp only at hout hrep
  by_cases hs : outcome = .success
  · refine Yields.ok ⟨hout, ?_, fun hne => absurd hs hne⟩
    dsimp only
    rw [if_pos hs]
    exact hrep hs
  · refine Yields.ok ⟨hout, ?_, fun _ => if_neg hs⟩
    dsimp only
    rw [if_neg hs]
    have hsame : (L.saveEvent o.ledger e now).2 = L := by
      rw [hout] at hs
      unfold Ledger.saveEvent at hs ⊢
      split
      · rfl
      · rename_i hr
        rw [hr] at hs
        exact absurd rfl hs
    rw [hsame]
    exact h

/-! ## Administrative deletion -/

/-- **An administrative delete removes exactly the admitted events**, whatever the limit. -/
theorem deleteMatching (h : Rep pc t L) (f : Filter) :
    Yields (Redb.deleteMatching pc t f) (fun t' => Rep pc t' (L.keep (fun x => !f.admits x))) := by
  obtain ⟨ids, hcand, hall⟩ := h.candidates_complete f
  unfold Redb.deleteMatching
  rw [hcand]
  refine Yields.bind_of_eq (h.matchingIds f ids) ?_
  have hks : ∀ k ∈ (ids.filter (fun id => (L.live[id]?).any f.admits)).map EventId.bytes,
      ∃ id : EventId, id.bytes = k := by
    intro k hk
    obtain ⟨id, _, hid⟩ := List.mem_map.mp hk
    exact ⟨id, hid⟩
  refine (h.removeAll hks).mono (fun t' h' => ?_)
  have hkeep : L.keep (fun x => decide (x.id.bytes ∉
      (ids.filter (fun id => (L.live[id]?).any f.admits)).map EventId.bytes))
      = L.keep (fun x => !f.admits x) := by
    refine Ledger.keep_congr (fun k x hx => ?_)
    have hxl := h.wf.live_id hx
    rw [Bool.eq_iff_iff, decide_eq_true_eq, Bool.not_eq_true', ← Bool.not_eq_true, not_iff_not,
      List.mem_map]
    constructor
    · rintro ⟨id, hid, hb⟩
      obtain rfl := EventId.bytes_injective hb
      simpa [hxl] using (List.mem_filter.mp hid).2
    · intro ha
      exact ⟨x.id, List.mem_filter.mpr ⟨hall x hxl ha, by simp [hxl, ha]⟩, rfl⟩
  rw [← hkeep]
  exact h'

/-! ## Runs -/

/-- **One write succeeds and is one step of the reference run.** -/
theorem step (h : Rep pc t L) (o : RedbDatabaseOptions) (op : StoreOp) :
    Yields (Redb.step pc o t op) (fun t' => Rep pc t' (L.step o.ledger op)) := by
  cases op with
  | saveEvent e now =>
      refine (h.saveEvent o e now).bind ?_
      rintro ⟨status, t'⟩ ⟨_, hrep, _⟩
      exact Yields.ok hrep
  | deleteMatching f => exact h.deleteMatching f
  | wipe =>
      refine Yields.ok ?_
      rw [wipe_eq]
      exact rep_empty pc

end Rep

/-- **Every run succeeds and leaves tables for the reference run.** -/
theorem run_rep (pc : Postcard) (o : RedbDatabaseOptions) (ops : List StoreOp) :
    Yields (run pc o ops) (fun t => Rep pc t (Ledger.run o.ledger ops)) :=
  Yields.foldlM (R := Rep pc) (rep_empty pc) (fun op _ _ _ h => h.step o op)

/-! ## Coherence of the tables -/

/-- The event is stored: the value under its id decodes to it. -/
def Stored (pc : Postcard) (t : Tables) (e : Event) : Prop :=
  ∃ v, t.events[e.id.bytes]? = some v ∧ Codec.decode pc v = .ok e

/-- Every value of the events table decodes to the event of its key, the indexes hold exactly the keys
    computed from the stored events, and each slot has one holder. -/
structure Coherent (pc : Postcard) (t : Tables) : Prop where
  events : ∀ k v, t.events[k]? = some v → ∃ e : Event, Codec.decode pc v = .ok e ∧ e.id.bytes = k
  byCreatedAt : ∀ k, k ∈ t.byCreatedAt ↔
    ∃ e, Stored pc t e ∧ Keys.byCreatedAt e.createdAt e.id = k
  byAuthorTs : ∀ k, k ∈ t.byAuthorTs ↔
    ∃ e, Stored pc t e ∧ Keys.byAuthorTs e.pubkey e.createdAt e.id = k
  byKindAuthorTs : ∀ k, k ∈ t.byKindAuthorTs ↔
    ∃ e, Stored pc t e ∧ Keys.byKindAuthorTs e.kind e.pubkey e.createdAt e.id = k
  byCoordinate : ∀ k v, t.byCoordinate[k]? = some v ↔ ∃ e d, Stored pc t e ∧
    addressableIdentifier e = some d ∧ Keys.byCoordinate e.kind e.pubkey d = k ∧ e.id.bytes = v
  replaceable : ∀ x y : Event, Stored pc t x → Stored pc t y →
    x.kind.isReplaceable = true → x.kind = y.kind → x.pubkey = y.pubkey → x = y
  addressable : ∀ (x y : Event) (c : CoordKey), Stored pc t x → Stored pc t y →
    addressableCoord x = some c → addressableCoord y = some c → x = y

namespace Rep

/-- An event is stored exactly if the ledger holds it. -/
theorem stored_iff (h : Rep pc t L) (e : Event) : Stored pc t e ↔ L.live[e.id]? = some e := by
  constructor
  · rintro ⟨v, hv, hdec⟩
    rw [h.events_get, Option.map_eq_some_iff] at hv
    obtain ⟨x, hx, rfl⟩ := hv
    rw [Codec.decode_record] at hdec
    rw [hx, Except.ok.inj hdec]
  · intro he
    exact ⟨Codec.record pc e, by rw [h.events_get, he]; rfl, Codec.decode_record pc e⟩

/-- Tables that stand for a ledger are coherent: each index is the mirror of the same live events. -/
theorem coherent (h : Rep pc t L) : Coherent pc t where
  events := by
    intro k v hv
    obtain ⟨e, _, hk, rfl⟩ := (h.events k v).mp hv
    exact ⟨e, Codec.decode_record pc e, Option.some.inj hk⟩
  byCreatedAt := by
    intro k
    simp only [h.byCreatedAt.mem_iff, h.stored_iff, Option.some.injEq]
  byAuthorTs := by
    intro k
    simp only [h.byAuthorTs.mem_iff, h.stored_iff, Option.some.injEq]
  byKindAuthorTs := by
    intro k
    simp only [h.byKindAuthorTs.mem_iff, h.stored_iff, Option.some.injEq]
  byCoordinate := by
    intro k v
    rw [h.byCoordinate]
    simp only [h.stored_iff, addressableCoord_eq, Option.map_map, Option.map_eq_some_iff,
      Function.comp]
    constructor
    · rintro ⟨e, he, ⟨d, hd, hk⟩, hv⟩
      exact ⟨e, d, he, hd, hk, hv⟩
    · rintro ⟨e, d, he, hd, hk, hv⟩
      exact ⟨e, he, ⟨d, hd, hk⟩, hv⟩
  replaceable := by
    intro x y hx hy hr hk ha
    rw [h.stored_iff] at hx hy
    exact (h.wf.unique y x hy hx ((rivals_of_replaceable hr).mpr ⟨hk.symm, ha.symm⟩)).symm
  addressable := by
    intro x y c hx hy hxc hyc
    rw [h.stored_iff] at hx hy
    exact h.wf.unique x y hx hy ((rivals_of_addressable hyc).mpr hxc)

end Rep

/-- **Index coherence**: every run of saves, administrative deletes and wipes ends in coherent tables, where
    a further save goes through and a rejected one leaves all seven tables as they are.

    By induction on the operations the seven tables represent the ledger (`run_rep`); what represents it takes a
    further save, and a rejected one changes nothing (`Rep.saveEvent`). -/
theorem tables_coherent (pc : Postcard) (o : RedbDatabaseOptions) (ops : List StoreOp) :
    ∃ t, run pc o ops = .ok t ∧ Coherent pc t ∧
      ∀ (e : Event) (now : Timestamp), ∃ status t', saveEvent pc o t e now = .ok (status, t') ∧
        (∀ reason, status = .rejected reason → t' = t) := by
  obtain ⟨t, hrun, h⟩ := run_rep pc o ops
  refine ⟨t, hrun, h.coherent, fun e now => ?_⟩
  obtain ⟨⟨status, t'⟩, hsave, _, _, hrej⟩ := h.saveEvent o e now
  refine ⟨status, t', hsave, fun reason hs => hrej ?_⟩
  rw [hs]
  nofun

end Redb

end Nula
