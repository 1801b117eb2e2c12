import Nula.Storage.Memory.Coherence

/-!
# `Storage.Memory.Refine` — the in-memory backend computes the ledger

`Tracks s o L` ties a store to the ledger it stands for: its indexes are exact, its tables read off as
`L`, its options are `o`. Each operation of `Store` takes a tracking store to one that tracks the
corresponding ledger update, loops by the one fold rule `List.foldl_rel`. The last section puts
them together: `saveEvent` returns the ledger's verdict (`Tracks.saveEvent`) and every store a run
reaches is coherent (`coherent_run`).
-/

namespace Nula

open Std

namespace MemoryStore

variable {s : MemoryStore} {o : MemoryDatabaseOptions} {L : Ledger}

/-- The store has exact indexes and stands for `L` under the options `o`. -/
structure Tracks (s : MemoryStore) (o : MemoryDatabaseOptions) (L : Ledger) : Prop where
  indexed : Indexed s
  abs_eq : s.abs = L
  options_eq : s.options = o

namespace Tracks

theorem byId_eq (h : Tracks s o L) : s.byId = L.live := congrArg Ledger.live h.abs_eq

theorem deletedIds_eq (h : Tracks s o L) : s.deletedIds = L.deletedIds :=
  congrArg Ledger.deletedIds h.abs_eq

theorem deletedCoordinates_eq (h : Tracks s o L) : s.deletedCoordinates = L.deletedCoordinates :=
  congrArg Ledger.deletedCoordinates h.abs_eq

theorem vanishedAuthors_eq (h : Tracks s o L) : s.vanishedAuthors = L.vanishedAuthors :=
  congrArg Ledger.vanishedAuthors h.abs_eq

theorem keyed (h : Tracks s o L) : L.live.Keyed := h.byId_eq ▸ h.indexed.keyed

/-! ## Removal -/

theorem removeEventById (h : Tracks s o L) (id : EventId) :
    Tracks (s.removeEventById id) o { L with live := L.live.erase id } where
  indexed := h.indexed.removeEventById id
  abs_eq := by rw [removeEventById_abs, h.abs_eq, h.byId_eq]
  options_eq := by rw [removeEventById_options, h.options_eq]

theorem removeEventById' (h : Tracks s o L) (id : EventId) :
    Tracks (s.removeEventById id) o (L.keep (fun x => decide (x.id ≠ id))) := by
  have := h.removeEventById id
  rwa [h.keyed.erase_eq_filter] at this

/-- Removing a list of ids keeps the events whose id is not listed. -/
theorem removeAll (h : Tracks s o L) (ids : List EventId) :
    Tracks (ids.foldl MemoryStore.removeEventById s) o (L.keep (fun x => decide (x.id ∉ ids))) := by
  induction ids generalizing s L with
  | nil =>
      rw [Ledger.keep_eq_self (fun _ _ _ => by simp)]
      exact h
  | cons id ids ih =>
      have hstep : (L.keep (fun x => decide (x.id ≠ id))).keep (fun x => decide (x.id ∉ ids))
          = L.keep (fun x => decide (x.id ∉ id :: ids)) := by
        simp only [Ledger.keep_keep, List.mem_cons, not_or, Bool.decide_and, ne_eq]
      rw [List.foldl_cons, ← hstep]
      exact ih (h.removeEventById' id)

/-! ## Deletion requests -/

/-- **Deleting one id**: the event goes if it is the requester's, and the id is tombstoned. Three cases: the event is
    the requester's own, somebody else's, or not there, and then its id is tombstoned all the same. -/
theorem deleteId (h : Tracks s o L) (request : Event) (id : EventId) :
    Tracks (MemoryStore.deleteId request s id) o (L.deleteIds request [id]) := by
  unfold MemoryStore.deleteId
  split
  · rename_i target htarget
    rw [h.byId_eq] at htarget
    have hheld : ∀ (k : EventId) (x : Event), L.live[k]? = some x → x.id = id → x = target := by
      intro k x hx hid
      rw [← h.keyed k x hx, hid, htarget] at hx
      exact (Option.some.inj hx).symm
    by_cases hown : target.pubkey = request.pubkey
    · -- the requester's own event: removed and tombstoned
      rw [if_pos hown]
      have hrem := h.removeEventById' id
      refine ⟨hrem.indexed.frame _ _ _, ?_, hrem.options_eq⟩
      ext1
      · refine hrem.byId_eq.trans (LiveMap.filter_congr (fun k x hx => ?_))
        by_cases hid : x.id = id
        · simp [hheld k x hx hid, hown, h.keyed id target htarget]
        · simp [hid]
      · have ht : L.tombstones request id = true := by simp [Ledger.tombstones, htarget, hown]
        simp only [Ledger.deleteIds, List.filter_cons_of_pos ht, List.filter_nil, List.foldl_cons,
          List.foldl_nil]
        exact congrArg (fun d : HashSet EventId => d.insert id) hrem.deletedIds_eq
      · exact hrem.deletedCoordinates_eq
      · exact hrem.vanishedAuthors_eq
    · -- somebody else's event: nothing happens
      rw [if_neg hown]
      have ht : L.tombstones request id = false := by simp [Ledger.tombstones, htarget, hown]
      have hL : L.deleteIds request [id] = L := by
        ext1
        · refine LiveMap.filter_eq_self (fun k x hx => ?_)
          by_cases hid : x.id = id
          · simp [hheld k x hx hid, hown]
          · simp [hid]
        · simp [Ledger.deleteIds, ht]
        all_goals rfl
      rw [hL]
      exact h
  · -- nobody holds the id: tombstoned for whoever brings it
    rename_i hnone
    rw [h.byId_eq] at hnone
    refine ⟨h.indexed.frame _ _ _, ?_, h.options_eq⟩
    ext1
    · refine h.byId_eq.trans (LiveMap.filter_eq_self (fun k x hx => ?_)).symm
      have hid : x.id ≠ id := by
        intro hid
        rw [← h.keyed k x hx, hid, hnone] at hx
        cases hx
      simp [hid]
    · have ht : L.tombstones request id = true := by simp [Ledger.tombstones, hnone]
      simp only [Ledger.deleteIds, List.filter_cons_of_pos ht, List.filter_nil, List.foldl_cons,
        List.foldl_nil]
      exact congrArg (fun d : HashSet EventId => d.insert id) h.deletedIds_eq
    · exact h.deletedCoordinates_eq
    · exact h.vanishedAuthors_eq

theorem deleteIds (h : Tracks s o L) (request : Event) (ids : List EventId) :
    Tracks (ids.foldl (MemoryStore.deleteId request) s) o (L.deleteIds request ids) := by
  induction ids generalizing s L with
  | nil =>
      rw [Ledger.deleteIds_nil]
      exact h
  | cons id ids ih =>
      rw [← Ledger.deleteIds_cons]
      exact ih (h.deleteId request id)

/-- Inserting the raised stamp, or leaving a stamp that is high enough. -/
theorem insert_stamp_eq_bumpStamp (m : HashMap CoordKey Timestamp) (key : CoordKey) (ts : Timestamp) :
    (m.insert key (if m.getD key ts < ts then ts else m.getD key ts)) = bumpStamp m key ts := by
  rw [ExtTreeMap.getD_eq_getD_getElem?, bumpStamp]
  cases hm : m[key]? with
  | none => simp
  | some stamp =>
      simp only [Option.getD_some]
      split
      · rfl
      · apply ExtTreeMap.ext_getElem?
        intro k
        rw [ExtTreeMap.getElem?_insert]
        split
        · rename_i hk
          rw [← Std.compare_eq_iff_eq.mp hk, hm]
        · rfl

/-- What the lookup at a coordinate removes is what the filter drops. -/
theorem removeIncumbent (h : Tracks s o L) (hwf : L.WF) (request : Event) (c : Coordinate) :
    Tracks (match s.byCoordinate[c.key]? with
      | some incumbent =>
          if incumbent.createdAt ≤ request.createdAt then s.removeEventById incumbent.id else s
      | none => s) o (L.keep (fun x => !Ledger.covers request c x)) := by
  cases hinc : s.byCoordinate[c.key]? with
  | none =>
      rw [Ledger.keep_covers_of_none (fun k x hx hxc => ?_)]
      · exact h
      · have hxs := h.byId_eq ▸ hwf.live_id hx
        rw [(h.indexed.byCoordinate c.key x).mpr ⟨hxs, hxc⟩] at hinc
        cases hinc
  | some incumbent =>
      obtain ⟨hlive, hcoord⟩ := (h.indexed.byCoordinate c.key incumbent).mp hinc
      rw [h.byId_eq] at hlive
      rw [hwf.keep_covers hlive hcoord]
      dsimp only
      split
      · exact h.removeEventById' incumbent.id
      · exact h

/-- **Deleting a coordinate**: the event that is there goes if it is old enough, and the stamp is raised. -/
theorem deleteCoordinate (h : Tracks s o L) (hwf : L.WF) (request : Event) (c : Coordinate) :
    Tracks (MemoryStore.deleteCoordinate request s c) o (L.deleteCoordinate request c) := by
  unfold MemoryStore.deleteCoordinate Ledger.deleteCoordinate
  by_cases hc : c.author = request.pubkey
  · rw [if_neg (by simpa using hc), if_pos hc]
    have hrem := h.removeIncumbent hwf request c
    refine ⟨hrem.indexed.frame _ _ _, ?_, hrem.options_eq⟩
    ext1
    · exact hrem.byId_eq
    · exact hrem.deletedIds_eq
    · have hstamps := hrem.deletedCoordinates_eq
      dsimp only [abs]
      rw [insert_stamp_eq_bumpStamp]
      exact congrArg (fun m => bumpStamp m c.key request.createdAt) hstamps
    · exact hrem.vanishedAuthors_eq
  · rw [if_pos (by simpa using hc), if_neg hc]
    exact h

theorem applyDeletion (h : Tracks s o L) (hwf : L.WF) (request : Event) :
    Tracks (s.applyDeletion request) o (L.applyDeletion request) := by
  unfold MemoryStore.applyDeletion
  split
  · rename_i herr
    rw [Ledger.applyDeletion, herr]
    exact h
  · rename_i r hr
    rw [Ledger.applyDeletion_eq hr]
    have hids : Tracks (r.eventIds.foldl (MemoryStore.deleteId request) s) o
        (L.deleteIds request r.eventIds) := h.deleteIds request r.eventIds
    have hwf' : (L.deleteIds request r.eventIds).WF := hwf.mono (Ledger.deleteIds_below _ _ _)
    refine (List.foldl_rel (r := fun s L => Tracks s o L ∧ L.WF) ⟨hids, hwf'⟩ ?_).1
    rintro c _ s' L' ⟨hs', hL'⟩
    exact ⟨hs'.deleteCoordinate hL' request c, hL'.mono (Ledger.deleteCoordinate_below _ _ _)⟩

/-! ## Vanish requests -/

/-- A vanish request takes out the live events of its author, which are those in the bucket of the author. -/
theorem applyVanish (h : Tracks s o L) (author : PublicKey) :
    Tracks (s.applyVanish author) o (L.applyVanish author) := by
  have hmark : Tracks { s with vanishedAuthors := s.vanishedAuthors.insert author } o
      { L with vanishedAuthors := L.vanishedAuthors.insert author } := by
    refine ⟨h.indexed.frame _ _ _, ?_, h.options_eq⟩
    ext1
    · exact h.byId_eq
    · exact h.deletedIds_eq
    · exact h.deletedCoordinates_eq
    · exact congrArg (fun v : HashSet PublicKey => v.insert author) h.vanishedAuthors_eq
  have hrem := hmark.removeAll
    (((s.byAuthor[author]?).map (fun set => set.toList.map EventKey.id)).getD [])
  -- the author's bucket lists exactly the ids of the author's live events
  have hids : ∀ (k : EventId) (x : Event), L.live[k]? = some x →
      (x.id ∈ ((s.byAuthor[author]?).map (fun set => set.toList.map EventKey.id)).getD [] ↔
        x.pubkey = author) := by
    intro k x hx
    have hbucket : ((s.byAuthor[author]?).map (fun set => set.toList.map EventKey.id)).getD []
        = (s.byAuthor.getD author ∅).toList.map EventKey.id := by
      rw [ExtTreeMap.getD_eq_getD_getElem?]
      cases s.byAuthor[author]? with
      | none => simp
      | some set => rfl
    have hxs : s.byId[x.id]? = some x := by
      rw [h.byId_eq, h.keyed k x hx]
      exact hx
    rw [hbucket, List.mem_map]
    constructor
    · rintro ⟨key, hkey, hid⟩
      obtain ⟨e, he, hea, rfl⟩ := (h.indexed.byAuthor.mem author key).mp (ExtTreeSet.mem_toList.mp hkey)
      have hex : e = x := by
        rw [show e.id = x.id from hid, hxs] at he
        exact (Option.some.inj he).symm
      rw [← hex, hea]
    · intro hxa
      exact ⟨EventKey.fromEvent x, ExtTreeSet.mem_toList.mpr
        ((h.indexed.byAuthor.mem author _).mpr ⟨x, hxs, hxa, rfl⟩), rfl⟩
  have hL : Ledger.keep { L with vanishedAuthors := L.vanishedAuthors.insert author }
      (fun x => decide (x.id ∉ ((s.byAuthor[author]?).map
        (fun set => set.toList.map EventKey.id)).getD [])) = L.applyVanish author := by
    ext1
    · refine LiveMap.filter_congr (fun k x hx => ?_)
      rw [decide_eq_decide, not_iff_not]
      exact hids k x hx
    all_goals rfl
  rw [← hL]
  exact hrem

/-! ## Eviction -/

/-- **Eviction takes the oldest**, as the order of the index has it. -/
theorem evictLoop (h : Tracks s o L) (max fuel : Nat) :
    Tracks (MemoryStore.evictLoop max fuel s) o { L with live := Ledger.evict max fuel L.live } := by
  induction fuel generalizing s L with
  | zero => exact h
  | succ fuel ih =>
      rw [MemoryStore.evictLoop, Ledger.evict, h.byId_eq]
      split
      · exact h
      · have hlast : (s.byTime.toList.getLast?).map Prod.snd = (listing L.live).getLast? := by
          rw [← List.getLast?_map, h.indexed.byTime_values, h.byId_eq]
        cases hb : s.byTime.toList.getLast? with
        | none =>
            rw [hb] at hlast
            rw [← hlast]
            exact h
        | some p =>
            obtain ⟨key, e⟩ := p
            rw [hb] at hlast
            rw [← hlast]
            have hkey : key = EventKey.fromEvent e := ((h.indexed.byTime key e).mp
              (ExtTreeMap.mem_toList_iff_getElem?_eq_some.mp (List.mem_of_getLast? hb))).2
            dsimp only [Option.map_some]
            rw [hkey]
            exact ih (h.removeEventById e.id)

theorem enforceCapacity (h : Tracks s o L) : Tracks s.enforceCapacity o (L.enforceCapacity o) := by
  unfold MemoryStore.enforceCapacity Ledger.enforceCapacity
  rw [h.options_eq, h.byId_eq]
  cases o.maxEvents with
  | none => exact h
  | some max => exact h.evictLoop _ _

end Tracks

/-! ## Replacement -/

/-- The head of a bucket is the key of a live event of the bucket. -/
theorem Bucketed.head {κ : Type} [Ord κ] [TransOrd κ] {live : LiveMap} {g : Event → κ}
    {m : HashMap κ (BTreeSet EventKey)} (h : Bucketed live g m) {k : κ} {set : BTreeSet EventKey}
    (hset : m[k]? = some set) :
    ∃ x : Event, live[x.id]? = some x ∧ g x = k ∧ set.toList.head? = some (EventKey.fromEvent x) := by
  cases hhead : set.toList.head? with
  | none =>
      rw [List.head?_eq_none_iff, ExtTreeSet.toList_eq_nil_iff] at hhead
      exact absurd hhead (h.nonempty k set hset)
  | some key =>
      have hmem : key ∈ m.getD k ∅ := by
        rw [ExtTreeMap.getD_eq_getD_getElem?, hset]
        exact ExtTreeSet.mem_toList.mp (List.mem_of_mem_head? hhead)
      obtain ⟨x, hx, hg, rfl⟩ := (h.mem k key).mp hmem
      exact ⟨x, hx, hg, rfl⟩

namespace Tracks

/-- The replaceable rule finds a live rival, or there is none. -/
theorem resolveReplaceable (h : Tracks s o L) {e : Event} (he : e.kind.isReplaceable = true) :
    (∃ x : Event, L.live[x.id]? = some x ∧ rivals x e = true ∧
      s.resolveReplaceable e = some (pickLoser x e)) ∨
    ((∀ (k : EventId) (x : Event), L.live[k]? = some x → rivals x e = false) ∧
      s.resolveReplaceable e = none) := by
  unfold MemoryStore.resolveReplaceable
  cases hset : s.byKindAuthor[(e.kind, e.pubkey)]? with
  | none =>
      right
      refine ⟨unrivalled h.keyed (fun x hx hr => ?_), rfl⟩
      obtain ⟨hk, ha⟩ := (rivals_of_replaceable he).mp hr
      have hxs : s.byId[x.id]? = some x := h.byId_eq ▸ hx
      have := (h.indexed.byKindAuthor.mem (e.kind, e.pubkey) _).mpr ⟨x, hxs, by rw [hk, ha], rfl⟩
      rw [ExtTreeMap.getD_eq_getD_getElem?, hset] at this
      simp at this
  | some set =>
      left
      obtain ⟨x, hx, hg, hhead⟩ := Bucketed.head h.indexed.byKindAuthor hset
      simp only [Prod.mk.injEq] at hg
      refine ⟨x, h.byId_eq ▸ hx, (rivals_of_replaceable he).mpr hg, ?_⟩
      simp only [Option.bind_eq_bind, Option.bind_some, hhead]
      show (s.byId[x.id]?).bind _ = _
      rw [hx]
      rfl

/-- An addressable event takes its rival's place, if it wins. -/
theorem resolveAddressable (h : Tracks s o L) {e : Event} {c : CoordKey}
    (hc : addressableCoord e = some c) :
    (∃ x : Event, L.live[x.id]? = some x ∧ rivals x e = true ∧
      s.resolveAddressable e = some (pickLoser x e)) ∨
    ((∀ (k : EventId) (x : Event), L.live[k]? = some x → rivals x e = false) ∧
      s.resolveAddressable e = none) := by
  unfold MemoryStore.resolveAddressable
  rw [hc]
  simp only [Option.bind_eq_bind, Option.bind_some]
  cases hinc : s.byCoordinate[c]? with
  | none =>
      right
      refine ⟨unrivalled h.keyed (fun x hx hr => ?_), rfl⟩
      have hxs : s.byId[x.id]? = some x := h.byId_eq ▸ hx
      rw [(h.indexed.byCoordinate c x).mpr ⟨hxs, (rivals_of_addressable hc).mp hr⟩] at hinc
      cases hinc
  | some x =>
      left
      obtain ⟨hx, hxc⟩ := (h.indexed.byCoordinate c x).mp hinc
      exact ⟨x, h.byId_eq ▸ hx, (rivals_of_addressable hc).mpr hxc, rfl⟩

/-- Step 7 finds a live rival, or there is none. -/
theorem resolve (h : Tracks s o L) (e : Event) :
    (∃ x : Event, L.live[x.id]? = some x ∧ rivals x e = true ∧
      s.resolve e = some (pickLoser x e)) ∨
    ((∀ (k : EventId) (x : Event), L.live[k]? = some x → rivals x e = false) ∧
      s.resolve e = none) := by
  unfold MemoryStore.resolve
  cases hr : e.kind.isReplaceable with
  | true =>
      rcases h.resolveReplaceable hr with ⟨x, hx, hriv, hres⟩ | ⟨hno, hres⟩
      · left
        exact ⟨x, hx, hriv, by rw [hres]⟩
      · right
        refine ⟨hno, ?_⟩
        rw [hres, Kind.not_addressable_of_replaceable hr]
        rfl
  | false =>
      cases ha : e.kind.isAddressable with
      | true =>
          have hc : addressableCoord e = some (e.kind, e.pubkey, e.tags.identifier.getD "") := by
            rw [addressableCoord, if_pos ha]
          exact h.resolveAddressable hc
      | false =>
          right
          exact ⟨fun _ x _ => rivals_of_regular hr ha, rfl⟩

/-! ## Writes -/

/-- An event enters where nothing is in its way. -/
theorem insertEvent (h : Tracks s o L) {e : Event} (hfree : L.live[e.id]? = none)
    (hno : ∀ (k : EventId) (x : Event), L.live[k]? = some x → rivals x e = false) :
    Tracks (s.insertEvent e) o (L.enter e) where
  indexed := h.indexed.insertEvent (h.byId_eq ▸ hfree) (h.byId_eq ▸ hno)
  abs_eq := by rw [insertEvent_abs, h.abs_eq]
  options_eq := h.options_eq

/-- Steps 8 to 11, once the rivals are gone. The request is applied first, then the event enters, then the store is
    cut: each is the step of the ledger under the same condition. -/
theorem store {e : Event} (hwf : L.WF) (h : Tracks s o (L.keep (fun x => !rivals x e)))
    (hfree : L.live[e.id]? = none) : Tracks (s.store e) o (L.accept o e) := by
  unfold MemoryStore.store Ledger.accept
  have hprep : Tracks
      (if (if s.options.processNip09 && e.kind = Kind.eventDeletion then s.applyDeletion e
            else s).options.processNip62 && e.kind = Kind.requestToVanish then
          (if s.options.processNip09 && e.kind = Kind.eventDeletion then s.applyDeletion e
            else s).applyVanish e.pubkey
        else if s.options.processNip09 && e.kind = Kind.eventDeletion then s.applyDeletion e else s)
      o (L.prepare o e) := by
    have h9 : Tracks
        (if s.options.processNip09 && e.kind = Kind.eventDeletion then s.applyDeletion e else s) o
        (if o.processNip09 && e.kind = Kind.eventDeletion then
          (L.keep (fun x => !rivals x e)).applyDeletion e else L.keep (fun x => !rivals x e)) := by
      rw [h.options_eq]
      split
      · exact h.applyDeletion (hwf.mono (Ledger.keep_below L _)) e
      · exact h
    rw [h9.options_eq]
    unfold Ledger.prepare
    dsimp only
    split
    · exact h9.applyVanish e.pubkey
    · exact h9
  have hfree' : (L.prepare o e).live[e.id]? = none := by
    cases hx : (L.prepare o e).live[e.id]? with
    | none => rfl
    | some x =>
        have := Ledger.prepare_below o L e e.id x hx
        rw [hfree] at this
        cases this
  exact (hprep.insertEvent hfree' (fun k x hx => Ledger.prepare_not_rivals hx)).enforceCapacity

/-- Steps 7 to 11 for an event no earlier rule rejects. -/
theorem settle (h : Tracks s o L) (hwf : L.WF) {e : Event} (hfree : L.live[e.id]? = none) :
    (L.beaten e = true ∧ s.resolve e = some e.id) ∨
    (L.beaten e = false ∧ ∃ x : Event, x.id ≠ e.id ∧ s.resolve e = some x.id ∧
      Tracks ((s.removeEventById x.id).store e) o (L.accept o e)) ∨
    (L.beaten e = false ∧ s.resolve e = none ∧ Tracks (s.store e) o (L.accept o e)) := by
  rcases h.resolve e with ⟨x, hx, hriv, hres⟩ | ⟨hno, hres⟩
  · have hne : x.id ≠ e.id := by
      intro hid
      rw [hid, hfree] at hx
      cases hx
    obtain ⟨hbeaten, hkeep⟩ := hwf.rival hx hriv
    rw [show pickLoser x e = _ from loser_eq hne] at hres
    by_cases hp : x.precedes e
    · rw [if_pos hp] at hres
      exact Or.inl ⟨hbeaten.mpr hp, hres⟩
    · rw [if_neg hp] at hres
      refine Or.inr (Or.inl ⟨?_, x, hne, hres, Tracks.store hwf (hkeep ▸ h.removeEventById' x.id) hfree⟩)
      rw [Bool.eq_false_iff]
      exact fun hb => hp (hbeaten.mp hb)
  · obtain ⟨hb, hkeep⟩ := hwf.no_rival hno
    exact Or.inr (Or.inr ⟨hb, hres, Tracks.store hwf (hkeep.symm ▸ h) hfree⟩)

theorem stamped_eq (h : Tracks s o L) (e : Event) :
    (addressableCoord e).any (fun coord =>
      (s.deletedCoordinates[coord]?).any (fun deletedAt => decide (e.createdAt ≤ deletedAt)))
      = L.stamped e := by
  rw [h.deletedCoordinates_eq, Ledger.stamped]
  cases addressableCoord e with
  | none => rfl
  | some coord =>
      dsimp only [Option.any_some]
      cases L.deletedCoordinates[coord]? with
      | none => rfl
      | some deletedAt => rfl

/-- **A save returns the ledger's verdict and leaves a store that stands for the ledger's outcome.** The refusals are
    compared one by one, and what is accepted is `store`, behind the rival it displaces. -/
theorem saveEvent (h : Tracks s o L) (hwf : L.WF) (e : Event) (now : Timestamp) :
    (s.saveEvent e now).1 = (L.saveEvent o e now).1 ∧
      Tracks (s.saveEvent e now).2 o (L.saveEvent o e now).2 := by
  unfold MemoryStore.saveEvent Ledger.saveEvent Ledger.refusal
  rw [h.stamped_eq, h.options_eq, h.vanishedAuthors_eq, h.deletedIds_eq, h.byId_eq]
  -- the six refusals in the source's order, which is the ledger's
  by_cases h1 : (o.processNip62 && L.vanishedAuthors.contains e.pubkey) = true
  · rw [if_pos h1, if_pos h1]
    exact ⟨rfl, h⟩
  rw [if_neg h1, if_neg h1]
  by_cases h2 : e.kind.isEphemeral = true
  · rw [if_pos h2, if_pos h2]
    exact ⟨rfl, h⟩
  rw [if_neg h2, if_neg h2]
  by_cases h3 : e.deadOnArrival now = true
  · rw [if_pos h3, if_pos h3]
    exact ⟨rfl, h⟩
  rw [if_neg h3, if_neg h3]
  by_cases h4 : L.deletedIds.contains e.id = true
  · rw [if_pos h4, if_pos h4]
    exact ⟨rfl, h⟩
  rw [if_neg h4, if_neg h4]
  by_cases h5 : L.stamped e = true
  · rw [if_pos h5, if_pos h5]
    exact ⟨rfl, h⟩
  rw [if_neg h5, if_neg h5]
  by_cases h6 : L.live.contains e.id = true
  · rw [if_pos h6, if_pos h6]
    exact ⟨rfl, h⟩
  rw [if_neg h6, if_neg h6]
  have hfree : L.live[e.id]? = none :=
    ExtTreeMap.getElem?_eq_none_of_contains_eq_false (Bool.eq_false_iff.mpr h6)
  -- beaten by a rival, in its place, or without one
  rcases h.settle hwf hfree with ⟨hb, hres⟩ | ⟨hb, x, hne, hres, hst⟩ | ⟨hb, hres, hst⟩
  · rw [hres, if_pos hb]
    dsimp only
    rw [if_pos rfl]
    exact ⟨rfl, h⟩
  · rw [hres, if_neg (by simp [hb])]
    dsimp only
    rw [if_neg hne]
    exact ⟨rfl, hst⟩
  · rw [hres, if_neg (by simp [hb])]
    exact ⟨rfl, hst⟩

/-- An administrative deletion takes what the query finds. -/
theorem deleteMatching (h : Tracks s o L) (f : Filter) :
    Tracks (s.deleteMatching f) o
      (L.keep (fun x => decide (x.id ∉ (s.queryKeys f).map EventKey.id))) :=
  h.removeAll _

theorem new (o : MemoryDatabaseOptions) : Tracks (MemoryStore.new o) o Ledger.empty :=
  ⟨indexed_new o, rfl, rfl⟩

/-! ## Runs -/

/-- One write of the store is one step of its ledger. -/
theorem step (h : Tracks s o L) (hwf : L.WF) (op : StoreOp) :
    ∃ L', Ledger.Step o op L L' ∧ Tracks (s.step op) o L' := by
  cases op with
  | saveEvent e now => exact ⟨_, .saveEvent e now L, (h.saveEvent hwf e now).2⟩
  | deleteMatching f => exact ⟨_, .deleteMatching f _ L, h.deleteMatching f⟩
  | wipe =>
      refine ⟨_, .wipe L, ?_⟩
      have := Tracks.new s.options
      rw [h.options_eq] at this
      rw [MemoryStore.step, MemoryStore.wipe, h.options_eq]
      exact this

/-- **Every run tracks a run of the ledger**, by induction on the operations. -/
theorem steps (h : Tracks s o L) (hwf : L.WF) (ops : List StoreOp) :
    ∃ L', Ledger.Runs o ops L L' ∧ Tracks (ops.foldl MemoryStore.step s) o L' := by
  induction ops generalizing s L with
  | nil => exact ⟨L, .nil L, h⟩
  | cons op ops ih =>
      obtain ⟨L₁, hs, h₁⟩ := h.step hwf op
      obtain ⟨L₂, hr, h₂⟩ := ih h₁ (hs.wf hwf)
      exact ⟨L₂, .cons hs hr, h₂⟩

/-- A save or a wipe is the reference step. -/
theorem step_reference (h : Tracks s o L) (hwf : L.WF) {op : StoreOp}
    (hop : ∀ f, op ≠ .deleteMatching f) : Tracks (s.step op) o (L.step o op) := by
  cases op with
  | saveEvent e now => exact (h.saveEvent hwf e now).2
  | deleteMatching f => exact absurd rfl (hop f)
  | wipe =>
      obtain ⟨_, hs, h'⟩ := h.step hwf .wipe
      cases hs
      exact h'

end Tracks

/-- Without administrative deletes, the store computes the reference run. -/
theorem run_reference (o : MemoryDatabaseOptions) {ops : List StoreOp}
    (hops : ∀ op ∈ ops, ∀ f, op ≠ .deleteMatching f) : Tracks (run o ops) o (Ledger.run o ops) := by
  refine (List.foldl_rel (r := fun s L => Tracks s o L ∧ L.WF) ⟨Tracks.new o, Ledger.wf_empty⟩ ?_).1
  rintro op hop s L ⟨h, hwf⟩
  exact ⟨h.step_reference hwf (hops op hop), (Ledger.step_spec o L op).wf hwf⟩

/-- Every run of the store is a run of ledgers. -/
theorem run_tracks (o : MemoryDatabaseOptions) (ops : List StoreOp) :
    ∃ L, Ledger.Runs o ops .empty L ∧ Tracks (run o ops) o L :=
  (Tracks.new o).steps Ledger.wf_empty ops

/-- The indexes are exact, each slot has one holder, and the cap is respected. -/
structure Coherent (s : MemoryStore) : Prop where
  indexed : Indexed s
  replaceable : ∀ x y : Event, s.byId[x.id]? = some x → s.byId[y.id]? = some y →
    x.kind.isReplaceable = true → x.kind = y.kind → x.pubkey = y.pubkey → x = y
  addressable : ∀ (x y : Event) (c : CoordKey), s.byId[x.id]? = some x → s.byId[y.id]? = some y →
    addressableCoord x = some c → addressableCoord y = some c → x = y
  capacity : ∀ n : ℕ+, s.options.maxEvents = some n → s.byId.size ≤ n

/-- **Index coherence**: every store reached by saves, administrative deletes and wipes is coherent.

    Each operation keeps the indexes the image of the live events (`Tracks.steps`), and the ledger one event per
    slot within the capacity (`Ledger.Runs.sound`). -/
theorem coherent_run (o : MemoryDatabaseOptions) (ops : List StoreOp) : Coherent (run o ops) := by
  obtain ⟨L, hrun, h⟩ := run_tracks o ops
  obtain ⟨hwf, hb⟩ := hrun.sound
  refine ⟨h.indexed, ?_, ?_, ?_⟩
  · intro x y hx hy hr hk ha
    rw [h.byId_eq] at hx hy
    have hriv : rivals y x = true := (rivals_of_replaceable hr).mpr ⟨hk.symm, ha.symm⟩
    exact (hwf.unique y x hy hx hriv).symm
  · intro x y c hx hy hxc hyc
    rw [h.byId_eq] at hx hy
    exact hwf.unique x y hx hy ((rivals_of_addressable hyc).mpr hxc)
  · intro n hn
    rw [h.options_eq] at hn
    rw [h.byId_eq]
    exact hb n hn

end MemoryStore

end Nula
