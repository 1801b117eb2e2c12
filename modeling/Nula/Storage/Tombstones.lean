import Nula.Storage.Memory.Refine
import Nula.Storage.Redb.Refine

/-!
# `Storage.Tombstones` — no tombstoned event is live

What an accepted event changes is said once per component of the ledger: which events survive it
(`prepare_live`), which ids it tombstones (`accept_deletedIds`), which stamps it raises (`accept_stamp`). The
invariant `Buried` follows: what is live is neither tombstoned by id nor covered by the stamp of its
coordinate. It is kept by every write except a deletion request that names its own id, which a verified
event cannot do. Tombstones only grow until a wipe (`Step.grows`).
-/

namespace Nula

open Std

/-! ## Stamps -/

/-- The stamp after a request made at `ts`. -/
def raised (old : Option Timestamp) (ts : Timestamp) : Timestamp :=
  match old with
  | none => ts
  | some stamp => if stamp < ts then ts else stamp

/-- A stamp is raised to the given time at least. -/
theorem le_raised (old : Option Timestamp) (ts : Timestamp) : ts ≤ raised old ts := by
  unfold raised
  split
  · exact UInt64.le_refl ts
  · split
    · exact UInt64.le_refl ts
    · rename_i h
      exact UInt64.not_lt.mp h

theorem le_raised_of_some {old : Option Timestamp} {stamp : Timestamp} (h : old = some stamp)
    (ts : Timestamp) : stamp ≤ raised old ts := by
  subst h
  show stamp ≤ if stamp < ts then ts else stamp
  split
  · rename_i hlt
    exact UInt64.le_of_lt hlt
  · exact UInt64.le_refl stamp

/-- A raised stamp is the old one or the request's time. -/
theorem raised_cases (old : Option Timestamp) (ts : Timestamp) :
    raised old ts = ts ∨ old = some (raised old ts) := by
  unfold raised
  split
  · exact Or.inl rfl
  · split
    · exact Or.inl rfl
    · exact Or.inr rfl

/-- Raising it again to the same time does nothing. -/
theorem raised_raised (old : Option Timestamp) (ts : Timestamp) :
    raised (some (raised old ts)) ts = raised old ts := by
  have h : ¬ raised old ts < ts := UInt64.not_lt.mpr (le_raised old ts)
  rw [raised, if_neg h]

theorem getElem?_bumpStamp (m : HashMap CoordKey Timestamp) (k c : CoordKey) (ts : Timestamp) :
    (bumpStamp m k ts)[c]? = if k = c then some (raised m[c]? ts) else m[c]? := by
  have hinsert : (m.insert k ts)[c]? = if k = c then some ts else m[c]? := by
    rw [ExtTreeMap.getElem?_insert]
    simp only [Std.compare_eq_iff_eq]
  unfold bumpStamp
  by_cases hk : k = c
  · subst hk
    rw [if_pos rfl]
    cases hm : m[k]? with
    | none =>
        show (m.insert k ts)[k]? = some ts
        rw [hinsert, if_pos rfl]
    | some stamp =>
        show (if stamp < ts then m.insert k ts else m)[k]? = some (if stamp < ts then ts else stamp)
        split
        · rw [hinsert, if_pos rfl]
        · exact hm
  · rw [if_neg hk]
    split
    · rw [hinsert, if_neg hk]
    · split
      · rw [hinsert, if_neg hk]
      · rfl

/-- A request raises the stamps of the coordinates it names. -/
theorem getElem?_foldl_bumpStamp (cs : List Coordinate) (m : HashMap CoordKey Timestamp)
    (ts : Timestamp) (c : CoordKey) :
    (cs.foldl (fun m x => bumpStamp m x.key ts) m)[c]?
      = if ∃ x ∈ cs, x.key = c then some (raised m[c]? ts) else m[c]? := by
  induction cs generalizing m with
  | nil => simp
  | cons x cs ih =>
      rw [List.foldl_cons, ih, getElem?_bumpStamp]
      by_cases hx : x.key = c
      · have hhead : ∃ y ∈ x :: cs, y.key = c := ⟨x, List.mem_cons_self, hx⟩
        rw [if_pos hx, raised_raised, ite_self, if_pos hhead]
      · rw [if_neg hx]
        have hiff : (∃ y ∈ x :: cs, y.key = c) ↔ ∃ y ∈ cs, y.key = c := by
          simp [hx]
        simp only [hiff]

namespace Ledger

variable {o : MemoryDatabaseOptions} {L L' : Ledger}

/-! ## What an accepted event changes -/

/-- The deletion request that an accepted event carries out, if any. -/
def requestOf (o : MemoryDatabaseOptions) (e : Event) : Option DeletionRequest :=
  if o.processNip09 then (DeletionRequest.fromEvent e).toOption else none

/-- What is served is a deletion, where deletions are served. -/
theorem requestOf_fromEvent {e : Event} {r : DeletionRequest} (h : requestOf o e = some r) :
    o.processNip09 = true ∧ DeletionRequest.fromEvent e = .ok r := by
  unfold requestOf at h
  split at h
  · rename_i ho
    refine ⟨ho, ?_⟩
    cases hf : DeletionRequest.fromEvent e with
    | error err => rw [hf] at h; cases h
    | ok r' => rw [hf] at h; rw [Option.some.inj h]
  · cases h

theorem fromEvent_kind {e : Event} {r : DeletionRequest} (h : DeletionRequest.fromEvent e = .ok r) :
    e.kind = Kind.eventDeletion := by
  unfold DeletionRequest.fromEvent at h
  split at h
  · cases h
  · rename_i hk
    exact not_not.mp hk

/-- A deletion request competes for no slot. -/
theorem keep_rivals_request (L : Ledger) {e : Event} (h : e.kind = Kind.eventDeletion) :
    L.keep (fun x => !rivals x e) = L := by
  refine keep_eq_self (fun k x _ => ?_)
  rw [rivals_of_regular (by rw [h]; decide) (by rw [h]; decide)]
  rfl

/-- The ledger once the event's rivals are gone and its request, if any, is carried out. -/
def served (o : MemoryDatabaseOptions) (L : Ledger) (e : Event) : Ledger :=
  match requestOf o e with
  | some _ => L.applyDeletion e
  | none => L.keep (fun x => !rivals x e)

/-- **Making way** serves a deletion, and then lets the author vanish who asks for it. -/
theorem prepare_eq (o : MemoryDatabaseOptions) (L : Ledger) (e : Event) :
    L.prepare o e = if o.processNip62 && e.kind = Kind.requestToVanish then
        (L.served o e).applyVanish e.pubkey
      else L.served o e := by
  have hserved : (if o.processNip09 && e.kind = Kind.eventDeletion then
        (L.keep (fun x => !rivals x e)).applyDeletion e
      else L.keep (fun x => !rivals x e)) = L.served o e := by
    unfold served
    cases hr : requestOf o e with
    | some r =>
        obtain ⟨ho, hf⟩ := requestOf_fromEvent hr
        have hk := fromEvent_kind hf
        rw [if_pos (by simp [ho, hk]), keep_rivals_request L hk]
    | none =>
        dsimp only
        split
        · rename_i hc
          rw [Bool.and_eq_true, decide_eq_true_eq] at hc
          -- a request that does not parse has no effect
          unfold applyDeletion
          cases hf : DeletionRequest.fromEvent e with
          | error err => rfl
          | ok r =>
              rw [requestOf, if_pos hc.1, hf] at hr
              cases hr
        · rfl
  unfold prepare
  dsimp only
  rw [hserved]

/-- What is left: what is no rival, and what the deletion does not name. -/
theorem served_live {e x : Event} {id : EventId} :
    (L.served o e).live[id]? = some x ↔ L.live[id]? = some x ∧ rivals x e = false ∧
      ∀ r, requestOf o e = some r → r.deletes e x = false := by
  unfold served
  cases hr : requestOf o e with
  | none => simp [keep_live]
  | some r =>
      have hf := (requestOf_fromEvent hr).2
      have hk := fromEvent_kind hf
      have hriv : rivals x e = false := rivals_of_regular (by rw [hk]; decide) (by rw [hk]; decide)
      show (L.applyDeletion e).live[id]? = some x ↔ _
      rw [applyDeletion, hf]
      simp only [ExtTreeMap.getElem?_filter', Option.filter_eq_some_iff, Bool.not_eq_true', hriv,
        Option.some.injEq, forall_eq', true_and]

@[simp] theorem served_vanishedAuthors (o : MemoryDatabaseOptions) (L : Ledger) (e : Event) :
    (L.served o e).vanishedAuthors = L.vanishedAuthors := by
  unfold served
  split
  · exact applyDeletion_vanishedAuthors L e
  · rfl

/-- What survives an accepted event: what is no rival of it, what its request spares, and, if it is a
    vanish request, what others wrote. -/
theorem prepare_live {e x : Event} {id : EventId} :
    (L.prepare o e).live[id]? = some x ↔ L.live[id]? = some x ∧ rivals x e = false ∧
      (∀ r, requestOf o e = some r → r.deletes e x = false) ∧
      (o.processNip62 = true → e.kind = Kind.requestToVanish → x.pubkey ≠ e.pubkey) := by
  rw [prepare_eq]
  split
  · rename_i hv
    rw [Bool.and_eq_true, decide_eq_true_eq] at hv
    show ((L.served o e).keep (fun x => decide (x.pubkey ≠ e.pubkey))).live[id]? = some x ↔ _
    rw [keep_live, served_live]
    simp [hv.1, hv.2, and_assoc]
  · rename_i hv
    rw [Bool.and_eq_true, decide_eq_true_eq] at hv
    rw [served_live]
    constructor
    · rintro ⟨hl, hriv, hdel⟩
      exact ⟨hl, hriv, hdel, fun h62 hk => absurd ⟨h62, hk⟩ hv⟩
    · rintro ⟨hl, hriv, hdel, _⟩
      exact ⟨hl, hriv, hdel⟩

/-- What is live after an accepted event is the event, or survived it. -/
theorem accept_live {e x : Event} {id : EventId} (h : (L.accept o e).live[id]? = some x) :
    (id = e.id ∧ x = e) ∨ (id ≠ e.id ∧ (L.prepare o e).live[id]? = some x) :=
  (enter_live _ e).mp (enforceCapacity_below o _ id x h)

/-- The ids an accepted event tombstones. -/
theorem accept_deletedIds (o : MemoryDatabaseOptions) (L : Ledger) (e : Event) (id : EventId) :
    (L.accept o e).deletedIds.contains id = true ↔ L.deletedIds.contains id = true ∨
      ∃ r, requestOf o e = some r ∧ id ∈ r.eventIds ∧ L.tombstones e id = true := by
  have hserved : (L.accept o e).deletedIds = (L.served o e).deletedIds := by
    rw [accept, enforceCapacity_deletedIds, enter_deletedIds, prepare_eq]
    split <;> rfl
  rw [hserved, served]
  cases hr : requestOf o e with
  | none => simp
  | some r =>
      show (L.applyDeletion e).deletedIds.contains id = true ↔ _
      rw [applyDeletion, (requestOf_fromEvent hr).2]
      show ((r.eventIds.filter (L.tombstones e)).foldl ExtTreeSet.insert L.deletedIds).contains id = true ↔ _
      rw [contains_foldl_insert, List.mem_filter]
      simp

/-- The stamps an accepted event raises. -/
theorem accept_stamp (o : MemoryDatabaseOptions) (L : Ledger) (e : Event) (c : CoordKey) :
    (L.accept o e).deletedCoordinates[c]? =
      if ∃ r, requestOf o e = some r ∧ ∃ x ∈ r.coordinates, x.author = e.pubkey ∧ x.key = c then
        some (raised L.deletedCoordinates[c]? e.createdAt)
      else L.deletedCoordinates[c]? := by
  have hserved : (L.accept o e).deletedCoordinates = (L.served o e).deletedCoordinates := by
    rw [accept, enforceCapacity_deletedCoordinates, enter_deletedCoordinates, prepare_eq]
    split <;> rfl
  rw [hserved, served]
  cases hr : requestOf o e with
  | none => simp
  | some r =>
      show (L.applyDeletion e).deletedCoordinates[c]? = _
      rw [applyDeletion, (requestOf_fromEvent hr).2]
      dsimp only
      rw [getElem?_foldl_bumpStamp]
      simp only [List.mem_filter, decide_eq_true_eq, and_assoc, Option.some.injEq, exists_eq_left']

/-- The authors on record after an accepted event. -/
theorem accept_vanished (o : MemoryDatabaseOptions) (L : Ledger) (e : Event) (a : PublicKey) :
    (L.accept o e).vanishedAuthors.contains a = true ↔ L.vanishedAuthors.contains a = true ∨
      (o.processNip62 = true ∧ e.kind = Kind.requestToVanish ∧ a = e.pubkey) := by
  rw [accept, enforceCapacity_vanishedAuthors, enter_vanishedAuthors, prepare_eq]
  split
  · rename_i hp
    rw [Bool.and_eq_true, decide_eq_true_eq] at hp
    show ((L.served o e).vanishedAuthors.insert e.pubkey).contains a = true ↔ _
    rw [served_vanishedAuthors, ExtTreeSet.contains_insert]
    simp only [Bool.or_eq_true, beq_iff_eq, Std.compare_eq_iff_eq, hp, true_and]
    rw [or_comm, @eq_comm _ e.pubkey a]
  · rename_i hp
    rw [Bool.and_eq_true, decide_eq_true_eq] at hp
    rw [served_vanishedAuthors]
    refine (or_iff_left ?_).symm
    rintro ⟨h1, h2, _⟩
    exact hp ⟨h1, h2⟩

/-! ## Buried events stay buried -/

/-- A live event is neither tombstoned nor covered by the stamp of its coordinate. -/
structure Buried (L : Ledger) : Prop where
  ids : ∀ (id : EventId) (x : Event), L.live[id]? = some x → L.deletedIds.contains id = false
  stamps : ∀ (id : EventId) (x : Event), L.live[id]? = some x → L.stamped x = false

theorem buried_empty : Buried empty where
  ids := by intro id x h; simp [empty] at h
  stamps := by intro id x h; simp [empty] at h

theorem Buried.keep (h : Buried L) (p : Event → Bool) : Buried (L.keep p) where
  ids := fun id x hx => h.ids id x ((keep_live L).mp hx).1
  stamps := fun id x hx => h.stamps id x ((keep_live L).mp hx).1

/-- An event is stamped when its coordinate's stamp is not before it. -/
theorem stamped_iff {x : Event} : L.stamped x = true ↔
    ∃ c ts, addressableCoord x = some c ∧ L.deletedCoordinates[c]? = some ts ∧ x.createdAt ≤ ts := by
  unfold stamped
  cases hc : addressableCoord x with
  | none => simp
  | some c =>
      dsimp only
      cases hts : L.deletedCoordinates[c]? with
      | none =>
          refine iff_of_false (by simp) ?_
          rintro ⟨c', ts, hc', hts', _⟩
          rw [← Option.some.inj hc', hts] at hts'
          cases hts'
      | some ts =>
          show decide (x.createdAt ≤ ts) = true ↔ _
          rw [decide_eq_true_eq]
          constructor
          · intro hle
            exact ⟨c, ts, rfl, hts, hle⟩
          · rintro ⟨c', ts', hc', hts', hle⟩
            rw [← Option.some.inj hc', hts] at hts'
            rw [Option.some.inj hts']
            exact hle

/-- An addressable event is not covered when its coordinate's stamp is older. -/
theorem stamped_eq_false_iff {x : Event} : L.stamped x = false ↔
    ∀ c ts, addressableCoord x = some c → L.deletedCoordinates[c]? = some ts → ts < x.createdAt := by
  rw [Bool.eq_false_iff, ne_eq, stamped_iff]
  constructor
  · intro h c ts hc hts
    rw [← UInt64.not_le]
    exact fun hle => h ⟨c, ts, hc, hts, hle⟩
  · rintro h ⟨c, ts, hc, hts, hle⟩
    exact UInt64.not_le.mpr (h c ts hc hts) hle

/-- A deletion request that names its own id. -/
def namesItself (e : Event) : Bool :=
  match DeletionRequest.fromEvent e with
  | .ok r => decide (e.id ∈ r.eventIds)
  | .error _ => false

/-- An accepted event is not buried, by what was there before or by itself. -/
theorem accept_self {e : Event} {now : Timestamp} (hacc : L.refusal o e now = none)
    (hself : namesItself e = false) :
    (L.accept o e).deletedIds.contains e.id = false ∧ (L.accept o e).stamped e = false := by
  obtain ⟨_, _, _, hid, hst, _, _⟩ := refusal_eq_none_iff.mp hacc
  constructor
  · rw [Bool.eq_false_iff, ne_eq, accept_deletedIds]
    rintro (h | ⟨r, hr, hmem, _⟩)
    · rw [hid] at h
      cases h
    · simp [namesItself, (requestOf_fromEvent hr).2, hmem] at hself
  · rw [stamped_eq_false_iff] at hst ⊢
    intro c ts hc hts
    rw [accept_stamp, if_neg] at hts
    · exact hst c ts hc hts
    · -- a request is not addressable
      rintro ⟨r, hr, _⟩
      have hk := fromEvent_kind (requestOf_fromEvent hr).2
      have := (addressableCoord_kind hc).1
      rw [hk] at this
      cases this

/-- What survives an accepted event is not buried by it. A tombstone or a stamp is old, and then the invariant
    applies, or it is the event's own, and then the survivor was spared by it. -/
theorem Buried.survivor (h : Buried L) {e x : Event} {id : EventId} (hk : L.live.Keyed)
    (hx : (L.prepare o e).live[id]? = some x) :
    (L.accept o e).deletedIds.contains id = false ∧ (L.accept o e).stamped x = false := by
  obtain ⟨hl, _, hspared, _⟩ := prepare_live.mp hx
  constructor
  · rw [Bool.eq_false_iff, ne_eq, accept_deletedIds]
    rintro (hd | ⟨r, hr, hmem, htomb⟩)
    · rw [h.ids id x hl] at hd
      cases hd
    · -- the id is live, so the request owns the event and deletes it
      rw [tombstones, hl] at htomb
      have hdel := hspared r hr
      rw [← hk id x hl] at hmem
      simp only [DeletionRequest.deletes, hmem, htomb, decide_true, Bool.true_or, Bool.and_self] at hdel
      cases hdel
  · have hst := h.stamps id x hl
    rw [stamped_eq_false_iff] at hst ⊢
    intro c ts hc hts
    rw [accept_stamp] at hts
    split at hts
    · rename_i hnamed
      obtain ⟨r, hr, y, hy, hya, hyc⟩ := hnamed
      have hspare := hspared r hr
      have hnewer : e.createdAt < x.createdAt := by
        rw [← UInt64.not_le]
        intro hle
        have hxa : x.pubkey = e.pubkey := by
          rw [← (addressableCoord_kind hc).2.2, ← hyc]
          exact hya
        have hat : r.coordinates.any (fun c => addressableCoord x = some c.key) = true :=
          List.any_eq_true.mpr ⟨y, hy, by rw [hc, hyc, decide_eq_true_eq]⟩
        simp only [DeletionRequest.deletes, hxa, hat, hle, decide_true, Bool.and_self, Bool.or_true] at hspare
        cases hspare
      obtain rfl := Option.some.inj hts
      rcases raised_cases L.deletedCoordinates[c]? e.createdAt with heq | hold
      · rw [heq]
        exact hnewer
      · exact hst c _ hc hold
    · exact hst c ts hc hts

/-- **A write buries nothing that is live afterwards**, unless it is a request naming itself. -/
theorem Step.buried {op : StoreOp} (h : Step o op L L') (hwf : WF L) (hb : Buried L)
    (hself : ∀ e now, op = .saveEvent e now → namesItself e = false) : Buried L' := by
  cases h with
  | saveEvent e now =>
      rcases saveEvent_cases o L e now with ⟨reason, _, heq⟩ | ⟨hacc, heq⟩
      · rw [heq]
        exact hb
      · rw [heq]
        have hnew := accept_self hacc (hself e now rfl)
        have hold : ∀ (id : EventId) (x : Event), (L.accept o e).live[id]? = some x →
            (L.accept o e).deletedIds.contains id = false ∧ (L.accept o e).stamped x = false := by
          intro id x hx
          rcases accept_live hx with ⟨rfl, rfl⟩ | ⟨_, hx⟩
          · exact hnew
          · exact hb.survivor hwf.keyed hx
        exact ⟨fun id x hx => (hold id x hx).1, fun id x hx => (hold id x hx).2⟩
  | deleteMatching f p => exact hb.keep p
  | wipe => exact buried_empty

/-- Every ledger reached without a request naming itself is buried. -/
theorem Runs.buried {ops : List StoreOp} (hrun : Runs o ops empty L)
    (hself : ∀ e now, .saveEvent e now ∈ ops → namesItself e = false) : Buried L := by
  refine (hrun.invariant (I := fun L => WF L ∧ Buried L) ?_ ⟨wf_empty, buried_empty⟩).2
  rintro op hop L L' ⟨hwf, hb⟩ hs
  refine ⟨hs.wf hwf, hs.buried hwf hb ?_⟩
  rintro e now rfl
  exact hself e now hop

/-! ## Tombstones only grow -/

/-- Every tombstone of `L` is one of `L'`, and no stamp has gone back. -/
structure Grows (L L' : Ledger) : Prop where
  ids : ∀ id, L.deletedIds.contains id = true → L'.deletedIds.contains id = true
  stamps : ∀ (c : CoordKey) (ts : Timestamp), L.deletedCoordinates[c]? = some ts →
    ∃ ts', L'.deletedCoordinates[c]? = some ts' ∧ ts ≤ ts'

theorem Grows.refl (L : Ledger) : Grows L L where
  ids := fun _ h => h
  stamps := fun _ ts h => ⟨ts, h, UInt64.le_refl ts⟩

theorem Grows.trans {L₁ L₂ L₃ : Ledger} (h : Grows L₁ L₂) (h' : Grows L₂ L₃) : Grows L₁ L₃ where
  ids := fun id hid => h'.ids id (h.ids id hid)
  stamps := by
    intro c ts hts
    obtain ⟨ts₂, h₂, hle⟩ := h.stamps c ts hts
    obtain ⟨ts₃, h₃, hle'⟩ := h'.stamps c ts₂ h₂
    exact ⟨ts₃, h₃, UInt64.le_trans hle hle'⟩

theorem accept_grows (o : MemoryDatabaseOptions) (L : Ledger) (e : Event) : Grows L (L.accept o e) where
  ids := fun id hid => (accept_deletedIds o L e id).mpr (Or.inl hid)
  stamps := by
    intro c ts hts
    rw [accept_stamp]
    split
    · exact ⟨_, rfl, le_raised_of_some hts e.createdAt⟩
    · exact ⟨ts, hts, UInt64.le_refl ts⟩

/-- **No operation but a wipe takes a tombstone away.** -/
theorem Step.grows {op : StoreOp} (h : Step o op L L') (hop : op ≠ .wipe) : Grows L L' := by
  cases h with
  | saveEvent e now =>
      rcases saveEvent_cases o L e now with ⟨reason, _, heq⟩ | ⟨_, heq⟩
      · rw [heq]
        exact Grows.refl L
      · rw [heq]
        exact accept_grows o L e
  | deleteMatching f p => exact ⟨fun _ h => h, fun _ ts h => ⟨ts, h, UInt64.le_refl ts⟩⟩
  | wipe => exact absurd rfl hop

theorem Runs.grows {ops : List StoreOp} (hrun : Runs o ops L L') (hops : .wipe ∉ ops) : Grows L L' := by
  refine hrun.invariant (I := Grows L) (fun op hop L₁ L₂ h₁ hs => ?_) (Grows.refl L)
  exact h₁.trans (hs.grows (fun hw => hops (hw ▸ hop)))

end Ledger

/-! ## The two backends -/

/-- No id is stored and tombstoned, and no stored addressable event is as old as its coordinate's stamp. -/
structure MemoryStore.Buried (s : MemoryStore) : Prop where
  ids : ∀ id, s.byId.contains id = true → s.deletedIds.contains id = false
  stamps : ∀ (x : Event) (c : CoordKey) (ts : Timestamp), s.byId[x.id]? = some x →
    addressableCoord x = some c → s.deletedCoordinates[c]? = some ts → ts < x.createdAt

/-- The same of the tables. -/
structure Redb.Buried (pc : Postcard) (t : Tables) : Prop where
  ids : ∀ k, k ∈ t.events → k ∉ t.deletedIds
  stamps : ∀ (x : Event) (d : String) (ts : Timestamp), Stored pc t x → addressableIdentifier x = some d →
    t.deletedCoordinates[Keys.byCoordinate x.kind x.pubkey d]? = some ts → ts < x.createdAt

/-- No tombstone is lost and no stamp goes back. -/
structure MemoryStore.Grows (s s' : MemoryStore) : Prop where
  ids : ∀ id, s.deletedIds.contains id = true → s'.deletedIds.contains id = true
  stamps : ∀ (c : CoordKey) (ts : Timestamp), s.deletedCoordinates[c]? = some ts →
    ∃ ts', s'.deletedCoordinates[c]? = some ts' ∧ ts ≤ ts'

/-- The same of the tables. -/
structure Redb.Grows (t t' : Tables) : Prop where
  ids : ∀ id : EventId, id.bytes ∈ t.deletedIds → id.bytes ∈ t'.deletedIds
  stamps : ∀ (kind : Kind) (author : PublicKey) (d : String) (ts : Timestamp),
    t.deletedCoordinates[Keys.byCoordinate kind author d]? = some ts →
    ∃ ts', t'.deletedCoordinates[Keys.byCoordinate kind author d]? = some ts' ∧ ts ≤ ts'

section Transfer

variable {pc : Postcard} {s s' : MemoryStore} {o : MemoryDatabaseOptions} {t t' : Tables} {L L' : Ledger}

theorem MemoryStore.Tracks.buried (h : MemoryStore.Tracks s o L) (hb : L.Buried) : s.Buried where
  ids := by
    intro id hid
    rw [h.byId_eq, ExtTreeMap.contains_eq_isSome_getElem?, Option.isSome_iff_exists] at hid
    obtain ⟨x, hx⟩ := hid
    rw [h.deletedIds_eq]
    exact hb.ids id x hx
  stamps := by
    intro x c ts hx hc hts
    rw [h.byId_eq] at hx
    rw [h.deletedCoordinates_eq] at hts
    exact Ledger.stamped_eq_false_iff.mp (hb.stamps x.id x hx) c ts hc hts

theorem Redb.Rep.buried (h : Redb.Rep pc t L) (hb : L.Buried) : Redb.Buried pc t where
  ids := by
    intro k hk
    obtain ⟨e, he, hkey⟩ := (h.events.mem_iff k).mp hk
    rw [← Option.some.inj hkey, ← ExtTreeMap.contains_iff_mem, h.deletedIds, hb.ids e.id e he]
    simp
  stamps := by
    intro x d ts hx hd hts
    have hc : addressableCoord x = some (x.kind, x.pubkey, d) := by rw [addressableCoord_eq, hd]; rfl
    have hts' : L.deletedCoordinates[(x.kind, x.pubkey, d)]? = some ts := by
      rw [← h.deletedCoordinates]
      exact hts
    exact Ledger.stamped_eq_false_iff.mp (hb.stamps x.id x ((h.stored_iff x).mp hx)) _ ts hc hts'

theorem MemoryStore.Tracks.grows (h : MemoryStore.Tracks s o L) (h' : MemoryStore.Tracks s' o L')
    (hg : L.Grows L') : s.Grows s' := by
  refine ⟨?_, ?_⟩
  · rw [h.deletedIds_eq, h'.deletedIds_eq]
    exact hg.ids
  · rw [h.deletedCoordinates_eq, h'.deletedCoordinates_eq]
    exact hg.stamps

theorem Redb.Rep.grows (h : Redb.Rep pc t L) (h' : Redb.Rep pc t' L') (hg : L.Grows L') :
    Redb.Grows t t' where
  ids := by
    intro id hid
    rw [← ExtTreeMap.contains_iff_mem, h.deletedIds] at hid
    rw [← ExtTreeMap.contains_iff_mem, h'.deletedIds]
    exact hg.ids id hid
  stamps := by
    intro kind author d ts hts
    have hkey : Keys.byCoordinate kind author d = coordBytes (kind, author, d) := rfl
    rw [hkey, h.deletedCoordinates] at hts
    rw [hkey, h'.deletedCoordinates]
    exact hg.stamps _ ts hts

end Transfer

/-- **No tombstoned event is live**, in either backend, after any sequence of writes without a deletion
    request that names itself; and until the next wipe tombstones and stamps only grow.

    `Buried` and `Grows` are invariants of the ledger, kept by each operation; both backends inherit them through
    what they represent. -/
theorem tombstones_hold (pc : Postcard) (o : MemoryDatabaseOptions) (o' : RedbDatabaseOptions)
    (ops : List StoreOp) (hself : ∀ e now, .saveEvent e now ∈ ops → Ledger.namesItself e = false) :
    (MemoryStore.run o ops).Buried ∧
    (∃ t, Redb.run pc o' ops = .ok t ∧ Redb.Buried pc t) ∧
    ∀ later : List StoreOp, .wipe ∉ later →
      (MemoryStore.run o ops).Grows (MemoryStore.run o (ops ++ later)) ∧
      ∃ t t', Redb.run pc o' ops = .ok t ∧ Redb.run pc o' (ops ++ later) = .ok t' ∧ Redb.Grows t t' := by
  obtain ⟨L, hruns, hmem⟩ := MemoryStore.run_tracks o ops
  obtain ⟨t, hrun, hredb⟩ := Redb.run_rep pc o' ops
  refine ⟨hmem.buried (hruns.buried hself),
    ⟨t, hrun, hredb.buried ((Ledger.run_runs o'.ledger ops).buried hself)⟩, fun later hlater => ⟨?_, ?_⟩⟩
  · obtain ⟨L₂, hruns₂, hmem₂⟩ := hmem.steps hruns.sound.1 later
    rw [MemoryStore.run, MemoryStore.run, List.foldl_append]
    exact hmem.grows hmem₂ (hruns₂.grows hlater)
  · obtain ⟨t', hrun', hredb'⟩ := Redb.run_rep pc o' (ops ++ later)
    rw [Ledger.run, List.foldl_append] at hredb'
    exact ⟨t, t', hrun, hrun', hredb.grows hredb' ((Ledger.foldl_runs o'.ledger _ later).grows hlater)⟩

/-- A note and an addressable event, then their author's request for both. -/
def deletedPair : List StoreOp :=
  [.saveEvent (Sample.event 1 Sample.alice 5 1 []) 10,
    .saveEvent (Sample.event 2 Sample.alice 5 30000 [["d", "a"]]) 10,
    .saveEvent (Sample.event 3 Sample.alice 6 5
      [["e", (Sample.id 1).toHex], ["a", "30000:" ++ Sample.alice.toHex ++ ":a"]]) 10]

/-- The request leaves a tombstone and a stamp, and buries both events. -/
theorem tombstones_hold_deletedPair :
    (∀ e now, .saveEvent e now ∈ deletedPair → Ledger.namesItself e = false) ∧
    (MemoryStore.run ⟨none, true, true⟩ deletedPair).deletedIds.contains (Sample.id 1) = true ∧
    (MemoryStore.run ⟨none, true, true⟩ deletedPair).deletedCoordinates[((⟨30000⟩ : Kind), Sample.alice, "a")]?
      = some 6 ∧
    (MemoryStore.run ⟨none, true, true⟩ deletedPair).Buried ∧
    ∃ t, Redb.run .wire ⟨true, true⟩ deletedPair = .ok t ∧ Redb.Buried .wire t := by
  have hself : ∀ e now, .saveEvent e now ∈ deletedPair → Ledger.namesItself e = false := by
    intro e now he
    simp only [deletedPair, List.mem_cons, StoreOp.saveEvent.injEq, List.not_mem_nil, or_false] at he
    rcases he with ⟨rfl, _⟩ | ⟨rfl, _⟩ | ⟨rfl, _⟩ <;> decide +kernel
  obtain ⟨hmem, hredb, _⟩ := tombstones_hold .wire ⟨none, true, true⟩ ⟨true, true⟩ deletedPair hself
  exact ⟨hself, by decide +kernel, by decide +kernel, hmem, hredb⟩

end Nula
