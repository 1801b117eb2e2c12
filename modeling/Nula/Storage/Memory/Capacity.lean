import Nula.Storage.Memory.Refine

/-!
# `Storage.Memory.Capacity` — the content of a bounded store is order independent

With deletion and vanish processing off, a store that received the submissions `subs` holds the first
`cap` of the *winners* of `subs`: the regular events, and of each slot the event that comes first on the
wire. Replacement and eviction interfere only in appearance: an evicted winner has outranked nothing that
is still there, so a late rival of it either outranks the whole cut or is evicted on the spot.

The invariant is `Holds`: the live events are a top part (`IsTop`) of the winners so far.
-/

namespace Nula

open Std

/-! ## Winners of a history -/

/-- The submitted events that were neither ephemeral nor expired at the time. -/
def offered (subs : List (Event × Timestamp)) : List Event :=
  (subs.filter (fun p => !p.1.kind.isEphemeral && !p.1.deadOnArrival p.2)).map Prod.fst

/-- No offered rival has a greater created-at, or the same one and a smaller id. -/
def wins (events : List Event) (e : Event) : Bool :=
  !events.any (fun x => rivals x e && decide (x.precedes e))

/-- The regular events and the holder of each slot, in wire order, each once. -/
def winners (subs : List (Event × Timestamp)) : List Event :=
  Events.fromUnsorted ((offered subs).filter (wins (offered subs)))

theorem wins_iff {A : List Event} {e : Event} :
    wins A e = true ↔ ∀ x ∈ A, rivals x e = true → ¬ x.precedes e := by
  simp [wins]

/-- `e` is among the winners of `A`. -/
def Winner (A : List Event) (e : Event) : Prop := e ∈ A ∧ wins A e = true

section Winners

variable {A : List Event} {e : Event}

/-- An event that was offered before changes nothing. -/
theorem winner_append_of_mem (he : e ∈ A) (z : Event) : Winner (A ++ [e]) z ↔ Winner A z := by
  have hmem : ∀ x, x ∈ A ++ [e] ↔ x ∈ A := by
    intro x
    rw [List.mem_append, List.mem_singleton]
    exact ⟨fun h => h.elim id (fun hx => hx ▸ he), Or.inl⟩
  simp only [Winner, wins_iff, hmem]

/-- An event behind an offered rival changes nothing. -/
theorem winner_append_of_beaten {x : Event} (hx : x ∈ A) (hriv : rivals x e = true) (hp : x.precedes e)
    (z : Event) : Winner (A ++ [e]) z ↔ Winner A z := by
  simp only [Winner, wins_iff, List.mem_append, List.mem_singleton]
  constructor
  · rintro ⟨hz | rfl, hwin⟩
    · exact ⟨hz, fun y hy => hwin y (Or.inl hy)⟩
    · exact absurd hp (hwin x (Or.inl hx) hriv)
  · rintro ⟨hz, hwin⟩
    refine ⟨Or.inl hz, ?_⟩
    rintro y (hy | rfl) hry hpy
    · exact hwin y hy hry hpy
    · exact hwin x hx (rivals_trans hriv hry) (trans_of Event.precedes hp hpy)

/-- An event no offered rival precedes displaces its rivals. -/
theorem winner_append_of_first (hid : Events.Identified (A ++ [e]))
    (hfirst : ∀ x ∈ A, rivals x e = true → ¬ x.precedes e) (z : Event) :
    Winner (A ++ [e]) z ↔ z = e ∨ (Winner A z ∧ ¬ rivals z e = true) := by
  simp only [Winner, wins_iff]
  constructor
  · rintro ⟨hz, hwin⟩
    by_cases hze : z = e
    · exact Or.inl hze
    · have hzA : z ∈ A := by
        rw [List.mem_append, List.mem_singleton] at hz
        exact hz.resolve_right hze
      refine Or.inr ⟨⟨hzA, fun y hy => hwin y (List.mem_append_left _ hy)⟩, fun hriv => ?_⟩
      have hne : z.id ≠ e.id := fun h => hze (hid z hz e (by simp) h)
      rcases Event.precedes_total hne with hp | hp
      · exact hfirst z hzA hriv hp
      · exact hwin e (by simp) (rivals_comm hriv) hp
  · rintro (rfl | ⟨⟨hz, hwin⟩, hriv⟩)
    · refine ⟨by simp, fun y hy hry => ?_⟩
      rw [List.mem_append, List.mem_singleton] at hy
      rcases hy with hy | rfl
      · exact hfirst y hy hry
      · exact irrefl_of Event.precedes y
    · refine ⟨List.mem_append_left _ hz, fun y hy hry => ?_⟩
      rw [List.mem_append, List.mem_singleton] at hy
      rcases hy with hy | rfl
      · exact hwin y hy hry
      · exact absurd (rivals_comm hry) hriv

/-- Of the offered rivals of `e`, if one precedes it, a winner does. -/
theorem exists_winner (h : ∃ x ∈ A, rivals x e = true ∧ x.precedes e) :
    ∃ x, Winner A x ∧ rivals x e = true ∧ x.precedes e := by
  obtain ⟨x, hx, ⟨hriv, hp⟩, hfirst⟩ :=
    exists_first (r := Event.precedes) (p := fun x => rivals x e = true ∧ x.precedes e) h
  refine ⟨x, ⟨hx, wins_iff.mpr (fun y hy hry hyx => ?_)⟩, hriv, hp⟩
  exact hfirst y hy ⟨rivals_trans hry hriv, trans_of Event.precedes hyx hp⟩ hyx

end Winners

/-! ## The invariant -/

/-- A ledger without tombstones whose live events are a top part of the winners of `A`. -/
structure Holds (o : MemoryDatabaseOptions) (A : List Event) (L : Ledger) : Prop where
  wf : L.WF
  noIds : L.deletedIds = ∅
  noCoordinates : L.deletedCoordinates = ∅
  top : IsTop Event.precedes (o.maxEvents.map PNat.val) (Winner A) (listing L.live)

namespace Holds

variable {o : MemoryDatabaseOptions} {A : List Event} {L : Ledger} {e : Event}

theorem empty (o : MemoryDatabaseOptions) : Holds o [] .empty where
  wf := Ledger.wf_empty
  noIds := rfl
  noCoordinates := rfl
  top := by
    have hnil : listing Ledger.empty.live = [] := by
      rw [← List.length_eq_zero_iff, LiveMap.length_listing]
      simp [Ledger.empty]
    rw [hnil]
    exact ⟨by simp, by simp, by simp, Or.inl (fun y hy => absurd hy.1 (by simp))⟩

/-- The same ledger stands for a longer history with the same winners. -/
theorem congr {A' : List Event} (h : Holds o A L) (hw : ∀ z, Winner A' z ↔ Winner A z) : Holds o A' L :=
  ⟨h.wf, h.noIds, h.noCoordinates, h.top.congr hw⟩

/-- An accepted event, with nothing but replacement and eviction at work. The newcomer enters the listing in front of
    the rival it displaces, so the cut behind it is that of the longer history by `IsTop.enter`. -/
theorem accept (h : Holds o A L) (h09 : o.processNip09 = false) (h62 : o.processNip62 = false)
    (hid : Events.Identified (A ++ [e])) (hfree : L.live[e.id]? = none) (hb : L.beaten e = false) :
    Holds o (A ++ [e]) (L.accept o e) := by
  have hprep : L.prepare o e = L.keep (fun x => !rivals x e) := by simp [Ledger.prepare, h09, h62]
  have hk := h.wf.keyed
  have hk' : ((L.prepare o e).enter e).live.Keyed :=
    ((h.wf.prepare o e).enter (fun _ _ hx => Ledger.prepare_not_rivals hx)).keyed
  -- the enlarged listing, before the cut
  have hmem : ∀ x, x ∈ listing ((L.prepare o e).enter e).live ↔
      x = e ∨ (x ∈ listing L.live ∧ ¬ rivals x e = true) := by
    intro x
    rw [hk'.mem_listing, Ledger.enter_live, hprep, Ledger.keep_live, hk.mem_listing]
    constructor
    · rintro (⟨_, hx⟩ | ⟨_, hx, hr⟩)
      · exact Or.inl hx
      · exact Or.inr ⟨hx, by simpa using hr⟩
    · rintro (rfl | ⟨hx, hr⟩)
      · exact Or.inl ⟨rfl, rfl⟩
      · refine Or.inr ⟨fun hxe => ?_, hx, by simpa using hr⟩
        rw [hxe, hfree] at hx
        cases hx
  have heT : e ∉ listing L.live := by
    rw [hk.mem_listing, hfree]
    simp
  -- a live rival is behind the newcomer, and there is at most one
  have hrivals : ∀ d ∈ listing L.live, rivals d e = true →
      e.precedes d ∧ ∀ d' ∈ listing L.live, rivals d' e = true → d' = d := by
    intro d hd hriv
    rw [hk.mem_listing] at hd
    refine ⟨?_, fun d' hd' hriv' => ?_⟩
    · have hne : d.id ≠ e.id := by
        intro hde
        rw [hde, hfree] at hd
        cases hd
      rcases Event.precedes_total hne with hp | hp
      · rw [(Ledger.beaten_iff hk).mpr ⟨d, hd, hriv, hp⟩] at hb
        cases hb
      · exact hp
    · exact h.wf.unique d' d (hk.mem_listing.mp hd') hd (rivals_trans hriv' (rivals_comm hriv))
  have hlisting : listing (L.accept o e).live
      = takeLimit (o.maxEvents.map PNat.val) (listing ((L.prepare o e).enter e).live) :=
    Ledger.listing_enforceCapacity hk'
  refine ⟨h.wf.accept o e, ?_, ?_, ?_⟩
  · rw [Ledger.accept, Ledger.enforceCapacity_deletedIds, Ledger.enter_deletedIds, hprep]
    exact h.noIds
  · rw [Ledger.accept, Ledger.enforceCapacity_deletedCoordinates, Ledger.enter_deletedCoordinates, hprep]
    exact h.noCoordinates
  rw [hlisting]
  by_cases hlost : ∃ x ∈ A, rivals x e = true ∧ x.precedes e
  · -- an evicted winner outranks the newcomer, which is evicted at once
    obtain ⟨x, hx, hriv, hp⟩ := exists_winner hlost
    have hxT : x ∉ listing L.live := by
      intro hxT
      rw [(Ledger.beaten_iff hk).mpr ⟨x, hk.mem_listing.mp hxT, hriv, hp⟩] at hb
      cases hb
    have hno : ∀ d ∈ listing L.live, ¬ rivals d e = true := by
      intro d hd hrd
      have hdx : e.precedes d := (hrivals d hd hrd).1
      have hdW := h.top.sub d hd
      exact wins_iff.mp hdW.2 x hx.1 (rivals_trans hriv (rivals_comm hrd))
        (trans_of Event.precedes hp hdx)
    have hmem' : ∀ y, y ∈ listing ((L.prepare o e).enter e).live ↔ y = e ∨ y ∈ listing L.live := by
      intro y
      rw [hmem]
      exact or_congr Iff.rfl ⟨fun hy => hy.1, fun hy => ⟨hy, hno y hy⟩⟩
    rw [h.top.enter_lost hk.listing_pairwise hk'.listing_pairwise hmem' hx hxT hp]
    exact h.top.congr (winner_append_of_beaten hx.1 hriv hp)
  · push Not at hlost
    exact h.top.enter (nodup_of_pairwise hk.listing_pairwise) hk'.listing_pairwise hmem heT hrivals
      (winner_append_of_first hid hlost)

/-- **One submission.** A submission may not be offered at all, be known or beaten, which leaves the winners, or be
    accepted. -/
theorem saveEvent (h : Holds o A L) (h09 : o.processNip09 = false) (h62 : o.processNip62 = false)
    (now : Timestamp) (hid : Events.Identified (A ++ offered [(e, now)])) :
    Holds o (A ++ offered [(e, now)]) (L.saveEvent o e now).2 := by
  by_cases hoff : (!e.kind.isEphemeral && !e.deadOnArrival now) = true
  · have ho : offered [(e, now)] = [e] := by simp [offered, hoff]
    rw [ho] at hid ⊢
    rw [Bool.and_eq_true, Bool.not_eq_true', Bool.not_eq_true'] at hoff
    have hstamped : L.stamped e = false := by
      unfold Ledger.stamped
      rw [h.noCoordinates]
      split <;> simp
    unfold Ledger.saveEvent Ledger.refusal
    simp only [h62, hoff.1, hoff.2, h.noIds, hstamped, Bool.false_and, Bool.false_eq_true, if_false,
      ExtTreeSet.contains_empty]
    cases hdup : L.live.contains e.id with
    | true =>
        -- the event is live, so it was offered before
        rw [ExtTreeMap.contains_eq_isSome_getElem?, Option.isSome_iff_exists] at hdup
        obtain ⟨x, hx⟩ := hdup
        have hxid : x.id = e.id := h.wf.keyed e.id x hx
        have hxA : x ∈ A := (h.top.sub x (h.wf.keyed.mem_listing.mpr (hxid ▸ hx))).1
        have hxe : x = e := hid x (List.mem_append_left _ hxA) e (by simp) hxid
        exact h.congr (winner_append_of_mem (hxe ▸ hxA))
    | false =>
        have hfree : L.live[e.id]? = none := ExtTreeMap.getElem?_eq_none_of_contains_eq_false hdup
        cases hb : L.beaten e with
        | true =>
            obtain ⟨x, hx, hriv, hp⟩ := (Ledger.beaten_iff h.wf.keyed).mp hb
            have hxA : x ∈ A := (h.top.sub x (h.wf.keyed.mem_listing.mpr hx)).1
            exact h.congr (winner_append_of_beaten hxA hriv hp)
        | false => exact h.accept h09 h62 hid hfree hb
  · have ho : offered [(e, now)] = [] := by simp [offered, hoff]
    rw [ho, List.append_nil]
    have hrej : (L.saveEvent o e now).2 = L := by
      simp only [Bool.and_eq_true, Bool.not_eq_true', not_and, Bool.not_eq_false] at hoff
      unfold Ledger.saveEvent Ledger.refusal
      simp only [h62, Bool.false_and, Bool.false_eq_true, if_false]
      cases heph : e.kind.isEphemeral with
      | true => rfl
      | false => simp [hoff heph]
    rw [hrej]
    exact h

/-- **A whole history.** -/
theorem runs {subs : List (Event × Timestamp)} {L' : Ledger} (h : Holds o A L)
    (h09 : o.processNip09 = false) (h62 : o.processNip62 = false)
    (hid : Events.Identified (A ++ offered subs))
    (hrun : Ledger.Runs o (subs.map (fun p => .saveEvent p.1 p.2)) L L') :
    Holds o (A ++ offered subs) L' := by
  induction subs generalizing A L with
  | nil =>
      cases hrun
      simpa [offered] using h
  | cons p subs ih =>
      have hsplit : A ++ offered (p :: subs) = (A ++ offered [p]) ++ offered subs := by
        rw [List.append_assoc, offered, offered, offered, ← List.map_append, ← List.filter_append]
        rfl
      rw [hsplit] at hid ⊢
      cases hrun with
      | cons hs hr =>
          cases hs
          exact ih (h.saveEvent h09 h62 p.2 (hid.sub (fun x hx => List.mem_append_left _ hx))) hid hr

end Holds

namespace MemoryStore

/-- The store after a sequence of saves. -/
def saves (o : MemoryDatabaseOptions) (subs : List (Event × Timestamp)) : MemoryStore :=
  run o (subs.map (fun p => .saveEvent p.1 p.2))

theorem mem_winners {subs : List (Event × Timestamp)} (hid : Events.Identified (offered subs))
    (e : Event) : e ∈ winners subs ↔ Winner (offered subs) e := by
  rw [winners, Events.mem_fromUnsorted (hid.sub (fun x hx => List.mem_of_mem_filter hx)),
    List.mem_filter]
  rfl

/-- The live events, listed in wire order, are the first `cap` winners. -/
theorem listing_saves {o : MemoryDatabaseOptions} (h09 : o.processNip09 = false)
    (h62 : o.processNip62 = false) {subs : List (Event × Timestamp)}
    (hid : Events.Identified (offered subs)) :
    listing (saves o subs).byId = takeLimit (o.maxEvents.map PNat.val) (winners subs) := by
  obtain ⟨L, hrun, h⟩ := run_tracks o (subs.map (fun p => .saveEvent p.1 p.2))
  have hh := (Holds.empty o).runs h09 h62 (by simpa using hid) hrun
  rw [List.nil_append] at hh
  rw [saves, h.byId_eq]
  have hpw := Events.fromUnsorted_pairwise ((offered subs).filter (wins (offered subs)))
  refine Listing.ext hh.wf.keyed.listing_pairwise (pairwise_takeLimit hpw) (fun x => ?_)
  exact hh.top.mem_iff (nodup_of_pairwise hh.wf.keyed.listing_pairwise) hpw (mem_winners hid) x

/-- The winners do not depend on the order of the submissions. -/
theorem winners_perm {subs subs' : List (Event × Timestamp)} (hperm : subs.Perm subs')
    (hid : Events.Identified (offered subs)) : winners subs' = winners subs := by
  have hmem : ∀ x, x ∈ offered subs' ↔ x ∈ offered subs :=
    fun x => (((hperm.filter _).map Prod.fst).mem_iff).symm
  have hid' : Events.Identified (offered subs') := hid.sub (fun x hx => (hmem x).mp hx)
  refine Listing.ext (Events.fromUnsorted_pairwise _) (Events.fromUnsorted_pairwise _) (fun e => ?_)
  rw [mem_winners hid', mem_winners hid]
  simp only [Winner, wins_iff, hmem]

/-- **Order-independent content**: with deletion and vanish processing off, the live events are the
    first `cap` winners of the submissions, and any order of the same submissions ends with the same
    live events.

    What is held stays the first `cap` winners of what was offered so far, an invariant of one save
    (`listing_saves`). The winners of a list do not depend on its order (`winners_perm`), and a map is determined
    by its listing. -/
theorem live_eq_winners {o : MemoryDatabaseOptions} (h09 : o.processNip09 = false)
    (h62 : o.processNip62 = false) (subs : List (Event × Timestamp))
    (hid : Events.Identified (subs.map Prod.fst)) :
    listing (saves o subs).byId = takeLimit (o.maxEvents.map PNat.val) (winners subs) ∧
    ∀ subs' : List (Event × Timestamp), subs.Perm subs' → (saves o subs').byId = (saves o subs).byId := by
  have hoff : ∀ x ∈ offered subs, x ∈ subs.map Prod.fst := by
    intro x hx
    obtain ⟨p, hp, rfl⟩ := List.mem_map.mp hx
    exact List.mem_map_of_mem (List.mem_of_mem_filter hp)
  have hid₁ := hid.sub hoff
  refine ⟨listing_saves h09 h62 hid₁, fun subs' hperm => ?_⟩
  have hid₂ : Events.Identified (offered subs') := by
    refine hid₁.sub (fun x hx => ?_)
    exact (((hperm.filter _).map Prod.fst).mem_iff).mpr hx
  have hlist : listing (saves o subs').byId = listing (saves o subs).byId := by
    rw [listing_saves h09 h62 hid₂, listing_saves h09 h62 hid₁, winners_perm hperm hid₁]
  obtain ⟨L, _, h⟩ := run_tracks o (subs.map (fun p => .saveEvent p.1 p.2))
  obtain ⟨L', _, h'⟩ := run_tracks o (subs'.map (fun p => .saveEvent p.1 p.2))
  exact h'.indexed.keyed.eq_of_listing h.indexed.keyed hlist

/-- An old note, then two versions of a profile and a newer note, with room for two events. -/
def crowded : List (Event × Timestamp) :=
  [(Sample.event 1 Sample.alice 5 1 [], 10), (Sample.event 3 Sample.bob 7 0 [], 10),
    (Sample.event 2 Sample.bob 7 0 [], 10), (Sample.event 4 Sample.alice 9 1 [], 10)]

theorem live_eq_winners_crowded :
    listing (saves ⟨some 2, false, false⟩ crowded).byId
      = [Sample.event 4 Sample.alice 9 1 [], Sample.event 2 Sample.bob 7 0 []] ∧
    (saves ⟨some 2, false, false⟩ crowded.reverse).byId = (saves ⟨some 2, false, false⟩ crowded).byId := by
  have h := live_eq_winners (o := ⟨some 2, false, false⟩) rfl rfl crowded
    (by unfold Events.Identified; decide +kernel)
  refine ⟨h.1.trans (by decide +kernel), h.2 crowded.reverse (List.reverse_perm crowded).symm⟩

end MemoryStore

/-! ## Ordinary events

An event that is no request goes through a store that processes requests as through one that does not. -/

/-- The event asks for no deletion and no vanishing. -/
def Ordinary (e : Event) : Prop := e.kind ≠ Kind.eventDeletion ∧ e.kind ≠ Kind.requestToVanish

namespace Ledger

variable {o o' : MemoryDatabaseOptions} {L : Ledger} {e : Event}

/-- An ordinary event makes way by taking its rival's place. -/
theorem prepare_ordinary (h : Ordinary e) : L.prepare o e = L.keep (fun x => !rivals x e) := by
  simp [prepare, h.1, h.2]

theorem saveEvent_ordinary (hcap : o.maxEvents = o'.maxEvents) (h : Ordinary e) (hno : L.vanishedAuthors = ∅)
    (now : Timestamp) : L.saveEvent o e now = L.saveEvent o' e now := by
  have haccept : L.accept o e = L.accept o' e := by
    rw [accept, accept, prepare_ordinary h, prepare_ordinary h, enforceCapacity, enforceCapacity, hcap]
  have hrefusal : L.refusal o e now = L.refusal o' e now := by simp [refusal, hno]
  rw [saveEvent, saveEvent, hrefusal, haccept]

theorem saveEvent_vanishedAuthors (h : Ordinary e) (now : Timestamp) :
    (L.saveEvent o e now).2.vanishedAuthors = L.vanishedAuthors := by
  rcases saveEvent_cases o L e now with ⟨_, _, hs⟩ | ⟨_, hs⟩
  · rw [hs]
  · rw [hs]
    simp [accept, prepare_ordinary h]

/-- **Requests are all the request processing changes.** -/
theorem run_ordinary (o o' : MemoryDatabaseOptions) (hcap : o.maxEvents = o'.maxEvents)
    {subs : List (Event × Timestamp)} (h : ∀ p ∈ subs, Ordinary p.1) :
    run o (subs.map (fun p => .saveEvent p.1 p.2)) = run o' (subs.map (fun p => .saveEvent p.1 p.2)) ∧
      (run o (subs.map (fun p => .saveEvent p.1 p.2))).vanishedAuthors = ∅ := by
  induction subs using List.reverseRecOn with
  | nil => exact ⟨rfl, rfl⟩
  | append_singleton subs p ih =>
      obtain ⟨hrun, hno⟩ := ih (fun q hq => h q (List.mem_append_left _ hq))
      have hp := h p (by simp)
      simp only [run, List.map_append, List.foldl_append, List.map_cons, List.map_nil, List.foldl_cons,
        List.foldl_nil] at hrun hno ⊢
      rw [← hrun]
      refine ⟨?_, (saveEvent_vanishedAuthors hp p.2).trans hno⟩
      rw [step, step, saveEvent_ordinary hcap hp hno]

end Ledger

namespace MemoryStore

/-- **The content of a default store after ordinary submissions.** -/
theorem listing_saves_ordinary {subs : List (Event × Timestamp)} (h : ∀ p ∈ subs, Ordinary p.1)
    (hid : Events.Identified (offered subs)) :
    listing (saves .default subs).byId = winners subs := by
  have hlive : ∀ o : MemoryDatabaseOptions, (saves o subs).byId =
      (Ledger.run o (subs.map (fun p => .saveEvent p.1 p.2))).live := by
    intro o
    refine (run_reference o (fun op hop f => ?_)).byId_eq
    obtain ⟨p, _, rfl⟩ := List.mem_map.mp hop
    simp
  have hrun : Ledger.run .default (subs.map (fun p => .saveEvent p.1 p.2)) =
      Ledger.run ⟨none, false, false⟩ (subs.map (fun p => .saveEvent p.1 p.2)) :=
    (Ledger.run_ordinary .default ⟨none, false, false⟩ rfl h).1
  have hplain : listing (saves ⟨none, false, false⟩ subs).byId = winners subs := listing_saves rfl rfl hid
  rw [hlive, hrun, ← hlive]
  exact hplain

end MemoryStore

end Nula
