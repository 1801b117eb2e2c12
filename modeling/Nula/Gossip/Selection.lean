import Nula.Gossip.Routes

/-!
# `Gossip.Selection` — which relays a selection holds

The selections of `selection.rs` in closed form. Each bucket gives its first relays up to its cap, and the policy is
applied to their union (`selected_select`): a bucket whose first relays are all refused gives nothing, whatever stands
behind them.
-/

namespace Nula.Gossip

open Std

variable (urls : UrlCrate)

/-- The relays of a list under the markers asked for, in url order. -/
def marked (picks : RelayMarker → Bool) (list : RelayList) : List RelayUrl :=
  (list.relays.toList.filter (fun entry => picks entry.2)).map Prod.fst

/-- The same, of a user who may have no list. -/
def listed (picks : RelayMarker → Bool) (routes : UserRoutes) : List RelayUrl :=
  match routes.nip65 with
  | some list => marked picks list
  | none => []

/-- A histogram by descending count. -/
def ranking (histogram : Histogram) : List (RelayUrl × NonZeroU32) := histogram.toList.mergeSort rankedBefore

/-- The relays that a histogram gives. -/
def top (histogram : Histogram) (limit : NonZeroU8) : List RelayUrl :=
  ((ranking histogram).take limit.get.toNat).map Prod.fst

/-! ## Buckets -/

/-- A row of inserts adds as many relays at most. -/
theorem size_foldl_insert_le (l : List RelayUrl) (out : HashSet RelayUrl) :
    (l.foldl (fun out url => out.insert url) out).size ≤ out.size + l.length := by
  induction l generalizing out with
  | nil => exact Nat.le_refl _
  | cons url l ih =>
      have hone : (out.insert url).size ≤ out.size + 1 := ExtTreeSet.size_insert_le
      have hrest := ih (out.insert url)
      rw [List.foldl_cons, List.length_cons]
      omega

theorem extendFromHistogram_eq (out : HashSet RelayUrl) (histogram : Histogram) (limit : NonZeroU8) :
    extendFromHistogram out histogram limit = (top histogram limit).foldl (fun out url => out.insert url) out := by
  unfold extendFromHistogram
  split
  · rename_i hempty
    have hnil : histogram = ∅ := ExtTreeMap.isEmpty_iff.mp hempty
    have hnone : (∅ : Histogram).toList = [] := by
      rw [← List.length_eq_zero_iff, ExtTreeMap.length_toList, ExtTreeMap.size_empty]
    have htop : top (∅ : Histogram) limit = [] := by
      rw [top, ranking, hnone, List.mergeSort_nil, List.take_nil, List.map_nil]
    rw [hnil, htop]
    rfl
  · rfl

theorem length_top_le (histogram : Histogram) (limit : NonZeroU8) : (top histogram limit).length ≤ limit.get.toNat := by
  rw [top, List.length_map, List.length_take]
  exact Nat.min_le_left _ _

theorem NonZeroU8.pos (n : NonZeroU8) : 0 < n.get.toNat := by
  have hne : n.get.toNat ≠ 0 := fun h => n.nonzero (UInt8.toNat_inj.mp h)
  omega

section Marked

variable {picks : RelayMarker → Bool} {limit : NonZeroU8}

/-- The loop stops at the limit, so it is not exceeded. -/
theorem size_takeMarked_le (entries : List (RelayUrl × RelayMarker)) {out : HashSet RelayUrl}
    (hsize : out.size < limit.get.toNat) : (takeMarked picks limit entries out).size ≤ limit.get.toNat := by
  induction entries generalizing out with
  | nil => exact Nat.le_of_lt hsize
  | cons entry entries ih =>
      obtain ⟨url, marker⟩ := entry
      have hone : (out.insert url).size ≤ out.size + 1 := ExtTreeSet.size_insert_le
      unfold takeMarked
      dsimp only
      by_cases hpick : picks marker = true
      · rw [if_pos hpick]
        split
        · omega
        · rename_i hroom
          exact ih (Nat.lt_of_not_le hroom)
      · rw [if_neg hpick, if_neg (Nat.not_le_of_lt hsize)]
        exact ih hsize

/-- The loop stops with the picked entry that fills the set. By induction on the entries, with the room that is left
    as a parameter. -/
theorem mem_takeMarked {entries : List (RelayUrl × RelayMarker)} {out : HashSet RelayUrl}
    (hsize : out.size < limit.get.toNat) (hnew : ∀ entry ∈ entries, entry.1 ∉ out)
    (hdistinct : (entries.map Prod.fst).Nodup) {r : RelayUrl} :
    r ∈ takeMarked picks limit entries out ↔
      r ∈ out ∨ r ∈ ((entries.filter (fun entry => picks entry.2)).map Prod.fst).take (limit.get.toNat - out.size) := by
  induction entries generalizing out with
  | nil => simp [takeMarked]
  | cons entry entries ih =>
      obtain ⟨url, marker⟩ := entry
      rw [List.map_cons, List.nodup_cons] at hdistinct
      obtain ⟨hurl, hrest⟩ := hdistinct
      have hout : url ∉ out := hnew _ List.mem_cons_self
      unfold takeMarked
      dsimp only
      by_cases hpick : picks marker = true
      · have hinsert : (out.insert url).size = out.size + 1 := by
          have hfree : ¬ out.contains url = true := hout
          rw [ExtTreeSet.size_insert, if_neg hfree]
        have hmem : ∀ x, x ∈ out.insert url ↔ x ∈ out ∨ x = url := by
          intro x
          rw [ExtTreeSet.mem_insert, LawfulEqCmp.compare_eq_iff_eq, or_comm, eq_comm]
        have hkept : ((url, marker) :: entries).filter (fun entry => picks entry.2) =
            (url, marker) :: entries.filter (fun entry => picks entry.2) := List.filter_cons_of_pos hpick
        rw [if_pos hpick, hkept, List.map_cons]
        obtain ⟨room, hroom⟩ : ∃ room, limit.get.toNat - out.size = room + 1 :=
          ⟨limit.get.toNat - out.size - 1, by omega⟩
        rw [hroom, List.take_succ_cons, List.mem_cons]
        split
        · -- the set is full
          rename_i hfull
          have hzero : room = 0 := by omega
          rw [hmem, hzero, List.take_zero]
          simp
        · rename_i hfree
          have hnext : ∀ entry ∈ entries, entry.1 ∉ out.insert url := by
            intro entry hentry
            rw [hmem]
            rintro (hin | heq)
            · exact hnew entry (List.mem_cons_of_mem _ hentry) hin
            · exact hurl (List.mem_map.mpr ⟨entry, hentry, heq⟩)
          have hless : limit.get.toNat - (out.insert url).size = room := by omega
          rw [ih (Nat.lt_of_not_le hfree) hnext hrest, hmem, hless, or_assoc]
      · have hdropped : ((url, marker) :: entries).filter (fun entry => picks entry.2) =
            entries.filter (fun entry => picks entry.2) := List.filter_cons_of_neg hpick
        rw [if_neg hpick, if_neg (Nat.not_le_of_lt hsize), hdropped,
          ih hsize (fun entry hentry => hnew entry (List.mem_cons_of_mem _ hentry)) hrest]

end Marked

/-! ## Selections -/

theorem nodup_keys (list : RelayList) : (list.relays.toList.map Prod.fst).Nodup := by
  rw [List.Nodup, List.pairwise_map]
  refine ExtTreeMap.distinct_keys_toList.imp (fun h heq => h ?_)
  rw [heq]
  exact Std.compare_self

/-- The loop over the list of a user, who may have none. -/
def fromList (picks : RelayMarker → Bool) (cap : NonZeroU8) (routes : UserRoutes) : HashSet RelayUrl :=
  match routes.nip65 with
  | some list => takeMarked picks cap list.relays.toList ∅
  | none => ∅

/-- **What is taken from a list**: the first relays of the wanted marker, as many as the limit allows. -/
theorem mem_fromList {picks : RelayMarker → Bool} {cap : NonZeroU8} {routes : UserRoutes} {r : RelayUrl} :
    r ∈ fromList picks cap routes ↔ r ∈ (listed picks routes).take cap.get.toNat := by
  unfold fromList listed
  cases routes.nip65 with
  | none => simp
  | some list =>
      have hroom : (∅ : HashSet RelayUrl).size < cap.get.toNat := cap.pos
      have hmem : r ∈ takeMarked picks cap list.relays.toList ∅ ↔
          r ∈ (∅ : HashSet RelayUrl) ∨ r ∈ (marked picks list).take (cap.get.toNat - (∅ : HashSet RelayUrl).size) :=
        mem_takeMarked hroom (fun entry _ => ExtTreeSet.not_mem_empty) (nodup_keys list)
      rw [ExtTreeSet.size_empty, Nat.sub_zero] at hmem
      exact hmem.trans (or_iff_right ExtTreeSet.not_mem_empty)

theorem size_fromList_le (picks : RelayMarker → Bool) (cap : NonZeroU8) (routes : UserRoutes) :
    (fromList picks cap routes).size ≤ cap.get.toNat := by
  unfold fromList
  cases routes.nip65 with
  | none => exact Nat.zero_le _
  | some list => exact size_takeMarked_le _ cap.pos

/-- What a selection gives out, by the relays of its bucket and those of the histograms. -/
structure Selected (policy : AllowedRelays) (bucket : List RelayUrl) (cap : Nat) (extra : List RelayUrl) (room : Nat)
    (out : HashSet RelayUrl) : Prop where
  /-- The policy is applied to the relays that the caps let through. -/
  mem_iff : ∀ r, r ∈ out ↔ policy.isAllowed urls r = true ∧ (r ∈ bucket.take cap ∨ r ∈ extra)
  size_le : out.size ≤ cap + room
  /-- One allowed relay among the first of the bucket is enough. -/
  nonempty : (∃ r ∈ bucket.take cap, policy.isAllowed urls r = true) → ∃ r, r ∈ out
  /-- A bucket that fits its cap gives all its allowed relays. -/
  complete : bucket.length ≤ cap → ∀ r ∈ bucket, policy.isAllowed urls r = true → r ∈ out

/-- **A set is selected from what it was filled with**: the allowed ones of a bucket up to its limit, and of the
    relays the user was seen on. -/
theorem selected_of_mem_iff {policy : AllowedRelays} {bucket extra : List RelayUrl} {cap room : Nat}
    {out : HashSet RelayUrl}
    (hmem : ∀ r, r ∈ out ↔ policy.isAllowed urls r = true ∧ (r ∈ bucket.take cap ∨ r ∈ extra))
    (hsize : out.size ≤ cap + room) : Selected urls policy bucket cap extra room out where
  mem_iff := hmem
  size_le := hsize
  nonempty := by
    rintro ⟨r, hr, hallowed⟩
    exact ⟨r, (hmem r).mpr ⟨hallowed, Or.inl hr⟩⟩
  complete := by
    intro hfits r hr hallowed
    rw [hmem, List.take_of_length_le hfits]
    exact ⟨hallowed, Or.inl hr⟩

/-- The relays of the two histograms. -/
def seen (options : GossipOptions) (routes : UserRoutes) : List RelayUrl :=
  top routes.hints options.limits.hintRelaysPerUser ++ top routes.mostReceived options.limits.mostReceivedPerUser

/-- Selecting is taking from the list, extending from the histograms, and applying the policy. -/
theorem select_eq (picks : RelayMarker → Bool) (cap : NonZeroU8) (options : GossipOptions) (routes : UserRoutes) :
    select urls picks cap options routes = applyPolicy urls
      ((seen options routes).foldl (fun out url => out.insert url) (fromList picks cap routes)) options.allowed := by
  rw [seen, List.foldl_append, ← extendFromHistogram_eq, ← extendFromHistogram_eq]
  unfold select fromList
  cases routes.nip65 with
  | none => rfl
  | some list => rfl

/-- What is selected for reading or writing, bounded by the limits of both. -/
theorem selected_select (picks : RelayMarker → Bool) (cap : NonZeroU8) (options : GossipOptions) (routes : UserRoutes) :
    Selected urls options.allowed (listed picks routes) cap.get.toNat (seen options routes)
      (options.limits.hintRelaysPerUser.get.toNat + options.limits.mostReceivedPerUser.get.toNat)
      (select urls picks cap options routes) := by
  apply selected_of_mem_iff
  · intro r
    rw [select_eq, mem_applyPolicy, Buckets.mem_foldl_insert, mem_fromList, and_comm]
  · have hhints := length_top_le routes.hints options.limits.hintRelaysPerUser
    have hreceived := length_top_le routes.mostReceived options.limits.mostReceivedPerUser
    have hlist := size_fromList_le picks cap routes
    have hboth := size_foldl_insert_le (seen options routes) (fromList picks cap routes)
    rw [seen, List.length_append, ← seen] at hboth
    rw [select_eq]
    refine Nat.le_trans ExtTreeSet.size_filter_le_size ?_
    omega

/-- What is selected for messages, from the list alone. -/
theorem selected_dmRelays (options : GossipOptions) (routes : UserRoutes) :
    Selected urls options.allowed routes.nip17 options.limits.dmRelaysPerUser.get.toNat [] 0
      (dmRelays urls options routes) := by
  apply selected_of_mem_iff
  · intro r
    rw [mem_dmRelays, and_comm]
    simp
  · have hfirst := size_foldl_insert_le (routes.nip17.take options.limits.dmRelaysPerUser.get.toNat) ∅
    have hempty : (∅ : HashSet RelayUrl).size = 0 := ExtTreeSet.size_empty
    rw [List.length_take, hempty] at hfirst
    refine Nat.le_trans ExtTreeSet.size_filter_le_size ?_
    omega

/-- The larger counts come first, whatever the cut. -/
theorem ranking_sorted (histogram : Histogram) :
    (ranking histogram).Perm histogram.toList ∧
      (ranking histogram).Pairwise (fun a b => b.2.get ≤ a.2.get) := by
  refine ⟨List.mergeSort_perm _ _, ?_⟩
  have hcount : TransCmp (fun a b : RelayUrl × NonZeroU32 => compare b.2.get a.2.get) :=
    inferInstanceAs (TransCmp (fun a b => compareOn (fun x : RelayUrl × NonZeroU32 => x.2.get) b a))
  have hcmp : TransCmp (compareLex (fun a b : RelayUrl × NonZeroU32 => compare b.2.get a.2.get) (compareOn Prod.fst)) :=
    inferInstance
  have htrans : ∀ a b c : RelayUrl × NonZeroU32,
      rankedBefore a b = true → rankedBefore b c = true → rankedBefore a c = true := fun _ _ _ hab hbc =>
    hcmp.isLE_trans hab hbc
  have htotal : ∀ a b : RelayUrl × NonZeroU32, (rankedBefore a b || rankedBefore b a) = true := by
    intro a b
    by_cases hab : rankedBefore a b = true
    · rw [hab, Bool.true_or]
    · have hgt := Ordering.isLE_eq_false.mp (Bool.eq_false_iff.mpr hab)
      have hlt : compareLex (fun a b : RelayUrl × NonZeroU32 => compare b.2.get a.2.get) (compareOn Prod.fst) b a =
          .lt := OrientedCmp.lt_of_gt hgt
      have hba : rankedBefore b a = true := Ordering.isLE_of_eq_lt hlt
      rw [hba, Bool.or_true]
  refine (List.pairwise_mergeSort htrans htotal histogram.toList).imp (fun {a b} h => ?_)
  exact Std.isLE_compare.mp (Ordering.isLE_left_of_isLE_then h)

/-- **Selections** are capped and allowed, and give what the policy leaves of the first relays of each bucket.

    All selections are one function with its bounds (`selected_select`): a bucket is filled in the order of the
    list up to its cap, the histograms fill up what is left, and the policy is applied last. -/
theorem selections_capped (options : GossipOptions) (routes : UserRoutes) :
    Selected urls options.allowed (listed RelayMarker.isWrite routes) options.limits.writeRelaysPerUser.get.toNat
      (seen options routes)
      (options.limits.hintRelaysPerUser.get.toNat + options.limits.mostReceivedPerUser.get.toNat)
      (outbox urls options routes) ∧
    Selected urls options.allowed (listed (fun marker => marker.isRead || marker = .readWrite) routes)
      options.limits.readRelaysPerUser.get.toNat (seen options routes)
      (options.limits.hintRelaysPerUser.get.toNat + options.limits.mostReceivedPerUser.get.toNat)
      (inbox urls options routes) ∧
    Selected urls options.allowed routes.nip17 options.limits.dmRelaysPerUser.get.toNat [] 0
      (dmRelays urls options routes) ∧
    ∀ histogram : Histogram, (ranking histogram).Perm histogram.toList ∧
      (ranking histogram).Pairwise (fun a b => b.2.get ≤ a.2.get) := by
  refine ⟨?_, ?_, selected_dmRelays urls options routes, ranking_sorted⟩
  · exact selected_select urls _ _ options routes
  · exact selected_select urls _ _ options routes

namespace Sample

/-- Three relays in a private network, and a public one behind them in url order. -/
def walled : UserRoutes :=
  { UserRoutes.default with
    nip65 := some ⟨((((∅ : BTreeMap RelayUrl RelayMarker).insert ⟨⟨"wss://10.0.0.1/"⟩⟩ .write).insert
      ⟨⟨"wss://10.0.0.2/"⟩⟩ .write).insert ⟨⟨"wss://10.0.0.3/"⟩⟩ .write).insert one .write⟩ }

end Sample

/-- Refused relays use up the slots: the outbox is empty, though the user advertises an allowed write relay. -/
theorem walled_starves :
    Sample.one ∈ listed RelayMarker.isWrite Sample.walled ∧
    GossipOptions.default.allowed.isAllowed Sample.urlCrate Sample.one = true ∧
    (outbox Sample.urlCrate .default Sample.walled).isEmpty = true := by
  decide +kernel

end Nula.Gossip
