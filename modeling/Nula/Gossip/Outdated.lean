import Nula.Gossip.WarmUp

/-!
# `Gossip.Outdated` — which lists a refresher is given

`Gossip::outdated` walks the routing table in the order of the hash map, keeps the lists that are older than their
time to live in a `BTreeSet`, and stops when the batch is full. What it returns is sorted; what it never came to is
not in it.

## Contents
- **The scan.** `outdated`, over every order of the table; `mem_collectOutdated` says what it keeps.
- **All stale lists.** `stale`, in ascending order of `(observed_at, public key)`.
- **Main result.** `outdated_stalest_iff`.
-/

namespace Nula.Gossip

open Std

/-! ## Keys (`ttl.rs`) -/

/-- `OutdatedKey`: whose list is stale, and since when. -/
structure OutdatedKey where
  publicKey : PublicKey
  observedAt : Option Timestamp
  deriving DecidableEq

namespace OutdatedKey

/-- What is compared first and what then. -/
def key (k : OutdatedKey) : Option Timestamp × PublicKey := (k.observedAt, k.publicKey)

/-- `Ord for OutdatedKey`: a missing time first, then the older one, then the smaller key. -/
instance : Ord OutdatedKey where
  compare a b :=
    match a.observedAt, b.observedAt with
    | none, none => compare a.publicKey b.publicKey
    | none, some _ => .lt
    | some _, none => .gt
    | some x, some y => (compare x y).then (compare a.publicKey b.publicKey)

/-- Keys are ordered by the time, and then by the key. -/
theorem compare_eq (a b : OutdatedKey) : compare a b =
    compareLex (compareOn observedAt) (compareOn publicKey) a b := by
  obtain ⟨apk, aat⟩ := a
  obtain ⟨bpk, bat⟩ := b
  cases aat <;> cases bat <;> rfl

instance : TransOrd OutdatedKey := by
  have h : (compare : OutdatedKey → OutdatedKey → Ordering) = compareLex (compareOn observedAt) (compareOn publicKey) :=
    funext fun a => funext fun b => compare_eq a b
  show TransCmp (compare : OutdatedKey → OutdatedKey → Ordering)
  rw [h]
  infer_instance

instance : LawfulEqOrd OutdatedKey where
  compare_self := Std.compare_self
  eq_of_compare := by
    rintro ⟨apk, aat⟩ ⟨bpk, bat⟩ h
    rw [compare_eq, compareLex, Ordering.then_eq_eq] at h
    obtain rfl : aat = bat := LawfulEqCmp.eq_of_compare h.1
    obtain rfl : apk = bpk := LawfulEqCmp.eq_of_compare h.2
    rfl

end OutdatedKey

/-! ## The scan (`gossip.rs`, `routes.rs`) -/

/-- `UserRoutes::list_event_at`. -/
def UserRoutes.listEventAt (routes : UserRoutes) : ListKind → Option Timestamp
  | .nip65 => routes.nip65EventAt
  | .nip17 => routes.nip17EventAt

/-- The key of a user whose list is older than `ttl`. -/
def staleKey (kind : ListKind) (ttl now : UInt64) (entry : PublicKey × UserRoutes) : Option OutdatedKey :=
  match entry.2.listEventAt kind with
  | some observedAt => if ttl.toNat < now.toNat - observedAt.toNat then some ⟨entry.1, some observedAt⟩ else none
  | none => none

/-- The loop of `Gossip::outdated`. -/
def collectOutdated (kind : ListKind) (ttl now : UInt64) (limit : ℕ+) :
    List (PublicKey × UserRoutes) → BTreeSet OutdatedKey → BTreeSet OutdatedKey
  | [], out => out
  | entry :: rest, out =>
      let out := match staleKey kind ttl now entry with
        | some key => out.insert key
        | none => out
      if (limit : Nat) ≤ out.size then out else collectOutdated kind ttl now limit rest out

section Outdated

variable {D : Type} (inner : Inner D) (kind : ListKind) (ttl now : UInt64) (limit : ℕ+)

/-- `Gossip::outdated`; `rank` is the order of the hash map, and `ttl` the `list_ttl` in seconds. -/
def Inner.outdated (clock : Except String Timestamp) (rank : PublicKey → Nat) : BTreeSet OutdatedKey :=
  match clock with
  | .error _ => ∅
  | .ok now => collectOutdated kind ttl now limit (inner.routes.iter rank) ∅

/-- All users whose list is older than `ttl`, the oldest list first. -/
def Inner.stale : BTreeSet OutdatedKey :=
  ExtTreeSet.ofList (inner.routes.toList.filterMap (staleKey kind ttl now)) compare

end Outdated

/-! ## What the scan keeps -/

section Scan

variable {kind : ListKind} {ttl now : UInt64} {limit : ℕ+}

/-- A stale key is the user's whose entry is stale. -/
theorem publicKey_of_staleKey {entry : PublicKey × UserRoutes} {key : OutdatedKey}
    (h : staleKey kind ttl now entry = some key) : key.publicKey = entry.1 := by
  unfold staleKey at h
  split at h
  · split at h
    · rw [← Option.some.inj h]
    · cases h
  · cases h

/-- The scan adds the first stale keys, as many as there is room for. By induction on the entries; the bound is
    checked behind each key that is added, so there is room as long as the scan goes on. -/
theorem mem_collectOutdated {entries : List (PublicKey × UserRoutes)} {out : BTreeSet OutdatedKey}
    (hroom : out.size < limit) (hnodup : (entries.filterMap (staleKey kind ttl now)).Nodup)
    (hnew : ∀ key ∈ entries.filterMap (staleKey kind ttl now), key ∉ out) (key : OutdatedKey) :
    key ∈ collectOutdated kind ttl now limit entries out ↔
      key ∈ out ∨ key ∈ (entries.filterMap (staleKey kind ttl now)).take (limit - out.size) := by
  induction entries generalizing out with
  | nil => simp [collectOutdated]
  | cons entry rest ih =>
      rw [collectOutdated]
      cases hkey : staleKey kind ttl now entry with
      | none =>
          rw [List.filterMap_cons_none hkey] at hnodup hnew ⊢
          simp only [Nat.not_le.mpr hroom, if_false]
          exact ih hroom hnodup hnew
      | some first =>
          rw [List.filterMap_cons_some hkey] at hnodup hnew ⊢
          obtain ⟨hfirst, hrest⟩ := List.nodup_cons.mp hnodup
          have hsize : (out.insert first).size = out.size + 1 := by
            have hfresh : ¬ out.contains first = true := fun h =>
              hnew first List.mem_cons_self (ExtTreeSet.mem_iff_contains.mpr h)
            rw [ExtTreeSet.size_insert, if_neg hfresh]
          have hmem : ∀ k, k ∈ out.insert first ↔ k ∈ out ∨ k = first := by
            intro k
            rw [ExtTreeSet.mem_insert, LawfulEqCmp.compare_eq_iff_eq]
            exact ⟨fun h => h.symm.imp_right Eq.symm, fun h => h.symm.imp_left Eq.symm⟩
          have htake : ((limit : Nat) - out.size) = (limit - (out.size + 1)) + 1 := by omega
          simp only [hsize]
          rw [htake, List.take_succ_cons, List.mem_cons]
          split
          · rename_i hfull
            rw [hmem, Nat.sub_eq_zero_of_le hfull]
            simp
          · rename_i hmore
            rw [ih (by rw [hsize]; omega) hrest (fun k hk hin => ?_), hsize, hmem, or_assoc]
            rcases (hmem k).mp hin with hin | rfl
            · exact hnew k (List.mem_cons_of_mem first hk) hin
            · exact hfirst hk

end Scan

/-! ## Orders of the table -/

section Orders

variable {κ ν : Type} [Ord κ] [TransOrd κ] [LawfulEqOrd κ] (m : HashMap κ ν)

theorem pairwise_iter (rank : κ → Nat) : (m.iter rank).Pairwise (fun a b => a.1 ≠ b.1) := by
  have hdistinct : m.toList.Pairwise (fun a b => a.1 ≠ b.1) :=
    ExtTreeMap.distinct_keys_toList.imp (fun h heq => h (LawfulEqCmp.compare_eq_iff_eq.mpr heq))
  exact (List.perm_insertionSort _ _).symm.pairwise hdistinct Ne.symm

/-- Any entry may come last. -/
theorem exists_iter_last [DecidableEq κ] {k : κ} {v : ν} (h : m[k]? = some v) :
    ∃ rank init, m.iter rank = init ++ [(k, v)] := by
  refine ⟨fun i => if i = k then 1 else 0, ?_⟩
  obtain ⟨init, rest, hsplit⟩ := List.append_of_mem (HashMap.mem_iter.mpr h)
  have hsorted : (m.iter (fun i => if i = k then 1 else 0)).Pairwise
      (fun a b => (if a.1 = k then 1 else 0) ≤ (if b.1 = k then 1 else 0)) := by
    have htrans : IsTrans (κ × ν) (fun a b => (if a.1 = k then 1 else 0) ≤ (if b.1 = k then 1 else 0)) :=
      ⟨fun _ _ _ => Nat.le_trans⟩
    have htotal : Std.Total (fun a b : κ × ν => (if a.1 = k then 1 else 0) ≤ (if b.1 = k then 1 else 0)) :=
      ⟨fun _ _ => Nat.le_total _ _⟩
    exact List.pairwise_insertionSort _ _
  have hdistinct := pairwise_iter m (fun i => if i = k then 1 else 0)
  rw [hsplit] at hsorted hdistinct ⊢
  refine ⟨init, ?_⟩
  cases rest with
  | nil => rfl
  | cons e rest =>
      -- what comes behind has the rank of `k`, which no other key has
      have hrank := (List.pairwise_cons.mp (List.pairwise_append.mp hsorted).2.1).1 e List.mem_cons_self
      have hne := (List.pairwise_cons.mp (List.pairwise_append.mp hdistinct).2.1).1 e List.mem_cons_self
      rw [if_pos rfl, if_neg (Ne.symm hne)] at hrank
      cases hrank

end Orders

/-! ## All of them -/

section Table

variable {D : Type} {inner : Inner D} {kind : ListKind} {ttl now : UInt64} {limit : ℕ+} (rank : PublicKey → Nat)

theorem nodup_staleKeys {entries : List (PublicKey × UserRoutes)} (h : entries.Pairwise (fun a b => a.1 ≠ b.1)) :
    (entries.filterMap (staleKey kind ttl now)).Nodup := by
  refine List.pairwise_filterMap.mpr (h.imp (fun {a b} hne key hkey key' hkey' heq => hne ?_))
  rw [← publicKey_of_staleKey hkey, ← publicKey_of_staleKey hkey', heq]

/-- The order of iteration does not matter to which keys are stale. -/
theorem perm_staleKeys : ((inner.routes.iter rank).filterMap (staleKey kind ttl now)).Perm
    (inner.routes.toList.filterMap (staleKey kind ttl now)) :=
  (List.perm_insertionSort _ _).filterMap _

theorem mem_stale {key : OutdatedKey} : key ∈ inner.stale kind ttl now ↔
    key ∈ (inner.routes.iter rank).filterMap (staleKey kind ttl now) := by
  rw [Inner.stale, ExtTreeSet.mem_ofList, List.contains_iff_mem, (perm_staleKeys rank).mem_iff]

theorem size_stale : (inner.stale kind ttl now).size =
    ((inner.routes.iter rank).filterMap (staleKey kind ttl now)).length := by
  have hnodup : (inner.routes.toList.filterMap (staleKey kind ttl now)).Nodup :=
    (perm_staleKeys rank).nodup_iff.mp (nodup_staleKeys (pairwise_iter inner.routes rank))
  rw [(perm_staleKeys rank).length_eq, Inner.stale, ExtTreeSet.size_ofList]
  exact hnodup.imp (fun hne heq => hne (LawfulEqCmp.compare_eq_iff_eq.mp heq))

/-- **What is reported** is the first `limit` of the stale keys in the order of iteration, not the ones that are stale
    the longest. -/
theorem mem_outdated {key : OutdatedKey} : key ∈ inner.outdated kind ttl limit (.ok now) rank ↔
    key ∈ ((inner.routes.iter rank).filterMap (staleKey kind ttl now)).take limit := by
  rw [Inner.outdated, mem_collectOutdated (by rw [ExtTreeSet.size_empty]; exact limit.pos)
    (nodup_staleKeys (pairwise_iter inner.routes rank)) (fun _ _ => ExtTreeSet.not_mem_empty)]
  simp

/-- A batch that has room for every stale list takes them all. -/
theorem outdated_eq_stale (h : (inner.stale kind ttl now).size ≤ limit) :
    inner.outdated kind ttl limit (.ok now) rank = inner.stale kind ttl now := by
  refine ExtTreeSet.ext_mem (fun key => ?_)
  rw [mem_outdated, mem_stale rank, List.take_of_length_le (size_stale rank ▸ h)]

/-- A list that comes last is not taken where there is no room for all. -/
theorem exists_passed_over {key : OutdatedKey} (hkey : key ∈ inner.stale kind ttl now)
    (h : limit < (inner.stale kind ttl now).size) :
    ∃ rank, key ∉ inner.outdated kind ttl limit (.ok now) rank := by
  obtain ⟨⟨pk, routes⟩, hentry, hstale⟩ := List.mem_filterMap.mp ((mem_stale (fun _ => 0)).mp hkey)
  obtain ⟨rank, init, hlast⟩ := exists_iter_last inner.routes (HashMap.mem_iter.mp hentry)
  have hsize : (inner.stale kind ttl now).size = ((inner.routes.iter rank).filterMap (staleKey kind ttl now)).length :=
    size_stale rank
  have hnodup : ((inner.routes.iter rank).filterMap (staleKey kind ttl now)).Nodup :=
    nodup_staleKeys (pairwise_iter inner.routes rank)
  refine ⟨rank, fun hmem => ?_⟩
  rw [mem_outdated] at hmem
  rw [hlast, List.filterMap_append, List.filterMap_cons_some hstale, List.filterMap_nil] at hsize hnodup hmem
  rw [List.length_append, List.length_singleton] at hsize
  rw [List.take_append_of_le_length (by omega)] at hmem
  exact (List.nodup_append.mp hnodup).2.2 key (List.mem_of_mem_take hmem) key (List.mem_singleton_self key) rfl

/-- **When the stalest are returned.** In every order of the table `outdated` returns the first of all stale lists, the
    oldest first, and the oldest of all is among them, exactly when the batch has room for every stale list.

    The batch is cut off in the order of the table before anything is sorted. With room for all, nothing is cut;
    without, some order meets the oldest last (`exists_passed_over`). -/
theorem outdated_stalest_iff (inner : Inner D) (kind : ListKind) (ttl now : UInt64) (limit : ℕ+) :
    ((∀ rank, (inner.outdated kind ttl limit (.ok now) rank).toList =
        (inner.stale kind ttl now).toList.take limit) ∧
      ∀ rank, ∀ oldest ∈ (inner.stale kind ttl now).toList.head?,
        oldest ∈ inner.outdated kind ttl limit (.ok now) rank) ↔
    (inner.stale kind ttl now).size ≤ limit := by
  constructor
  · rintro ⟨-, holdest⟩
    by_contra hfull
    cases hlist : (inner.stale kind ttl now).toList with
    | nil =>
        have hlength := congrArg List.length hlist
        rw [ExtTreeSet.length_toList, List.length_nil] at hlength
        omega
    | cons oldest rest =>
        have hmem : oldest ∈ inner.stale kind ttl now := by
          rw [← ExtTreeSet.mem_toList, hlist]
          exact List.mem_cons_self
        obtain ⟨rank, hmissed⟩ := exists_passed_over hmem (Nat.not_le.mp hfull)
        exact hmissed (holdest rank oldest (by rw [hlist]; rfl))
  · intro hroom
    constructor
    · intro rank
      rw [outdated_eq_stale rank hroom, List.take_of_length_le (by rwa [ExtTreeSet.length_toList])]
    · intro rank oldest holdest
      rw [outdated_eq_stale rank hroom, ← ExtTreeSet.mem_toList]
      exact List.mem_of_head? holdest

end Table

/-! ## Sample values

A batch of one, and two users whose lists have both been stale for days; bob's comes first in the table. -/

namespace Sample

open Nula.Sample

/-- Alice's and bob's lists are stale, alice's for longer. -/
def twoStale : Inner Unit :=
  let list : RelayList := ⟨(∅ : BTreeMap RelayUrl RelayMarker).insert one .readWrite⟩
  ⟨.default, (), ((∅ : HashMap PublicKey UserRoutes).insert alice
    { UserRoutes.default with nip65 := some list, nip65EventAt := some 1000 }).insert bob
    { UserRoutes.default with nip65 := some list, nip65EventAt := some 2000 }⟩

/-- An order of iteration that meets bob first. -/
def bobFirst (pk : PublicKey) : Nat := if pk = bob then 0 else 1

end Sample

/-- The newer of two stale lists is returned. -/
theorem oldest_passed_over :
    (Sample.twoStale.stale .nip65 86400 1000000).toList.take 1 = [⟨Nula.Sample.alice, some 1000⟩] ∧
      (Sample.twoStale.outdated .nip65 86400 1 (.ok 1000000) Sample.bobFirst).toList =
        [⟨Nula.Sample.bob, some 2000⟩] := by
  decide +kernel

end Nula.Gossip
