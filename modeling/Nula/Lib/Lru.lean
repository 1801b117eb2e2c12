import Mathlib

/-!
# `Lib.Lru` — least-recently-used caches

What a bounded cache that evicts the least recently used key does, as an interface (`Lru`): `put` tells whether
the key was there, and makes it the most recent one, dropping whatever no longer fits. From that alone the
contents after any sequence of `put`s are known: the last distinct keys, as many as fit
(`recent_puts`).
-/

namespace Nula

/-- A least-recently-used cache over the keys `κ`; `recent` lists its keys, the most recent first. -/
structure Lru (κ : Type) [DecidableEq κ] where
  State : Type
  /-- An empty cache of this capacity. -/
  new : Nat → State
  /-- Whether the key was there, and the cache after it. -/
  put : State → κ → Bool × State
  recent : State → List κ
  capacity : State → Nat
  recent_new : ∀ n, recent (new n) = []
  capacity_new : ∀ n, capacity (new n) = n
  put_hit : ∀ s k, (put s k).1 = decide (k ∈ recent s)
  recent_put : ∀ s k, recent (put s k).2 = (k :: (recent s).erase k).take (capacity s)
  capacity_put : ∀ s k, capacity (put s k).2 = capacity s

namespace Lru

variable {κ : Type} [DecidableEq κ]

/-- The distinct keys of a sequence, the last one first. -/
def latest (l : List κ) : List κ := l.dedup.reverse

theorem dedup_append_singleton (l : List κ) (k : κ) : (l ++ [k]).dedup = l.dedup.erase k ++ [k] := by
  induction l with
  | nil => simp
  | cons a l ih =>
      rw [List.cons_append]
      by_cases ha : a ∈ l
      · rw [List.dedup_cons_of_mem (List.mem_append_left _ ha), List.dedup_cons_of_mem ha, ih]
      · by_cases hk : a = k
        · subst hk
          have hmem : a ∈ l ++ [a] := List.mem_append_right _ List.mem_cons_self
          rw [List.dedup_cons_of_mem hmem, List.dedup_cons_of_notMem ha, ih, List.erase_cons_head,
            List.erase_of_not_mem (fun h => ha (List.mem_dedup.mp h))]
        · have hnot : a ∉ l ++ [k] := by
            intro h
            rcases List.mem_append.mp h with h | h
            · exact ha h
            · exact hk (List.mem_singleton.mp h)
          rw [List.dedup_cons_of_notMem hnot, List.dedup_cons_of_notMem ha, ih,
            List.erase_cons_tail (by simpa using hk), List.cons_append]

theorem latest_append_singleton (l : List κ) (k : κ) : latest (l ++ [k]) = k :: (latest l).erase k := by
  have hnodup : l.dedup.Nodup := List.nodup_dedup l
  rw [latest, latest, dedup_append_singleton, List.reverse_append, List.reverse_singleton, List.singleton_append,
    hnodup.erase_eq_filter, (List.nodup_reverse.mpr hnodup).erase_eq_filter, List.filter_reverse]

/-- Making room before or after the move to the front is the same. -/
theorem take_cons_erase_take {l : List κ} (n : Nat) (k : κ) :
    (k :: (l.take n).erase k).take n = (k :: l.erase k).take n := by
  cases n with
  | zero => rfl
  | succ n =>
      rw [List.take_succ_cons, List.take_succ_cons]
      congr 1
      -- up to the first `k` both sides are the same; what `take` keeps beyond it is what `erase` moves up
      induction l generalizing n with
      | nil => rfl
      | cons a l ih =>
          rw [List.take_succ_cons]
          by_cases ha : a = k
          · subst ha
            rw [List.erase_cons_head, List.erase_cons_head, List.take_take, Nat.min_self]
          · rw [List.erase_cons_tail (by simpa using ha), List.erase_cons_tail (by simpa using ha)]
            cases n with
            | zero => rfl
            | succ n =>
                rw [List.take_succ_cons, List.take_succ_cons]
                congr 1
                exact ih n

variable (lru : Lru κ)

/-- The cache after a sequence of `put`s. -/
def puts (s : lru.State) (l : List κ) : lru.State := l.foldl (fun s k => (lru.put s k).2) s

theorem capacity_puts (s : lru.State) (l : List κ) : lru.capacity (lru.puts s l) = lru.capacity s := by
  induction l generalizing s with
  | nil => rfl
  | cons k l ih => exact (ih _).trans (lru.capacity_put s k)

theorem puts_append_singleton (s : lru.State) (l : List κ) (k : κ) :
    lru.puts s (l ++ [k]) = (lru.put (lru.puts s l) k).2 := by
  rw [puts, puts, List.foldl_append]
  rfl

/-- **Contents.** The last distinct keys, as many as fit. -/
theorem recent_puts (n : Nat) (l : List κ) : lru.recent (lru.puts (lru.new n) l) = (latest l).take n := by
  induction l using List.reverseRecOn with
  | nil => exact (lru.recent_new n).trans List.take_nil.symm
  | append_singleton l k ih =>
      rw [puts_append_singleton, recent_put, capacity_puts, capacity_new, ih, take_cons_erase_take,
        latest_append_singleton]

/-- A cache as a list with its capacity. -/
def ofList : Lru κ where
  State := Nat × List κ
  new n := (n, [])
  put s k := (decide (k ∈ s.2), (s.1, (k :: s.2.erase k).take s.1))
  recent := Prod.snd
  capacity := Prod.fst
  recent_new _ := rfl
  capacity_new _ := rfl
  put_hit _ _ := rfl
  recent_put _ _ := rfl
  capacity_put _ _ := rfl

end Lru

end Nula
