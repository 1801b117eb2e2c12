import Mathlib

/-!
# `Lib.Listing` — strictly sorted listings and their first `n` elements

A *listing* of a finite set is the list of its elements, strictly increasing in some order `r`. A set
has one listing (`Listing.ext`), an element's place in it is the number of elements before it
(`mem_take_iff_countP`), and cutting it at `n` keeps a downward closed part (`rel_of_mem_take`).

On top of that, three principles about cut listings:
- `IsTop.mem_iff` — a downward closed part of size `n` *is* the first `n` elements, so a bounded
  collection can be maintained step by step and compared with the whole only at the end;
- `take_eq_iff_prefixClosed` — a cut list of hits, possibly with repeats and in any order, names the
  first `n` elements exactly when it is downward closed and wastes no place on a repeat;
- `ties_take_iff` — two listings that agree up to the order inside groups of equal stamps select the
  same elements exactly when the cut splits no group.
-/

namespace Nula

variable {α : Type}

/-- At most `n` elements, or all of them when no limit is given. -/
def takeLimit : Option Nat → List α → List α
  | none,   l => l
  | some n, l => l.take n

theorem mem_of_mem_takeLimit {limit : Option Nat} {l : List α} {x : α} (h : x ∈ takeLimit limit l) :
    x ∈ l := by
  cases limit with
  | none => exact h
  | some n => exact List.mem_of_mem_take h

/-- A cut leaves nothing of nothing, or under a limit of zero. -/
theorem takeLimit_eq_nil_iff {limit : Option Nat} {l : List α} :
    takeLimit limit l = [] ↔ limit = some 0 ∨ l = [] := by
  cases limit with
  | none => simp [takeLimit]
  | some n => simp [takeLimit, List.take_eq_nil_iff]

theorem pairwise_takeLimit {r : α → α → Prop} {limit : Option Nat} {l : List α} (h : l.Pairwise r) :
    (takeLimit limit l).Pairwise r := by
  cases limit with
  | none => exact h
  | some n => exact h.sublist (List.take_sublist n l)

/-- A budget that is used up. -/
theorem takeLimit_spent {limit : Option Nat} {m : Nat} {l : List α}
    (h : limit.any (fun n => n ≤ m) = true) : takeLimit (limit.map (· - m)) l = [] := by
  cases limit with
  | none => cases h
  | some n =>
      have hn : n ≤ m := by simpa using h
      rw [Option.map_some, takeLimit, Nat.sub_eq_zero_of_le hn, List.take_zero]

/-- A budget that is not used up pays for one more element. -/
theorem takeLimit_cons {limit : Option Nat} {m : Nat} {x : α} {l : List α}
    (h : ¬ limit.any (fun n => n ≤ m) = true) :
    takeLimit (limit.map (· - m)) (x :: l) = x :: takeLimit (limit.map (· - (m + 1))) l := by
  cases limit with
  | none => rfl
  | some n =>
      have hn : ¬ n ≤ m := by simpa using h
      have hsucc : n - m = n - (m + 1) + 1 := by omega
      rw [Option.map_some, Option.map_some, takeLimit, takeLimit, hsucc, List.take_succ_cons]

theorem nodup_of_pairwise {r : α → α → Prop} [IsStrictOrder α r] {l : List α} (h : l.Pairwise r) :
    l.Nodup :=
  h.imp ne_of_irrefl

/-! ## Listings -/

/-- Two listings of the same set are the same list. -/
theorem Listing.ext {r : α → α → Prop} [IsStrictOrder α r] {l₁ l₂ : List α}
    (h₁ : l₁.Pairwise r) (h₂ : l₂.Pairwise r) (h : ∀ x, x ∈ l₁ ↔ x ∈ l₂) : l₁ = l₂ := by
  have hperm : l₁.Perm l₂ := (List.perm_ext_iff_of_nodup (nodup_of_pairwise h₁) (nodup_of_pairwise h₂)).mpr h
  exact hperm.eq_of_pairwise (fun a b _ _ hab hba => absurd hba (asymm_of r hab)) h₁ h₂

/-- Elements kept by a cut come before the elements dropped by it. -/
theorem rel_of_mem_take {r : α → α → Prop} {l : List α} (hl : l.Pairwise r) {n : Nat} {x y : α}
    (hx : x ∈ l.take n) (hy : y ∈ l) (hny : y ∉ l.take n) : r x y := by
  have hy' : y ∈ l.drop n := by
    rw [← List.take_append_drop n l, List.mem_append] at hy
    exact hy.resolve_left hny
  rw [← List.take_append_drop n l, List.pairwise_append] at hl
  exact hl.2.2 x hx y hy'

/-- An element survives the cut at `n` iff fewer than `n` elements come before it. By induction on the list: behind
    the head, one element more comes before, and the cut is one shorter. -/
theorem mem_take_iff_countP {r : α → α → Prop} [IsStrictOrder α r] [DecidableRel r] {l : List α}
    (hl : l.Pairwise r) {n : Nat} {x : α} (hx : x ∈ l) :
    x ∈ l.take n ↔ l.countP (fun y => decide (r y x)) < n := by
  induction l generalizing n with
  | nil => simp at hx
  | cons a l ih =>
      rw [List.pairwise_cons] at hl
      cases n with
      | zero => simp
      | succ n =>
          rw [List.take_succ_cons, List.mem_cons]
          rcases List.mem_cons.mp hx with rfl | hxl
          · -- the head has nothing before it
            have hzero : (x :: l).countP (fun y => decide (r y x)) = 0 := by
              rw [List.countP_eq_zero]
              intro y hy
              rcases List.mem_cons.mp hy with rfl | hy
              · simpa using irrefl_of r y
              · simpa using asymm_of r (hl.1 y hy)
            simp [hzero]
          · have hax : r a x := hl.1 x hxl
            have hne : x ≠ a := (ne_of_irrefl hax).symm
            rw [List.countP_cons_of_pos (by simpa using hax)]
            have := ih hl.2 (n := n) hxl
            constructor
            · intro h
              have := this.mp (h.resolve_left hne)
              omega
            · intro h
              exact Or.inr (this.mpr (by omega))

/-- A cut listing is a single element iff there is no other, or the limit is 1 and it comes first. Without a limit the
    listing is `[w]` itself, with a limit of 1 its head is, and above 1 a second element would show. -/
theorem takeLimit_eq_singleton_iff {r : α → α → Prop} [IsStrictOrder α r] {l : List α}
    (hl : l.Pairwise r) {w : α} (hw : w ∈ l) {limit : Option Nat} :
    takeLimit limit l = [w] ↔
      limit ≠ some 0 ∧ ((∀ e ∈ l, e = w) ∨ (limit = some 1 ∧ ∀ e ∈ l, e ≠ w → r w e)) := by
  -- all elements equal `w` exactly when the listing is `[w]`
  have hall : (∀ e ∈ l, e = w) ↔ l = [w] := by
    constructor
    · intro h
      have hw1 : [w].Pairwise r := List.pairwise_singleton r w
      refine Listing.ext hl hw1 (fun x => ?_)
      rw [List.mem_singleton]
      exact ⟨h x, fun hx => hx ▸ hw⟩
    · rintro rfl e he
      exact List.mem_singleton.mp he
  -- `w` comes before all others exactly when it is the head
  have hfirst : (∀ e ∈ l, e ≠ w → r w e) ↔ l.take 1 = [w] := by
    cases l with
    | nil => cases hw
    | cons a t =>
        rw [List.pairwise_cons] at hl
        rw [List.take_succ_cons, List.take_zero, List.cons.injEq]
        constructor
        · intro h
          refine ⟨?_, rfl⟩
          by_contra hne
          have hwt : w ∈ t := (List.mem_cons.mp hw).resolve_left (Ne.symm hne)
          exact asymm_of r (hl.1 w hwt) (h a List.mem_cons_self hne)
        · rintro ⟨rfl, _⟩ e he hne
          exact hl.1 e ((List.mem_cons.mp he).resolve_left hne)
  rw [hall, hfirst]
  match limit with
  | none => simp [takeLimit]
  | some 0 => simp [takeLimit]
  | some 1 =>
      simp only [takeLimit, ne_eq, Option.some.injEq, Nat.one_ne_zero, not_false_eq_true, true_and]
      constructor
      · exact Or.inr
      · rintro (rfl | h)
        · rfl
        · exact h
  | some (n + 2) =>
      simp only [takeLimit, ne_eq, Option.some.injEq]
      constructor
      · intro h
        refine ⟨by omega, Or.inl ?_⟩
        have hlen := congrArg List.length h
        rw [List.length_take, List.length_singleton] at hlen
        rwa [List.take_of_length_le (by omega)] at h
      · rintro ⟨_, rfl | ⟨hn, _⟩⟩
        · rfl
        · omega

/-! ## Bounded collections -/

/-- `T` is the part of `W` that a capacity `cap` keeps: it lies in `W`, nothing outside it comes
    before anything inside it, it respects the bound, and it is short of `W` only when it is full. -/
structure IsTop (r : α → α → Prop) (cap : Option Nat) (W : α → Prop) (T : List α) : Prop where
  sub : ∀ x ∈ T, W x
  below : ∀ x ∈ T, ∀ y, W y → y ∉ T → r x y
  bound : ∀ n, cap = some n → T.length ≤ n
  full : (∀ y, W y → y ∈ T) ∨ cap = some T.length

/-- **A top part is the cut listing.** Both ways by counting: what comes before a member is in the part, and the part
    before a non-member is full. -/
theorem IsTop.mem_iff {r : α → α → Prop} [IsStrictOrder α r] {cap : Option Nat} {W : α → Prop}
    {T l : List α} (h : IsTop r cap W T) (hT : T.Nodup) (hl : l.Pairwise r)
    (hW : ∀ x, x ∈ l ↔ W x) (x : α) : x ∈ T ↔ x ∈ takeLimit cap l := by
  classical
  cases cap with
  | none =>
      have hall : ∀ y, W y → y ∈ T := h.full.resolve_right (by simp)
      rw [takeLimit, hW]
      exact ⟨h.sub x, hall x⟩
  | some n =>
      rw [takeLimit]
      have hlen : T.length ≤ n := h.bound n rfl
      constructor
      · intro hx
        have hxl : x ∈ l := (hW x).mpr (h.sub x hx)
        rw [mem_take_iff_countP hl hxl, List.countP_eq_length_filter]
        -- everything before `x` is in `T` and differs from `x`
        have hsub : l.filter (fun y => decide (r y x)) ⊆ T.erase x := by
          intro y hy
          rw [List.mem_filter, decide_eq_true_eq] at hy
          rw [hT.mem_erase_iff]
          refine ⟨ne_of_irrefl hy.2, ?_⟩
          by_contra hyT
          exact asymm_of r hy.2 (h.below x hx y ((hW y).mp hy.1) hyT)
        have hle := (((nodup_of_pairwise hl).filter _).subperm hsub).length_le
        rw [List.length_erase_of_mem hx] at hle
        have hpos : 0 < T.length := List.length_pos_of_mem hx
        omega
      · intro hx
        have hxl : x ∈ l := List.mem_of_mem_take hx
        rw [mem_take_iff_countP hl hxl, List.countP_eq_length_filter] at hx
        rcases h.full with hall | hfull
        · exact hall x ((hW x).mp hxl)
        · by_contra hxT
          have hTn : n = T.length := Option.some.inj hfull
          have hsub : T ⊆ l.filter (fun y => decide (r y x)) := by
            intro y hy
            rw [List.mem_filter, decide_eq_true_eq]
            exact ⟨(hW y).mpr (h.sub y hy), h.below y hy x ((hW x).mp hxl) hxT⟩
          have hle := (hT.subperm hsub).length_le
          omega

/-- The cut listing is a top part. -/
theorem isTop_takeLimit {r : α → α → Prop} [IsStrictOrder α r] {cap : Option Nat} {W : α → Prop}
    {l : List α} (hl : l.Pairwise r) (hW : ∀ x, x ∈ l ↔ W x) : IsTop r cap W (takeLimit cap l) where
  sub := fun x hx => (hW x).mp (mem_of_mem_takeLimit hx)
  below := by
    intro x hx y hy hny
    cases cap with
    | none => exact absurd ((hW y).mpr hy) hny
    | some n => exact rel_of_mem_take hl hx ((hW y).mpr hy) hny
  bound := by
    rintro n rfl
    exact List.length_take_le n l
  full := by
    cases cap with
    | none => exact Or.inl (fun y hy => (hW y).mpr hy)
    | some n =>
        by_cases hlen : l.length ≤ n
        · left
          intro y hy
          rw [takeLimit, List.take_of_length_le hlen]
          exact (hW y).mpr hy
        · right
          rw [takeLimit, List.length_take_of_le (by omega)]

/-- A newcomer that outranks the member it displaces: enter it, drop the displaced, cut again. Two cases, as something
    was ever cut or not: in the second the part is full, and what is outside comes behind its members. -/
theorem IsTop.enter {r : α → α → Prop} [IsStrictOrder α r] {cap : Option Nat} {W W' D : α → Prop}
    {T l : List α} {e : α} (h : IsTop r cap W T) (hT : T.Nodup) (hl : l.Pairwise r)
    (hmem : ∀ x, x ∈ l ↔ x = e ∨ (x ∈ T ∧ ¬ D x)) (heT : e ∉ T)
    (hD : ∀ d ∈ T, D d → r e d ∧ ∀ d' ∈ T, D d' → d' = d)
    (hW' : ∀ x, W' x ↔ x = e ∨ (W x ∧ ¬ D x)) : IsTop r cap W' (takeLimit cap l) := by
  classical
  rcases h.full with hall | hfull
  · -- nothing was ever cut, so `l` lists all of `W'`
    refine isTop_takeLimit hl (fun x => ?_)
    rw [hmem, hW']
    exact or_congr Iff.rfl (and_congr_left' ⟨h.sub x, hall x⟩)
  · subst hfull
    have hout : ∀ y, W' y → y ∉ l → W y ∧ y ∉ T := by
      intro y hy hny
      rw [hW'] at hy
      rw [hmem, not_or] at hny
      obtain ⟨hWy, hDy⟩ := hy.resolve_left hny.1
      exact ⟨hWy, fun hyT => hny.2 ⟨hyT, hDy⟩⟩
    have hsub : ∀ x ∈ l, W' x := by
      intro x hx
      rw [hW']
      exact ((hmem x).mp hx).imp_right (fun hx => ⟨h.sub x hx.1, hx.2⟩)
    by_cases hd : ∃ d ∈ T, D d
    · -- the newcomer takes the place of `d`, and outranks what `d` outranked
      obtain ⟨d, hdT, hDd⟩ := hd
      have hperm : l.Perm (e :: T.erase d) := by
        refine (List.perm_ext_iff_of_nodup (nodup_of_pairwise hl) ?_).mpr (fun x => ?_)
        · exact List.nodup_cons.mpr ⟨fun hc => heT (List.mem_of_mem_erase hc), hT.erase d⟩
        · rw [hmem, List.mem_cons, hT.mem_erase_iff]
          refine or_congr Iff.rfl ⟨fun hx => ⟨fun hxd => hx.2 (hxd ▸ hDd), hx.1⟩, fun hx => ⟨hx.2, ?_⟩⟩
          exact fun hDx => hx.1 ((hD d hdT hDd).2 x hx.2 hDx)
      have hlen : l.length = T.length := by
        rw [hperm.length_eq, List.length_cons, List.length_erase_of_mem hdT]
        have := List.length_pos_of_mem hdT
        omega
      rw [takeLimit, List.take_of_length_le (by omega)]
      refine ⟨hsub, ?_, ?_, Or.inr (by rw [hlen])⟩
      · intro x hx y hy hny
        obtain ⟨hWy, hyT⟩ := hout y hy hny
        rcases (hmem x).mp hx with rfl | hx
        · exact trans_of r (hD d hdT hDd).1 (h.below d hdT y hWy hyT)
        · exact h.below x hx.1 y hWy hyT
      · intro n hn
        rw [hlen]
        exact h.bound n hn
    · -- no place is freed: the last of the enlarged listing goes
      have hperm : l.Perm (e :: T) := by
        refine (List.perm_ext_iff_of_nodup (nodup_of_pairwise hl) ?_).mpr (fun x => ?_)
        · exact List.nodup_cons.mpr ⟨heT, hT⟩
        · rw [hmem, List.mem_cons]
          exact or_congr Iff.rfl ⟨fun hx => hx.1, fun hx => ⟨hx, fun hDx => hd ⟨x, hx, hDx⟩⟩⟩
      have hlen : l.length = T.length + 1 := by rw [hperm.length_eq, List.length_cons]
      refine ⟨fun x hx => hsub x (List.mem_of_mem_take hx), ?_, ?_, Or.inr ?_⟩
      · intro x hx y hy hny
        by_cases hyl : y ∈ l
        · exact rel_of_mem_take hl hx hyl hny
        · obtain ⟨hWy, hyT⟩ := hout y hy hyl
          rcases (hmem x).mp (List.mem_of_mem_take hx) with rfl | hxT
          · -- the newcomer stays, so the last one was in `T` already
            obtain ⟨z, hz, hzn⟩ : ∃ z ∈ l, z ∉ l.take T.length := by
              by_contra hno
              push Not at hno
              have hle := ((nodup_of_pairwise hl).subperm hno).length_le
              rw [List.length_take] at hle
              omega
            have hxz : r x z := rel_of_mem_take hl hx hz hzn
            have hzT : z ∈ T := (((hmem z).mp hz).resolve_left (ne_of_irrefl hxz).symm).1
            exact trans_of r hxz (h.below z hzT y hWy hyT)
          · exact h.below x hxT.1 y hWy hyT
      · intro n hn
        obtain rfl := Option.some.inj hn
        exact List.length_take_le _ _
      · rw [takeLimit, List.length_take_of_le (by omega)]

/-- A newcomer that an absent element outranks is cut again at once. -/
theorem IsTop.enter_lost {r : α → α → Prop} [IsStrictOrder α r] {cap : Option Nat} {W : α → Prop}
    {T l : List α} {e x : α} (h : IsTop r cap W T) (hT : T.Pairwise r) (hl : l.Pairwise r)
    (hmem : ∀ y, y ∈ l ↔ y = e ∨ y ∈ T) (hx : W x) (hxT : x ∉ T) (hxe : r x e) :
    takeLimit cap l = T := by
  have hcap : cap = some T.length := h.full.resolve_left (fun hall => hxT (hall x hx))
  have hlast : l = T ++ [e] := by
    refine Listing.ext hl (List.pairwise_append.mpr ⟨hT, List.pairwise_singleton r e, ?_⟩) (fun y => ?_)
    · intro y hy z hz
      rw [List.mem_singleton] at hz
      rw [hz]
      exact trans_of r (h.below y hy x hx hxT) hxe
    · rw [hmem, List.mem_append, List.mem_singleton]
      exact or_comm
  rw [hcap, takeLimit, hlast, List.take_left]

/-- The top of a set depends on its members only. -/
theorem IsTop.congr {r : α → α → Prop} {cap : Option Nat} {W W' : α → Prop} {T : List α}
    (h : IsTop r cap W T) (hW : ∀ x, W' x ↔ W x) : IsTop r cap W' T := by
  obtain rfl : W' = W := funext (fun x => propext (hW x))
  exact h

/-- Among finitely many candidates one is preceded by no other. -/
theorem exists_first {r : α → α → Prop} [IsStrictOrder α r] {l : List α} {p : α → Prop}
    (h : ∃ x ∈ l, p x) : ∃ x ∈ l, p x ∧ ∀ y ∈ l, p y → ¬ r y x := by
  classical
  induction l with
  | nil => simp at h
  | cons a l ih =>
      by_cases hex : ∃ x ∈ l, p x
      · obtain ⟨m, hm, hpm, hfirst⟩ := ih hex
        by_cases ha : p a ∧ r a m
        · refine ⟨a, List.mem_cons_self, ha.1, fun y hy hpy hya => ?_⟩
          rcases List.mem_cons.mp hy with rfl | hy
          · exact irrefl_of r y hya
          · exact hfirst y hy hpy (trans_of r hya ha.2)
        · refine ⟨m, List.mem_cons_of_mem a hm, hpm, fun y hy hpy hym => ?_⟩
          rcases List.mem_cons.mp hy with rfl | hy
          · exact ha ⟨hpy, hym⟩
          · exact hfirst y hy hpy hym
      · obtain ⟨x, hx, hpx⟩ := h
        rcases List.mem_cons.mp hx with rfl | hx
        · refine ⟨x, List.mem_cons_self, hpx, fun y hy hpy hyx => ?_⟩
          rcases List.mem_cons.mp hy with rfl | hy
          · exact irrefl_of r y hyx
          · exact hex ⟨y, hy, hpy⟩
        · exact absurd ⟨x, hx, hpx⟩ hex

/-! ## Cut lists of hits -/

/-- The first `n` entries of `hits` are downward closed among all of them, and they repeat no entry
    unless they already name every one. -/
def PrefixClosed (r : α → α → Prop) (n : Nat) (hits : List α) : Prop :=
  (∀ x ∈ hits.take n, ∀ y ∈ hits, y ∉ hits.take n → r x y) ∧
  ((hits.take n).Nodup ∨ ∀ y ∈ hits, y ∈ hits.take n)

/-- **A cut list of hits names the first `n` elements iff it is prefix closed.** A closed cut without its repetitions
    is a top part, so it is the cut listing. -/
theorem take_eq_iff_prefixClosed {r : α → α → Prop} [IsStrictOrder α r] {l hits : List α}
    (hl : l.Pairwise r) (hits_iff : ∀ x, x ∈ hits ↔ x ∈ l) (n : Nat) :
    (∀ x, x ∈ hits.take n ↔ x ∈ l.take n) ↔ PrefixClosed r n hits := by
  classical
  constructor
  · intro h
    refine ⟨fun x hx y hy hny => ?_, ?_⟩
    · exact rel_of_mem_take hl ((h x).mp hx) ((hits_iff y).mp hy) (fun hc => hny ((h y).mpr hc))
    · by_cases hlen : l.length ≤ n
      · right
        intro y hy
        rw [h, List.take_of_length_le hlen]
        exact (hits_iff y).mp hy
      · -- a full cut: `n` distinct elements among at most `n` entries
        left
        have hnd : (l.take n).Nodup := (nodup_of_pairwise hl).sublist (List.take_sublist n l)
        have hsub : l.take n ⊆ hits.take n := fun x hx => (h x).mpr hx
        have hle : (hits.take n).length ≤ (l.take n).length := by
          simp only [List.length_take]
          omega
        exact ((hnd.subperm hsub).perm_of_length_le hle).nodup_iff.mp hnd
  · rintro ⟨hclosed, hrep⟩ x
    have htop : IsTop r (some n) (· ∈ l) (hits.take n).dedup := by
      refine ⟨?_, ?_, ?_, ?_⟩
      · intro y hy
        exact (hits_iff y).mp (List.mem_of_mem_take (List.mem_dedup.mp hy))
      · intro y hy z hz hnz
        exact hclosed y (List.mem_dedup.mp hy) z ((hits_iff z).mpr hz)
          (fun hc => hnz (List.mem_dedup.mpr hc))
      · intro m hm
        obtain rfl : n = m := Option.some.inj hm
        exact ((List.dedup_sublist _).length_le).trans (List.length_take_le n hits)
      · rcases hrep with hnd | hcov
        · by_cases hlen : hits.length ≤ n
          · left
            intro y hy
            rw [List.mem_dedup, List.take_of_length_le hlen]
            exact (hits_iff y).mpr hy
          · right
            rw [hnd.dedup, List.length_take_of_le (by omega)]
        · left
          intro y hy
          exact List.mem_dedup.mpr (hcov y ((hits_iff y).mpr hy))
    have := htop.mem_iff (List.nodup_dedup _) hl (fun _ => Iff.rfl) x
    rwa [List.mem_dedup] at this

/-! ## Ties -/

section Ties

variable (stamp : α → Nat) (lt : α → α → Prop)

/-- Larger stamps first, ties in `lt` order. -/
def StampedRel (x y : α) : Prop := stamp y < stamp x ∨ (stamp x = stamp y ∧ lt x y)

/-- No group of equal stamps lies on both sides of a cut at `n`. -/
def NoTieSplit (l : List α) (n : Nat) : Prop :=
  ∀ t, ¬ (l.countP (fun y => decide (t < stamp y)) < n ∧
          n < l.countP (fun y => decide (t ≤ stamp y)))

variable {stamp lt}

instance isStrictOrder_stampedRel [IsStrictOrder α lt] : IsStrictOrder α (StampedRel stamp lt) where
  irrefl := by
    rintro a (ha | ⟨_, ha⟩)
    · exact absurd ha (Nat.lt_irrefl _)
    · exact irrefl_of lt a ha
  trans := by
    rintro a b c (hab | ⟨hab, hlt⟩) (hbc | ⟨hbc, hlt'⟩)
    · exact Or.inl (hbc.trans hab)
    · exact Or.inl (hbc ▸ hab)
    · exact Or.inl (hab ▸ hbc)
    · exact Or.inr ⟨hab.trans hbc, trans_of lt hlt hlt'⟩

instance isStrictOrder_flip [IsStrictOrder α lt] : IsStrictOrder α (flip lt) where
  irrefl := irrefl_of lt
  trans := fun _ _ _ hab hbc => trans_of lt hbc hab

/-- Whatever the order inside groups, an element has all larger stamps before it and only stamps at
    least its own. -/
theorem countP_stampedRel_bounds (stamp : α → Nat) (lt : α → α → Prop) [IsStrictOrder α lt]
    [DecidableRel (StampedRel stamp lt)] {l : List α} {x : α} (hx : x ∈ l) :
    l.countP (fun y => decide (stamp x < stamp y))
        ≤ l.countP (fun y => decide (StampedRel stamp lt y x)) ∧
      l.countP (fun y => decide (StampedRel stamp lt y x))
        < l.countP (fun y => decide (stamp x ≤ stamp y)) := by
  constructor
  · refine List.countP_mono_left (fun y _ hy => ?_)
    simp only [decide_eq_true_eq] at hy ⊢
    exact Or.inl hy
  · -- `x` itself has the stamp but is not before itself
    obtain ⟨s, t, rfl⟩ := List.append_of_mem hx
    have hle : ∀ l' : List α, l'.countP (fun y => decide (StampedRel stamp lt y x))
        ≤ l'.countP (fun y => decide (stamp x ≤ stamp y)) := by
      intro l'
      refine List.countP_mono_left (fun y _ hy => ?_)
      simp only [decide_eq_true_eq] at hy ⊢
      rcases hy with hy | ⟨hy, _⟩ <;> omega
    have hself : ¬ StampedRel stamp lt x x := irrefl_of _ x
    rw [List.countP_append, List.countP_append, List.countP_cons_of_neg (by simpa using hself),
      List.countP_cons_of_pos (by simp)]
    have := hle s
    have := hle t
    omega

/-- **Two listings that differ only inside groups select the same elements iff no group is split.** The first of a
    split group in one listing is its last in the other, so the cut separates it from itself. -/
theorem ties_take_iff [IsStrictOrder α lt] {l l' : List α}
    (hl : l.Pairwise (StampedRel stamp lt)) (hl' : l'.Pairwise (StampedRel stamp (flip lt)))
    (hmem : ∀ x, x ∈ l' ↔ x ∈ l) (n : Nat) :
    (∀ x, x ∈ l'.take n ↔ x ∈ l.take n) ↔ NoTieSplit stamp l n := by
  classical
  have hperm : l'.Perm l :=
    (List.perm_ext_iff_of_nodup (nodup_of_pairwise hl') (nodup_of_pairwise hl)).mpr hmem
  constructor
  · rintro heq t ⟨hlo, hhi⟩
    -- the group of `t` is not empty; its first element in `l` is its last one in `l'`
    have hgroup : l.filter (fun y => decide (stamp y = t)) ≠ [] := by
      intro hnil
      rw [List.filter_eq_nil_iff] at hnil
      have : l.countP (fun y => decide (t ≤ stamp y)) ≤ l.countP (fun y => decide (t < stamp y)) := by
        refine List.countP_mono_left (fun y hy hle => ?_)
        have := hnil y hy
        simp only [decide_eq_true_eq] at this hle ⊢
        omega
      omega
    obtain ⟨m, rest, hm⟩ := List.exists_cons_of_ne_nil hgroup
    have hmf : m ∈ l.filter (fun y => decide (stamp y = t)) := by rw [hm]; exact List.mem_cons_self
    rw [List.mem_filter, decide_eq_true_eq] at hmf
    obtain ⟨hml, hmt⟩ := hmf
    have hfirst : ∀ y ∈ l, stamp y = t → y ≠ m → lt m y := by
      intro y hy hyt hne
      have hpw := hl.filter (fun y => decide (stamp y = t))
      rw [hm, List.pairwise_cons] at hpw
      have hyf : y ∈ m :: rest := by
        rw [← hm, List.mem_filter]
        exact ⟨hy, by simpa using hyt⟩
      rcases hpw.1 y ((List.mem_cons.mp hyf).resolve_left hne) with hlt | ⟨_, hlt⟩
      · omega
      · exact hlt
    have hin : m ∈ l.take n := by
      rw [mem_take_iff_countP hl hml]
      refine lt_of_le_of_lt (List.countP_mono_left (fun y hy hym => ?_)) hlo
      simp only [decide_eq_true_eq] at hym ⊢
      rcases hym with hym | ⟨hyt, hym⟩
      · omega
      · exact absurd hym (asymm_of lt (hfirst y hy (by omega) (ne_of_irrefl hym)))
    have hout : m ∉ l'.take n := by
      rw [mem_take_iff_countP hl' ((hmem m).mpr hml), hperm.countP_eq,
        List.countP_eq_length_filter, not_lt]
      have hsub : (l.filter (fun y => decide (t ≤ stamp y))).erase m
          ⊆ l.filter (fun y => decide (StampedRel stamp (flip lt) y m)) := by
        intro y hy
        rw [((nodup_of_pairwise hl).filter _).mem_erase_iff, List.mem_filter, decide_eq_true_eq] at hy
        rw [List.mem_filter, decide_eq_true_eq]
        refine ⟨hy.2.1, ?_⟩
        rcases Nat.lt_or_ge (stamp m) (stamp y) with hlt | hge
        · exact Or.inl hlt
        · exact Or.inr ⟨by omega, hfirst y hy.2.1 (by omega) hy.1⟩
      have hle := ((((nodup_of_pairwise hl).filter _).erase m).subperm hsub).length_le
      rw [List.length_erase_of_mem (by simp [hml, hmt]), ← List.countP_eq_length_filter] at hle
      omega
    exact hout ((heq m).mpr hin)
  · intro hno x
    by_cases hx : x ∈ l
    · rw [mem_take_iff_countP hl hx, mem_take_iff_countP hl' ((hmem x).mpr hx),
        hperm.countP_eq]
      have h1 := countP_stampedRel_bounds stamp lt hx
      have h2 := countP_stampedRel_bounds stamp (flip lt) hx
      have h3 := hno (stamp x)
      omega
    · constructor
      · intro hc
        exact absurd ((hmem x).mp (List.mem_of_mem_take hc)) hx
      · intro hc
        exact absurd (List.mem_of_mem_take hc) hx

end Ties

end Nula
