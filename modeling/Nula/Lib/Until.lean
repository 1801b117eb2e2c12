import Mathlib

/-!
# `Lib.Until` — shut until reopened

A resource that is used, shut and reopened over time leaves a list of marks, each stamped with the turn it was
made in. It is *shut until reopened* when between a `shut` and a later `use` there is a `reopen`, of a later turn
than the `shut` and no later than that of the `use`: a turn that reopens may use the resource before it says so.

Marks come a turn at a time. A turn that shuts does nothing after (`Closing`); so a turn keeps the list right
as soon as it uses a shut resource only where it also reopens it (`ShutUntilReopened.append`).
-/

namespace Nula

/-- The resource is used, shut, or opened again. -/
inductive Mark where
  | use
  | shut
  | reopen
  deriving DecidableEq, Repr

namespace Mark

/-- Between a `shut` and a later `use` there is a `reopen` of a turn in between. -/
def ShutUntilReopened (l : List (Nat × Mark)) : Prop :=
  ∀ pre t post, l = pre ++ (t, shut) :: post → ∀ u, (u, use) ∈ post → ∃ r, (r, reopen) ∈ post ∧ t < r ∧ r ≤ u

/-- Whether the resource is shut after the marks, where it was `start` before. -/
def isShutFrom (start : Bool) : List Mark → Bool
  | [] => start
  | use :: l => isShutFrom start l
  | shut :: l => isShutFrom true l
  | reopen :: l => isShutFrom false l

/-- Whether the resource is shut: some `shut` has no `reopen` after it. -/
def isShut (l : List (Nat × Mark)) : Bool := isShutFrom false (l.map Prod.snd)

/-- Nothing follows a `shut`. -/
def Closing (b : List Mark) : Prop := ∀ pre post, b = pre ++ shut :: post → post = []

/-- Every mark is of a turn before `turn`, and of a later one than the `shut`s before it. -/
structure Settled (l : List (Nat × Mark)) (turn : Nat) : Prop where
  before : ∀ x ∈ l, x.1 < turn
  after : ∀ pre t post, l = pre ++ (t, shut) :: post → ∀ x ∈ post, t < x.1

variable {l : List (Nat × Mark)} {b : List Mark} {turn : Nat} {start : Bool}

theorem isShutFrom_append (b b' : List Mark) :
    isShutFrom start (b ++ b') = isShutFrom (isShutFrom start b) b' := by
  induction b generalizing start with
  | nil => rfl
  | cons m b ih => cases m <;> exact ih

theorem isShutFrom_uses (h : ∀ m ∈ b, m = use) : isShutFrom start b = start := by
  induction b with
  | nil => rfl
  | cons m b ih =>
      rw [h m List.mem_cons_self]
      exact ih (fun m' hm' => h m' (List.mem_cons_of_mem _ hm'))

/-- Where nothing is shut, nothing follows a `shut`. -/
theorem closing_uses (h : ∀ m ∈ b, m = use) : Closing b := by
  rintro pre post rfl
  have := h shut (List.mem_append_right _ List.mem_cons_self)
  cases this

/-- Only the last of these marks may be a `shut`. -/
theorem closing_uses_append (h : ∀ m ∈ b, m = use) (last : Mark) : Closing (b ++ [last]) := by
  induction b with
  | nil =>
      intro pre post hsplit
      cases pre with
      | nil => exact (List.cons.inj hsplit).2.symm
      | cons p pre =>
          have hnil := (List.cons.inj hsplit).2
          exact absurd hnil (by simp)
  | cons m b ih =>
      intro pre post hsplit
      cases pre with
      | nil =>
          have hm := (List.cons.inj hsplit).1
          rw [h m List.mem_cons_self] at hm
          cases hm
      | cons p pre => exact ih (fun m' hm' => h m' (List.mem_cons_of_mem _ hm')) pre post (List.cons.inj hsplit).2

theorem isShut_append (l : List (Nat × Mark)) (b : List Mark) (turn : Nat) :
    isShut (l ++ b.map (turn, ·)) = isShutFrom (isShut l) b := by
  rw [isShut, List.map_append, isShutFrom_append, List.map_map]
  congr 1
  exact List.map_id b

/-- What was shut and no longer is has been reopened. -/
theorem reopen_mem_of_isShutFrom (h : isShutFrom true b = false) : reopen ∈ b := by
  induction b with
  | nil => cases h
  | cons m b ih =>
      cases m with
      | use => exact List.mem_cons_of_mem _ (ih h)
      | shut => exact List.mem_cons_of_mem _ (ih h)
      | reopen => exact List.mem_cons_self

/-- A latch that was shut and is open was opened in between. -/
theorem reopen_mem_of_isShut {pre post : List (Nat × Mark)} {t : Nat} (hl : l = pre ++ (t, shut) :: post)
    (h : isShut l = false) : ∃ r, (r, reopen) ∈ post := by
  subst hl
  rw [isShut, List.map_append, List.map_cons, isShutFrom_append] at h
  obtain ⟨⟨r, m⟩, hmem, hm⟩ := List.mem_map.mp (reopen_mem_of_isShutFrom h)
  cases hm
  exact ⟨r, hmem⟩

/-- A `shut` of a list with one more turn is an old one, or the last mark of that turn. -/
theorem shut_append_cases (hb : Closing b) {pre post : List (Nat × Mark)} {t : Nat}
    (h : l ++ b.map (turn, ·) = pre ++ (t, shut) :: post) :
    (∃ old, l = pre ++ (t, shut) :: old ∧ post = old ++ b.map (turn, ·)) ∨ post = [] := by
  rcases List.append_eq_append_iff.mp h with ⟨new, hpre, hblock⟩ | ⟨old, hl, hrest⟩
  · -- the `shut` is one of the turn
    right
    obtain ⟨b₁, b₂, hsplit, _, hcons⟩ := List.map_eq_append_iff.mp hblock
    obtain ⟨m, b₃, hb₂, hm, hpost⟩ := List.map_eq_cons_iff.mp hcons
    cases hm
    have hlast : b₃ = [] := hb b₁ b₃ (by rw [hsplit, hb₂])
    rw [← hpost, hlast]
    rfl
  · cases old with
    | nil =>
        right
        have hblock : b.map (turn, ·) = [] ++ (t, shut) :: post := by
          rw [List.nil_append] at hrest ⊢
          exact hrest.symm
        obtain ⟨m, b₃, hb₂, hm, hpost⟩ := List.map_eq_cons_iff.mp hblock
        cases hm
        have hlast : b₃ = [] := hb [] b₃ hb₂
        rw [← hpost, hlast]
        rfl
    | cons x old =>
        rw [List.cons_append, List.cons.injEq] at hrest
        obtain ⟨rfl, hpost⟩ := hrest
        exact Or.inl ⟨old, hl, hpost⟩

/-- One more turn keeps the stamps in order. -/
theorem Settled.append (h : Settled l turn) (hb : Closing b) : Settled (l ++ b.map (turn, ·)) (turn + 1) where
  before x hx := by
    rcases List.mem_append.mp hx with hold | hnew
    · exact Nat.lt_succ_of_lt (h.before x hold)
    · obtain ⟨m, _, rfl⟩ := List.mem_map.mp hnew
      exact Nat.lt_succ_self _
  after pre t post hl x hx := by
    rcases shut_append_cases hb hl with ⟨old, hold, rfl⟩ | rfl
    · rcases List.mem_append.mp hx with hx | hx
      · exact h.after pre t old hold x hx
      · obtain ⟨m, _, rfl⟩ := List.mem_map.mp hx
        exact h.before (t, shut) (by rw [hold]; exact List.mem_append_right _ List.mem_cons_self)
    · cases hx

/-- **One more turn.** It uses the resource only where that is not shut, or reopens it too. -/
theorem ShutUntilReopened.append (h : ShutUntilReopened l) (hsettled : Settled l turn) (hb : Closing b)
    (huse : isShut l = true → use ∈ b → reopen ∈ b) : ShutUntilReopened (l ++ b.map (turn, ·)) := by
  intro pre t post hl u hu
  rcases shut_append_cases hb hl with ⟨old, hold, rfl⟩ | rfl
  · have ht : t < turn :=
      hsettled.before (t, shut) (by rw [hold]; exact List.mem_append_right _ List.mem_cons_self)
    rcases List.mem_append.mp hu with hu | hu
    · obtain ⟨r, hr, hlt, hle⟩ := h pre t old hold u hu
      exact ⟨r, List.mem_append_left _ hr, hlt, hle⟩
    · obtain ⟨m, hm, hmark⟩ := List.mem_map.mp hu
      cases hmark
      cases hshut : isShut l with
      | true =>
          have hreopen := huse hshut hm
          exact ⟨turn, List.mem_append_right _ (List.mem_map_of_mem hreopen), ht, le_rfl⟩
      | false =>
          obtain ⟨r, hr⟩ := reopen_mem_of_isShut hold hshut
          refine ⟨r, List.mem_append_left _ hr, hsettled.after pre t old hold (r, reopen) hr, ?_⟩
          have hlt := hsettled.before (r, reopen)
            (by rw [hold]; exact List.mem_append_right _ (List.mem_cons_of_mem _ hr))
          exact hlt.le
  · cases hu

end Mark

end Nula
