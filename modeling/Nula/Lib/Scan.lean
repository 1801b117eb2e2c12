import Mathlib

/-!
# `Lib.Scan` — looking for a marker and the run behind it

A cursor runs over a list: a class of elements has its maximal run at a position (`runEnd`), and a marker with a run
behind it is a candidate. `Walk` is the scanner that takes the first candidate, goes on behind its run, and so on; which
candidates it takes is decided from the left (`Taken`).

## Contents
- **Runs.** `runEnd` and its bounds.
- **Walks.** `Walk.mem_iff_taken`, what is taken; `Walk.pairwise`, that what is taken does not overlap.
- **Two classes.** `Walk.agree`, when a scanner with a larger class finds the same.
-/

namespace Nula

namespace Scan

variable {α β : Type}

/-! ## Runs -/

/-- Where the run of a class that starts at a position ends. -/
def runEnd (p : α → Bool) (l : List α) (i : Nat) : Nat := i + ((l.drop i).takeWhile p).length

section Runs

variable {p q : α → Bool} {l : List α} {i j : Nat}

theorem le_runEnd : i ≤ runEnd p l i := Nat.le_add_right _ _

/-- The cursor passes over elements of the class. -/
theorem getElem?_of_lt_runEnd (hij : i ≤ j) (hj : j < runEnd p l i) : ∃ a, l[j]? = some a ∧ p a = true := by
  have hlt : j - i < ((l.drop i).takeWhile p).length := by
    rw [runEnd] at hj
    omega
  have hpass : p ((l.drop i).takeWhile p)[j - i] = true :=
    List.all_eq_true.mp List.all_takeWhile _ (List.getElem_mem hlt)
  refine ⟨((l.drop i).takeWhile p)[j - i], ?_, hpass⟩
  have hsame := (List.prefix_iff_getElem?.mp (List.takeWhile_prefix p (l := l.drop i))) (j - i) hlt
  rw [List.getElem?_drop, Nat.add_sub_cancel' hij] at hsame
  exact hsame

/-- It stops at an element outside the class. -/
theorem getElem?_runEnd {a : α} (h : l[runEnd p l i]? = some a) : p a = false := by
  have hsplit : (l.drop i).takeWhile p ++ (l.drop i).dropWhile p = l.drop i := List.takeWhile_append_dropWhile
  have hget : ((l.drop i).dropWhile p)[0]? = some a := by
    rw [runEnd, ← List.getElem?_drop] at h
    have hskip : ((l.drop i).takeWhile p ++ (l.drop i).dropWhile p)[((l.drop i).takeWhile p).length]? = _ :=
      List.getElem?_append_right (Nat.le_refl _)
    rw [hsplit, h, Nat.sub_self] at hskip
    exact hskip.symm
  cases hrest : (l.drop i).dropWhile p with
  | nil =>
      rw [hrest] at hget
      cases hget
  | cons b rest =>
      rw [hrest] at hget
      cases hget
      have hhead := List.head_dropWhile_not p (l := l.drop i) (by rw [hrest]; exact List.cons_ne_nil _ _)
      simpa [hrest] using hhead

theorem runEnd_mono (hpq : ∀ a, p a = true → q a = true) : runEnd p l i ≤ runEnd q l i := by
  by_contra hlt
  obtain ⟨a, ha, hpa⟩ := getElem?_of_lt_runEnd (le_runEnd (p := q)) (Nat.lt_of_not_le hlt)
  have hqa := getElem?_runEnd ha
  rw [hpq a hpa] at hqa
  cases hqa

end Runs

/-! ## Walks -/

/-- The marker stands at a position. -/
def Occurs (m l : List α) (s : Nat) : Prop := m <+: l.drop s

/-- Markers do not overlap. -/
def Apart (m l : List α) : Prop := ∀ s t, Occurs m l s → Occurs m l t → s < t → s + m.length ≤ t

/-- Where the run behind a marker ends. -/
def stopOf (m : List α) (p : α → Bool) (l : List α) (s : Nat) : Nat := runEnd p l (s + m.length)

/-- A marker with a run behind it. -/
def Candidate (m : List α) (p : α → Bool) (l : List α) (s : Nat) : Prop :=
  Occurs m l s ∧ s + m.length < stopOf m p l s

/-- What a scanner takes from a position on: the first candidate, and what it takes behind its run. -/
inductive Walk (m : List α) (p : α → Bool) (l : List α) : Nat → List Nat → Prop where
  | done {c : Nat} : (∀ s, c ≤ s → ¬Candidate m p l s) → Walk m p l c []
  | next {c s : Nat} {rest : List Nat} : c ≤ s → Candidate m p l s → (∀ t, c ≤ t → t < s → ¬Candidate m p l t) →
      Walk m p l (stopOf m p l s) rest → Walk m p l c (s :: rest)

/-- A candidate that starts inside no run that is taken before it. -/
def Taken (m : List α) (p : α → Bool) (l : List α) (s : Nat) : Prop :=
  Candidate m p l s ∧ ∀ t, t < s → Taken m p l t → stopOf m p l t ≤ s
  termination_by s

section Walks

variable {m : List α} {p : α → Bool} {l : List α} {c s t : Nat} {starts : List Nat}

/-- A candidate is taken when no candidate that is taken reaches over it. -/
theorem taken_iff : Taken m p l s ↔ Candidate m p l s ∧ ∀ t, t < s → Taken m p l t → stopOf m p l t ≤ s := by
  conv_lhs => rw [Taken]

/-- A marker whose first element is not in the rest of it does not overlap itself. -/
theorem apart_of_head {a : α} {m : List α} (h : a ∉ m) : Apart (a :: m) l := by
  rintro s t ⟨behind, hs⟩ ⟨behind', ht⟩ hst
  by_contra hlt
  have hat : l[t]? = some a := by
    have hhead : (l.drop t)[0]? = some a := by rw [← ht]; rfl
    rwa [List.getElem?_drop] at hhead
  have hin : (l.drop s)[t - s]? = some a := by rw [List.getElem?_drop, Nat.add_sub_cancel' hst.le, hat]
  obtain ⟨k, hk⟩ : ∃ k, t - s = k + 1 := ⟨t - s - 1, by omega⟩
  rw [← hs, hk, List.cons_append, List.getElem?_cons_succ, List.getElem?_append_left (by
    rw [List.length_cons] at hlt
    omega)] at hin
  exact h (List.mem_of_getElem? hin)

theorem lt_stopOf : s + m.length ≤ stopOf m p l s := le_runEnd

theorem Walk.candidate (h : Walk m p l c starts) : ∀ s ∈ starts, c ≤ s ∧ Candidate m p l s := by
  induction h with
  | done _ => exact fun _ h => absurd h List.not_mem_nil
  | next hcs hcandidate _ _ ih =>
      refine List.forall_mem_cons.mpr ⟨⟨hcs, hcandidate⟩, fun t ht => ?_⟩
      obtain ⟨hle, hcandidate'⟩ := ih t ht
      exact ⟨(hcs.trans ((Nat.le_add_right _ _).trans lt_stopOf)).trans hle, hcandidate'⟩

/-- What is taken does not overlap. -/
theorem Walk.pairwise (h : Walk m p l c starts) : starts.Pairwise (fun s t => stopOf m p l s ≤ t) := by
  induction h with
  | done _ => exact .nil
  | next _ _ _ hrest ih => exact List.pairwise_cons.mpr ⟨fun t ht => (hrest.candidate t ht).1, ih⟩

/-- A walk from a cursor takes what is taken, if nothing taken reaches over the cursor. By induction on the walk: up
    to the end of its first run there is that run alone, and the rest walks from there. -/
theorem Walk.mem_iff_taken_from (h : Walk m p l c starts)
    (hbefore : ∀ t, t < c → Taken m p l t → stopOf m p l t ≤ c) (hs : c ≤ s) : s ∈ starts ↔ Taken m p l s := by
  induction h with
  | done hnone => exact iff_of_false List.not_mem_nil (fun htaken => hnone s hs (taken_iff.mp htaken).1)
  | @next c first rest hfirst hcandidate hnone hwalk ih =>
      -- The first candidate is taken, and nothing else that starts before its run ends.
      have htaken : Taken m p l first := by
        refine taken_iff.mpr ⟨hcandidate, fun t ht htaken => ?_⟩
        rcases Nat.lt_or_ge t c with hlt | hge
        · exact (hbefore t hlt htaken).trans hfirst
        · exact absurd (taken_iff.mp htaken).1 (hnone t hge ht)
      have honly : ∀ t, c ≤ t → t < stopOf m p l first → Taken m p l t → t = first := by
        intro t hct hlt ht
        rcases Nat.lt_trichotomy t first with hless | heq | hmore
        · exact absurd (taken_iff.mp ht).1 (hnone t hct hless)
        · exact heq
        · exact absurd ((taken_iff.mp ht).2 first hmore htaken) (Nat.not_le.mpr hlt)
      have hafter : first ≤ stopOf m p l first := (Nat.le_add_right _ _).trans lt_stopOf
      rcases Nat.lt_or_ge s (stopOf m p l first) with hlt | hge
      · constructor
        · intro hmem
          rcases List.mem_cons.mp hmem with rfl | hmem
          · exact htaken
          · exact absurd (hwalk.candidate s hmem).1 (Nat.not_le.mpr hlt)
        · intro ht
          rw [honly s hs hlt ht]
          exact List.mem_cons_self
      · have hrest := ih (fun t ht htaken' => by
          rcases Nat.lt_or_ge t c with hlt | hge'
          · exact (hbefore t hlt htaken').trans (hfirst.trans hafter)
          · rw [honly t hge' ht htaken']) hge
        rw [List.mem_cons, hrest]
        refine or_iff_right_of_imp ?_
        rintro rfl
        exact htaken

/-- **What a scanner takes.** -/
theorem Walk.mem_iff_taken (h : Walk m p l 0 starts) (s : Nat) : s ∈ starts ↔ Taken m p l s :=
  h.mem_iff_taken_from (fun _ ht => absurd ht (Nat.not_lt_zero _)) (Nat.zero_le s)

/-- What lies before the next candidate does not matter. -/
theorem Walk.skip {c' : Nat} (h : Walk m p l c starts) (hle : c ≤ c')
    (hnone : ∀ t, c ≤ t → t < c' → ¬Candidate m p l t) : Walk m p l c' starts := by
  cases h with
  | done hnever => exact .done (fun s hs => hnever s (hle.trans hs))
  | @next _ s rest hcs hcandidate hfirst hrest =>
      have hs : c' ≤ s := Nat.le_of_not_lt (fun hlt => hnone s hcs hlt hcandidate)
      exact .next hs hcandidate (fun t ht => hfirst t (hle.trans ht)) hrest

/-- A marker with nothing behind it does not matter. -/
theorem Walk.skip_bare (hapart : Apart m l) (h : Walk m p l c starts) (hcs : c ≤ s) (hoccurs : Occurs m l s)
    (hbefore : ∀ t, c ≤ t → t < s → ¬Occurs m l t) (hbare : stopOf m p l s = s + m.length) :
    Walk m p l (s + m.length) starts := by
  refine h.skip (hcs.trans (Nat.le_add_right _ _)) (fun t hct hlt hcandidate => ?_)
  rcases Nat.lt_trichotomy t s with hless | rfl | hmore
  · exact hbefore t hct hless hcandidate.1
  · exact absurd hcandidate.2 (Nat.not_lt.mpr hbare.le)
  · exact absurd (hapart s t hoccurs hcandidate.1 hmore) (Nat.not_le.mpr hlt)

/-- The next candidate is the next one taken. -/
theorem Walk.uncons (h : Walk m p l c starts) (hcs : c ≤ s) (hcandidate : Candidate m p l s)
    (hfirst : ∀ t, c ≤ t → t < s → ¬Candidate m p l t) :
    ∃ rest, starts = s :: rest ∧ Walk m p l (stopOf m p l s) rest := by
  cases h with
  | done hnever => exact absurd hcandidate (hnever s hcs)
  | @next _ s' rest hcs' hcandidate' hfirst' hrest =>
      have hsame : s' = s := by
        rcases Nat.lt_trichotomy s' s with hlt | heq | hgt
        · exact absurd hcandidate' (hfirst s' hcs' hlt)
        · exact heq
        · exact absurd hcandidate (hfirst' s hcs hgt)
      subst hsame
      exact ⟨rest, rfl, hrest⟩

/-- Nor does it matter that there is nothing before the next candidate. -/
theorem Walk.extend {c' : Nat} (h : Walk m p l c' starts) (hle : c ≤ c')
    (hnone : ∀ t, c ≤ t → t < c' → ¬Candidate m p l t) : Walk m p l c starts := by
  have hbefore : ∀ t, c ≤ t → (c' ≤ t → ¬Candidate m p l t) → ¬Candidate m p l t := fun t hct hnot =>
    (Nat.lt_or_ge t c').elim (hnone t hct) hnot
  cases h with
  | done hnever => exact .done (fun t hct => hbefore t hct (hnever t))
  | next hcs hcandidate hfirst hrest =>
      exact .next (hle.trans hcs) hcandidate (fun t hct hts => hbefore t hct (fun hge => hfirst t hge hts)) hrest

/-- A candidate ends in the text, behind its beginning. -/
theorem Candidate.lt_length (h : Candidate m p l s) : s < stopOf m p l s ∧ stopOf m p l s ≤ l.length := by
  obtain ⟨hoccurs, hrun⟩ := h
  have hlength : m.length ≤ l.length - s := (List.length_drop (l := l) (i := s)) ▸ hoccurs.length_le
  refine ⟨Nat.lt_of_le_of_lt (Nat.le_add_right _ _) hrun, ?_⟩
  by_contra hlt
  obtain ⟨a, ha, -⟩ := getElem?_of_lt_runEnd (p := p) (l := l) (i := s + m.length) (j := stopOf m p l s - 1)
    (by omega) (by rw [stopOf] at *; omega)
  have hbound := (List.getElem?_eq_some_iff.mp ha).1
  omega

/-- There is a walk from every cursor, by strong induction on what is left of the text. -/
theorem exists_walk (m : List α) (p : α → Bool) (l : List α) (c : Nat) : ∃ starts, Walk m p l c starts := by
  classical
  induction hleft : l.length - c using Nat.strong_induction_on generalizing c with
  | _ left ih =>
      by_cases hsome : ∃ s, c ≤ s ∧ Candidate m p l s
      · obtain ⟨hcs, hcandidate⟩ := Nat.find_spec hsome
        have hfirst : ∀ t, c ≤ t → t < Nat.find hsome → ¬Candidate m p l t := fun t hct hlt h =>
          Nat.find_min hsome hlt ⟨hct, h⟩
        obtain ⟨hlt, hle⟩ := hcandidate.lt_length
        obtain ⟨rest, hrest⟩ := ih (l.length - stopOf m p l (Nat.find hsome)) (by omega) _ rfl
        exact ⟨_, .next hcs hcandidate hfirst hrest⟩
      · exact ⟨[], .done (fun s hcs h => hsome ⟨s, hcs, h⟩)⟩

end Walks

/-! ## Two classes -/

section TwoClasses

variable {m : List α} {p q : α → Bool} {l : List α} {c s : Nat} {starts starts' : List Nat} {f g : Nat → Option β}

/-- Where the larger class goes further, both classes find the same, and the smaller has no candidate in what the larger
    takes on top. -/
def Harmless (m : List α) (p q : α → Bool) (l : List α) (f g : Nat → Option β) (s : Nat) : Prop :=
  stopOf m p l s ≠ stopOf m q l s →
    f s = g s ∧ ∀ t, Candidate m p l t → s < t → t < stopOf m q l s → t < stopOf m p l s

theorem Candidate.mono (hpq : ∀ a, p a = true → q a = true) (h : Candidate m p l s) : Candidate m q l s :=
  ⟨h.1, h.2.trans_le (runEnd_mono hpq)⟩

/-- A marker that is no candidate has nothing behind it. -/
theorem stopOf_of_not_candidate (hoccurs : Occurs m l s) (h : ¬Candidate m p l s) : stopOf m p l s = s + m.length :=
  Nat.le_antisymm (Nat.le_of_not_lt (fun hlt => h ⟨hoccurs, hlt⟩)) lt_stopOf

/-- Two walks, with a larger and a smaller class of characters, find the same if all of the larger one's runs are
    harmless. By induction on the larger walk, which the smaller one follows or catches up with at the next run. -/
theorem Walk.agree_from (hpq : ∀ a, p a = true → q a = true) (hapart : Apart m l)
    (hsame : ∀ s, stopOf m p l s = stopOf m q l s → f s = g s) (hnone : ∀ s, stopOf m p l s = s + m.length → f s = none)
    (hq : Walk m q l c starts') (hp : Walk m p l c starts) (hharmless : ∀ s ∈ starts', Harmless m p q l f g s) :
    starts.filterMap f = starts'.filterMap g := by
  induction hq generalizing starts with
  | done hnever =>
      cases hp with
      | done _ => rfl
      | next hcs hcandidate _ _ => exact absurd (hcandidate.mono hpq) (hnever _ hcs)
  | @next c s rest hcs hcandidate hfirst _ ih =>
      obtain ⟨hhere, hrest⟩ := List.forall_mem_cons.mp hharmless
      have hfirst' : ∀ t, c ≤ t → t < s → ¬Candidate m p l t := fun t hct hts h => hfirst t hct hts (h.mono hpq)
      -- where the runs end together the walks stay together
      by_cases hstop : stopOf m p l s = stopOf m q l s
      · have hcandidate' : Candidate m p l s := ⟨hcandidate.1, hstop ▸ hcandidate.2⟩
        obtain ⟨rest', rfl, hrest'⟩ := hp.uncons hcs hcandidate' hfirst'
        rw [hstop] at hrest'
        rw [List.filterMap_cons, List.filterMap_cons, hsame s hstop, ih hrest' hrest]
      · obtain ⟨hfound, hquiet⟩ := hhere hstop
        have hgap : ∀ t, s < t → stopOf m p l s ≤ t → t < stopOf m q l s → ¬Candidate m p l t := fun t hst hpt htq h =>
          absurd (hquiet t h hst htq) (Nat.not_lt.mpr hpt)
        have hstops : stopOf m p l s ≤ stopOf m q l s := runEnd_mono hpq
        have hsp : s ≤ stopOf m p l s := (Nat.le_add_right _ _).trans lt_stopOf
        -- otherwise the walk of the smaller class has nothing up to where the larger's run ends
        by_cases hcandidate' : Candidate m p l s
        · obtain ⟨rest', rfl, hrest'⟩ := hp.uncons hcs hcandidate' hfirst'
          have hnext := hrest'.skip hstops (fun t hpt htq h =>
            hgap t (hcandidate'.lt_length.1.trans_le hpt) hpt htq h)
          rw [List.filterMap_cons, List.filterMap_cons, hfound, ih hnext hrest]
        · -- The smaller class has no run here: its scanner goes on at the next marker.
          have hempty := stopOf_of_not_candidate hcandidate.1 hcandidate'
          have hnext := hp.skip (hcs.trans (hsp.trans hstops)) (fun t hct htq h => by
            rcases Nat.lt_trichotomy t s with hlt | rfl | hgt
            · exact hfirst' t hct hlt h
            · exact hcandidate' h
            · exact hgap t hgt (hempty ▸ hapart s t hcandidate.1 h.1 hgt) htq h)
          rw [List.filterMap_cons_none (hfound ▸ hnone s hempty)]
          exact ih hnext hrest

/-- **When two scanners find the same.** -/
theorem Walk.agree (hpq : ∀ a, p a = true → q a = true) (hapart : Apart m l)
    (hsame : ∀ s, stopOf m p l s = stopOf m q l s → f s = g s) (hnone : ∀ s, stopOf m p l s = s + m.length → f s = none)
    (hp : Walk m p l 0 starts) (hq : Walk m q l 0 starts') (hharmless : ∀ s, Taken m q l s → Harmless m p q l f g s) :
    starts.filterMap f = starts'.filterMap g :=
  Walk.agree_from hpq hapart hsame hnone hq hp (fun s hs => hharmless s ((hq.mem_iff_taken s).mp hs))

/-- In no run of a marker there is another. -/
def Separate (m : List α) (q : α → Bool) (l : List α) : Prop :=
  ∀ s t, Occurs m l s → Occurs m l t → s < t → stopOf m q l s ≤ t

/-- What one marker stands for, no other does. -/
def Distinct (m l : List α) (f g : Nat → Option β) : Prop :=
  ∀ s t b, Occurs m l s → Occurs m l t → f s = some b ∨ g s = some b → f t = some b ∨ g t = some b → s = t

/-- Where no run holds another marker, a walk takes every candidate. -/
theorem Separate.mem (h : Separate m p l) (hwalk : Walk m p l 0 starts) (hs : Candidate m p l s) : s ∈ starts :=
  (hwalk.mem_iff_taken s).mpr (taken_iff.mpr ⟨hs, fun t hts ht => h t s (taken_iff.mp ht).1.1 hs.1 hts⟩)

/-- Where markers are separate and distinct, they find the same only so. -/
theorem Walk.harmless_of_agree (hpq : ∀ a, p a = true → q a = true)
    (hnone : ∀ s, stopOf m p l s = s + m.length → f s = none) (hp : Walk m p l 0 starts) (hq : Walk m q l 0 starts')
    (hseparate : Separate m q l) (hdistinct : Distinct m l f g)
    (hagree : starts.filterMap f = starts'.filterMap g) (hs : Candidate m q l s) : Harmless m p q l f g s := by
  intro _
  have hseparate' : Separate m p l := fun s t hs ht hst => (runEnd_mono hpq).trans (hseparate s t hs ht hst)
  refine ⟨Option.ext (fun b => ⟨fun hf => ?_, fun hg => ?_⟩), fun t ht hst htq =>
    absurd (hseparate s t hs.1 ht.1 hst) (Nat.not_le.mpr htq)⟩
  · have hcandidate : Candidate m p l s := ⟨hs.1, Nat.lt_of_le_of_ne lt_stopOf (fun hbare => by
      rw [hnone s hbare.symm] at hf
      cases hf)⟩
    have hmem := List.mem_filterMap.mpr ⟨s, hseparate'.mem hp hcandidate, hf⟩
    rw [hagree] at hmem
    obtain ⟨t, ht, hgt⟩ := List.mem_filterMap.mp hmem
    rw [hdistinct s t b hs.1 (hq.candidate t ht).2.1 (.inl hf) (.inr hgt)]
    exact hgt
  · have hmem := List.mem_filterMap.mpr ⟨s, hseparate.mem hq hs, hg⟩
    rw [← hagree] at hmem
    obtain ⟨t, ht, hft⟩ := List.mem_filterMap.mp hmem
    rw [hdistinct s t b hs.1 (hp.candidate t ht).2.1 (.inr hg) (.inl hft)]
    exact hft

end TwoClasses

end Scan

end Nula
