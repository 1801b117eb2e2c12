import Mathlib

/-!
# `Lib.Always` — properties of every prefix of a run

A run is known by the list of its inputs, a state of it by the inputs consumed so far. `Always P l` says that
`P` holds after every prefix of `l`; `EachStep C l` that every input of `l` satisfies `C` when it arrives.

The rules take a list apart at its end, where the last step was made: an invariant is kept along the run
(`Always.invariant`), a property survives as long as every step keeps it (`Always.of_eachStep`), and where a
step keeps the property exactly under `C`, the property holds always exactly when each step meets `C`
(`always_iff_eachStep`).
-/

namespace Nula

variable {ε : Type} {P I : List ε → Prop} {C : List ε → ε → Prop} {l : List ε} {e : ε}

/-- `P` holds after every prefix of `l`. -/
def Always (P : List ε → Prop) (l : List ε) : Prop := ∀ k, P (l.take k)

/-- Every input of `l` satisfies `C` together with those before it. -/
def EachStep (C : List ε → ε → Prop) (l : List ε) : Prop := ∀ k e, l[k]? = some e → C (l.take k) e

theorem Always.last (h : Always P l) : P l := by
  have hl := h l.length
  rwa [List.take_length] at hl

theorem Always.mono {Q : List ε → Prop} (h : Always P l) (hPQ : ∀ past, P past → Q past) : Always Q l :=
  fun k => hPQ _ (h k)

theorem always_nil : Always P [] ↔ P [] := by
  constructor
  · intro h
    exact h.last
  · intro h k
    rwa [List.take_nil]

/-- One more event: the rule by which invariants of runs are proved. -/
theorem always_append_singleton : Always P (l ++ [e]) ↔ Always P l ∧ P (l ++ [e]) := by
  constructor
  · intro h
    refine ⟨fun k => ?_, h.last⟩
    rcases Nat.le_total k l.length with hk | hk
    · have := h k
      rwa [List.take_append_of_le_length hk] at this
    · have := h l.length
      rwa [List.take_append_of_le_length le_rfl, List.take_length, ← List.take_of_length_le hk] at this
  · rintro ⟨hl, hlast⟩ k
    rcases Nat.lt_or_ge l.length k with hk | hk
    · rwa [List.take_of_length_le (by simpa using hk)]
    · rw [List.take_append_of_le_length hk]
      exact hl k

theorem eachStep_nil : EachStep C [] := by
  intro k e h
  rw [List.getElem?_nil] at h
  cases h

theorem getElem?_append_of_some {more : List ε} {k : Nat} {x : ε} (h : l[k]? = some x) :
    (l ++ more)[k]? = some x := by
  rw [List.getElem?_append_left (List.getElem?_eq_some_iff.mp h).1, h]

/-- What came before an event does not depend on what comes later. -/
theorem take_append_of_some {more : List ε} {k : Nat} {x : ε} (h : l[k]? = some x) :
    (l ++ more).take k = l.take k :=
  List.take_append_of_le_length (List.getElem?_eq_some_iff.mp h).1.le

/-- An entry of a list that grew at its end is an old one or the new one. -/
theorem getElem?_append_singleton {k : Nat} {x : ε} (h : (l ++ [e])[k]? = some x) :
    l[k]? = some x ∨ k = l.length ∧ x = e := by
  rcases Nat.lt_or_ge k l.length with hk | hk
  · rw [List.getElem?_append_left hk] at h
    exact Or.inl h
  · have hlen := (List.getElem?_eq_some_iff.mp h).1
    rw [List.length_append, List.length_singleton] at hlen
    obtain rfl : k = l.length := by omega
    rw [List.getElem?_concat_length] at h
    cases h
    exact Or.inr ⟨rfl, rfl⟩

/-- One more event, which meets the condition after what came before it. -/
theorem eachStep_append_singleton : EachStep C (l ++ [e]) ↔ EachStep C l ∧ C l e := by
  constructor
  · intro h
    constructor
    · intro k x hx
      have := h k x (getElem?_append_of_some hx)
      rwa [take_append_of_some hx] at this
    · have := h l.length e List.getElem?_concat_length
      rwa [List.take_append_of_le_length le_rfl, List.take_length] at this
  · rintro ⟨hl, hlast⟩ k x hx
    rcases getElem?_append_singleton hx with hold | ⟨rfl, rfl⟩
    · rw [take_append_of_some hold]
      exact hl k x hold
    · rwa [List.take_append_of_le_length le_rfl, List.take_length]

theorem eachStep_iff_lt : EachStep C l ↔ ∀ k (h : k < l.length), C (l.take k) l[k] := by
  constructor
  · intro h k hk
    exact h k l[k] (List.getElem?_eq_getElem hk)
  · intro h k e hk
    obtain ⟨hlt, rfl⟩ := List.getElem?_eq_some_iff.mp hk
    exact h k hlt

instance [∀ past e, Decidable (C past e)] : Decidable (EachStep C l) :=
  decidable_of_iff _ eachStep_iff_lt.symm

/-- An inductive invariant holds along every run. -/
theorem Always.invariant (h0 : I []) (hstep : ∀ past e, I past → I (past ++ [e])) (l : List ε) :
    Always I l := by
  induction l using List.reverseRecOn with
  | nil => exact always_nil.mpr h0
  | append_singleton l e ih => exact always_append_singleton.mpr ⟨ih, hstep l e ih.last⟩

/-- A property that each step keeps under `C` holds along every run whose steps meet `C`. -/
theorem Always.of_eachStep (hI : ∀ past, I past) (h0 : P [])
    (hstep : ∀ past e, I past → P past → C past e → P (past ++ [e])) (hl : EachStep C l) : Always P l := by
  induction l using List.reverseRecOn with
  | nil => exact always_nil.mpr h0
  | append_singleton l e ih =>
      obtain ⟨hbefore, hlast⟩ := eachStep_append_singleton.mp hl
      have hP := ih hbefore
      exact always_append_singleton.mpr ⟨hP, hstep l e (hI l) hP.last hlast⟩

/-- **Exact conditions.** Where each step keeps `P` exactly under `C`, `P` holds always exactly when each step
    meets `C`. -/
theorem always_iff_eachStep (hI : ∀ past, I past) (h0 : P [])
    (hstep : ∀ past e, I past → P past → (P (past ++ [e]) ↔ C past e)) :
    Always P l ↔ EachStep C l := by
  induction l using List.reverseRecOn with
  | nil => exact iff_of_true (always_nil.mpr h0) eachStep_nil
  | append_singleton l e ih =>
      rw [always_append_singleton, eachStep_append_singleton, ih]
      refine and_congr_right (fun hl => ?_)
      exact hstep l e (hI l) (ih.mpr hl).last

/-- The same for a property that is not won back once it is lost: it holds at the end. -/
theorem last_iff_eachStep (h0 : P []) (hstep : ∀ past e, P (past ++ [e]) ↔ P past ∧ C past e) :
    P l ↔ EachStep C l := by
  induction l using List.reverseRecOn with
  | nil => exact iff_of_true h0 eachStep_nil
  | append_singleton l e ih => rw [hstep, eachStep_append_singleton, ih]

/-- The same for a property of states and one of steps, in the runs of a kind that is closed under prefixes. -/
theorem always_and_eachStep_iff {D : List ε → Prop} {Q : List ε → ε → Prop}
    (hD : ∀ past e, D (past ++ [e]) → D past) (hI : ∀ past, D past → I past) (h0 : P [])
    (hstep : ∀ past e, D (past ++ [e]) → I past → P past → (P (past ++ [e]) ∧ Q past e ↔ C past e)) (hl : D l) :
    Always P l ∧ EachStep Q l ↔ EachStep C l := by
  induction l using List.reverseRecOn with
  | nil => exact iff_of_true ⟨always_nil.mpr h0, eachStep_nil⟩ eachStep_nil
  | append_singleton l e ih =>
      rw [always_append_singleton, eachStep_append_singleton, eachStep_append_singleton, and_and_and_comm,
        ih (hD l e hl)]
      refine and_congr_right (fun hC => ?_)
      exact hstep l e hl (hI l (hD l e hl)) ((ih (hD l e hl)).mpr hC).1.last

/-- Where each step appends at most one entry to a list, all entries satisfy `Q` always exactly when each new one
    does. -/
theorem always_forall_mem_iff {α : Type} {entries : List ε → List α} {new : List ε → ε → Option α}
    {Q : α → Prop} (h0 : entries [] = [])
    (hstep : ∀ past e, entries (past ++ [e]) = entries past ++ (new past e).toList) :
    Always (fun past => ∀ x ∈ entries past, Q x) l ↔ EachStep (fun past e => ∀ x, new past e = some x → Q x) l := by
  refine always_iff_eachStep (I := fun _ => True) (fun _ => trivial) ?_ ?_
  · rw [h0]
    exact nofun
  · intro past e _ hpast
    rw [hstep, List.forall_mem_append, and_iff_right hpast]
    simp only [Option.mem_toList]

end Nula
