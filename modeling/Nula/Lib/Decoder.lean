import Nula.Lib.Order

/-!
# `Lib.Decoder` — decoders that consume a buffer

A `Decoder ε α` reads an `α` off the front of a byte buffer or fails with an `ε`; the buffer it leaves is
what stands at the cursor. `Reads d enc a` says that `d` undoes the bytes `enc`: on any buffer that starts
with them it returns `a` and stops behind them. The rules follow the decoder's program, and a loop that runs
until the buffer is empty (`drain`) undoes an encoder that threads the same state (`putAll`).

## Contents
- **Fixed widths.** `Octets n`, `n` bytes; `Vec α`, a list whose length a `usize` counts.
- **Programs.** `Reads` for a return, a bind and a counted loop.
- **Whole buffers.** `drain` and `putAll`, and their inverse law (`drain_putAll`).
-/

namespace Nula

variable {ε α β σ : Type}

/-! ## Fixed widths -/

/-- `[u8; n]`. -/
abbrev Octets (n : Nat) := { b : Bytes // b.length = n }

/-- A `Vec`: a `usize` counts its elements. -/
structure Vec (α : Type) where
  toList : List α
  fits : toList.length < 2 ^ 64
  deriving DecidableEq

namespace Vec

/-- `Vec::len`, as a `u64`. -/
def len (v : Vec α) : UInt64 := UInt64.ofNat v.toList.length

theorem len_toNat (v : Vec α) : v.len.toNat = v.toList.length := by
  rw [len, UInt64.toNat_ofNat']
  exact Nat.mod_eq_of_lt v.fits

end Vec

/-! ## Programs -/

/-- A reader that takes bytes off the front of a buffer, or fails. -/
abbrev Decoder (ε α : Type) := StateT Bytes (Except ε) α

theorem Decoder.run_bind_ok {d : Decoder ε α} {f : α → Decoder ε β} {buf rest : Bytes} {b : β} :
    (d >>= f).run buf = .ok (b, rest) ↔ ∃ a mid, d.run buf = .ok (a, mid) ∧ (f a).run mid = .ok (b, rest) := by
  rw [StateT.run_bind]
  constructor
  · intro h
    cases hrun : d.run buf with
    | error e => rw [hrun] at h; cases h
    | ok p =>
        rw [hrun] at h
        exact ⟨p.1, p.2, rfl, h⟩
  · rintro ⟨a, mid, hrun, h⟩
    rw [hrun]
    exact h

/-- On a buffer that starts with `enc`, `d` returns `a` and leaves what follows. -/
def Reads (d : Decoder ε α) (enc : Bytes) (a : α) : Prop :=
  ∀ rest : Bytes, d.run (enc ++ rest) = .ok (a, rest)

namespace Reads

theorem pure (a : α) : Reads (Pure.pure a : Decoder ε α) [] a := by
  intro rest
  rfl

theorem bind {d : Decoder ε α} {f : α → Decoder ε β} {e e' : Bytes} {a : α} {b : β} (hd : Reads d e a)
    (hf : Reads (f a) e' b) : Reads (d >>= f) (e ++ e') b := by
  intro rest
  rw [List.append_assoc]
  exact Decoder.run_bind_ok.mpr ⟨a, e' ++ rest, hd _, hf rest⟩

/-- A last step that consumes nothing. -/
theorem bind_last {d : Decoder ε α} {f : α → Decoder ε β} {e : Bytes} {a : α} {b : β} (hd : Reads d e a)
    (hf : Reads (f a) [] b) : Reads (d >>= f) e b := by
  have h := hd.bind hf
  rwa [List.append_nil] at h

end Reads

/-- `for _ in 0..n`: the results, one for each round. -/
def Decoder.times (d : Decoder ε α) : (n : Nat) → Decoder ε { l : List α // l.length = n }
  | 0     => return ⟨[], rfl⟩
  | n + 1 => do
      let a ← d
      let l ← d.times n
      return ⟨a :: l.1, by rw [List.length_cons, l.2]⟩

/-- A reader that is repeated reads a row of encodings. -/
theorem Reads.times {d : Decoder ε α} {enc : α → Bytes} {l : List α} (h : ∀ a ∈ l, Reads d (enc a) a) {n : Nat}
    (hn : l.length = n) : Reads (d.times n) (l.flatMap enc) ⟨l, hn⟩ := by
  subst hn
  induction l with
  | nil => exact Reads.pure _
  | cons a l ih =>
      obtain ⟨ha, hl⟩ := List.forall_mem_cons.mp h
      rw [List.flatMap_cons]
      exact ha.bind ((ih hl).bind_last (Reads.pure _))

/-! ## Whole buffers -/

/-- `d` leaves a shorter buffer than it got. -/
def Consumes (d : Decoder ε α) : Prop :=
  ∀ buf a rest, d.run buf = .ok (a, rest) → rest.length < buf.length

/-- `d` never leaves a longer buffer than it got. -/
def Shrinks (d : Decoder ε α) : Prop :=
  ∀ buf a rest, d.run buf = .ok (a, rest) → rest.length ≤ buf.length

/-- Who takes something takes no less than nothing. -/
theorem Consumes.shrinks {d : Decoder ε α} (h : Consumes d) : Shrinks d :=
  fun buf a rest hrun => Nat.le_of_lt (h buf a rest hrun)

namespace Shrinks

theorem pure (a : α) : Shrinks (Pure.pure a : Decoder ε α) := by
  rintro buf b rest ⟨⟩
  exact Nat.le_refl _

theorem throw (e : ε) : Shrinks (MonadExcept.throw e : Decoder ε α) := by
  rintro buf a rest ⟨⟩

theorem bind {d : Decoder ε α} {f : α → Decoder ε β} (hd : Shrinks d) (hf : ∀ a, Shrinks (f a)) :
    Shrinks (d >>= f) := by
  intro buf b rest h
  obtain ⟨a, mid, hrun, htail⟩ := Decoder.run_bind_ok.mp h
  exact Nat.le_trans (hf a mid b rest htail) (hd buf a mid hrun)

theorem times {d : Decoder ε α} (hd : Shrinks d) (n : Nat) : Shrinks (d.times n) := by
  induction n with
  | zero => exact Shrinks.pure _
  | succ n ih => exact hd.bind (fun _ => ih.bind (fun _ => Shrinks.pure _))

end Shrinks

theorem Consumes.bind {d : Decoder ε α} {f : α → Decoder ε β} (hd : Consumes d) (hf : ∀ a, Shrinks (f a)) :
    Consumes (d >>= f) := by
  intro buf b rest h
  obtain ⟨a, mid, hrun, htail⟩ := Decoder.run_bind_ok.mp h
  exact Nat.lt_of_le_of_lt (hf a mid b rest htail) (hd buf a mid hrun)

/-- Read until the buffer is empty; each round gets the state the one before left. -/
def drain (step : σ → Decoder ε (α × σ)) (consumes : ∀ s, Consumes (step s)) (s : σ) (buf : Bytes) :
    Except ε (List α) :=
  if buf = [] then .ok []
  else match h : (step s).run buf with
    | .error e => .error e
    | .ok ((a, next), rest) =>
        have : rest.length < buf.length := consumes s buf _ rest h
        (drain step consumes next rest).map (a :: ·)
termination_by buf.length

/-- Write each element with the state the one before left. -/
def putAll (enc : σ → α → Bytes × σ) : σ → List α → Bytes
  | _, []     => []
  | s, a :: l => (enc s a).1 ++ putAll enc (enc s a).2 l

/-- What `inv` asks of an element and the state it is written in, along a list. -/
def Along (enc : σ → α → Bytes × σ) (inv : σ → α → Prop) : σ → List α → Prop
  | _, []     => True
  | s, a :: l => inv s a ∧ Along enc inv (enc s a).2 l

/-- The loop undoes the writer where each step undoes its element. -/
theorem drain_putAll {step : σ → Decoder ε (α × σ)} (consumes : ∀ s, Consumes (step s))
    {enc : σ → α → Bytes × σ} {inv : σ → α → Prop}
    (hstep : ∀ s a, inv s a → Reads (step s) (enc s a).1 (a, (enc s a).2)) {s : σ} {l : List α}
    (h : Along enc inv s l) : drain step consumes s (putAll enc s l) = .ok l := by
  induction l generalizing s with
  | nil =>
      rw [putAll, drain]
      exact if_pos rfl
  | cons a l ih =>
      obtain ⟨ha, hl⟩ := h
      have hread := hstep s a ha (putAll enc (enc s a).2 l)
      have hne : (enc s a).1 ++ putAll enc (enc s a).2 l ≠ [] := by
        intro hnil
        have hlen := consumes s _ _ _ hread
        rw [hnil] at hlen
        exact Nat.not_lt_zero _ hlen
      rw [putAll, drain, if_neg hne]
      split
      · rename_i e heq
        rw [hread] at heq
        cases heq
      · rename_i b next rest heq
        rw [hread] at heq
        cases heq
        rw [ih hl]
        rfl

/-- The elements a buffer is read as are read in turn, each from the state the one before left. -/
inductive Drained (step : σ → Decoder ε (α × σ)) : σ → Bytes → List α → Prop
  | nil (s : σ) : Drained step s [] []
  | cons {s next : σ} {buf rest : Bytes} {a : α} {l : List α} (head : (step s).run buf = .ok ((a, next), rest))
      (tail : Drained step next rest l) : Drained step s buf (a :: l)

/-- A loop that returns has read the whole buffer, turn by turn. -/
theorem drained_of_drain {step : σ → Decoder ε (α × σ)} {consumes : ∀ s, Consumes (step s)} {s : σ} {buf : Bytes}
    {l : List α} (h : drain step consumes s buf = .ok l) : Drained step s buf l := by
  induction l generalizing s buf with
  | nil =>
      rw [drain] at h
      split at h
      next hbuf => rw [hbuf]; exact .nil s
      next =>
        split at h
        · cases h
        · rename_i a next rest heq
          cases hd : drain step consumes next rest with
          | error e => rw [hd] at h; cases h
          | ok l => rw [hd] at h; cases h
  | cons a l ih =>
      rw [drain] at h
      split at h
      · cases h
      · split at h
        · cases h
        · rename_i b next rest heq
          cases hd : drain step consumes next rest with
          | error e => rw [hd] at h; cases h
          | ok l' =>
              rw [hd] at h
              cases h
              exact .cons heq (ih hd)

end Nula
