import Nula.Lib.Decoder

/-!
# `Lib.Watched` — decoders under observation

A `Watched` decoder is a `Decoder` that may also panic and that leaves notes of what it did. The notes of a run
that stops short are kept. `Simulates` says that the decoder without the notes does the same as long as nothing
panics; its rules follow the program, and so do those that take a successful or a panicking run apart.
-/

namespace Nula

variable {ν ε α β σ : Type}

/-- Why a run stops short. -/
inductive Stop (ε : Type) where
  | error (e : ε)
  | panic
  deriving DecidableEq

/-- The notes of a run, and what it returns with the rest of the buffer. -/
structure Outcome (ν ε α : Type) where
  notes : List ν
  result : Except (Stop ε) (α × Bytes)

/-- A reader under observation: the notes it leaves, and its result. -/
def Watched (ν ε α : Type) : Type := Bytes → Outcome ν ε α

namespace Watched

/-- What follows a run, on what that run left. -/
def andThen (out : Outcome ν ε α) (f : α → Watched ν ε β) : Outcome ν ε β :=
  match out.result with
  | .error stop => ⟨out.notes, .error stop⟩
  | .ok (a, rest) => ⟨out.notes ++ (f a rest).notes, (f a rest).result⟩

instance : Monad (Watched ν ε) where
  pure a := fun buf => ⟨[], .ok (a, buf)⟩
  bind d f := fun buf => andThen (d buf) f

/-- An error that the reader returns. -/
def fail (e : ε) : Watched ν ε α := fun _ => ⟨[], .error (.error e)⟩

/-- The end of the program. -/
def panic : Watched ν ε α := fun _ => ⟨[], .error .panic⟩

/-- A note for the observer. -/
def note (n : ν) : Watched ν ε Unit := fun buf => ⟨[n], .ok ((), buf)⟩

/-- A decoder, with notes on the bytes it consumed and on what it returned. -/
def watch (d : Decoder ε α) (notes : Bytes → α → List ν) : Watched ν ε α := fun buf =>
  match d.run buf with
  | .ok (a, rest) => ⟨notes (buf.take (buf.length - rest.length)) a, .ok (a, rest)⟩
  | .error e => ⟨[], .error (.error e)⟩

/-! ## Runs taken apart -/

/-- The notes of two readers in a row are those of the one, then those of the other. -/
theorem bind_ok {d : Watched ν ε α} {f : α → Watched ν ε β} {buf rest : Bytes} {notes : List ν} {b : β} :
    (d >>= f) buf = ⟨notes, .ok (b, rest)⟩ ↔
      ∃ before after a mid, d buf = ⟨before, .ok (a, mid)⟩ ∧ f a mid = ⟨after, .ok (b, rest)⟩ ∧
        notes = before ++ after := by
  rw [show (d >>= f) buf = andThen (d buf) f from rfl]
  constructor
  · intro h
    cases hd : d buf with
    | mk before result =>
        rw [hd] at h
        cases result with
        | error stop => cases h
        | ok p =>
            obtain ⟨hnotes, hresult⟩ := Outcome.mk.inj h
            refine ⟨before, (f p.1 p.2).notes, p.1, p.2, rfl, ?_, hnotes.symm⟩
            rw [← hresult]
  · rintro ⟨before, after, a, mid, hd, hf, rfl⟩
    rw [hd, andThen]
    simp only [hf]

/-- Where `w` does not panic, `d` does the same. -/
def Simulates (w : Watched ν ε α) (d : Decoder ε α) : Prop :=
  ∀ buf, (∀ r, (w buf).result = .ok r → d.run buf = .ok r) ∧
    ∀ e, (w buf).result = .error (.error e) → d.run buf = .error e

namespace Simulates

theorem pure (a : α) : Simulates (Pure.pure a : Watched ν ε α) (Pure.pure a) := by
  intro buf
  refine ⟨?_, nofun⟩
  rintro r ⟨⟩
  rfl

theorem fail (e : ε) : Simulates (Watched.fail e : Watched ν ε α) (MonadExcept.throw e) := by
  intro buf
  refine ⟨nofun, ?_⟩
  rintro e ⟨⟩
  rfl

theorem panic (d : Decoder ε α) : Simulates (Watched.panic : Watched ν ε α) d := fun _ => ⟨nofun, nofun⟩

theorem note {w : Watched ν ε α} {d : Decoder ε α} (h : Simulates w d) (n : ν) :
    Simulates (Watched.note n >>= fun _ => w) d := fun buf => h buf

theorem watch (d : Decoder ε α) (record : Bytes → α → List ν) : Simulates (Watched.watch d record) d := by
  intro buf
  rw [Watched.watch]
  cases hd : d.run buf with
  | error e =>
      refine ⟨nofun, ?_⟩
      rintro e' ⟨⟩
      rfl
  | ok p =>
      refine ⟨?_, nofun⟩
      rintro r ⟨⟩
      rfl

theorem bind {w : Watched ν ε α} {d : Decoder ε α} {f : α → Watched ν ε β} {g : α → Decoder ε β}
    (hd : Simulates w d) (hf : ∀ a, Simulates (f a) (g a)) : Simulates (w >>= f) (d >>= g) := by
  intro buf
  obtain ⟨hok, herror⟩ := hd buf
  rw [show (w >>= f) buf = andThen (w buf) f from rfl, andThen, StateT.run_bind]
  cases hw : (w buf).result with
  | error stop =>
      refine ⟨nofun, ?_⟩
      rintro e ⟨⟩
      rw [herror e hw]
      rfl
  | ok p =>
      rw [hok p hw]
      exact hf p.1 p.2

end Simulates

/-! ## Loops -/

theorem length_cons_val {n : Nat} (a : α) (l : { l : List α // l.length = n }) : (a :: l.1).length = n + 1 := by
  rw [List.length_cons, l.2]

/-- `for _ in 0..n`: the results, one for each round. -/
def times (d : Watched ν ε α) : (n : Nat) → Watched ν ε { l : List α // l.length = n }
  | 0     => return ⟨[], List.length_nil⟩
  | n + 1 => do
      let a ← d
      let l ← d.times n
      return ⟨a :: l.1, length_cons_val a l⟩

theorem Simulates.times {w : Watched ν ε α} {d : Decoder ε α} (h : Simulates w d) (n : Nat) :
    Simulates (w.times n) (d.times n) := by
  induction n with
  | zero => exact Simulates.pure _
  | succ n ih => exact h.bind (fun a => ih.bind (fun l => Simulates.pure _))

/-- `d` leaves a shorter buffer than it got. -/
def Consumes (d : Watched ν ε α) : Prop := ∀ buf notes a rest, d buf = ⟨notes, .ok (a, rest)⟩ → rest.length < buf.length

theorem Consumes.of_simulates {w : Watched ν ε α} {d : Decoder ε α} (h : Simulates w d) (hd : Nula.Consumes d) :
    Consumes w := by
  intro buf notes a rest hw
  exact hd buf a rest ((h buf).1 _ (by rw [hw]))

/-- Read until the buffer is empty; each round gets the state the one before left. -/
def drain (step : σ → Watched ν ε (α × σ)) (consumes : ∀ s, Consumes (step s)) (s : σ) (buf : Bytes) :
    Outcome ν ε (List α) :=
  if buf = [] then ⟨[], .ok ([], buf)⟩
  else match h : step s buf with
    | ⟨notes, .error stop⟩ => ⟨notes, .error stop⟩
    | ⟨notes, .ok ((a, next), rest)⟩ =>
        have : rest.length < buf.length := consumes s buf notes _ rest h
        let more := drain step consumes next rest
        ⟨notes ++ more.notes, more.result.map (fun (l, left) => (a :: l, left))⟩
termination_by buf.length

variable {step : σ → Watched ν ε (α × σ)} {consumes : ∀ s, Consumes (step s)}

end Watched

end Nula
