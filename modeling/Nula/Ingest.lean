import Nula.Server.Broadcast
import Nula.Pool.Genuine

/-!
# `Ingest` — what reaches storage

`NostrDatabase::save_event` trusts its callers to have verified the event. It has two callers that take events
from a socket: `handle_event` of the relay server, behind its gates, and the stream driver of the pool, behind
its cache. Neither verifies anything, so what reaches storage is verified exactly as long as nothing else comes
in (`stored_verified_iff`).
-/

namespace Nula

/-- Every one of these events verifies. -/
def Verified (crypto : Crypto) (events : List Event) : Prop := ∀ event ∈ events, event.verify crypto = .ok ()

/-! ## The server's path -/

namespace Server.Connection

variable {N : Negentropy} {ctx : ConnectionContext}

/-- The events passed to `save_event`, in order. -/
def storedEvents (c : Connection N) : List Event := c.effects.filterMap Effect.stored

/-- An admitted event is stored, however the save ends. -/
theorem stored_admittedEffects (env : Env) (event : Event) (attempts : Nat) :
    (admittedEffects env event attempts).filterMap Effect.stored = [event] := by
  rw [admittedEffects]
  cases env.refuses attempts <;> cases acknowledged (env.saveEvent event) <;> rfl

/-- What a wakeup stores is what gets to the store in it. -/
theorem storedEvents_step (c : Connection N) (w : Wakeup × Env) :
    (c.step ctx w).storedEvents = c.storedEvents ++ (reaching ctx c w).toList := by
  obtain ⟨fx, heffects, hcase⟩ := step_effects ctx c w
  rw [storedEvents, heffects, List.filterMap_append]
  rcases hcase with ⟨event, hreaching, rfl⟩ | ⟨hnone, hlocal⟩
  · rw [stored_admittedEffects, hreaching]
    rfl
  · rw [List.filterMap_eq_nil_iff.mpr (fun e he => (hlocal e he).stored), hnone]
    rfl

theorem storedEvents_accept (ctx : ConnectionContext) (first : Env) :
    (accept ctx first : Connection N).storedEvents = [] := by
  apply List.filterMap_eq_nil_iff.mpr
  intro e he
  obtain ⟨entry, hentry, rfl⟩ := List.mem_map.mp he
  exact (accept_aside entry hentry).stored

end Server.Connection

/-! ## Both paths -/

section

open Server Pool

variable {N : Negentropy} {lru : Lru EventId}

/-- The server's path: everything stored so far verifies. -/
def ServerStoresVerified (N : Negentropy) (ctx : ConnectionContext) (first : Server.Env)
    (past : List (Server.Wakeup × Server.Env)) : Prop :=
  Verified ctx.crypto (Connection.run ctx first past : Connection N).storedEvents

/-- The pool's path, with `auto_save_events`: everything stored so far verifies. -/
def PoolStoresVerified (crypto : Crypto) (lru : Lru EventId) (options : StreamOptions) (workers : List Worker)
    (past : List (Pool.Wakeup × Pool.Env)) : Prop :=
  Verified crypto (Driver.run { options with autoSave := true } workers past : Driver lru).storedEvents

/-- **Verified events only, as long as only those come in.** Along a run of the relay server and a run of the
    pool's stream driver everything passed to `save_event` verifies, exactly when every `EVENT` the server lets
    through its gates does, and every event the driver reads under an id that is not in its cache.

    What was stored after one wakeup more is what was stored before and what gets to the store in it, on both
    sides; that all of it verifies is then a condition on each wakeup (`always_forall_mem_iff`). -/
theorem stored_verified_iff (ctx : ConnectionContext) (first : Server.Env)
    (schedule : List (Server.Wakeup × Server.Env)) (lru : Lru EventId) (options : StreamOptions)
    (workers : List Worker) (wakeups : List (Pool.Wakeup × Pool.Env)) :
    (Always (ServerStoresVerified N ctx first) schedule ∧
      Always (PoolStoresVerified ctx.crypto lru options workers) wakeups) ↔
    (EachStep (fun past w => ∀ event, Connection.reaching ctx (Connection.run ctx first past : Connection N) w =
        some event → event.verify ctx.crypto = .ok ()) schedule ∧
      EachStep (fun past w => ∀ event,
        (Driver.run { options with autoSave := true } workers past : Driver lru).fresh w = some event →
          event.verify ctx.crypto = .ok ()) wakeups) := by
  apply and_congr
  · apply always_forall_mem_iff
    · exact Connection.storedEvents_accept ctx first
    · intro past w
      rw [Connection.run_append_singleton, Connection.storedEvents_step]
  · apply always_forall_mem_iff
    · rfl
    · intro past w
      rw [Driver.run_append_singleton, Driver.storedEvents_step, if_pos rfl]

/-- The copy of a note under its id and signature, sent by a client and by a relay, is stored by both. -/
theorem forgedNote_stored :
    ¬Always (ServerStoresVerified Sample.negentropy
        (Sample.serverCtx (fun text => if text = "[\"EVENT\"," ++ Sample.noteText "forged" ++ "]" then
          .ok (.event Sample.forged) else .error "")) (Sample.serverEnv 1))
      [(.inbound (some (.ok (.text ("[\"EVENT\"," ++ Sample.noteText "forged" ++ "]")))), Sample.serverEnv 1)] ∧
    ¬Always (PoolStoresVerified Sample.crypto .ofList .default forgedFirst)
      [(.next 0, ⟨true, fun _ => .ok .success⟩)] := by
  constructor
  · intro h
    have hstored := h.last Sample.forged (by decide +kernel)
    revert hstored
    decide +kernel
  · intro h
    have hstored := h.last Sample.forged (by decide +kernel)
    revert hstored
    decide +kernel

end

end Nula
