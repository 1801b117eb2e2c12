import Nula.Signer.Bunker

/-!
# `Signer.Dispatcher` — how a client reads its responses

One response envelope after another (`dispatcher.rs`): the verdict in it (`decode_response`) and the key it comes
from (`validate_secret_echo`). Between a client and an honest signer the envelopes add nothing and lose nothing but
the two results that are control words.
-/

namespace Nula.Signer

open Nip46

/-! ## Errors (`error.rs`) -/

/-- `Error`, as far as calls and responses go; a pool's and a handler's error by its text. -/
inductive Error where
  | pool (text : String)
  | nip46 (e : Nip46Error)
  | nip44 (e : Nip44.Nip44Error)
  | event (e : EventBuilderError)
  | timeout (method : Method)
  | rejected (method : Method) (message : String)
  | dispatcherDown (reason : String)
  | cancelled (reason : String)
  | authUrl (text : String)
  deriving DecidableEq

/-! ## Responses (`dispatcher.rs`) -/

/-- What a response is decoded to. -/
inductive Decoded where
  /-- The caller gets this. -/
  | result (r : Except Error ResponseResult)
  /-- The user has to go there first. -/
  | authUrl (target : Url)

section

variable (json : JsonCodec) (urls : UrlCrate)

/-- `decode_response`. -/
def decodeResponse (method : Method) (result error : Option String) : Decoded :=
  match Response.fromWire json urls method result error with
  | .error e => .result (.error (.nip46 e))
  | .ok parsed =>
      if parsed.result = some .authUrl then
        -- the URL travels in the `error` slot
        match parsed.error.bind (fun s => (urls.parse s).toOption) with
        | none => .result (.error (.rejected method (parsed.error.getD "auth_url without target URL")))
        | some target => .authUrl target
      else
        match parsed.error with
        | some message => .result (.error (.rejected method message))
        | none =>
            match parsed.result with
            | none => .result (.error (.rejected method "signer returned neither result nor error"))
            | some value => .result (.ok value)

/-- What a caller is given was decoded from a result, with no error beside it. The result is read first, and an error
    beside it goes before it. -/
theorem decodeResponse_eq_ok_iff {method : Method} {result error : Option String} {v : ResponseResult} :
    decodeResponse json urls method result error = .result (.ok v) ↔
      ∃ s, result = some s ∧ error = none ∧ ResponseResult.fromWire json urls method s = .ok v ∧ v ≠ .authUrl := by
  rw [decodeResponse]
  cases result with
  | none => cases error <;> simp [Response.fromWire]
  | some s =>
      cases hwire : ResponseResult.fromWire json urls method s with
      | error e => simp [Response.fromWire, hwire]
      | ok value =>
          have hparsed : Response.fromWire json urls method (some s) error = .ok ⟨some value, error⟩ := by
            rw [Response.fromWire, hwire]
            rfl
          simp only [hparsed, Option.some.injEq, exists_eq_left', hwire, Except.ok.injEq]
          by_cases hauth : value = .authUrl
          · rw [if_pos hauth]
            constructor
            · intro h
              split at h <;> cases h
            · rintro ⟨-, rfl, hne⟩
              exact absurd hauth hne
          · rw [if_neg hauth]
            cases error with
            | some message => simp
            | none =>
                simp only [Decoded.result.injEq, Except.ok.injEq, true_and]
                constructor
                · rintro rfl
                  exact ⟨rfl, hauth⟩
                · rintro ⟨h, -⟩
                  exact h

end

/-- `validate_secret_echo`: the cell of the signer's key is set at most once. -/
def validateSecretEcho (remoteSignerPk : Option PublicKey) (expectedSecret : Option String) (author : PublicKey)
    (result : Option String) : Option PublicKey :=
  match remoteSignerPk with
  | some pk => some pk
  | none =>
      match expectedSecret, result with
      | some secret, some value => if value = secret then some author else none
      | _, _ => none

/-- The id and the two slots of an event that holds a response for this client. -/
def readResponse (ctx : Ctx) (keys : Keys) (event : Event) : Option (String × Option String × Option String) :=
  if event.kind ≠ kind then none
  else
    match Nip44.decrypt ctx.crypto keys.secretKey event.pubkey event.content with
    | .error _ => none
    | .ok plain =>
        match Message.fromJson ctx.json plain with
        | some (.response id result error) => some (id, result, error)
        | _ => none

end Nula.Signer
