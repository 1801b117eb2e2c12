import Nula.Signer.Uri

/-!
# `Signer.Permissions` — what the text of a permission list keeps

A token is kept as it was read, unless it asks for one kind: then its number is parsed and printed again. The
list comes back as it was exactly when no such number is spelled with a sign or a leading zero. A request is
always read back, whichever of the optional slots of `connect` are filled.
-/

namespace Nula.Nip46

open Nula

theorem Method.asStr_of_fromStr {s : String} {m : Method} (h : Method.fromStr s = .ok m) : m.asStr = s := by
  unfold Method.fromStr at h
  split at h <;> first | (obtain rfl := Except.ok.inj h; rfl) | cases h

namespace Permission

/-- A permission for one kind, whose number is not spelled as it is printed. -/
def Respelled (token : String) : Prop :=
  ∃ number, token = Method.signEvent.asStr ++ ":" ++ number ∧ (parseU16 number).isSome ∧
    ¬ Decimal.Plain number.toList

/-- A list of tokens that are not empty and have no whitespace around them. -/
def Listing (wire : String) : Prop := ∀ token ∈ pieces ',' wire, token ≠ "" ∧ trim token = token

instance (wire : String) : Decidable (Listing wire) := inferInstanceAs (Decidable (∀ _ ∈ pieces ',' wire, _))

/-! ### One token -/

theorem parse_kind {number : String} {n : UInt16} (h : parseU16 number = some n) :
    parse (Method.signEvent.asStr ++ ":" ++ number) = signEventKind ⟨n⟩ := by
  have hsplit : splitOnce ':' (Method.signEvent.asStr ++ ":" ++ number).toList =
      some (Method.signEvent.asStr.toList, number.toList) := by
    rw [String.toList_append, String.toList_append, List.append_assoc]
    exact splitOnce_append (by decide) _
  rw [parse, hsplit]
  simp only [String.ofList_toList, h, if_true]

/-- A token is written as it was read, or it is a number behind `sign_event:`. -/
theorem toWire_parse (token : String) :
    (parse token).toWire = token ∨
      ∃ number n, token = Method.signEvent.asStr ++ ":" ++ number ∧ parseU16 number = some n := by
  unfold parse
  split
  · rename_i head tail hsplit
    split
    · rename_i n hn
      split
      · rename_i hhead
        refine Or.inr ⟨String.ofList tail, n, ?_, hn⟩
        rw [← String.toList_inj, splitOnce_eq_some hsplit, ← hhead]
        simp
      · exact Or.inl rfl
    · exact Or.inl rfl
  · split
    · rename_i m hm
      exact Or.inl (Method.asStr_of_fromStr hm)
    · exact Or.inl rfl

/-- **A token is kept exactly if it is not respelled**, by a kind with a sign or with zeros in front. -/
theorem toWire_parse_iff (token : String) : (parse token).toWire = token ↔ ¬ Respelled token := by
  have hkind : ∀ {number : String} {n : UInt16}, parseU16 number = some n →
      ((parse (Method.signEvent.asStr ++ ":" ++ number)).toWire = Method.signEvent.asStr ++ ":" ++ number ↔
        Decimal.Plain number.toList) := by
    intro number n hn
    rw [parse_kind hn, toWire, String.append_right_inj]
    exact toString_parseU16 hn
  constructor
  · rintro hsame ⟨number, rfl, hsome, hspelled⟩
    obtain ⟨n, hn⟩ := Option.isSome_iff_exists.mp hsome
    exact hspelled ((hkind hn).mp hsame)
  · intro hplain
    rcases toWire_parse token with hsame | ⟨number, n, rfl, hn⟩
    · exact hsame
    · refine (hkind hn).mpr (Decidable.not_not.mp (fun hspelled => ?_))
      exact hplain ⟨number, rfl, by rw [hn]; rfl, hspelled⟩

theorem comma_notMem_number (n : Nat) : ',' ∉ (toString n).toList := by
  intro hmem
  rw [show toString n = Nat.repr n from rfl, Nat.toList_repr] at hmem
  exact absurd (Decimal.isDigit_toDigits _ hmem) (by decide)

theorem comma_notMem_kind (n : UInt16) : ',' ∉ (signEventKind ⟨n⟩).toWire.toList := by
  rw [toWire, String.toList_append, List.mem_append]
  rintro (hstart | hnumber)
  · exact absurd hstart (by decide)
  · exact comma_notMem_number _ hnumber

theorem comma_notMem_toWire {token : String} (h : ',' ∉ token.toList) : ',' ∉ (parse token).toWire.toList := by
  rcases toWire_parse token with hsame | ⟨number, n, rfl, hn⟩
  · rwa [hsame]
  · rw [parse_kind hn]
    exact comma_notMem_kind n

/-! ### The list -/

theorem split_listing {wire : String} (h : Listing wire) : split wire = (pieces ',' wire).map parse := by
  have hne : wire ≠ "" := by
    rintro rfl
    exact (h "" (by decide)).1 rfl
  have hpieces : ∀ piece ∈ splitOn ',' wire.toList, piece ≠ [] ∧ trimChars piece = piece := by
    intro piece hpiece
    obtain ⟨hfull, htrim⟩ := h (String.ofList piece) (List.mem_map_of_mem hpiece)
    refine ⟨fun hnil => hfull (by rw [hnil]), ?_⟩
    rw [trim, String.toList_ofList] at htrim
    exact String.ofList_inj.mp htrim
  have htrimmed : (splitOn ',' wire.toList).map trimChars = splitOn ',' wire.toList := by
    conv_rhs => rw [← List.map_id (splitOn ',' wire.toList)]
    exact List.map_congr_left (fun piece hpiece => (hpieces piece hpiece).2)
  rw [split, if_neg hne, htrimmed,
    List.filter_eq_self.mpr (fun piece hpiece => decide_eq_true (hpieces piece hpiece).1), pieces, List.map_map]
  rfl

/-- A list of tokens is written as it was read exactly when each token is. -/
theorem join_split_iff {wire : String} (h : Listing wire) :
    join (split wire) = wire ↔ ∀ token ∈ pieces ',' wire, (parse token).toWire = token := by
  rw [split_listing h, join, List.map_map]
  exact rejoin_iff (fun token htoken => comma_notMem_toWire (notMem_of_mem_pieces htoken))

end Permission

/-! ### Requests -/

namespace Request

/-- No secret is the empty text that stands for none, and every permission is its own wire text. -/
def Canonical : Request → Prop
  | connect _ secret perms => secret ≠ some "" ∧ ∀ list ∈ perms, ∀ p ∈ list, Permission.Canonical p
  | _ => True

variable (json : JsonCodec)

theorem fromWire_connect (pk : PublicKey) {secret : Option String} {perms : Option (List Permission)}
    (h : (connect pk secret perms).Canonical) :
    fromWire json .connect ((connect pk secret perms).params json) = .ok (connect pk secret perms) := by
  obtain ⟨hsecret, hperms⟩ := h
  cases perms with
  | none =>
      cases secret with
      | none =>
          simp only [params, Option.toList_none, fromWire, parseKey_toHex]
          rfl
      | some text =>
          simp only [params, Option.toList_some, fromWire, parseKey_toHex]
          rfl
  | some list =>
      have hlist := Permission.split_join (hperms list rfl)
      cases secret with
      | none =>
          simp only [params, Option.getD_none, fromWire, parseKey_toHex, if_true, hlist]
          rfl
      | some text =>
          have htext : text ≠ "" := fun heq => hsecret (by rw [heq])
          simp only [params, Option.getD_some, fromWire, parseKey_toHex, if_neg htext, hlist]
          rfl

/-- **A canonical request comes back from its parameters**, method by method. -/
theorem fromWire_canonical {request : Request} (h : request.Canonical) :
    fromWire json request.method (request.params json) = .ok request := by
  by_cases hconnect : request.method = .connect
  · cases request with
    | connect pk secret perms => exact fromWire_connect json pk h
    | _ => cases hconnect
  · exact fromWire_params json hconnect

end Request

/-- A list of tokens comes back as it was read exactly when none of them spells a kind in another way than it is
    printed, and a canonical request comes back always.

    No permission is written with a comma, so a list is kept exactly if each token is (`join_split_iff`), and a
    token changes only by the number of its kind (`toWire_parse_iff`). -/
theorem permissions_kept_iff (json : JsonCodec) :
    (∀ wire : String, Permission.Listing wire →
      (Permission.join (Permission.split wire) = wire ↔
        ∀ token ∈ pieces ',' wire, ¬ Permission.Respelled token)) ∧
      ∀ request : Request, request.Canonical →
        Request.fromWire json request.method (request.params json) = .ok request := by
  refine ⟨fun wire hwire => ?_, fun request => Request.fromWire_canonical json⟩
  rw [Permission.join_split_iff hwire]
  exact forall₂_congr (fun token _ => Permission.toWire_parse_iff token)

theorem permission_renumbered :
    Permission.Listing "ping,sign_event:007" ∧
      Permission.join (Permission.split "ping,sign_event:007") ≠ "ping,sign_event:007" := by
  decide

end Nula.Nip46
