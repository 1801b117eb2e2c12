import Nula.Core.Signing
import Nula.Core.Spelling
import Nula.Lib.Yields

/-!
# `Core.Nip26` — delegation tokens and the conditions they are given under

The delegator signs the text of the conditions; the verifier parses the text of the tag and renders it again
(`nips/nip26.rs`). The two texts are the same exactly when no clause spells its number with a sign or a leading
zero, so a verification speaks of the text the tag carries only then.
-/

namespace Nula.Nip26

open Nula

/-- `DELEGATION_TAG_KEY`. -/
def delegationTagKey : String := "delegation"

/-! ## Conditions -/

/-- `Condition`: a clause. -/
inductive Condition where
  | kind (kind : Kind)
  | createdAfter (ts : Timestamp)
  | createdBefore (ts : Timestamp)
  deriving DecidableEq

/-- `ConditionsError`, with the clause or value as it was written. -/
inductive ConditionsError where
  | unsupportedClause (raw : String)
  | invalidValue (raw : String)
  deriving DecidableEq, Repr

namespace Condition

/-- What stands before the number of a clause. -/
def field : Condition → String
  | kind _ => "kind="
  | createdAfter _ => "created_at>"
  | createdBefore _ => "created_at<"

/-- The number of a clause. -/
def number : Condition → Nat
  | kind k => k.val.toNat
  | createdAfter ts | createdBefore ts => ts.toNat

/-- `Display for Condition`. -/
def display (c : Condition) : String := c.field ++ toString c.number

/-- One clause of `Conditions::matches`. -/
def holds (eventKind : Kind) (createdAt : Timestamp) : Condition → Bool
  | kind k => k = eventKind
  | createdAfter ts => createdAt > ts
  | createdBefore ts => createdAt < ts

end Condition

/-- `str::strip_prefix`. -/
def stripPrefix (head s : String) : Option String :=
  if head.toList.isPrefixOf s.toList then some (String.ofList (s.toList.drop head.toList.length)) else none

/-- `parse_one`. -/
def parseOne (raw : String) : Except ConditionsError Condition :=
  match stripPrefix "kind=" raw with
  | some rest =>
      match parseU16 rest with
      | some n => .ok (.kind ⟨n⟩)
      | none => .error (.invalidValue raw)
  | none =>
      -- the prefixes exclude one another, so their order does not matter
      match stripPrefix "created_at>" raw with
      | some rest =>
          match parseU64 rest with
          | some n => .ok (.createdAfter n)
          | none => .error (.invalidValue raw)
      | none =>
          match stripPrefix "created_at<" raw with
          | some rest =>
              match parseU64 rest with
              | some n => .ok (.createdBefore n)
              | none => .error (.invalidValue raw)
          | none => .error (.unsupportedClause raw)

/-- A list of conditions, in the order they were appended. -/
structure Conditions where
  items : List Condition
  deriving DecidableEq

namespace Conditions

/-- `Conditions::render`. -/
def render (c : Conditions) : String := "&".intercalate (c.items.map Condition.display)

/-- `Conditions::parse`. -/
def parse (s : String) : Except ConditionsError Conditions :=
  if s = "" then .ok ⟨[]⟩
  else do return ⟨← (pieces '&' s).mapM parseOne⟩

/-- `Conditions::matches`. -/
def matchesEvent (c : Conditions) (kind : Kind) (createdAt : Timestamp) : Bool :=
  c.items.all (fun clause => clause.holds kind createdAt)

/-- Every number of the text is spelled as it is printed. -/
def Plain (s : String) : Prop :=
  ∀ clause ∈ pieces '&' s, ∀ c : Condition, ∀ number, clause = c.field ++ number → Decimal.Plain number.toList

end Conditions

/-! ## Tokens -/

/-- `delegation_message`. -/
def delegationMessage (delegatee : PublicKey) (conditions : Conditions) : String :=
  "nostr:delegation:" ++ delegatee.toHex ++ ":" ++ conditions.render

/-- `delegation_hash`. -/
def delegationHash (crypto : Crypto) (delegatee : PublicKey) (conditions : Conditions) : Bytes :=
  crypto.sha256 (strBytes (delegationMessage delegatee conditions))

/-- `verify_delegation`. -/
def verifyDelegation (crypto : Crypto) (delegator delegatee : PublicKey) (conditions : Conditions)
    (token : Signature) : Bool :=
  crypto.verifySchnorr token (delegationHash crypto delegatee conditions) delegator

structure Delegation where
  delegator : PublicKey
  conditions : Conditions
  token : Signature
  deriving DecidableEq

/-- `DelegationError`; a malformed token without the text of its error. -/
inductive DelegationError where
  | missing
  | pubkey (e : PublicKeyError)
  | conditions (e : ConditionsError)
  | token
  | invalidSignature
  | conditionsViolated
  deriving DecidableEq

/-- What `parse_delegation` makes of the first delegation tag. -/
def readDelegation (tag : Tag) : Except DelegationError Delegation :=
  match tag.values[1]?, tag.values[2]?, tag.values[3]? with
  | some d, some c, some t => do
      let delegator ← (PublicKey.parse d).mapError .pubkey
      let conditions ← (Conditions.parse c).mapError .conditions
      match Signature.parse t with
      | some token => return ⟨delegator, conditions, token⟩
      | none => .error .token
  | _, _, _ => .error .missing

/-- `parse_delegation`: only the first tag with the key counts. -/
def parseDelegation (tags : Tags) : Except DelegationError Delegation :=
  match tags.findFirst (.custom delegationTagKey) with
  | some tag => readDelegation tag
  | none => .error .missing

/-- `verify_event_delegation`. -/
def verifyEventDelegation (crypto : Crypto) (event : Event) : Except DelegationError Delegation := do
  let delegation ← parseDelegation event.tags
  if verifyDelegation crypto delegation.delegator event.pubkey delegation.conditions delegation.token = false then
    .error .invalidSignature
  else if delegation.conditions.matchesEvent event.kind event.createdAt = false then .error .conditionsViolated
  else return delegation

/-! ## Rendering what was parsed -/

theorem stripPrefix_append (head rest : String) : stripPrefix head (head ++ rest) = some rest := by
  have hprefix : head.toList.isPrefixOf (head ++ rest).toList = true := by
    rw [String.toList_append]
    exact List.isPrefixOf_iff_prefix.mpr (List.prefix_append _ _)
  rw [stripPrefix, if_pos hprefix, String.toList_append, List.drop_left, String.ofList_toList]

theorem eq_of_stripPrefix {head s rest : String} (h : stripPrefix head s = some rest) : s = head ++ rest := by
  rw [stripPrefix] at h
  split at h
  · rename_i hprefix
    obtain ⟨t, ht⟩ := List.isPrefixOf_iff_prefix.mp hprefix
    have hrest := Option.some.inj h
    rw [← ht, List.drop_left] at hrest
    rw [← String.toList_inj, ← ht, ← hrest, String.toList_append, String.toList_ofList]
  · cases h

namespace Condition

/-- A clause has one number only. -/
theorem number_unique {c c' : Condition} {rest rest' : String} (h : c.field ++ rest = c'.field ++ rest') :
    rest = rest' := by
  rw [← String.toList_inj] at h ⊢
  cases c <;> cases c' <;> simp_all [field]

theorem field_spec (c : Condition) : '&' ∉ c.field.toList ∧ c.field.toList ≠ [] := by
  cases c <;> simp [field]

/-- A clause has no `&`, which is what separates clauses. -/
theorem ampersand_notMem_display (c : Condition) : '&' ∉ c.display.toList := by
  rw [display, String.toList_append, List.mem_append]
  rintro (hfield | hnumber)
  · exact c.field_spec.1 hfield
  · rw [show toString c.number = Nat.repr c.number from rfl, Nat.toList_repr] at hnumber
    exact absurd (Decimal.isDigit_toDigits _ hnumber) (by decide)

theorem append_ne_empty (c : Condition) (number : String) : c.field ++ number ≠ "" := by
  intro hempty
  rw [← String.toList_inj, String.toList_append] at hempty
  exact c.field_spec.2 (List.append_eq_nil_iff.mp hempty).1

/-- **A clause comes back from its text**: no field is the beginning of another, and the number is read to its end. -/
theorem parseOne_display (c : Condition) : parseOne c.display = .ok c := by
  cases c with
  | kind k =>
      have hstrip : stripPrefix "kind=" (kind k).display = some (toString k.val.toNat) := stripPrefix_append _ _
      rw [parseOne, hstrip]
      simp only [parseU16_toString]
  | createdAfter ts =>
      have hkind : stripPrefix "kind=" (createdAfter ts).display = none := by
        rw [stripPrefix, display, String.toList_append, if_neg (by simp [field, List.isPrefixOf])]
      have hstrip : stripPrefix "created_at>" (createdAfter ts).display = some (toString ts.toNat) :=
        stripPrefix_append _ _
      rw [parseOne, hkind, hstrip]
      simp only [parseU64_toString]
  | createdBefore ts =>
      have hkind : stripPrefix "kind=" (createdBefore ts).display = none := by
        rw [stripPrefix, display, String.toList_append, if_neg (by simp [field, List.isPrefixOf])]
      have hafter : stripPrefix "created_at>" (createdBefore ts).display = none := by
        rw [stripPrefix, display, String.toList_append, if_neg (by simp [field, List.isPrefixOf])]
      have hstrip : stripPrefix "created_at<" (createdBefore ts).display = some (toString ts.toNat) :=
        stripPrefix_append _ _
      rw [parseOne, hkind, hafter, hstrip]
      simp only [parseU64_toString]

/-- A clause that was parsed is its field and a text of its number. -/
theorem of_parseOne {raw : String} {c : Condition} (h : parseOne raw = .ok c) :
    ∃ rest, raw = c.field ++ rest ∧ (toString c.number = rest ↔ Decimal.Plain rest.toList) := by
  unfold parseOne at h
  split at h
  · rename_i rest hstrip
    split at h
    · rename_i n hn
      obtain rfl := Except.ok.inj h
      exact ⟨rest, eq_of_stripPrefix hstrip, toString_parseU16 hn⟩
    · cases h
  · split at h
    · rename_i rest hstrip
      split at h
      · rename_i n hn
        obtain rfl := Except.ok.inj h
        exact ⟨rest, eq_of_stripPrefix hstrip, toString_parseU64 hn⟩
      · cases h
    · split at h
      · rename_i rest hstrip
        split at h
        · rename_i n hn
          obtain rfl := Except.ok.inj h
          exact ⟨rest, eq_of_stripPrefix hstrip, toString_parseU64 hn⟩
        · cases h
      · cases h

/-- A clause is displayed as it was parsed exactly when its number is plain. -/
theorem display_eq_iff {raw : String} {c : Condition} (h : parseOne raw = .ok c) :
    c.display = raw ↔ ∀ c' : Condition, ∀ number, raw = c'.field ++ number → Decimal.Plain number.toList := by
  obtain ⟨rest, rfl, hspelled⟩ := of_parseOne h
  rw [display, String.append_right_inj, hspelled]
  constructor
  · intro hplain c' number heq
    rwa [← number_unique heq]
  · intro hplain
    exact hplain c rest rfl

end Condition

namespace Conditions

/-- A clause after parsing and displaying it; one that does not parse stays as it is. -/
def respell (raw : String) : String :=
  match parseOne raw with
  | .ok c => c.display
  | .error _ => raw

/-- Conditions are their clauses between the `&`s, one by one. -/
theorem parse_eq_ok {s : String} (hne : s ≠ "") {c : Conditions} :
    parse s = .ok c ↔ List.Forall₂ (fun raw clause => parseOne raw = .ok clause) (pieces '&' s) c.items := by
  rw [parse, if_neg hne, ← mapM_ok_iff]
  constructor
  · intro h
    obtain ⟨items, hitems, heq⟩ := bind_ok_iff.mp h
    obtain rfl := Except.ok.inj heq
    exact hitems
  · intro h
    exact bind_ok_iff.mpr ⟨c.items, h, rfl⟩

/-- Parsing and rendering again respells each clause. -/
theorem map_display {raws : List String} {items : List Condition}
    (h : List.Forall₂ (fun raw clause => parseOne raw = .ok clause) raws items) :
    items.map Condition.display = raws.map respell := by
  induction h with
  | nil => rfl
  | cons hclause hrest ih => rw [List.map_cons, List.map_cons, ih, respell, hclause]

theorem parsed_of_mem {raws : List String} {items : List Condition}
    (h : List.Forall₂ (fun raw clause => parseOne raw = .ok clause) raws items) :
    ∀ raw ∈ raws, ∃ clause, parseOne raw = .ok clause := by
  induction h with
  | nil => exact fun raw hraw => absurd hraw List.not_mem_nil
  | cons hclause hrest ih =>
      rintro raw hraw
      rcases List.mem_cons.mp hraw with rfl | hraw
      · exact ⟨_, hclause⟩
      · exact ih raw hraw

/-- **Conditions come back from their text**, the empty ones included. -/
theorem parse_render (c : Conditions) : parse c.render = .ok c := by
  cases hitems : c.items with
  | nil =>
      have hc : c = ⟨[]⟩ := by
        cases c
        exact congrArg Conditions.mk hitems
      rw [hc]
      rfl
  | cons first rest =>
      have hpieces : pieces '&' c.render = c.items.map Condition.display := by
        refine pieces_intercalate ?_ (by simp [hitems])
        rintro text htext
        obtain ⟨clause, -, rfl⟩ := List.mem_map.mp htext
        exact clause.ampersand_notMem_display
      have hne : c.render ≠ "" := by
        intro hempty
        rw [hempty, hitems] at hpieces
        exact first.append_ne_empty _ (List.cons.inj hpieces).1.symm
      rw [parse_eq_ok hne, hpieces, List.forall₂_map_left_iff]
      exact List.forall₂_same.mpr (fun clause _ => clause.parseOne_display)

/-- The empty text is spelled as it is rendered. -/
theorem plain_empty : Plain "" := by
  intro clause hclause c number heq
  rw [List.mem_singleton.mp (show clause ∈ [""] from hclause)] at heq
  exact absurd heq.symm (c.append_ne_empty number)

/-- What was parsed is rendered as it was exactly when every number of it is plain. -/
theorem render_eq_iff {s : String} {c : Conditions} (h : parse s = .ok c) : c.render = s ↔ Plain s := by
  by_cases hempty : s = ""
  · subst hempty
    obtain rfl := Except.ok.inj (show Except.ok ⟨[]⟩ = Except.ok c from h)
    exact iff_of_true rfl plain_empty
  · have hclauses := (parse_eq_ok hempty).mp h
    have hparsed := parsed_of_mem hclauses
    have hrespell : ∀ {raw clause}, parseOne raw = .ok clause → respell raw = clause.display := by
      intro raw clause hraw
      rw [respell, hraw]
    rw [render, map_display hclauses]
    refine (rejoin_iff (fun raw hraw => ?_)).trans (forall₂_congr (fun raw hraw => ?_))
    · obtain ⟨clause, hclause⟩ := hparsed raw hraw
      rw [hrespell hclause]
      exact clause.ampersand_notMem_display
    · obtain ⟨clause, hclause⟩ := hparsed raw hraw
      rw [hrespell hclause]
      exact Condition.display_eq_iff hclause

end Conditions

/-! ## What a delegation says -/

/-- The text a delegator signs, with the conditions as they are spelled. -/
def signedText (delegatee : PublicKey) (conditions : String) : String :=
  "nostr:delegation:" ++ delegatee.toHex ++ ":" ++ conditions

/-- The first delegation tag reads as `d`, and spells its conditions `text`. -/
def Carries (tags : Tags) (d : Delegation) (text : String) : Prop :=
  ∃ tag key token, tags.findFirst (.custom delegationTagKey) = some tag ∧ tag.values[1]? = some key ∧
    tag.values[2]? = some text ∧ tag.values[3]? = some token ∧ PublicKey.parse key = .ok d.delegator ∧
    Conditions.parse text = .ok d.conditions ∧ Signature.parse token = some d.token

section

variable (crypto : Crypto)

/-- The token is a signature of the delegator over the text with these conditions. -/
def Signed (event : Event) (d : Delegation) (text : String) : Prop :=
  crypto.verifySchnorr d.token (crypto.sha256 (strBytes (signedText event.pubkey text))) d.delegator = true

instance (event : Event) (d : Delegation) (text : String) : Decidable (Signed crypto event d text) :=
  inferInstanceAs (Decidable (_ = true))

/-- The event carries a delegation that was signed as it is spelled, and satisfies every clause of it. -/
def Delegated (event : Event) : Prop :=
  ∃ d text, Carries event.tags d text ∧ Signed crypto event d text ∧
    ∀ clause ∈ d.conditions.items, clause.holds event.kind event.createdAt = true

/-- **Which delegation the tags carry**: that of their one `delegation` tag, with the text of its conditions. -/
theorem parseDelegation_eq_ok {tags : Tags} {d : Delegation} :
    parseDelegation tags = .ok d ↔ ∃ text, Carries tags d text := by
  obtain ⟨delegator, conditions, token⟩ := d
  constructor
  · intro h
    rw [parseDelegation] at h
    split at h
    · rename_i tag htag
      rw [readDelegation] at h
      split at h
      · rename_i key text sig hkey htext hsig
        obtain ⟨pk, hpk, h⟩ := bind_ok_iff.mp h
        obtain ⟨c, hc, h⟩ := bind_ok_iff.mp h
        split at h
        · rename_i s hs
          obtain ⟨rfl, rfl, rfl⟩ := Delegation.mk.inj (Except.ok.inj h)
          exact ⟨text, tag, key, sig, htag, hkey, htext, hsig, mapError_ok_iff.mp hpk, mapError_ok_iff.mp hc, hs⟩
        · cases h
      · cases h
    · cases h
  · rintro ⟨text, tag, key, sig, htag, hkey, htext, hsig, hpk, hc, hs⟩
    rw [parseDelegation, htag]
    simp only [readDelegation, hkey, htext, hsig]
    refine bind_ok_iff.mpr ⟨delegator, mapError_ok_iff.mpr hpk, ?_⟩
    refine bind_ok_iff.mpr ⟨conditions, mapError_ok_iff.mpr hc, ?_⟩
    simp only [hs]
    rfl

/-- What the verifier accepts: the token is good for the conditions as they are rendered. -/
theorem verifyEventDelegation_eq_ok {event : Event} {d : Delegation} :
    verifyEventDelegation crypto event = .ok d ↔
      (∃ text, Carries event.tags d text) ∧ Signed crypto event d d.conditions.render ∧
        ∀ clause ∈ d.conditions.items, clause.holds event.kind event.createdAt = true := by
  have hsigned : verifyDelegation crypto d.delegator event.pubkey d.conditions d.token = true ↔
      Signed crypto event d d.conditions.render := Iff.rfl
  have hmatches : d.conditions.matchesEvent event.kind event.createdAt = true ↔
      ∀ clause ∈ d.conditions.items, clause.holds event.kind event.createdAt = true := List.all_eq_true
  rw [verifyEventDelegation, bind_ok_iff, ← parseDelegation_eq_ok, ← hsigned, ← hmatches]
  constructor
  · rintro ⟨d', hd', h⟩
    split at h
    · cases h
    · rename_i htoken
      split at h
      · cases h
      · rename_i hclauses
        obtain rfl := Except.ok.inj h
        exact ⟨hd', Bool.not_eq_false _ ▸ htoken, Bool.not_eq_false _ ▸ hclauses⟩
  · rintro ⟨hd, htoken, hclauses⟩
    refine ⟨d, hd, ?_⟩
    rw [if_neg (by simp [htoken]), if_neg (by simp [hclauses])]
    rfl

/-- Tags carry one delegation at most, since a second tag is refused. -/
theorem Carries.unique {tags : Tags} {d d' : Delegation} {text text' : String} (h : Carries tags d text)
    (h' : Carries tags d' text') : d' = d ∧ text' = text := by
  have hd := parseDelegation_eq_ok.mpr ⟨text, h⟩
  have hd' := parseDelegation_eq_ok.mpr ⟨text', h'⟩
  obtain ⟨tag, key, token, htag, -, htext, -⟩ := h
  obtain ⟨tag', key', token', htag', -, htext', -⟩ := h'
  rw [htag] at htag'
  obtain rfl := Option.some.inj htag'
  rw [htext] at htext'
  rw [hd] at hd'
  exact ⟨(Except.ok.inj hd').symm, (Option.some.inj htext').symm⟩

/-- Conditions are rendered as they were parsed exactly when every number of them is plain, and parsed as they were
    rendered always. The verifier accepts just the delegated events, unless an event that satisfies its conditions
    spells them in another way than they are rendered and the token is good for one of the two texts only.

    No clause has an ampersand, so conditions are their clauses (`parse_eq_ok`) and a clause changes only by its
    number. The tags carry one delegation at most (`Carries.unique`), and the verifier checks the token against the
    text rendered from it. -/
theorem delegation_kept_iff :
    (∀ s c, Conditions.parse s = .ok c → (c.render = s ↔ Conditions.Plain s)) ∧
      (∀ c : Conditions, Conditions.parse c.render = .ok c) ∧
      ∀ event : Event,
        (((∃ d, verifyEventDelegation crypto event = .ok d) ↔ Delegated crypto event) ↔
          ∀ d text, Carries event.tags d text → ¬ Conditions.Plain text →
            (∀ clause ∈ d.conditions.items, clause.holds event.kind event.createdAt = true) →
            (Signed crypto event d d.conditions.render ↔ Signed crypto event d text)) := by
  refine ⟨fun s c => Conditions.render_eq_iff, Conditions.parse_render, fun event => ?_⟩
  by_cases hcarries : ∃ d text, Carries event.tags d text
  · obtain ⟨d, text, hd⟩ := hcarries
    have haccepted : (∃ d, verifyEventDelegation crypto event = .ok d) ↔
        Signed crypto event d d.conditions.render ∧
          ∀ clause ∈ d.conditions.items, clause.holds event.kind event.createdAt = true := by
      constructor
      · rintro ⟨d', hd'⟩
        obtain ⟨⟨text', hcarried⟩, hrest⟩ := (verifyEventDelegation_eq_ok crypto).mp hd'
        obtain ⟨rfl, rfl⟩ := hd.unique hcarried
        exact hrest
      · rintro hrest
        exact ⟨d, (verifyEventDelegation_eq_ok crypto).mpr ⟨⟨text, hd⟩, hrest⟩⟩
    have hdelegated : Delegated crypto event ↔
        Signed crypto event d text ∧
          ∀ clause ∈ d.conditions.items, clause.holds event.kind event.createdAt = true := by
      constructor
      · rintro ⟨d', text', hcarried, hrest⟩
        obtain ⟨rfl, rfl⟩ := hd.unique hcarried
        exact hrest
      · rintro hrest
        exact ⟨d, text, hd, hrest⟩
    rw [haccepted, hdelegated, and_congr_left_iff]
    constructor
    · rintro h d' text' hcarried - hholds
      obtain ⟨rfl, rfl⟩ := hd.unique hcarried
      exact h hholds
    · intro h hholds
      by_cases hplain : Conditions.Plain text
      · obtain ⟨tag, key, token, -, -, -, -, -, hparse, -⟩ := hd
        rw [(Conditions.render_eq_iff hparse).mpr hplain]
      · exact h d text hd hplain hholds
  · refine iff_of_true (iff_of_false ?_ ?_) ?_
    · rintro ⟨d, hd⟩
      obtain ⟨⟨text, hcarried⟩, -⟩ := (verifyEventDelegation_eq_ok crypto).mp hd
      exact hcarries ⟨d, text, hcarried⟩
    · rintro ⟨d, text, hcarried, -⟩
      exact hcarries ⟨d, text, hcarried⟩
    · intro d text hcarried
      exact absurd ⟨d, text, hcarried⟩ hcarries

end

/-! ## A respelled kind -/

namespace Sample

open Nula.Sample

/-- The delegatee's key. -/
def daveBytes : Bytes := hexBytes "2f8bde4d1a07209355b4a7250a5c5128e88b84bddc619ab7cba8d569b240efe4"

/-- Who is delegated to. -/
def dave : PublicKey := ⟨daveBytes, by decide +kernel, by decide +kernel⟩

/-- Signed by `carol` for `dave` and the conditions `kind=1`. -/
def token : Signature :=
  ⟨hexBytes ("12f8f71955b6ea9eb861e6a1b701b5c16c0d4c0baa2221dc5c9a73c06014de72" ++
    "958843403fed82115193a572bba8ab58c7877adb47ed13fdd8d2c3d321536948"), by decide +kernel⟩

/-- A note of `dave`'s under that token, its conditions spelled `kind=01`. -/
def note : Event where
  id := ⟨hexBytes "e8fa8e9667731995130de1fea692ffffde1be8488c1e52528e21e5c6e6ce48d2", by decide +kernel⟩
  pubkey := dave
  createdAt := 1700000000
  kind := ⟨1⟩
  tags := ⟨[⟨[delegationTagKey, carol.toHex, "kind=01", token.toHex], by decide⟩]⟩
  content := "on behalf"
  sig :=
    ⟨hexBytes ("1dfca0886a52c3a702fd0e4cdc8d47d0b9dd2db4de1959d18be2fc63e23b01ff" ++
      "0435eed2c6dc1cc8b72593b8f440bcf1684575c1ea3951e8d06d246cc10f287f"), by decide +kernel⟩

/-- The digest of the token's text, with the conditions as they are rendered. -/
def kindHash : Bytes := hexBytes "16e2d5ae52531ee1d8a13cebae092536ff9a1458d5389f67d9cadaf71ea1395a"

/-- Digests of the token's text in both spellings, and a signature that is good for the first. -/
def crypto : Crypto where
  sha256 b :=
    if b = strBytes (signedText dave "kind=1") then kindHash
    else if b = strBytes (signedText dave "kind=01") then
      hexBytes "ced40636132274970f820b0cf47f3e399d827d4032fb192678f203092397a647"
    else List.replicate 32 0
  sha256_size b := by
    split
    · decide +kernel
    · split
      · decide +kernel
      · decide
  verifySchnorr sig message pubkey := sig = token ∧ message = kindHash ∧ pubkey = carol

/-- The note carries the delegation in the other spelling. -/
theorem carries_note : Carries note.tags ⟨carol, ⟨[.kind ⟨1⟩]⟩, token⟩ "kind=01" :=
  ⟨⟨[delegationTagKey, carol.toHex, "kind=01", token.toHex], by decide⟩, carol.toHex, token.toHex, rfl, rfl, rfl, rfl,
    PublicKey.parse_toHex carol, by decide +kernel, Signature.parse_toHex token⟩

end Sample

/-- **The delegation verifies, though its token signs another text**: `kind=01` is rendered `kind=1`, and the rendered
    text is what the signature is checked against. -/
theorem kind_respelled :
    (∃ c, Conditions.parse "kind=01" = .ok c ∧ c.render ≠ "kind=01") ∧
      (∃ d, verifyEventDelegation Sample.crypto Sample.note = .ok d) ∧ ¬ Delegated Sample.crypto Sample.note := by
  refine ⟨⟨⟨[.kind ⟨1⟩]⟩, by decide +kernel, by decide +kernel⟩, ?_, ?_⟩
  · refine ⟨_, (verifyEventDelegation_eq_ok _).mpr ⟨⟨_, Sample.carries_note⟩, ?_⟩⟩
    exact ⟨by decide +kernel, by decide +kernel⟩
  · rintro ⟨d, text, hcarried, hsigned, -⟩
    obtain ⟨rfl, rfl⟩ := Sample.carries_note.unique hcarried
    exact absurd hsigned (by decide +kernel)

end Nula.Nip26
