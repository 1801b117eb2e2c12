import Nula.Core.Event

/-!
# `Core.Filter` — subscription filters and the matcher

`Filter` and `Filter::match_event` of `filter.rs`. The matcher is generic over `MatchableEvent`, the
read-only projection both the owned event and the storage view implement, so one definition serves the
two backends.
-/

namespace Nula

open Std

/-- Insertion-ordered map: one entry a key. -/
structure IndexMap (κ ν : Type) where
  entries : List (κ × ν)
  nodup : (entries.map Prod.fst).Nodup

namespace IndexMap

variable {κ ν : Type} [DecidableEq κ]

def get (m : IndexMap κ ν) (k : κ) : Option ν := (m.entries.find? (fun e => e.1 = k)).map Prod.snd

def containsKey (m : IndexMap κ ν) (k : κ) : Bool := m.entries.any (fun e => e.1 = k)

def len (m : IndexMap κ ν) : Nat := m.entries.length

/-- `insert`: a present key keeps its place. -/
def insert (m : IndexMap κ ν) (k : κ) (v : ν) : IndexMap κ ν :=
  if h : k ∈ m.entries.map Prod.fst then
    { entries := m.entries.map (fun e => if e.1 = k then (k, v) else e)
      nodup := by
        have hkeys : (m.entries.map (fun e => if e.1 = k then (k, v) else e)).map Prod.fst =
            m.entries.map Prod.fst := by
          rw [List.map_map]
          refine List.map_congr_left (fun e _ => ?_)
          simp only [Function.comp_apply]
          split
          · rename_i he
            exact he.symm
          · rfl
        rw [hkeys]
        exact m.nodup }
  else
    { entries := m.entries ++ [(k, v)]
      nodup := by
        rw [List.map_append, List.nodup_append]
        refine ⟨m.nodup, List.nodup_singleton k, ?_⟩
        rintro a ha b hb rfl
        have hak : a = k := by simpa using hb
        exact h (hak ▸ ha) }

/-- A key has one entry, so looking it up finds every entry. -/
theorem get_eq_some_iff {m : IndexMap κ ν} {k : κ} {v : ν} : m.get k = some v ↔ (k, v) ∈ m.entries := by
  obtain ⟨entries, nodup⟩ := m
  simp only [get]
  induction entries with
  | nil => simp
  | cons e rest ih =>
      obtain ⟨hnew, hrest⟩ := List.nodup_cons.mp nodup
      by_cases he : e.1 = k
      · simp only [List.find?_cons, he, decide_true, Option.map_some, Option.some.injEq, List.mem_cons]
        constructor
        · rintro rfl
          exact Or.inl (Prod.ext he.symm rfl)
        · rintro (h | h)
          · exact congrArg Prod.snd h.symm
          · exact absurd (he ▸ List.mem_map_of_mem (f := Prod.fst) h) hnew
      · simp only [List.find?_cons, he, decide_false, List.mem_cons, ih hrest]
        constructor
        · exact Or.inr
        · rintro (h | h)
          · exact absurd (congrArg Prod.fst h.symm) he
          · exact h

/-- An insert replaces the entry of its key and keeps the others. -/
theorem mem_insert {m : IndexMap κ ν} {k : κ} {v : ν} {e : κ × ν} :
    e ∈ (m.insert k v).entries ↔ e = (k, v) ∨ (e.1 ≠ k ∧ e ∈ m.entries) := by
  unfold insert
  split
  · rename_i hk
    simp only [List.mem_map]
    constructor
    · rintro ⟨x, hx, rfl⟩
      by_cases hxk : x.1 = k
      · simp [hxk]
      · simp [hxk, hx]
    · rintro (rfl | ⟨hne, he⟩)
      · obtain ⟨x, hx, hxk⟩ := List.mem_map.mp hk
        exact ⟨x, hx, by simp [hxk]⟩
      · exact ⟨e, he, by simp [hne]⟩
  · rename_i hk
    simp only [List.mem_append, List.mem_singleton]
    constructor
    · rintro (he | he)
      · exact Or.inr ⟨fun hek => hk (hek ▸ List.mem_map_of_mem he), he⟩
      · exact Or.inl he
    · rintro (he | ⟨_, he⟩)
      · exact Or.inr he
      · exact Or.inl he

theorem get_insert_self (m : IndexMap κ ν) (k : κ) (v : ν) : (m.insert k v).get k = some v :=
  get_eq_some_iff.mpr (mem_insert.mpr (Or.inl rfl))

/-- An insert changes nothing under another key. -/
theorem get_insert_of_ne (m : IndexMap κ ν) {k l : κ} (v : ν) (h : l ≠ k) : (m.insert k v).get l = m.get l := by
  apply Option.ext
  intro w
  rw [get_eq_some_iff, get_eq_some_iff, mem_insert]
  simp [h]

end IndexMap

/-- `MatchEventOptions`. -/
structure MatchEventOptions where
  allowExpired : Bool
  allowFutureDates : Bool
  now : Option Timestamp

/-- `MatchEventOptions::default`: permissive, no clock. -/
def MatchEventOptions.default : MatchEventOptions := ⟨true, true, none⟩

/-- NIP-01 filter. A `usize` limit is a natural number here. -/
structure Filter where
  ids : Option (List EventId)
  authors : Option (List PublicKey)
  kinds : Option (List Kind)
  since : Option Timestamp
  «until» : Option Timestamp
  limit : Option Nat
  search : Option String
  genericTags : IndexMap SingleLetterTag (List String)

/-- The fields the matcher reads. -/
class MatchableEvent (E : Type) where
  matchableId : E → EventId
  matchablePubkeyBytes : E → Bytes
  matchableKind : E → Kind
  matchableCreatedAt : E → Timestamp
  matchableHasTag : E → SingleLetterTag → List String → Bool
  matchableExpiration : E → Option Timestamp

instance : MatchableEvent Event where
  matchableId e := e.id
  matchablePubkeyBytes e := e.pubkey.bytes
  matchableKind e := e.kind
  matchableCreatedAt e := e.createdAt
  matchableHasTag e letter values := e.tags.hasTag letter values
  matchableExpiration e := match e.expiration with
    | .ok d => d
    | .error _ => none

namespace Filter

open MatchableEvent

variable {E : Type} [MatchableEvent E]

/-- `generic_tags_match`: every constraint is met by some tag. -/
def genericTagsMatch (tags : IndexMap SingleLetterTag (List String)) (event : E) : Bool :=
  tags.entries.all (fun (letter, expected) => matchableHasTag event letter expected)

/-- `Filter::match_event`. -/
def matchEvent (f : Filter) (event : E) (opts : MatchEventOptions) : Bool :=
  (match f.ids with
    | some ids => decide (matchableId event ∈ ids)
    | none => true) &&
  (match f.authors with
    | some authors => authors.any (fun author => author.bytes = matchablePubkeyBytes event)
    | none => true) &&
  (match f.kinds with
    | some kinds => decide (matchableKind event ∈ kinds)
    | none => true) &&
  (match f.since with
    | some since => !decide (matchableCreatedAt event < since)
    | none => true) &&
  (match f.until with
    | some u => !decide (u < matchableCreatedAt event)
    | none => true) &&
  -- one value in common for each letter
  genericTagsMatch f.genericTags event &&
  -- without a clock the dates are taken as they are
  (match opts.now with
    | some now =>
        (opts.allowFutureDates || !decide (now < matchableCreatedAt event)) &&
        (opts.allowExpired || match matchableExpiration event with
          | some deadline => !decide (deadline ≤ now)
          | none => true)
    | none => true)

/-- The match every store query uses: the owned event under default options. -/
def admits (f : Filter) (event : Event) : Bool := f.matchEvent event .default

/-- An admitted event passes each constraint that is set. -/
theorem admits_iff (f : Filter) (e : Event) : f.admits e = true ↔
    (∀ ids, f.ids = some ids → e.id ∈ ids) ∧
    (∀ authors, f.authors = some authors → e.pubkey ∈ authors) ∧
    (∀ kinds, f.kinds = some kinds → e.kind ∈ kinds) ∧
    (∀ t, f.since = some t → t ≤ e.createdAt) ∧
    (∀ t, f.until = some t → e.createdAt ≤ t) ∧
    (∀ c ∈ f.genericTags.entries, e.tags.hasTag c.1 c.2 = true) := by
  have hauthors : ∀ authors : List PublicKey,
      authors.any (fun author => author.bytes = e.pubkey.bytes) = true ↔ e.pubkey ∈ authors := by
    intro authors
    rw [List.any_eq_true]
    constructor
    · rintro ⟨a, ha, hab⟩
      rw [decide_eq_true_eq] at hab
      exact PublicKey.bytes_injective hab ▸ ha
    · intro h
      exact ⟨e.pubkey, h, by simp⟩
  obtain ⟨ids, authors, kinds, since, till, limit, search, tags⟩ := f
  simp only [admits, matchEvent, MatchEventOptions.default, genericTagsMatch, matchableId,
    matchablePubkeyBytes, matchableKind, matchableCreatedAt, matchableHasTag, Bool.and_true,
    Bool.and_eq_true, List.all_eq_true]
  cases ids <;> cases authors <;> cases kinds <;> cases since <;> cases till <;>
    simp [hauthors, and_assoc]

end Filter

/-! ## Sample values

Two authors and the events the concrete cases of later modules are built from. -/

namespace Sample

/-- A public key of a client. -/
def alice : PublicKey := ⟨List.replicate 31 0 ++ [1], by decide, by decide +kernel⟩

/-- Another one. -/
def bob : PublicKey := ⟨List.replicate 31 0 ++ [2], by decide, by decide +kernel⟩

/-- An id that ends with the given byte. -/
def id (n : UInt8) : EventId := ⟨List.replicate 31 0 ++ [n], by simp⟩

/-- An event with the given tags; empty ones are dropped. -/
def event (n : UInt8) (author : PublicKey) (createdAt : Timestamp) (kind : UInt16)
    (tags : List (List String)) : Event where
  id := id n
  pubkey := author
  createdAt := createdAt
  kind := ⟨kind⟩
  tags := ⟨tags.filterMap (fun v => if h : v ≠ [] then some ⟨v, h⟩ else none)⟩
  content := ""
  sig := ⟨List.replicate 64 0, by simp⟩

/-- The filter without constraints. -/
def everything : Filter := ⟨none, none, none, none, none, none, none, ⟨[], by simp⟩⟩

end Sample

end Nula
