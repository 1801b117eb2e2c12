import Nula.Core.Nip09
import Nula.Core.Parser

/-!
# `Core.Nip27` — references in a text

NIP-27 (`nips/nip27.rs`): the scanner for `nostr:` references and the tags made of them, over the walks of `Lib.Scan`;
and how it compares with the content parser, which looks for the same with a larger class of bytes.

## Contents
- **The scanner.** `referencesFrom_eq`, that it is a walk.
- **References and tags.** `references_faithful_iff`, when every reference is found and every key has its tag.
- **Two scanners.** `scanners_agree`, when the parser finds the same.
-/

namespace Nula.Nip27

open Nip19 (Nip21 Bech32Crate)
open Nula.Parser (scheme)
open Scan (runEnd stopOf Occurs Candidate Walk Taken)

/-- A decoded reference and its bytes. -/
structure Reference where
  start : Nat
  stop : Nat
  entity : Nip21
  deriving DecidableEq

/-- `find_scheme`. -/
def findScheme (haystack : Bytes) : Option Nat :=
  (List.range (haystack.length + 1 - scheme.length)).find? (fun i => (haystack.drop i).take scheme.length = scheme)

/-- The bytes that `scan_bech32_body` takes. -/
def isBech32Byte (b : UInt8) : Bool := Parser.isAsciiLowercase b || Parser.isAsciiDigit b

/-- `scan_bech32_body`. -/
def scanBech32Body (bytes : Bytes) : Nat := (bytes.takeWhile isBech32Byte).length

section Scanner

variable (crate : Bech32Crate) (urls : UrlCrate) (content : String)

/-- `NostrUriScanner::next`: the reference, and where the cursor then is. -/
def next (cursor : Nat) : Option Reference × Nat :=
  let haystack := strBytes content
  if strLen content < cursor then (none, cursor)
  else
    match findScheme (haystack.drop cursor) with
    | none => (none, cursor)
    | some rel =>
        let start := cursor + rel
        let bodyStart := start + scheme.length
        let bodyEnd := scanBech32Body (haystack.drop bodyStart) + bodyStart
        -- a marker with nothing behind it
        if bodyEnd = bodyStart then next bodyStart
        else
          match strGet content start bodyEnd with
          | none => (none, cursor)
          | some uri =>
              match Nip21.parse crate urls uri with
              | .ok entity => (some ⟨start, bodyEnd, entity⟩, bodyEnd)
              -- what does not decode is skipped as a whole
              | .error _ => next bodyEnd
  termination_by strLen content + 1 - cursor
  decreasing_by
    all_goals
      have : 0 < scheme.length := by decide
      omega

/-- A reference moves the cursor on. By induction on the calls: an empty match moves the cursor by hand, and every
    other match is behind the cursor. -/
theorem next_lt {cursor cursor' : Nat} {r : Reference} (h : next crate urls content cursor = (some r, cursor')) :
    cursor ≤ strLen content ∧ cursor < cursor' := by
  have hscheme : 0 < scheme.length := by decide
  induction cursor using next.induct crate urls content with
  | case1 cursor hend =>
      rw [next, if_pos hend] at h
      cases h
  | case2 cursor _ hend hnone =>
      rw [next, if_neg hend, hnone] at h
      cases h
  | case3 cursor _ hend rel hsome _ _ _ hempty ih =>
      rw [next, if_neg hend, hsome] at h
      dsimp only at h
      rw [if_pos hempty] at h
      exact ⟨Nat.le_of_not_lt hend, Nat.lt_of_le_of_lt (by omega) (ih h).2⟩
  | case4 cursor _ hend rel hsome _ _ _ hbody hget =>
      rw [next, if_neg hend, hsome] at h
      dsimp only at h
      rw [if_neg hbody, hget] at h
      cases h
  | case5 cursor _ hend rel hsome _ _ _ hbody uri hget entity hparse =>
      rw [next, if_neg hend, hsome] at h
      dsimp only at h
      rw [if_neg hbody, hget] at h
      dsimp only at h
      rw [hparse] at h
      cases h
      exact ⟨Nat.le_of_not_lt hend, by omega⟩
  | case6 cursor _ hend rel hsome _ _ _ hbody uri hget _ hparse ih =>
      rw [next, if_neg hend, hsome] at h
      dsimp only at h
      rw [if_neg hbody, hget] at h
      dsimp only at h
      rw [hparse] at h
      exact ⟨Nat.le_of_not_lt hend, Nat.lt_of_le_of_lt (by omega) (ih h).2⟩

/-- The references from a position of the cursor on. -/
def referencesFrom (cursor : Nat) : List Reference :=
  match _h : next crate urls content cursor with
  | (none, _) => []
  | (some r, cursor') => r :: referencesFrom cursor'
  termination_by strLen content + 1 - cursor
  decreasing_by
    have := next_lt crate urls content _h
    omega

/-- `references_in`. -/
def referencesIn : List Reference := referencesFrom crate urls content 0

/-- What the run of a class behind a marker stands for. -/
def entityAt (p : UInt8 → Bool) (s : Nat) : Option Nip21 :=
  (strGet content s (stopOf scheme p (strBytes content) s)).bind (fun uri => (Nip21.parse crate urls uri).toOption)

/-- The reference at a marker. -/
def referenceAt (s : Nat) : Option Reference :=
  (entityAt crate urls content isBech32Byte s).map (fun entity =>
    ⟨s, stopOf scheme isBech32Byte (strBytes content) s, entity⟩)

end Scanner

/-! ## The scanner is a walk -/

section Walks

variable {crate : Bech32Crate} {urls : UrlCrate} {content : String} {cursor : Nat} {starts : List Nat}

/-- The scheme occurs where the next six bytes spell it. -/
theorem occurs_iff {l : Bytes} {s : Nat} : Occurs scheme l s ↔ (l.drop s).take scheme.length = scheme := by
  rw [Occurs, List.prefix_iff_eq_take]
  exact eq_comm

theorem occurs_lt {l : Bytes} {s : Nat} (h : Occurs scheme l s) : s < l.length := by
  have hlength := h.length_le
  rw [List.length_drop] at hlength
  have hpos : 0 < scheme.length := by decide
  omega

/-- No two occurrences overlap: the scheme has no proper beginning that is also its end. -/
theorem apart_scheme (l : Bytes) : Scan.Apart scheme l :=
  Scan.apart_of_head (a := 110) (m := strBytes "ostr:") (by decide)

/-- Where the search finds nothing, there is nothing. -/
theorem findScheme_none {l : Bytes} (h : findScheme (l.drop cursor) = none) {s : Nat} (hs : cursor ≤ s) :
    ¬Occurs scheme l s := by
  intro hoccurs
  have hlength := hoccurs.length_le
  rw [List.length_drop] at hlength
  have hpos : 0 < scheme.length := by decide
  have hmiss := List.find?_eq_none.mp h (s - cursor) (by
    rw [List.mem_range, List.length_drop]
    omega)
  rw [List.drop_drop, Nat.add_sub_cancel' hs, decide_eq_true_eq] at hmiss
  exact hmiss (occurs_iff.mp hoccurs)

theorem findScheme_some {l : Bytes} {rel : Nat} (h : findScheme (l.drop cursor) = some rel) :
    Occurs scheme l (cursor + rel) ∧ ∀ t, cursor ≤ t → t < cursor + rel → ¬Occurs scheme l t := by
  obtain ⟨hhere, -, hbefore⟩ := List.find?_range_eq_some.mp h
  rw [List.drop_drop, decide_eq_true_eq] at hhere
  refine ⟨occurs_iff.mpr hhere, fun t hct hlt hoccurs => ?_⟩
  have hmiss := hbefore (t - cursor) (by omega)
  rw [List.drop_drop, Nat.add_sub_cancel' hct, Bool.not_eq_true', decide_eq_false_iff_not] at hmiss
  exact hmiss (occurs_iff.mp hoccurs)

/-- What a body consists of is ASCII, so a body ends at a character boundary. -/
theorem ascii_isBech32Byte : Parser.Ascii isBech32Byte := by
  unfold Parser.Ascii
  decide +kernel

/-- A marker and a run of ASCII behind it are a piece of the text. -/
theorem exists_uri {p : UInt8 → Bool} (hp : Parser.Ascii p) {s : Nat} (h : Occurs scheme (strBytes content) s) :
    isCharBoundary content s = true ∧ ∃ uri, strGet content s (stopOf scheme p (strBytes content) s) = some uri := by
  have hmarker := occurs_iff.mp h
  have hpos : s < s + scheme.length := Nat.lt_add_of_pos_right (by decide)
  obtain ⟨b, hb, hascii⟩ := Parser.ascii_of_scheme hmarker (Nat.le_refl s) hpos
  have hstart := (boundary_of_ascii hb hascii).1
  have hafter : isCharBoundary content (s + scheme.length) = true :=
    Parser.boundary_of_all hpos (fun k hk hlt => Parser.ascii_of_scheme hmarker hk hlt)
  have hle : s ≤ stopOf scheme p (strBytes content) s := (Nat.le_add_right _ _).trans Scan.lt_stopOf
  obtain ⟨uri, huri, -⟩ := strGet_of_boundary hle hstart (Parser.boundary_runEnd hp hafter)
  exact ⟨hstart, uri, huri⟩

theorem referencesFrom_next : referencesFrom crate urls content cursor =
    match next crate urls content cursor with
    | (none, _) => []
    | (some r, cursor') => r :: referencesFrom crate urls content cursor' := by
  rw [referencesFrom]
  split
  · rename_i h
    rw [h]
  · rename_i h
    rw [h]

/-- What follows from one turn of the loop. -/
theorem referencesFrom_of_next {cursor' : Nat} (h : next crate urls content cursor = next crate urls content cursor') :
    referencesFrom crate urls content cursor = referencesFrom crate urls content cursor' := by
  rw [referencesFrom_next, referencesFrom_next, h]

/-- The body is scanned to where its class ends. -/
theorem scanBech32Body_add (l : Bytes) (s : Nat) :
    scanBech32Body (l.drop (s + scheme.length)) + (s + scheme.length) = stopOf scheme isBech32Byte l s :=
  Nat.add_comm _ _

/-- A marker with nothing behind it is passed over. -/
theorem next_of_bare {rel : Nat} (hend : ¬strLen content < cursor)
    (hfind : findScheme ((strBytes content).drop cursor) = some rel)
    (hempty : stopOf scheme isBech32Byte (strBytes content) (cursor + rel) = cursor + rel + scheme.length) :
    next crate urls content cursor = next crate urls content (cursor + rel + scheme.length) := by
  conv_lhs => rw [next, if_neg hend, hfind]
  dsimp only
  rw [scanBech32Body_add, if_pos hempty]

/-- What stands behind a marker is a reference or passed over. -/
theorem next_of_uri {rel : Nat} {uri : String} (hend : ¬strLen content < cursor)
    (hfind : findScheme ((strBytes content).drop cursor) = some rel)
    (hbody : stopOf scheme isBech32Byte (strBytes content) (cursor + rel) ≠ cursor + rel + scheme.length)
    (huri : strGet content (cursor + rel) (stopOf scheme isBech32Byte (strBytes content) (cursor + rel)) = some uri) :
    next crate urls content cursor =
      match Nip21.parse crate urls uri with
      | .ok entity =>
          (some ⟨cursor + rel, stopOf scheme isBech32Byte (strBytes content) (cursor + rel), entity⟩,
            stopOf scheme isBech32Byte (strBytes content) (cursor + rel))
      | .error _ => next crate urls content (stopOf scheme isBech32Byte (strBytes content) (cursor + rel)) := by
  conv_lhs => rw [next, if_neg hend, hfind]
  dsimp only
  rw [scanBech32Body_add, if_neg hbody, huri]

/-- **The scanner is a walk** over the markers with a run of lowercase letters and digits. By induction on what is
    left of the text. The scanner stops at more markers than the walk: those with nothing behind them are skipped on
    both sides. -/
theorem referencesFrom_eq (h : Walk scheme isBech32Byte (strBytes content) cursor starts) :
    referencesFrom crate urls content cursor = starts.filterMap (referenceAt crate urls content) := by
  induction hleft : strLen content + 1 - cursor using Nat.strong_induction_on generalizing cursor starts with
  | _ left ih =>
      by_cases hend : strLen content < cursor
      · have hnone : ∀ s, cursor ≤ s → ¬Candidate scheme isBech32Byte (strBytes content) s := fun s hs hcandidate =>
          absurd (hcandidate.lt_length.1.trans_le hcandidate.lt_length.2) (Nat.not_lt.mpr (hend.le.trans hs))
        cases h with
        | done _ => rw [referencesFrom_next, next, if_pos hend, List.filterMap_nil]
        | next hcs hcandidate _ _ => exact absurd hcandidate (hnone _ hcs)
      cases hfind : findScheme ((strBytes content).drop cursor) with
      | none =>
          -- no marker, so no candidate
          cases h with
          | done _ => rw [referencesFrom_next, next, if_neg hend, hfind, List.filterMap_nil]
          | next hcs hcandidate _ _ => exact absurd hcandidate.1 (findScheme_none hfind hcs)
      | some rel =>
          obtain ⟨hoccurs, hbefore⟩ := findScheme_some hfind
          have hpos : 0 < scheme.length := by decide
          by_cases hempty : stopOf scheme isBech32Byte (strBytes content) (cursor + rel) = cursor + rel + scheme.length
          -- the walk does not see a marker with nothing behind it
          · have hskip := h.skip_bare (apart_scheme _) (Nat.le_add_right _ _) hoccurs hbefore hempty
            rw [referencesFrom_of_next (next_of_bare hend hfind hempty)]
            exact ih _ (by omega) hskip rfl
          · have hcandidate : Candidate scheme isBech32Byte (strBytes content) (cursor + rel) :=
              ⟨hoccurs, Nat.lt_of_le_of_ne Scan.lt_stopOf (Ne.symm hempty)⟩
            obtain ⟨rest, rfl, hrest⟩ := h.uncons (Nat.le_add_right _ _) hcandidate
              (fun t hct hlt hcandidate' => hbefore t hct hlt hcandidate'.1)
            obtain ⟨-, uri, huri⟩ := exists_uri ascii_isBech32Byte hoccurs
            have hturn : next crate urls content cursor = _ := next_of_uri hend hfind hempty huri
            have hstop := hcandidate.lt_length.1
            have hih := ih _ (by omega) hrest rfl
            cases hparse : Nip21.parse crate urls uri with
            | ok entity =>
                have hfound : referenceAt crate urls content (cursor + rel) =
                    some ⟨cursor + rel, stopOf scheme isBech32Byte (strBytes content) (cursor + rel), entity⟩ := by
                  rw [referenceAt, entityAt, huri, Option.bind_some, hparse]
                  rfl
                rw [hparse] at hturn
                rw [referencesFrom_next, hturn, List.filterMap_cons_some hfound, ← hih]
            | error e =>
                have hfound : referenceAt crate urls content (cursor + rel) = none := by
                  rw [referenceAt, entityAt, huri, Option.bind_some, hparse]
                  rfl
                rw [hparse] at hturn
                rw [referencesFrom_of_next hturn, List.filterMap_cons_none hfound, hih]

end Walks

/-! ## References -/

section References

variable (crate : Bech32Crate) (urls : UrlCrate) (content : String)

/-- A reference that the text spells: a marker, the lowercase letters and digits behind it, and what they decode to. -/
structure Spelled (r : Reference) : Prop where
  marker : Occurs scheme (strBytes content) r.start
  stop : r.stop = stopOf scheme isBech32Byte (strBytes content) r.start
  decodes : entityAt crate urls content isBech32Byte r.start = some r.entity

/-- Every reference that the text spells is found, from left to right and without overlap. -/
structure Complete : Prop where
  ordered : (referencesIn crate urls content).Pairwise (fun r r' => r.stop ≤ r'.start)
  all : ∀ r, r ∈ referencesIn crate urls content ↔ Spelled crate urls content r

variable {crate urls content}

/-- A reference starts at the scheme, ends where its body does, and is what the body decodes to. -/
theorem referenceAt_eq_some {s : Nat} {r : Reference} : referenceAt crate urls content s = some r ↔
    r.start = s ∧ r.stop = stopOf scheme isBech32Byte (strBytes content) s ∧
      entityAt crate urls content isBech32Byte s = some r.entity := by
  rw [referenceAt, Option.map_eq_some_iff]
  constructor
  · rintro ⟨entity, hentity, rfl⟩
    exact ⟨rfl, rfl, hentity⟩
  · rintro ⟨rfl, hstop, hentity⟩
    exact ⟨r.entity, hentity, by rw [← hstop]⟩

theorem stripScheme_bare {uri : String} (h : strLen uri = scheme.length) : Nip19.stripScheme uri = none := by
  rw [Nip19.stripScheme]
  split
  · rename_i hmarker
    obtain ⟨rest, hrest⟩ := List.isPrefixOf_iff_prefix.mp hmarker
    have hsame : uri = Nip19.schemePrefix ++ String.ofList rest := by
      rw [← String.toList_inj, String.toList_append, String.toList_ofList, hrest]
    have hempty : String.ofList rest = "" := by
      rw [hsame, strLen_append] at h
      have hscheme : strLen Nip19.schemePrefix = scheme.length := rfl
      exact eq_empty_of_strLen (by omega)
    rw [← hrest, List.drop_left, hempty, if_pos rfl]
  · rfl

/-- Nothing behind a marker decodes to nothing. -/
theorem entityAt_bare {p : UInt8 → Bool} {s : Nat}
    (h : stopOf scheme p (strBytes content) s = s + scheme.length) : entityAt crate urls content p s = none := by
  rw [entityAt, h]
  cases hget : strGet content s (s + scheme.length) with
  | none => rfl
  | some uri =>
      obtain ⟨pre, post, -, hpre, hall⟩ := strGet_eq_some_iff.mp hget
      rw [strLen_append, hpre] at hall
      rw [Option.bind_some, Nip21.parse, stripScheme_bare (Nat.add_left_cancel hall)]
      rfl

/-- A spelled reference is where the scheme occurs with a body behind it. -/
theorem Spelled.candidate {r : Reference} (h : Spelled crate urls content r) :
    Candidate scheme isBech32Byte (strBytes content) r.start := by
  refine ⟨h.marker, Nat.lt_of_le_of_ne Scan.lt_stopOf (fun hbare => ?_)⟩
  have hdecodes := h.decodes
  rw [entityAt_bare hbare.symm] at hdecodes
  cases hdecodes

/-- **What the scanner finds**: of what the text spells, what starts in no run that it takes. -/
theorem mem_referencesIn {r : Reference} : r ∈ referencesIn crate urls content ↔
    Taken scheme isBech32Byte (strBytes content) r.start ∧ Spelled crate urls content r := by
  obtain ⟨starts, hwalk⟩ := Scan.exists_walk scheme isBech32Byte (strBytes content) 0
  rw [referencesIn, referencesFrom_eq hwalk, List.mem_filterMap]
  constructor
  · rintro ⟨s, hs, hfound⟩
    obtain ⟨rfl, hstop, hentity⟩ := referenceAt_eq_some.mp hfound
    have htaken := (hwalk.mem_iff_taken _).mp hs
    exact ⟨htaken, (Scan.taken_iff.mp htaken).1.1, hstop, hentity⟩
  · rintro ⟨htaken, hspelled⟩
    exact ⟨r.start, (hwalk.mem_iff_taken _).mpr htaken, referenceAt_eq_some.mpr ⟨rfl, hspelled.stop, hspelled.decodes⟩⟩

/-- References do not overlap, since the scan goes on behind each. -/
theorem referencesIn_ordered : (referencesIn crate urls content).Pairwise (fun r r' => r.stop ≤ r'.start) := by
  obtain ⟨starts, hwalk⟩ := Scan.exists_walk scheme isBech32Byte (strBytes content) 0
  rw [referencesIn, referencesFrom_eq hwalk, List.pairwise_filterMap]
  refine hwalk.pairwise.imp (fun hle r hr r' hr' => ?_)
  obtain ⟨-, hstop, -⟩ := referenceAt_eq_some.mp hr
  obtain ⟨hstart, -, -⟩ := referenceAt_eq_some.mp hr'
  rw [hstop, hstart]
  exact hle

/-- **When every reference is found**: when each that is spelled in the content is where the scan takes up a scheme,
    and not within what it has skipped. -/
theorem complete_iff : Complete crate urls content ↔
    ∀ r, Spelled crate urls content r → Taken scheme isBech32Byte (strBytes content) r.start := by
  constructor
  · exact fun h r hspelled => (mem_referencesIn.mp ((h.all r).mpr hspelled)).1
  · exact fun h => ⟨referencesIn_ordered, fun r =>
      ⟨fun hr => (mem_referencesIn.mp hr).2, fun hspelled => mem_referencesIn.mpr ⟨h r hspelled, hspelled⟩⟩⟩

end References

/-! ## Tags -/

/-- `make_tag`. -/
def makeTag (letter : Alphabet) (args : List String) : Tag := .withArgs (.singleLetter (.lowercase letter)) args

/-- `entity_to_tags`. -/
def entityToTags : Nip21 → List Tag
  | .pubkey pk => [.p pk]
  | .profile p => [makeTag .P (p.publicKey.toHex :: (p.relays.head?.map RelayUrl.asStr).toList)]
  | .eventId id => [makeTag .Q [id.toHex]]
  | .event e =>
      [makeTag .Q (e.eventId.toHex :: (e.relays.head?.map RelayUrl.asStr).getD "" ::
        (e.author.map PublicKey.toHex).toList)]
  | .coordinate c => [makeTag .Q (c.coordinate.toWire :: (c.relays.head?.map RelayUrl.asStr).toList)]

/-- `out`, and the values of its tags in `seen`. -/
structure Seen where
  seen : List (List String)
  out : List Tag

/-- A tag whose values have been seen is left out. -/
def Seen.insert (acc : Seen) (tag : Tag) : Seen :=
  if tag.values ∈ acc.seen then acc else ⟨tag.values :: acc.seen, acc.out ++ [tag]⟩

/-- `tags_from_content`. -/
def tagsFromContent (crate : Bech32Crate) (urls : UrlCrate) (content : String) : List Tag :=
  ((referencesIn crate urls content).foldl (fun acc r => (entityToTags r.entity).foldl Seen.insert acc) ⟨[], []⟩).out

/-- The key that an npub or an nprofile mentions. -/
def keyOf : Nip21 → Option PublicKey
  | .pubkey pk => some pk
  | .profile p => some p.publicKey
  | _ => none

/-- The relay that a mention hints at. -/
def hintOf : Nip21 → Option String
  | .profile p => p.relays.head?.map RelayUrl.asStr
  | _ => none

/-- A `p` tag for a key. -/
def isPTag (pk : PublicKey) (tag : Tag) : Bool := tag.name = "p" ∧ tag.content = some pk.toHex

section Tags

variable {crate : Bech32Crate} {urls : UrlCrate} {content : String} {pk : PublicKey} {tag : Tag} {entity : Nip21}

/-- Between two tags: what is out is what has been seen, once. -/
structure Seen.Good (acc : Seen) : Prop where
  seen : ∀ tag : Tag, tag.values ∈ acc.seen ↔ tag ∈ acc.out
  nodup : acc.out.Nodup

/-- An insert adds a tag that was not there, and leaves the others. -/
theorem Seen.Good.insert {acc : Seen} (good : acc.Good) (tag : Tag) :
    (acc.insert tag).Good ∧ ∀ tag', tag' ∈ (acc.insert tag).out ↔ tag' ∈ acc.out ∨ tag' = tag := by
  rw [Seen.insert]
  split
  · rename_i hseen
    have hin := (good.seen tag).mp hseen
    exact ⟨good, fun tag' => (or_iff_left_of_imp (fun hsame => hsame ▸ hin)).symm⟩
  · rename_i hnew
    refine ⟨⟨fun tag' => ?_, ?_⟩, fun tag' => ?_⟩
    · rw [List.mem_cons, List.mem_append, List.mem_singleton, good.seen, or_comm]
      exact or_congr_right ⟨fun h => Tag.values_injective h, fun hsame => hsame ▸ rfl⟩
    · refine List.nodup_append.mpr ⟨good.nodup, List.nodup_singleton _, fun a ha b hb => ?_⟩
      rw [List.mem_singleton.mp hb]
      rintro rfl
      exact hnew ((good.seen a).mpr ha)
    · rw [List.mem_append, List.mem_singleton]

theorem Seen.Good.foldl {acc : Seen} (good : acc.Good) (tags : List Tag) :
    (tags.foldl Seen.insert acc).Good ∧ ∀ tag, tag ∈ (tags.foldl Seen.insert acc).out ↔ tag ∈ acc.out ∨ tag ∈ tags := by
  induction tags generalizing acc with
  | nil => exact ⟨good, fun tag => (or_iff_left List.not_mem_nil).symm⟩
  | cons tag tags ih =>
      obtain ⟨hgood, hmem⟩ := good.insert tag
      obtain ⟨hgood', hmem'⟩ := ih hgood
      refine ⟨hgood', fun tag' => ?_⟩
      rw [List.foldl_cons, hmem', hmem, List.mem_cons, or_assoc]

/-- **The tags of a content**: those of its references, each once. -/
theorem tagsFromContent_spec : (tagsFromContent crate urls content).Nodup ∧
    ∀ tag, tag ∈ tagsFromContent crate urls content ↔
      ∃ r ∈ referencesIn crate urls content, tag ∈ entityToTags r.entity := by
  have hempty : (⟨[], []⟩ : Seen).Good := ⟨fun _ => iff_of_false List.not_mem_nil List.not_mem_nil, List.nodup_nil⟩
  obtain ⟨hgood, hmem⟩ := hempty.foldl ((referencesIn crate urls content).flatMap (fun r => entityToTags r.entity))
  rw [tagsFromContent, ← List.foldl_flatMap]
  refine ⟨hgood.nodup, fun tag => ?_⟩
  rw [hmem, or_iff_right List.not_mem_nil, List.mem_flatMap]

/-- A mention makes one `p` tag, with its hint. -/
theorem entityToTags_of_key (h : keyOf entity = some pk) :
    entityToTags entity = [makeTag .P (pk.toHex :: (hintOf entity).toList)] := by
  cases entity with
  | pubkey pk' =>
      obtain rfl := Option.some.inj h
      rfl
  | profile p =>
      obtain rfl := Option.some.inj h
      rfl
  | eventId _ => cases h
  | event _ => cases h
  | coordinate _ => cases h

/-- Only mentions make `p` tags. -/
theorem key_of_pTag (h : tag ∈ entityToTags entity) (hp : tag.name = "p") : ∃ pk, keyOf entity = some pk := by
  have hq : ∀ args, (makeTag .Q args).name ≠ "p" := fun args => (by decide : "q" ≠ "p")
  cases entity with
  | pubkey pk => exact ⟨pk, rfl⟩
  | profile p => exact ⟨p.publicKey, rfl⟩
  | eventId _ => exact absurd hp (List.mem_singleton.mp h ▸ hq _)
  | event _ => exact absurd hp (List.mem_singleton.mp h ▸ hq _)
  | coordinate _ => exact absurd hp (List.mem_singleton.mp h ▸ hq _)

theorem isPTag_makeTag (pk : PublicKey) (args : List String) : isPTag pk (makeTag .P (pk.toHex :: args)) = true :=
  decide_eq_true ⟨rfl, rfl⟩

/-- Tags of one letter are told apart by their values. -/
theorem makeTag_inj {letter : Alphabet} {args args' : List String} (h : makeTag letter args = makeTag letter args') :
    args = args' :=
  (List.cons.inj (congrArg Tag.values h)).2

/-- The `p` tags of a key come from the references to it, with the hints these have. -/
theorem mem_pTags : tag ∈ (tagsFromContent crate urls content).filter (isPTag pk) ↔
    ∃ r ∈ referencesIn crate urls content, keyOf r.entity = some pk ∧
      tag = makeTag .P (pk.toHex :: (hintOf r.entity).toList) := by
  rw [List.mem_filter, tagsFromContent_spec.2]
  constructor
  · rintro ⟨⟨r, hr, htag⟩, hp⟩
    obtain ⟨hname, hcontent⟩ := of_decide_eq_true hp
    obtain ⟨pk', hkey⟩ := key_of_pTag htag hname
    rw [entityToTags_of_key hkey, List.mem_singleton] at htag
    subst htag
    obtain rfl : pk' = pk := PublicKey.toHex_injective (Option.some.inj hcontent)
    exact ⟨r, hr, hkey, rfl⟩
  · rintro ⟨r, hr, hkey, rfl⟩
    exact ⟨⟨r, hr, by rw [entityToTags_of_key hkey, List.mem_singleton]⟩, isPTag_makeTag pk _⟩

/-- A key that is mentioned has one tag when its mentions hint at one relay. -/
theorem one_pTag_iff (hmentioned : ∃ r ∈ referencesIn crate urls content, keyOf r.entity = some pk) :
    ((tagsFromContent crate urls content).filter (isPTag pk)).length = 1 ↔
      ∀ r ∈ referencesIn crate urls content, ∀ r' ∈ referencesIn crate urls content, keyOf r.entity = some pk →
        keyOf r'.entity = some pk → hintOf r.entity = hintOf r'.entity := by
  constructor
  -- two mentions with different hints make two tags that are not equal
  · intro hone r hr r' hr' hkey hkey'
    obtain ⟨tag, hall⟩ := List.length_eq_one_iff.mp hone
    have htag := mem_pTags.mpr ⟨r, hr, hkey, rfl⟩
    have htag' := mem_pTags.mpr ⟨r', hr', hkey', rfl⟩
    rw [hall, List.mem_singleton] at htag htag'
    have hargs := (List.cons.inj (makeTag_inj (htag.trans htag'.symm))).2
    rw [← Option.head?_toList (o := hintOf r.entity), hargs, Option.head?_toList]
  · intro hagree
    obtain ⟨r, hr, hkey⟩ := hmentioned
    have hin := mem_pTags.mpr ⟨r, hr, hkey, rfl⟩
    have hsame : ∀ tag ∈ (tagsFromContent crate urls content).filter (isPTag pk),
        tag = makeTag .P (pk.toHex :: (hintOf r.entity).toList) := by
      intro tag htag
      obtain ⟨r', hr', hkey', rfl⟩ := mem_pTags.mp htag
      rw [hagree r hr r' hr' hkey hkey']
    have hnodup : ((tagsFromContent crate urls content).filter (isPTag pk)).Nodup := tagsFromContent_spec.1.filter _
    rw [List.eq_replicate_of_mem hsame, List.nodup_replicate] at hnodup
    exact Nat.le_antisymm hnodup (List.length_pos_of_mem hin)

end Tags

/-- Every key that the text mentions has exactly one `p` tag, and no other key has one. -/
structure Faithful (crate : Bech32Crate) (urls : UrlCrate) (content : String) : Prop where
  one : ∀ r pk, Spelled crate urls content r → keyOf r.entity = some pk →
    ((tagsFromContent crate urls content).filter (isPTag pk)).length = 1
  only : ∀ tag ∈ tagsFromContent crate urls content, tag.name = "p" →
    ∃ r pk, Spelled crate urls content r ∧ keyOf r.entity = some pk ∧ tag.content = some pk.toHex

/-- Two mentions of one key hint at the same relay. -/
def HintsAgree (crate : Bech32Crate) (urls : UrlCrate) (content : String) : Prop :=
  ∀ r r' pk, Spelled crate urls content r → Spelled crate urls content r' → keyOf r.entity = some pk →
    keyOf r'.entity = some pk → hintOf r.entity = hintOf r'.entity

section Faithfulness

variable {crate : Bech32Crate} {urls : UrlCrate} {content : String}

/-- Where every reference is found, the tags are faithful when the hints agree. -/
theorem faithful_iff (hcomplete : Complete crate urls content) :
    Faithful crate urls content ↔ HintsAgree crate urls content := by
  constructor
  · intro hfaithful r r' pk hr hr' hkey hkey'
    have hmentioned := (hcomplete.all r).mpr hr
    exact (one_pTag_iff ⟨r, hmentioned, hkey⟩).mp (hfaithful.one r pk hr hkey) r hmentioned r'
      ((hcomplete.all r').mpr hr') hkey hkey'
  · refine fun hagree => ⟨fun r pk hr hkey => ?_, fun tag htag hp => ?_⟩
    · refine (one_pTag_iff ⟨r, (hcomplete.all r).mpr hr, hkey⟩).mpr (fun r hr r' hr' hkey hkey' => ?_)
      exact hagree r r' pk ((hcomplete.all r).mp hr) ((hcomplete.all r').mp hr') hkey hkey'
    · obtain ⟨r, hr, hin⟩ := (tagsFromContent_spec.2 tag).mp htag
      obtain ⟨pk, hkey⟩ := key_of_pTag hin hp
      rw [entityToTags_of_key hkey, List.mem_singleton] at hin
      exact ⟨r, pk, (hcomplete.all r).mp hr, hkey, hin ▸ rfl⟩

/-- **When the references are complete and the tags faithful**: no reference starts in a run that the scanner takes
before it, and the mentions of a key hint at one relay.

Completeness is a matter of where the scan takes up a scheme (`complete_iff`), and the tags are those of the
references, each once (`tagsFromContent_spec`). -/
theorem references_faithful_iff (crate : Bech32Crate) (urls : UrlCrate) (content : String) :
    Complete crate urls content ∧ Faithful crate urls content ↔
      (∀ r, Spelled crate urls content r → Taken scheme isBech32Byte (strBytes content) r.start) ∧
        HintsAgree crate urls content := by
  rw [← complete_iff]
  exact and_congr_right faithful_iff

end Faithfulness

namespace Sample

/-- A marker inside the run of another. -/
def nested : String := "nostr:xnostr:" ++ Nip19.Sample.npub

theorem nested_spelled : Spelled Nip19.Sample.bech32 Nip19.Sample.urls nested ⟨7, 76, .pubkey Nula.Sample.carol⟩ where
  marker := occurs_iff.mpr (by decide)
  stop := by decide
  decodes := by decide +kernel

end Sample

/-- Its reference is not found. -/
theorem nested_lost : ¬(Complete Nip19.Sample.bech32 Nip19.Sample.urls Sample.nested ∧
    Faithful Nip19.Sample.bech32 Nip19.Sample.urls Sample.nested) := by
  rintro ⟨hcomplete, -⟩
  have htaken := complete_iff.mp hcomplete _ Sample.nested_spelled
  have hfirst : Taken scheme isBech32Byte (strBytes Sample.nested) 0 :=
    Scan.taken_iff.mpr ⟨⟨occurs_iff.mpr (by decide +kernel), by decide +kernel⟩,
      fun t ht => absurd ht (Nat.not_lt_zero t)⟩
  have hover := (Scan.taken_iff.mp htaken).2 0 (by decide) hfirst
  exact absurd hover (by decide +kernel)

/-! ## Two scanners -/

/-- Only `nostr:` references. -/
def onlyNostr : Parser.NostrParserOptions := ⟨true, false, false, false⟩

/-- The entities of the tokens, in order. -/
def entitiesOf (pieces : List Parser.Piece) : List Nip21 :=
  pieces.filterMap (fun piece => match piece.token with
    | .nostr entity => some entity
    | _ => none)

/-- The parser finds the references that the scanner finds. -/
def Agree (crates : Parser.Crates) (content : String) : Prop :=
  ∀ pieces, Parser.Run crates content onlyNostr Parser.start pieces →
    entitiesOf pieces = (referencesIn crates.bech32 crates.urls content).map Reference.entity

/-- Where the parser goes further than the scanner, the two runs decode to the same, and no reference of the scanner
starts in what the parser takes on top. -/
def OverrunHarmless (crates : Parser.Crates) (content : String) (s : Nat) : Prop :=
  Scan.Harmless scheme isBech32Byte (Parser.isBodyByte crates) (strBytes content)
    (entityAt crates.bech32 crates.urls content isBech32Byte)
    (entityAt crates.bech32 crates.urls content (Parser.isBodyByte crates)) s

/-- The run of one reference holds no other, and no two spell one entity, whichever class delimits them. -/
structure Plain (crates : Parser.Crates) (content : String) : Prop where
  separate : Scan.Separate scheme (Parser.isBodyByte crates) (strBytes content)
  distinct : Scan.Distinct scheme (strBytes content) (entityAt crates.bech32 crates.urls content isBech32Byte)
    (entityAt crates.bech32 crates.urls content (Parser.isBodyByte crates))

section TwoScanners

variable {crates : Parser.Crates} {content : String} {s : Parser.State} {pieces : List Parser.Piece} {i : Nat}
  {mat : Parser.Match}

/-- The parser takes what the scanner takes, and the capitals of the alphabet. -/
theorem isBodyByte_of_isBech32Byte (laws : crates.Lawful) (b : UInt8) (h : isBech32Byte b = true) :
    Parser.isBodyByte crates b = true := by
  have hdigit : ∀ b : UInt8, Parser.isAsciiDigit b = true → b = 49 ∨
      (Parser.asChar b).toLower ∈ Parser.bech32Alphabet := by
    decide +kernel
  simp only [isBech32Byte, Parser.isBodyByte, Bool.or_eq_true, decide_eq_true_eq] at h ⊢
  rcases h with h | h
  · exact Or.inl (Or.inl h)
  · rcases hdigit b h with hone | halphabet
    · exact Or.inl (Or.inr hone)
    · exact Or.inr ((laws _).mpr halphabet)

theorem tryAt_onlyNostr : Parser.tryAt crates content onlyNostr i = Parser.tryNostrUri crates content i := by
  simp [Parser.tryAt, onlyNostr]

/-- What the parser takes for a reference: the scheme, and what its own class goes on for. -/
theorem tryNostrUri_eq : Parser.tryNostrUri crates content i =
    if ((strBytes content).drop i).take scheme.length ≠ scheme then none
    else if stopOf scheme (Parser.isBodyByte crates) (strBytes content) i = i + scheme.length then none
    else some ⟨.nostrUri, i, stopOf scheme (Parser.isBodyByte crates) (strBytes content) i⟩ := rfl

/-- The parser finds a match at a marker with a run behind it. -/
theorem tryAt_eq_some : Parser.tryAt crates content onlyNostr i = some mat ↔
    Candidate scheme (Parser.isBodyByte crates) (strBytes content) i ∧
      mat = ⟨.nostrUri, i, stopOf scheme (Parser.isBodyByte crates) (strBytes content) i⟩ := by
  rw [tryAt_onlyNostr, tryNostrUri_eq, Candidate, occurs_iff]
  by_cases hmarker : ((strBytes content).drop i).take scheme.length = scheme
  · rw [if_neg (not_not.mpr hmarker)]
    by_cases hbare : stopOf scheme (Parser.isBodyByte crates) (strBytes content) i = i + scheme.length
    · rw [if_pos hbare]
      exact iff_of_false nofun (fun h => Nat.lt_irrefl _ (h.1.2.trans_le hbare.le))
    · rw [if_neg hbare, Option.some_inj]
      exact ⟨fun h => ⟨⟨hmarker, Nat.lt_of_le_of_ne Scan.lt_stopOf (Ne.symm hbare)⟩, h.symm⟩, fun h => h.2.symm⟩
  · rw [if_pos hmarker]
    exact iff_of_false nofun (fun h => hmarker h.1.1)

/-- Where the parser finds nothing there is no marker with a run behind it. -/
theorem not_candidate_of_quiet {j : Nat} (laws : crates.Lawful) (h : Parser.Quiet crates content onlyNostr i j)
    (k : Nat) (hik : i ≤ k) (hkj : k < j) : ¬Candidate scheme (Parser.isBodyByte crates) (strBytes content) k := by
  intro hcandidate
  have hnone := h k hik hkj (exists_uri (Parser.ascii_isBodyByte laws) hcandidate.1).1
  rw [tryAt_eq_some.mpr ⟨hcandidate, rfl⟩] at hnone
  cases hnone

theorem token_of_match : (match Parser.materialise crates content
      ⟨.nostrUri, i, stopOf scheme (Parser.isBodyByte crates) (strBytes content) i⟩ with
    | .nostr entity => some entity
    | _ => none) = entityAt crates.bech32 crates.urls content (Parser.isBodyByte crates) i := by
  rw [Parser.materialise, entityAt]
  cases strGet content i (stopOf scheme (Parser.isBodyByte crates) (strBytes content) i) with
  | none => rfl
  | some uri =>
      dsimp only
      rw [Option.bind_some]
      cases Nip21.parse crates.bech32 crates.urls uri <;> rfl

/-- **The parser is a walk** with its own class of bytes. -/
theorem run_walk (laws : crates.Lawful) (good : Parser.Good crates content onlyNostr s)
    (h : Parser.Run crates content onlyNostr s pieces) :
    ∃ starts, Walk scheme (Parser.isBodyByte crates) (strBytes content) s.pos starts ∧
      entitiesOf pieces =
        starts.filterMap (entityAt crates.bech32 crates.urls content (Parser.isBodyByte crates)) := by
  induction h with
  | done hnext =>
      cases Parser.call_of_next laws good hnext with
      | finished _ hend =>
          refine ⟨[], .done (fun t ht hcandidate => ?_), rfl⟩
          obtain ⟨hlt, hle⟩ := hcandidate.lt_length
          exact absurd (hlt.trans_le hle) (Nat.not_lt.mpr (hend.trans ht))
  | more hnext _ ih =>
      have hcall := Parser.call_of_next laws good hnext
      obtain ⟨hgood, -⟩ := hcall.good laws
      obtain ⟨starts, hwalk, hentities⟩ := ih hgood
      cases hcall with
      | found _ hfound =>
          obtain ⟨hcandidate, rfl⟩ := tryAt_eq_some.mp hfound
          refine ⟨_ :: starts, .next (Nat.le_refl _) hcandidate
            (fun t hct hlt => absurd hlt (Nat.not_lt.mpr hct)) hwalk, ?_⟩
          rw [entitiesOf, List.filterMap_cons, token_of_match, List.filterMap_cons, ← hentities]
          rfl
      -- the parser has passed no candidate over
      | gap hlt _ hquiet _ => exact ⟨starts, hwalk.extend hlt.le (not_candidate_of_quiet laws hquiet), hentities⟩
      | rest hlt hquiet _ => exact ⟨starts, hwalk.extend hlt.le (not_candidate_of_quiet laws hquiet), hentities⟩

/-- The scan's entities, as those at the places where it takes up a scheme. -/
theorem entities_referencesIn {starts : List Nat} (h : Walk scheme isBech32Byte (strBytes content) 0 starts) :
    (referencesIn crates.bech32 crates.urls content).map Reference.entity =
      starts.filterMap (entityAt crates.bech32 crates.urls content isBech32Byte) := by
  rw [referencesIn, referencesFrom_eq h, List.map_filterMap]
  refine List.filterMap_congr (fun s _ => ?_)
  rw [referenceAt, Option.map_map]
  exact Option.map_id_apply ..

/-- Runs that end together decode alike. -/
theorem entityAt_congr {p q : UInt8 → Bool} {t : Nat}
    (h : stopOf scheme p (strBytes content) t = stopOf scheme q (strBytes content) t) :
    entityAt crates.bech32 crates.urls content p t = entityAt crates.bech32 crates.urls content q t := by
  rw [entityAt, entityAt, h]

end TwoScanners

/-- **When the two scanners agree**: where no run of the parser that goes on past the scanner's does harm. Where one
reference cannot stand in for another they agree only then.

Both scanners walk the places where the scheme occurs and skip the runs they have taken (`Scan.Walk`), with two
classes of bytes of which one contains the other. Where no overrun does harm the walks meet at the same entities
(`Walk.agree`); where no two references look alike the lists can only agree so (`harmless_of_agree`). -/
theorem scanners_agree {crates : Parser.Crates} (laws : crates.Lawful) (content : String) :
    ((∀ s, Taken scheme (Parser.isBodyByte crates) (strBytes content) s → OverrunHarmless crates content s) →
      Agree crates content) ∧
    (Plain crates content → Agree crates content →
      ∀ s, Taken scheme (Parser.isBodyByte crates) (strBytes content) s → OverrunHarmless crates content s) := by
  obtain ⟨starts, hwalk⟩ := Scan.exists_walk scheme isBech32Byte (strBytes content) 0
  constructor
  · intro hharmless pieces hrun
    obtain ⟨starts', hwalk', hentities⟩ := run_walk laws Parser.good_start hrun
    rw [hentities, entities_referencesIn hwalk]
    exact (Scan.Walk.agree (isBodyByte_of_isBech32Byte laws) (apart_scheme _) (fun _ => entityAt_congr)
      (fun _ => entityAt_bare) hwalk hwalk' hharmless).symm
  · intro hplain hagree s hs
    obtain ⟨pieces, hrun⟩ := Parser.exists_run laws Parser.good_start
    obtain ⟨starts', hwalk', hentities⟩ := run_walk laws Parser.good_start hrun
    have hsame := hagree pieces hrun
    rw [hentities, entities_referencesIn hwalk] at hsame
    exact hwalk.harmless_of_agree (isBodyByte_of_isBech32Byte laws) (fun _ => entityAt_bare) hwalk' hplain.separate
      hplain.distinct hsame.symm (Scan.taken_iff.mp hs).1

namespace Sample

/-- A greeting with a reference at its end. -/
def greeting : String := "gm nostr:" ++ Nip19.Sample.npub

/-- A reference with a capital right behind it. -/
def capital : String := "nostr:" ++ Nip19.Sample.npub ++ "A"

/-- Each has one marker. -/
theorem markers : (∀ s, s < (strBytes greeting).length →
      ((strBytes greeting).drop s).take scheme.length = scheme → s = 3) ∧
    ∀ s, s < (strBytes capital).length → ((strBytes capital).drop s).take scheme.length = scheme → s = 0 := by
  decide

theorem greeting_marker : ∀ s, s < (strBytes greeting).length →
    ((strBytes greeting).drop s).take scheme.length = scheme → s = 3 := markers.1

theorem greeting_occurs {s : Nat} (h : Occurs scheme (strBytes greeting) s) : s = 3 :=
  greeting_marker s (occurs_lt h) (occurs_iff.mp h)

theorem greeting_plain : Plain Parser.Sample.crates greeting where
  separate _ _ hs ht hst := absurd ((greeting_occurs hs).trans (greeting_occurs ht).symm) (Nat.ne_of_lt hst)
  distinct _ _ _ hs ht _ _ := (greeting_occurs hs).trans (greeting_occurs ht).symm

theorem greeting_harmless (s : Nat) (hs : Taken scheme (Parser.isBodyByte Parser.Sample.crates) (strBytes greeting) s) :
    OverrunHarmless Parser.Sample.crates greeting s := by
  intro hoverrun
  rw [greeting_occurs (Scan.taken_iff.mp hs).1.1] at hoverrun
  exact absurd (by decide) hoverrun

/-- The content has one scheme, at its beginning. -/
theorem capital_marker : ∀ s, s < (strBytes capital).length →
    ((strBytes capital).drop s).take scheme.length = scheme → s = 0 := markers.2

theorem capital_spelled :
    Spelled Parser.Sample.crates.bech32 Parser.Sample.crates.urls capital ⟨0, 69, .pubkey Nula.Sample.carol⟩ where
  marker := occurs_iff.mpr (by decide)
  stop := by decide
  decodes := by decide +kernel

/-- The parser takes the capital, and what it has then does not decode. -/
theorem capital_undecoded : entityAt Parser.Sample.crates.bech32 Parser.Sample.crates.urls capital
    (Parser.isBodyByte Parser.Sample.crates) 0 = none := by
  decide

end Sample

theorem scanners_agree_greeting :
    Agree Parser.Sample.crates Sample.greeting ∧ Plain Parser.Sample.crates Sample.greeting :=
  ⟨(scanners_agree Parser.Sample.crates_lawful Sample.greeting).1 Sample.greeting_harmless, Sample.greeting_plain⟩

/-- The scanner has the reference, the parser has only text. -/
theorem capital_disagrees : ¬Agree Parser.Sample.crates Sample.capital := by
  intro hagree
  obtain ⟨pieces, hrun⟩ := Parser.exists_run Parser.Sample.crates_lawful Parser.good_start
  obtain ⟨starts, hwalk, hentities⟩ := run_walk Parser.Sample.crates_lawful Parser.good_start hrun
  have htaken : Taken scheme isBech32Byte (strBytes Sample.capital) 0 :=
    Scan.taken_iff.mpr ⟨Sample.capital_spelled.candidate, fun t ht => absurd ht (Nat.not_lt_zero t)⟩
  have hfound := List.mem_map_of_mem (f := Reference.entity) (mem_referencesIn.mpr ⟨htaken, Sample.capital_spelled⟩)
  rw [← hagree pieces hrun, hentities] at hfound
  obtain ⟨s, hs, hentity⟩ := List.mem_filterMap.mp hfound
  have hoccurs := (hwalk.candidate s hs).2.1
  rw [Sample.capital_marker s (occurs_lt hoccurs) (occurs_iff.mp hoccurs), Sample.capital_undecoded] at hentity
  cases hentity

end Nula.Nip27
