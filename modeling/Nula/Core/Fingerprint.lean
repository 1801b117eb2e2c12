import Nula.Core.MessageJson
import Nula.Core.Spelling
import Nula.Lib.Slots
import Std.Data.String.ToNat

/-!
# `Core.Fingerprint` — the cache key of a filter

`Filter::fingerprint` sorts every list and writes the constraints line by line. No value can forge a line, so the
key tells the constraints; it forgets the order of the values, and not how often one is repeated.
-/

namespace Nula

/-! ## JSON texts on one line -/

namespace Json

theorem newline_notMem_hexDigit : ∀ n < 16, hexDigit n ≠ '\n' := by decide

/-- An escaped character is not written with a line feed: the line feed itself is written `\n`. -/
theorem newline_notMem_escape (c : Char) : '\n' ∉ escape c := by
  unfold escape
  split_ifs with _ _ _ _ hc _ _ hcontrol
  any_goals decide
  · have hhigh := newline_notMem_hexDigit (c.toNat / 16) (by omega)
    have hlow := newline_notMem_hexDigit (c.toNat % 16) (by omega)
    simp [hhigh.symm, hlow.symm]
  · intro hmem
    exact hc (List.mem_singleton.mp hmem).symm

theorem newline_notMem_writeString (s : String) : '\n' ∉ writeString s := by
  intro hmem
  rw [writeString, List.cons_append, List.mem_cons, List.mem_append, List.mem_flatMap] at hmem
  rcases hmem with h | ⟨c, -, hc⟩ | h
  · exact absurd h (by decide)
  · exact newline_notMem_escape c hc
  · exact absurd h (by decide)

theorem newline_notMem_writeNumber (n : Nat) : '\n' ∉ writeNumber n := by
  intro hmem
  have hdigit := (writeNumber_spec n).1 _ hmem
  exact absurd hdigit (by decide)

mutual

/-- JSON is written on one line, by induction on the value: its strings are escaped, and the writer puts no blanks. -/
theorem newline_notMem_writeValue : ∀ v : JsonValue, '\n' ∉ writeValue v
  | .null => by
      rw [writeValue]
      decide
  | .bool true => by
      rw [writeValue]
      decide
  | .bool false => by
      rw [writeValue]
      decide
  | .number n => by
      rw [writeValue]
      exact newline_notMem_writeNumber _
  | .string s => by
      rw [writeValue]
      exact newline_notMem_writeString s
  | .array [] => by
      rw [writeValue]
      decide
  | .array (v :: vs) => by
      simp [writeValue, newline_notMem_writeValue v, newline_notMem_writeElements vs]
  | .object [] => by
      rw [writeValue]
      decide
  | .object ((name, v) :: vs) => by
      simp [writeValue, newline_notMem_writeString name, newline_notMem_writeValue v, newline_notMem_writeMembers vs]

theorem newline_notMem_writeElements : ∀ vs : List JsonValue, '\n' ∉ writeElements vs
  | [] => by
      rw [writeElements]
      decide
  | v :: vs => by
      simp [writeElements, newline_notMem_writeValue v, newline_notMem_writeElements vs]

theorem newline_notMem_writeMembers : ∀ vs : List (String × JsonValue), '\n' ∉ writeMembers vs
  | [] => by
      rw [writeMembers]
      decide
  | (name, v) :: vs => by
      simp [writeMembers, newline_notMem_writeString name, newline_notMem_writeValue v, newline_notMem_writeMembers vs]

end

theorem newline_notMem_write (v : JsonValue) : '\n' ∉ (write v).toList := by
  rw [write, String.toList_ofList]
  exact newline_notMem_writeValue v

/-- A list of items that are read back is told by its text. -/
theorem write_array_inj {α : Type} {item : JsonContent → Option α} {value : α → JsonValue}
    (hread : ∀ a, item (value a).content = some a) (hflat : ∀ a, (value a).depth = 0) {l m : List α} :
    write (.array (l.map value)) = write (.array (m.map value)) ↔ l = m := by
  have hdepth : ∀ l : List α, (JsonValue.array (l.map value)).depth ≤ maxDepth := by
    intro l
    refine Nat.le_trans (m := 1) (depth_array_le (fun v hv => ?_)) (by decide)
    obtain ⟨a, -, rfl⟩ := List.mem_map.mp hv
    rw [hflat a]
  constructor
  · intro h
    have hcontent := congrArg (fun s => (read s).bind (JsonContent.list item)) h
    simp only [read_write (hdepth l), read_write (hdepth m), Option.bind_some, JsonContent.list_content hread]
      at hcontent
    exact Option.some.inj hcontent
  · rintro rfl
    rfl

end Json

theorem EventId.toHex_injective : Function.Injective EventId.toHex := by
  intro a b h
  have hparse := congrArg EventId.parse h
  rw [EventId.parse_toHex, EventId.parse_toHex] at hparse
  exact Except.ok.inj hparse

/-! ## The key -/

/-- `FilterKey`. -/
structure FilterKey where
  text : String
  deriving DecidableEq

namespace Filter

/-- `"{label}:{body}"`. -/
def part (label body : String) : String := label ++ ":" ++ body

/-- `array` of strings. -/
def strings (values : List String) : String := Json.write (.array (values.map .string))

/-- `array` of kinds. -/
def numbers (values : List UInt16) : String := Json.write (.array (values.map (fun n => .number n.toUInt64)))

/-- `Vec::sort` on strings. -/
def sorted (values : List String) : List String := values.insertionSort (· ≤ ·)

/-- The line of a tag constraint. -/
def tagPart (e : SingleLetterTag × List String) : String :=
  part ("#" ++ String.singleton e.1.asChar) (strings (sorted e.2))

/-- The parts of the tags, sorted. -/
def tagParts (f : Filter) : List String := sorted (f.genericTags.entries.map tagPart)

/-- The line of each field. -/
def fieldParts (f : Filter) : List (Option String) :=
  [f.ids.map (fun ids => part "ids" (strings (sorted (ids.map EventId.toHex)))),
    f.authors.map (fun authors => part "authors" (strings (sorted (authors.map PublicKey.toHex)))),
    f.kinds.map (fun kinds => part "kinds" (numbers ((kinds.map Kind.val).insertionSort (· ≤ ·)))),
    f.since.map (fun ts => part "since" (toString ts.toNat)),
    f.until.map (fun ts => part "until" (toString ts.toNat)),
    f.limit.map (fun n => part "limit" (toString n)),
    f.search.map (fun s => part "search" (strings [s]))]

/-- The lines of the fingerprint: a part for each field that is there, then those of the tags. -/
def parts (f : Filter) : List String := f.fieldParts.reduceOption ++ f.tagParts

/-- `Filter::fingerprint`. -/
def fingerprint (f : Filter) : FilterKey := ⟨"\n".intercalate f.parts⟩

/-! ### Lines -/

/-- What stands before the first colon of a line. -/
def labelOf (p : String) : List Char := ((splitOnce ':' p.toList).map Prod.fst).getD []

/-- A part is labelled by what stands before its first colon. -/
theorem labelOf_part {label : String} (h : ':' ∉ label.toList) (body : String) :
    labelOf (part label body) = label.toList := by
  rw [labelOf, part, String.toList_append, String.toList_append, List.append_assoc]
  simp only [String.reduceToList, List.singleton_append, splitOnce_append h, Option.map_some, Option.getD_some]

/-- Parts of one label are told apart by what is behind it. -/
theorem part_inj {label body body' : String} : part label body = part label body' ↔ body = body' :=
  String.append_right_inj _

theorem line_part {label body : String} (hlabel : '\n' ∉ label.toList) (hbody : '\n' ∉ body.toList) :
    '\n' ∉ (part label body).toList ∧ part label body ≠ "" := by
  constructor
  · simp [part, hlabel, hbody]
  · intro hempty
    have hlist := congrArg String.toList hempty
    simp [part] at hlist

theorem asChar_plain (letter : SingleLetterTag) : letter.asChar ≠ ':' ∧ letter.asChar ≠ '\n' := by
  rcases letter with ⟨a, _ | _⟩ <;> cases a <;> decide

theorem newline_notMem_strings (values : List String) : '\n' ∉ (strings values).toList :=
  Json.newline_notMem_write _

theorem newline_notMem_number (n : Nat) : '\n' ∉ (toString n).toList := by
  intro hmem
  rw [show toString n = Nat.repr n from rfl, Nat.toList_repr] at hmem
  exact absurd (Nat.isDigit_of_mem_toDigits (by decide) (by decide) hmem) (by decide)

/-- Every part of a fingerprint is one line, and not the empty one; so joining them loses nothing. -/
theorem line_of_mem_parts {f : Filter} {p : String} (h : p ∈ f.parts) : '\n' ∉ p.toList ∧ p ≠ "" := by
  rw [parts, List.mem_append, List.reduceOption_mem_iff] at h
  rcases h with hfield | htag
  · simp only [fieldParts, List.mem_cons, List.not_mem_nil, or_false, eq_comm (a := some p),
      Option.map_eq_some_iff] at hfield
    rcases hfield with ⟨_, -, rfl⟩ | ⟨_, -, rfl⟩ | ⟨_, -, rfl⟩ | ⟨_, -, rfl⟩ | ⟨_, -, rfl⟩ | ⟨_, -, rfl⟩ | ⟨_, -, rfl⟩
    · exact line_part (by decide) (newline_notMem_strings _)
    · exact line_part (by decide) (newline_notMem_strings _)
    · exact line_part (by decide) (Json.newline_notMem_write _)
    · exact line_part (by decide) (newline_notMem_number _)
    · exact line_part (by decide) (newline_notMem_number _)
    · exact line_part (by decide) (newline_notMem_number _)
    · exact line_part (by decide) (newline_notMem_strings _)
  · rw [tagParts, sorted, List.mem_insertionSort] at htag
    obtain ⟨e, -, rfl⟩ := List.mem_map.mp htag
    refine line_part ?_ (newline_notMem_strings _)
    simpa using (asChar_plain e.1).2.symm

/-- The labels of the fields, in their order. -/
def fieldLabels : List (List Char) :=
  ["ids".toList, "authors".toList, "kinds".toList, "since".toList, "until".toList, "limit".toList, "search".toList]

theorem labelled_fieldParts (f : Filter) : Labelled labelOf fieldLabels f.fieldParts := by
  have hslot : ∀ {α : Type} {label : String} {body : α → String} {x : Option α}, ':' ∉ label.toList →
      ∀ p ∈ x.map (fun a => part label (body a)), labelOf p = label.toList := by
    intro α label body x hlabel p hp
    obtain ⟨a, -, rfl⟩ := Option.mem_map.mp hp
    exact labelOf_part hlabel _
  exact .cons (hslot (by decide)) (.cons (hslot (by decide)) (.cons (hslot (by decide)) (.cons (hslot (by decide))
    (.cons (hslot (by decide)) (.cons (hslot (by decide)) (.cons (hslot (by decide)) .nil))))))

/-- The entry of a tag constraint, its values sorted. -/
def sortEntry (e : SingleLetterTag × List String) : SingleLetterTag × List String := (e.1, sorted e.2)

/-- The line of a sorted entry. -/
def entryLine (e : SingleLetterTag × List String) : String := part ("#" ++ String.singleton e.1.asChar) (strings e.2)

/-- The part of a tag is labelled by `#` and its letter. -/
theorem labelOf_entryLine (e : SingleLetterTag × List String) : labelOf (entryLine e) = ['#', e.1.asChar] := by
  have hcolon : ':' ∉ ("#" ++ String.singleton e.1.asChar).toList := by
    simpa using (asChar_plain e.1).1.symm
  rw [entryLine, labelOf_part hcolon]
  simp

/-- No tag's label is a field's, since those begin with no `#`. -/
theorem labelOf_tagParts {f : Filter} {p : String} (h : p ∈ f.tagParts) : labelOf p ∉ fieldLabels := by
  rw [tagParts, sorted, List.mem_insertionSort] at h
  obtain ⟨e, -, rfl⟩ := List.mem_map.mp h
  rw [show tagPart e = entryLine (sortEntry e) from rfl, labelOf_entryLine]
  simp [fieldLabels]

/-- The key tells the lines of the fields and those of the tags. -/
theorem fingerprint_eq_iff_lines {f g : Filter} :
    f.fingerprint = g.fingerprint ↔ f.fieldParts = g.fieldParts ∧ f.tagParts = g.tagParts := by
  have hlines : "\n".intercalate f.parts = "\n".intercalate g.parts ↔ f.parts = g.parts :=
    intercalate_inj (fun p => line_of_mem_parts) (fun p => line_of_mem_parts)
  rw [fingerprint, fingerprint, FilterKey.mk.injEq]
  refine hlines.trans ⟨fun h => ?_, fun h => by rw [parts, h.1, h.2, parts]⟩
  exact row_inj (by decide) (labelled_fieldParts f) (labelled_fieldParts g) (fun p => labelOf_tagParts)
    (fun p => labelOf_tagParts) h

/-! ### Constraints -/

/-- The same values, as often in one list as in the other. -/
abbrev SameCounts {α : Type} : Option (List α) → Option (List α) → Prop := Option.Rel List.Perm

/-- The same set of values. -/
abbrev SameValues {α : Type} : Option (List α) → Option (List α) → Prop :=
  Option.Rel (fun l m => ∀ a, a ∈ l ↔ a ∈ m)

/-- Where both lists are present, they repeat each value alike. -/
def RepeatsAlike {α : Type} [DecidableEq α] (x y : Option (List α)) : Prop :=
  ∀ l ∈ x, ∀ m ∈ y, ∀ a, l.count a = m.count a

theorem sameCounts_iff {α : Type} [DecidableEq α] {x y : Option (List α)} :
    SameCounts x y ↔ SameValues x y ∧ RepeatsAlike x y := by
  constructor
  · rintro (⟨hperm⟩ | _)
    · refine ⟨.some (fun a => hperm.mem_iff), ?_⟩
      rintro l hl m hm a
      obtain rfl := Option.some.inj hl
      obtain rfl := Option.some.inj hm
      exact hperm.count_eq a
    · exact ⟨.none, fun l hl => nomatch hl⟩
  · rintro ⟨hsame, hrepeats⟩
    cases hsame with
    | some hvalues => exact .some (List.perm_iff_count.mpr (hrepeats _ rfl _ rfl))
    | none => exact .none

/-- Without repeated entries, sorting tells exactly whether the values are the same. -/
theorem sameCounts_iff_of_nodup {α : Type} {x y : Option (List α)} (hx : ∀ l ∈ x, l.Nodup) (hy : ∀ l ∈ y, l.Nodup) :
    SameCounts x y ↔ SameValues x y := by
  constructor
  · rintro (⟨hperm⟩ | _)
    · exact .some (fun a => hperm.mem_iff)
    · exact .none
  · rintro (⟨hvalues⟩ | _)
    · exact .some ((List.perm_ext_iff_of_nodup (hx _ rfl) (hy _ rfl)).mpr hvalues)
    · exact .none

theorem sameValues_refl {α : Type} (x : Option (List α)) : SameValues x x := by
  cases x with
  | none => exact .none
  | some l => exact .some (fun a => Iff.rfl)

/-- A line that forgets the order of a list only. -/
theorem map_eq_iff {α β : Type} {line : List α → β} (h : ∀ l m, line l = line m ↔ l.Perm m) {x y : Option (List α)} :
    x.map line = y.map line ↔ SameCounts x y := by
  constructor
  · intro heq
    cases x with
    | none =>
        cases y with
        | none => exact .none
        | some m => cases heq
    | some l =>
        cases y with
        | none => cases heq
        | some m => exact .some ((h l m).mp (Option.some.inj heq))
  · rintro (⟨hperm⟩ | _)
    · exact congrArg some ((h _ _).mpr hperm)
    · rfl

theorem strings_inj {l m : List String} : strings l = strings m ↔ l = m :=
  Json.write_array_inj (fun s => JsonContent.text_content s) (fun _ => rfl)

theorem sorted_eq_iff {l m : List String} : sorted l = sorted m ↔ l.Perm m := insertionSort_eq_iff

instance : Std.Total (α := UInt16) (· ≤ ·) := ⟨UInt16.le_total⟩
instance : IsTrans UInt16 (· ≤ ·) := ⟨fun _ _ _ => UInt16.le_trans⟩
instance : Std.Antisymm (α := UInt16) (· ≤ ·) := ⟨fun _ _ => UInt16.le_antisymm⟩

/-- `Deserialize for u16`, from that of a kind. -/
def unsigned16 (c : JsonContent) : Option UInt16 := (Json.kind c).map Kind.val

/-- A list of numbers is determined by its JSON. -/
theorem numbers_inj {l m : List UInt16} : numbers l = numbers m ↔ l = m := by
  have hread : ∀ n : UInt16, unsigned16 (JsonValue.number n.toUInt64).content = some n := by
    intro n
    rw [unsigned16, Json.kind_content ⟨n⟩]
    rfl
  exact Json.write_array_inj hread (fun _ => rfl)

/-- A tag's line tells its letter and its sorted values. -/
theorem entryLine_injective : Function.Injective entryLine := by
  intro e e' h
  have hlabels := congrArg labelOf h
  rw [labelOf_entryLine, labelOf_entryLine] at hlabels
  have hletter : e.1 = e'.1 := by
    have hchars := congrArg SingleLetterTag.fromChar (List.cons.inj (List.cons.inj hlabels).2).1
    rw [SingleLetterTag.fromChar_asChar, SingleLetterTag.fromChar_asChar] at hchars
    exact Except.ok.inj hchars
  rw [entryLine, entryLine, hletter, part_inj, strings_inj] at h
  exact Prod.ext hletter h

/-- The entry of a letter, with its values sorted. -/
theorem mem_sortEntry {f : Filter} {letter : SingleLetterTag} {values : List String} :
    (letter, values) ∈ f.genericTags.entries.map sortEntry ↔
      (f.genericTags.get letter).map sorted = some values := by
  rw [List.mem_map, Option.map_eq_some_iff]
  constructor
  · rintro ⟨⟨letter', l⟩, he, heq⟩
    obtain ⟨rfl, hl⟩ := Prod.mk.inj heq
    exact ⟨l, IndexMap.get_eq_some_iff.mpr he, hl⟩
  · rintro ⟨l, hget, rfl⟩
    exact ⟨(letter, l), IndexMap.get_eq_some_iff.mp hget, rfl⟩

/-- Sorting the values does not make two entries one, since their letters differ. -/
theorem nodup_sortEntry (f : Filter) : (f.genericTags.entries.map sortEntry).Nodup := by
  refine List.Nodup.of_map Prod.fst ?_
  rw [List.map_map]
  exact f.genericTags.nodup

/-- The lines of the tags determine the entries up to the order of their values. -/
theorem perm_tagPart {l m : List (SingleLetterTag × List String)} :
    (l.map tagPart).Perm (m.map tagPart) ↔ (l.map sortEntry).Perm (m.map sortEntry) := by
  rw [← List.map_perm_map_iff entryLine_injective, List.map_map, List.map_map]
  rfl

/-- The tags have the same lines exactly if each letter asks for the same values equally often. -/
theorem tagParts_eq_iff {f g : Filter} :
    f.tagParts = g.tagParts ↔ ∀ letter, SameCounts (f.genericTags.get letter) (g.genericTags.get letter) := by
  rw [tagParts, tagParts, sorted_eq_iff, perm_tagPart,
    List.perm_ext_iff_of_nodup (nodup_sortEntry f) (nodup_sortEntry g), Prod.forall]
  refine forall_congr' (fun letter => ?_)
  rw [← map_eq_iff (fun l m => sorted_eq_iff)]
  simp only [mem_sortEntry]
  exact ⟨fun h => Option.ext h, fun h values => by rw [h]⟩

/-- **The key is that of the filters with the same constraints, each value repeated as often.** -/
theorem fingerprint_eq_iff {f g : Filter} :
    f.fingerprint = g.fingerprint ↔
      SameCounts f.ids g.ids ∧ SameCounts f.authors g.authors ∧ SameCounts f.kinds g.kinds ∧ f.since = g.since ∧
        f.until = g.until ∧ f.limit = g.limit ∧ f.search = g.search ∧
        ∀ letter, SameCounts (f.genericTags.get letter) (g.genericTags.get letter) := by
  have hids : ∀ l m : List EventId, part "ids" (strings (sorted (l.map EventId.toHex))) =
      part "ids" (strings (sorted (m.map EventId.toHex))) ↔ l.Perm m := by
    intro l m
    rw [part_inj, strings_inj, sorted_eq_iff, List.map_perm_map_iff EventId.toHex_injective]
  have hauthors : ∀ l m : List PublicKey, part "authors" (strings (sorted (l.map PublicKey.toHex))) =
      part "authors" (strings (sorted (m.map PublicKey.toHex))) ↔ l.Perm m := by
    intro l m
    rw [part_inj, strings_inj, sorted_eq_iff, List.map_perm_map_iff PublicKey.toHex_injective]
  have hkinds : ∀ l m : List Kind, part "kinds" (numbers ((l.map Kind.val).insertionSort (· ≤ ·))) =
      part "kinds" (numbers ((m.map Kind.val).insertionSort (· ≤ ·))) ↔ l.Perm m := by
    intro l m
    rw [part_inj, numbers_inj, insertionSort_eq_iff, List.map_perm_map_iff Kind.val_injective]
  have hnumber : ∀ label : String, Function.Injective (fun n : Nat => part label (toString n)) :=
    fun label n m h => Nat.repr_injective (part_inj.mp h)
  have htime : ∀ label : String, Function.Injective (fun ts : Timestamp => part label (toString ts.toNat)) :=
    fun label n m h => UInt64.toNat_inj.mp (hnumber label h)
  have hsearch : Function.Injective (fun s : String => part "search" (strings [s])) :=
    fun s t h => (List.cons.inj (strings_inj.mp (part_inj.mp h))).1
  rw [fingerprint_eq_iff_lines, tagParts_eq_iff]
  simp only [fieldParts, List.cons.injEq, and_true, map_eq_iff hids, map_eq_iff hauthors, map_eq_iff hkinds,
    (Option.map_injective (htime _)).eq_iff, (Option.map_injective (hnumber _)).eq_iff,
    (Option.map_injective hsearch).eq_iff, and_assoc]

/-! ### Filters off the wire -/

/-- The filter is read from some JSON. -/
def Admitted (f : Filter) : Prop := ∃ c, ofContent c = some f

/-- The same constraints, whatever the order and the repetition of their values. -/
structure LogicallyEqual (f g : Filter) : Prop where
  ids : SameValues f.ids g.ids
  authors : SameValues f.authors g.authors
  kinds : SameValues f.kinds g.kinds
  since : f.since = g.since
  «until» : f.until = g.until
  limit : f.limit = g.limit
  search : f.search = g.search
  tags : ∀ letter, SameValues (f.genericTags.get letter) (g.genericTags.get letter)

theorem nodup_dedupPreservingOrder (values : List String) : (dedupPreservingOrder values).Nodup := by
  have hfold : ∀ rest seen : List String, seen.Nodup →
      (rest.foldl (fun seen v => if v ∈ seen then seen else seen ++ [v]) seen).Nodup := by
    intro rest
    induction rest with
    | nil => exact fun seen hseen => hseen
    | cons v rest ih =>
        intro seen hseen
        refine ih _ ?_
        by_cases hold : v ∈ seen
        · simpa only [if_pos hold] using hseen
        · simp only [if_neg hold]
          exact List.nodup_append.mpr ⟨hseen, List.nodup_singleton v, fun a ha b hb heq =>
            hold ((List.mem_singleton.mp hb) ▸ heq ▸ ha)⟩
  exact hfold values [] List.nodup_nil

/-- No tag constraint lists a value twice. -/
def TagsNodup (f : Filter) : Prop := ∀ e ∈ f.genericTags.entries, e.2.Nodup

/-- Reading a member keeps the values of the tags apart: a `#` member is deduplicated, another leaves them alone. -/
theorem tagsNodup_entry {f f' : Filter} {member : String × JsonContent} (h : entry f member = some f')
    (hf : f.TagsNodup) : f'.TagsNodup := by
  obtain ⟨key, value⟩ := member
  unfold entry at h
  dsimp only at h
  split at h
  · obtain ⟨letter, -, h⟩ := Option.bind_eq_some_iff.mp h
    obtain ⟨values, -, h⟩ := Option.bind_eq_some_iff.mp h
    split at h
    · obtain rfl := Option.some.inj h
      intro e he
      rcases IndexMap.mem_insert.mp he with rfl | ⟨-, he⟩
      · exact nodup_dedupPreservingOrder values
      · exact hf e he
    · cases h
  · split at h
    any_goals
      obtain ⟨a, -, hnext⟩ := Option.bind_eq_some_iff.mp h
      obtain rfl := Option.some.inj hnext
      exact hf
    obtain rfl := Option.some.inj h
    exact hf

/-- A filter that was built with the setters or parsed asks for no value of a tag twice. -/
theorem Admitted.tagsNodup {f : Filter} (h : f.Admitted) : f.TagsNodup := by
  obtain ⟨c, hc⟩ := h
  cases c with
  | map members =>
      have hrun : ∀ (members : List (String × JsonContent)) (before : Filter), before.TagsNodup →
          members.foldlM entry before = some f → f.TagsNodup := by
        intro members
        induction members with
        | nil =>
            intro before hbefore hfold
            obtain rfl := Option.some.inj hfold
            exact hbefore
        | cons member members ih =>
            intro before hbefore hfold
            rw [List.foldlM_cons] at hfold
            obtain ⟨mid, hmid, hrest⟩ := Option.bind_eq_some_iff.mp hfold
            exact ih mid (tagsNodup_entry hmid hbefore) hrest
      exact hrun members default (fun e he => absurd he List.not_mem_nil) hc
  | _ => cases hc

/-- Filters off the wire have one key exactly when they are logically equal, unless they are and an id, an author
    or a kind stands more often in one than in the other.

    Every part is one line that begins with its own label, so the joined text determines the parts
    (`fingerprint_eq_iff`); a sorted list determines how often each value comes up, and tags have none twice. -/
theorem fingerprint_exact_iff {f g : Filter} (hf : f.Admitted) (hg : g.Admitted) :
    (f.fingerprint = g.fingerprint ↔ f.LogicallyEqual g) ↔
      (f.LogicallyEqual g →
        RepeatsAlike f.ids g.ids ∧ RepeatsAlike f.authors g.authors ∧ RepeatsAlike f.kinds g.kinds) := by
  have hnodup : ∀ {f : Filter}, f.Admitted → ∀ letter, ∀ l ∈ f.genericTags.get letter, l.Nodup := by
    intro f hf letter l hl
    exact hf.tagsNodup _ (IndexMap.get_eq_some_iff.mp hl)
  have hkey : f.fingerprint = g.fingerprint ↔ f.LogicallyEqual g ∧
      RepeatsAlike f.ids g.ids ∧ RepeatsAlike f.authors g.authors ∧ RepeatsAlike f.kinds g.kinds := by
    rw [fingerprint_eq_iff]
    simp only [sameCounts_iff (α := EventId), sameCounts_iff (α := PublicKey), sameCounts_iff (α := Kind),
      fun letter => sameCounts_iff_of_nodup (hnodup hf letter) (hnodup hg letter)]
    constructor
    · rintro ⟨hids, hauthors, hkinds, hsince, huntil, hlimit, hsearch, htags⟩
      exact ⟨⟨hids.1, hauthors.1, hkinds.1, hsince, huntil, hlimit, hsearch, htags⟩, hids.2, hauthors.2, hkinds.2⟩
    · rintro ⟨⟨hids, hauthors, hkinds, hsince, huntil, hlimit, hsearch, htags⟩, hi, ha, hk⟩
      exact ⟨⟨hids, hi⟩, ⟨hauthors, ha⟩, ⟨hkinds, hk⟩, hsince, huntil, hlimit, hsearch, htags⟩
  rw [hkey]
  constructor
  · intro h hequal
    exact (h.mpr hequal).2
  · intro h
    exact ⟨fun hboth => hboth.1, fun hequal => ⟨hequal, h hequal⟩⟩

end Filter

/-! ## A kind listed twice -/

namespace Sample

/-- A filter by kinds and one tag. -/
def byKinds (kinds : List Kind) (values : List String) : Filter :=
  { Filter.default with
    kinds := some kinds
    genericTags := ⟨[(.lowercase .T, values)], List.nodup_singleton _⟩ }

theorem admitted_byKinds (kinds : List Kind) {values : List String} (h : values.Nodup) :
    (byKinds kinds values).Admitted := by
  refine ⟨_, Filter.ofContent_toJson ⟨fun n hn => (nomatch hn), ?_, ?_⟩⟩
  · intro e he
    rw [List.mem_singleton.mp he]
    rfl
  · intro e he
    rw [List.mem_singleton.mp he]
    exact h

end Sample

open Sample in
/-- One filter in another order, with a line feed in a value. -/
theorem Filter.fingerprint_exact_reordered :
    (byKinds [⟨1⟩, ⟨3⟩] ["a", "b\n#t:"]).fingerprint = (byKinds [⟨3⟩, ⟨1⟩] ["b\n#t:", "a"]).fingerprint ↔
      (byKinds [⟨1⟩, ⟨3⟩] ["a", "b\n#t:"]).LogicallyEqual (byKinds [⟨3⟩, ⟨1⟩] ["b\n#t:", "a"]) := by
  have hadmitted : (byKinds [⟨1⟩, ⟨3⟩] ["a", "b\n#t:"]).Admitted := admitted_byKinds _ (by decide)
  refine (Filter.fingerprint_exact_iff hadmitted (admitted_byKinds _ (by decide))).mpr (fun _ => ?_)
  refine ⟨fun l hl => (nomatch hl), fun l hl => (nomatch hl), ?_⟩
  rintro l hl m hm a
  obtain rfl := Option.some.inj hl
  obtain rfl := Option.some.inj hm
  exact (List.Perm.swap _ _ _).count_eq a

open Sample in
/-- A kind that is asked for twice changes the fingerprint, and not what is asked for. -/
theorem Filter.kind_listed_twice :
    (byKinds [⟨1⟩, ⟨1⟩] []).Admitted ∧ (byKinds [⟨1⟩] []).Admitted ∧
      (byKinds [⟨1⟩, ⟨1⟩] []).LogicallyEqual (byKinds [⟨1⟩] []) ∧
      (byKinds [⟨1⟩, ⟨1⟩] []).fingerprint ≠ (byKinds [⟨1⟩] []).fingerprint := by
  refine ⟨admitted_byKinds _ (by decide), admitted_byKinds _ (by decide), ?_, ?_⟩
  · refine ⟨.none, .none, .some (fun a => by simp), rfl, rfl, rfl, rfl, fun letter => ?_⟩
    exact Filter.sameValues_refl _
  · intro h
    obtain ⟨-, -, hkinds, -⟩ := Filter.fingerprint_eq_iff.mp h
    cases hkinds with
    | some hperm => exact absurd hperm.length_eq (by decide)

end Nula
