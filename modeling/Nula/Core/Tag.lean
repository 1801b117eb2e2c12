import Nula.Core.Primitives

/-!
# `Core.Tag` — tag heads, tags and tag lists

The layers of `event/tag/`: `SingleLetterTag` (a letter and a case bit), `TagKind` (a single letter or a
custom head), `Tag` (a non-empty list of strings) and `Tags` (an ordered list of them, with the
single-letter index a filter is matched against).

The index is rebuilt from the list on demand; the cache the Rust type keeps beside it is not state.
`mem_indexes` says what the index holds, and `hasTag_iff` is the form the matcher uses.
-/

namespace Nula

open Std

/-! ## Single letters (`event/tag/single_letter.rs`) -/

/-- An ASCII letter, case-folded. -/
inductive Alphabet where
  | A | B | C | D | E | F | G | H | I | J | K | L | M
  | N | O | P | Q | R | S | T | U | V | W | X | Y | Z
  deriving DecidableEq, Repr

inductive SingleLetterTagError where
  | notAsciiLetter (c : Char)
  | notSingleChar (count : Nat)
  deriving DecidableEq, Repr

namespace Alphabet

/-- `Alphabet::from_char`: either case. -/
def fromChar : Char → Except SingleLetterTagError Alphabet
  | 'a' | 'A' => .ok .A
  | 'b' | 'B' => .ok .B
  | 'c' | 'C' => .ok .C
  | 'd' | 'D' => .ok .D
  | 'e' | 'E' => .ok .E
  | 'f' | 'F' => .ok .F
  | 'g' | 'G' => .ok .G
  | 'h' | 'H' => .ok .H
  | 'i' | 'I' => .ok .I
  | 'j' | 'J' => .ok .J
  | 'k' | 'K' => .ok .K
  | 'l' | 'L' => .ok .L
  | 'm' | 'M' => .ok .M
  | 'n' | 'N' => .ok .N
  | 'o' | 'O' => .ok .O
  | 'p' | 'P' => .ok .P
  | 'q' | 'Q' => .ok .Q
  | 'r' | 'R' => .ok .R
  | 's' | 'S' => .ok .S
  | 't' | 'T' => .ok .T
  | 'u' | 'U' => .ok .U
  | 'v' | 'V' => .ok .V
  | 'w' | 'W' => .ok .W
  | 'x' | 'X' => .ok .X
  | 'y' | 'Y' => .ok .Y
  | 'z' | 'Z' => .ok .Z
  | c => .error (.notAsciiLetter c)

/-- `Alphabet::as_lower_char`. -/
def asLowerChar : Alphabet → Char
  | .A => 'a'
  | .B => 'b'
  | .C => 'c'
  | .D => 'd'
  | .E => 'e'
  | .F => 'f'
  | .G => 'g'
  | .H => 'h'
  | .I => 'i'
  | .J => 'j'
  | .K => 'k'
  | .L => 'l'
  | .M => 'm'
  | .N => 'n'
  | .O => 'o'
  | .P => 'p'
  | .Q => 'q'
  | .R => 'r'
  | .S => 's'
  | .T => 't'
  | .U => 'u'
  | .V => 'v'
  | .W => 'w'
  | .X => 'x'
  | .Y => 'y'
  | .Z => 'z'

theorem fromChar_asLowerChar (a : Alphabet) : fromChar a.asLowerChar = .ok a := by
  cases a <;> rfl

/-- The character of the letter it was read as, in its case. -/
theorem asLowerChar_fromChar {c : Char} {a : Alphabet} (h : fromChar c = .ok a) :
    (if c.isUpper = true then a.asLowerChar.toUpper else a.asLowerChar) = c := by
  unfold fromChar at h
  split at h
  all_goals cases h
  all_goals rfl

theorem asLowerChar_injective : Function.Injective asLowerChar := by
  intro a b h
  have := congrArg fromChar h
  rw [fromChar_asLowerChar, fromChar_asLowerChar] at this
  exact Except.ok.inj this

end Alphabet

/-- A letter with its case. -/
structure SingleLetterTag where
  character : Alphabet
  uppercase : Bool
  deriving DecidableEq, Repr

namespace SingleLetterTag

/-- The key the derived order compares: the letter, then the case. -/
def key (t : SingleLetterTag) : Nat × Nat := (t.character.asLowerChar.toNat, t.uppercase.toNat)

theorem key_injective : Function.Injective key := by
  rintro ⟨a, u⟩ ⟨b, v⟩ h
  simp only [key, Prod.mk.injEq] at h
  have hc : a = b := Alphabet.asLowerChar_injective (Char.toNat_inj.mp h.1)
  have hu : u = v := by
    cases u <;> cases v <;> simp_all
  rw [hc, hu]

instance : Ord SingleLetterTag := ⟨compareOn key⟩
instance : TransOrd SingleLetterTag := inferInstanceAs (TransCmp (compareOn key))
instance : LawfulEqOrd SingleLetterTag := lawfulEqCmp_compareOn key_injective

def lowercase (a : Alphabet) : SingleLetterTag := ⟨a, false⟩

/-- `SingleLetterTag::as_char`. -/
def asChar (t : SingleLetterTag) : Char :=
  if t.uppercase then t.character.asLowerChar.toUpper else t.character.asLowerChar

/-- `SingleLetterTag::from_char`. -/
def fromChar (c : Char) : Except SingleLetterTagError SingleLetterTag :=
  match Alphabet.fromChar c with
  | .ok a => .ok ⟨a, c.isUpper⟩
  | .error e => .error e

/-- `SingleLetterTag::from_str`. -/
def parse (s : String) : Except SingleLetterTagError SingleLetterTag :=
  match s.toList with
  | [] => .error (.notSingleChar 0)
  | [c] => fromChar c
  | cs => .error (.notSingleChar cs.length)

/-- A letter in its case comes back from its character. -/
theorem fromChar_asChar (t : SingleLetterTag) : fromChar t.asChar = .ok t := by
  rcases t with ⟨a, _ | _⟩ <;> cases a <;> rfl

theorem asChar_fromChar {c : Char} {t : SingleLetterTag} (h : fromChar c = .ok t) : t.asChar = c := by
  rw [fromChar] at h
  cases ha : Alphabet.fromChar c with
  | error e =>
      rw [ha] at h
      cases h
  | ok a =>
      rw [ha] at h
      cases h
      exact Alphabet.asLowerChar_fromChar ha

theorem parse_asChar (t : SingleLetterTag) : parse (String.singleton t.asChar) = .ok t := by
  rw [parse, String.toList_singleton]
  exact fromChar_asChar t

end SingleLetterTag

/-! ## Tag heads (`event/tag/kind.rs`) -/

inductive TagKind where
  | singleLetter (tag : SingleLetterTag)
  | custom (name : String)
  deriving DecidableEq, Repr

namespace TagKind

/-- `single_letter_from_str`. -/
def singleLetterFromStr (value : String) : Option SingleLetterTag :=
  match value.toList with
  | [c] => (SingleLetterTag.fromChar c).toOption
  | _ => none

/-- `TagKind::from_wire`: one ASCII letter, or a custom head (the empty string included). -/
def fromWire (value : String) : TagKind :=
  match singleLetterFromStr value with
  | some letter => .singleLetter letter
  | none => .custom value

/-- `TagKind::as_str`. -/
def asStr : TagKind → String
  | .singleLetter tag => String.singleton tag.asChar
  | .custom name => name

theorem asStr_fromWire (value : String) : (fromWire value).asStr = value := by
  unfold fromWire singleLetterFromStr
  split
  · rename_i letter hletter
    split at hletter
    · rename_i c hc
      cases hchar : SingleLetterTag.fromChar c with
      | error e =>
          rw [hchar] at hletter
          cases hletter
      | ok t =>
          rw [hchar] at hletter
          cases hletter
          rw [asStr, SingleLetterTag.asChar_fromChar hchar, ← String.toList_inj, hc, String.toList_singleton]
    · cases hletter
  · rfl

end TagKind

/-! ## Tags (`event/tag/tag.rs`, `event/tag/list.rs`) -/

/-- A tag: a non-empty list of strings, the head first. -/
structure Tag where
  values : List String
  nonempty : values ≠ []
  deriving DecidableEq

namespace Tag

/-- `Tag::name`: the first value. -/
def name (t : Tag) : String := t.values.headD ""

def kind (t : Tag) : TagKind := TagKind.fromWire t.name

theorem values_injective : Function.Injective values := by
  rintro ⟨v, hv⟩ ⟨w, hw⟩ h
  cases h
  rfl

/-- A tag is of a kind exactly if it has its name. -/
theorem kind_eq_iff {t : Tag} {kind : TagKind} {name : String} (h : TagKind.fromWire name = kind) :
    t.kind = kind ↔ t.name = name := by
  subst h
  constructor
  · intro hkind
    have hname := congrArg TagKind.asStr hkind
    rwa [Tag.kind, TagKind.asStr_fromWire, TagKind.asStr_fromWire] at hname
  · intro hname
    rw [Tag.kind, hname]

/-- The element after the head. -/
def content (t : Tag) : Option String := t.values[1]?

def singleLetterTag (t : Tag) : Option SingleLetterTag :=
  (SingleLetterTag.parse t.name).toOption

end Tag

/-- Single-letter head to the set of its values. -/
abbrev TagsIndexes := ExtTreeMap SingleLetterTag (ExtTreeSet String)

/-- An ordered list of tags. -/
structure Tags where
  items : List Tag
  deriving DecidableEq

namespace Tags

/-- `Tags::find_first`. -/
def findFirst (t : Tags) (k : TagKind) : Option Tag := t.items.find? (fun tag => tag.kind = k)

/-- `Tags::find_letter`. -/
def findLetter (t : Tags) (a : Alphabet) : List Tag :=
  t.items.filter (fun tag => tag.kind = .singleLetter (.lowercase a))

/-- `Tags::public_keys`: the keys of the `p` tags, values that are none skipped. -/
def publicKeys (t : Tags) : List PublicKey :=
  (t.findLetter .P).filterMap (fun tag => tag.content.bind (fun s => (PublicKey.parse s).toOption))

/-- `Tags::event_ids`: the ids of the `e` tags, likewise. -/
def eventIds (t : Tags) : List EventId :=
  (t.findLetter .E).filterMap (fun tag => tag.content.bind (fun s => (EventId.parse s).toOption))

/-- `Tags::identifier`: the value of the first `d` tag. -/
def identifier (t : Tags) : Option String := (t.findLetter .D).head?.bind Tag.content

/-- One step of `Tags::build_indexes`. -/
def indexTag (indexes : TagsIndexes) (tag : Tag) : TagsIndexes :=
  match tag.singleLetterTag, tag.content with
  | some letter, some content =>
      indexes.insert letter ((indexes.getD letter ∅).insert content)
  | _, _ => indexes

/-- `Tags::indexes`. -/
def indexes (t : Tags) : TagsIndexes := t.items.foldl indexTag ∅

/-- **What a tag adds to the index**: its value under its letter, if it has both. -/
theorem mem_indexTag (m : TagsIndexes) (tag : Tag) (letter : SingleLetterTag) (v : String) :
    v ∈ (indexTag m tag).getD letter ∅ ↔
      v ∈ m.getD letter ∅ ∨ (tag.singleLetterTag = some letter ∧ tag.content = some v) := by
  unfold indexTag
  split
  · rename_i l c hl hc
    rw [hl, hc, ExtTreeMap.getD_insert]
    by_cases h : l = letter
    · subst h
      simp only [Std.compare_self, if_true, ExtTreeSet.mem_insert, LawfulEqCmp.compare_eq_iff_eq,
        true_and, Option.some.injEq]
      exact Or.comm
    · simp [LawfulEqCmp.compare_eq_iff_eq, h]
  · rename_i hno
    constructor
    · exact Or.inl
    · rintro (h | ⟨hl, hc⟩)
      · exact h
      · exact absurd hc (hno letter v hl)

/-- The index holds exactly the values of the single-letter tags. -/
theorem mem_indexes (t : Tags) (letter : SingleLetterTag) (v : String) :
    v ∈ t.indexes.getD letter ∅ ↔
      ∃ tag ∈ t.items, tag.singleLetterTag = some letter ∧ tag.content = some v := by
  have hfold : ∀ (items : List Tag) (m : TagsIndexes),
      v ∈ (items.foldl indexTag m).getD letter ∅ ↔
        v ∈ m.getD letter ∅ ∨
          ∃ tag ∈ items, tag.singleLetterTag = some letter ∧ tag.content = some v := by
    intro items
    induction items with
    | nil => intro m; simp
    | cons tag rest ih =>
        intro m
        rw [List.foldl_cons, ih, mem_indexTag, or_assoc]
        simp only [List.mem_cons, exists_eq_or_imp]
  rw [indexes, hfold]
  simp

/-- Whether some tag headed `letter` has one of `values`, through the index. -/
def hasTag (t : Tags) (letter : SingleLetterTag) (values : List String) : Bool :=
  match t.indexes[letter]? with
  | some present => values.any (fun v => present.contains v)
  | none => false

/-- Tags have one of the values under a letter exactly if one of them is of that letter and says it. -/
theorem hasTag_iff (t : Tags) (letter : SingleLetterTag) (values : List String) :
    t.hasTag letter values = true ↔
      ∃ tag ∈ t.items, tag.singleLetterTag = some letter ∧ ∃ v ∈ values, tag.content = some v := by
  have hany : t.hasTag letter values = true ↔ ∃ v ∈ values, v ∈ t.indexes.getD letter ∅ := by
    rw [hasTag, ExtTreeMap.getD_eq_getD_getElem?]
    cases t.indexes[letter]? with
    | none => simp
    | some present => simp
  rw [hany]
  constructor
  · rintro ⟨v, hv, hmem⟩
    obtain ⟨tag, htag, hl, hc⟩ := (mem_indexes t letter v).mp hmem
    exact ⟨tag, htag, hl, v, hv, hc⟩
  · rintro ⟨tag, htag, hl, v, hv, hc⟩
    exact ⟨v, hv, (mem_indexes t letter v).mpr ⟨tag, htag, hl, hc⟩⟩

end Tags

end Nula
