import Nula.Core.Event

/-!
# `Core.Slug` — the `d` tags of wiki articles

The normalisation of `nips/nip54.rs` and its check. Letters, digits and case are those of the Unicode tables, which
are a parameter. What the loop leaves has single inner dashes whatever the text (`dashesFine_slugOf`), but its
characters are those that lower-casing gives, and the check asks something else of them: where the two agree is said by
`normalize_normal_iff`.
-/

namespace Nula.Nip54

/-- The Unicode tables of `char`. -/
structure CharTables where
  isAlphabetic : Char → Bool
  isNumeric : Char → Bool
  isUppercase : Char → Bool
  /-- `char::to_lowercase` gives one character or more. -/
  toLowercase : Char → List Char

section Tables

variable (tables : CharTables)

/-- `is_alphabetic() || is_numeric()`: the characters a slug keeps. -/
def CharTables.isKept (c : Char) : Bool := tables.isAlphabetic c || tables.isNumeric c

/-! ## Normalising (`nips/nip54.rs`) -/

/-- The loop of `normalize_d_tag_cow`: what it pushes from here on. The flag is `prev_dash`. -/
def slugLoop : Bool → List Char → List Char
  | _, [] => []
  | prevDash, ch :: cs =>
      if tables.isKept ch then tables.toLowercase ch ++ slugLoop false cs
      else if (isWhitespace ch || ch = '-' || ch = '_') && !prevDash then '-' :: slugLoop true cs
      else slugLoop prevDash cs

/-- The slow path of `normalize_d_tag_cow`; the dashes at the end are popped. -/
def slugOf (input : String) : String :=
  String.ofList ((slugLoop tables true input.toList).rdropWhile (fun ch => ch = '-'))

/-- The loop of `is_canonical_d_tag`. -/
def canonicalLoop : Bool → List Char → Bool
  | _, [] => true
  | prevDash, ch :: cs =>
      if tables.isUppercase ch then false
      else if ch = '-' then if prevDash then false else canonicalLoop true cs
      else if tables.isKept ch then canonicalLoop false cs
      else false

/-- `is_canonical_d_tag`. -/
def isCanonicalDTag (input : String) : Bool :=
  if input.toList.head? = some '-' || input.toList.getLast? = some '-' then false
  else canonicalLoop tables false input.toList

/-- `normalize_d_tag`: what is canonical is handed back. -/
def normalizeDTag (input : String) : String :=
  if isCanonicalDTag tables input then input else slugOf tables input

/-! ## Dashes -/

/-- No two dashes in a row, nor one behind a dash before the text. -/
def SingleDashes : Bool → List Char → Prop
  | _, [] => True
  | prevDash, ch :: cs => if ch = '-' then prevDash = false ∧ SingleDashes true cs else SingleDashes false cs

/-- No two dashes in a row, and none at the front where one precedes it. -/
theorem singleDashes_iff {prevDash : Bool} {l : List Char} :
    SingleDashes prevDash l ↔ ¬ ['-', '-'] <:+: l ∧ (prevDash = true → l.head? ≠ some '-') := by
  induction l generalizing prevDash with
  | nil => simp [SingleDashes]
  | cons ch cs ih =>
      rw [SingleDashes, List.infix_cons_iff, List.cons_prefix_cons, List.head?_cons]
      by_cases hch : ch = '-'
      · have hprefix : ['-'] <+: cs ↔ cs.head? = some '-' := by
          cases cs <;> simp [List.cons_prefix_cons, eq_comm]
        rw [if_pos hch, ih, hprefix]
        simp only [hch, true_and, ne_eq, not_true, imp_false, forall_const]
        cases prevDash <;> simp [and_comm, not_or]
      · rw [if_neg hch, ih]
        simp [hch, Ne.symm hch]

/-- The dashes of a slug: inside, and one by one. -/
structure DashesFine (l : List Char) : Prop where
  noLeading : l.head? ≠ some '-'
  noTrailing : l.getLast? ≠ some '-'
  noDoubled : ¬ ['-', '-'] <:+: l

/-! ## What the loops do -/

/-- What the Unicode tables say of a dash and of lower-casing. -/
structure CharTables.Lawful (tables : CharTables) : Prop where
  dash_not_kept : tables.isKept '-' = false
  dash_not_upper : tables.isUppercase '-' = false
  lower_ne_nil : ∀ c, tables.toLowercase c ≠ []
  lower_not_dash : ∀ c, tables.isKept c = true → '-' ∉ tables.toLowercase c
  /-- Lower-casing once is enough. -/
  lower_stable : ∀ c, ∀ d ∈ tables.toLowercase c, tables.toLowercase d = [d]

variable {tables} {prevDash : Bool} {l : List Char}

/-- A turn of the loop keeps a character, writes a dash or drops one. -/
theorem slugLoop_cons (c : Char) (cs : List Char) :
    (tables.isKept c = true ∧
      slugLoop tables prevDash (c :: cs) = tables.toLowercase c ++ slugLoop tables false cs) ∨
    (tables.isKept c = false ∧ prevDash = false ∧
      slugLoop tables prevDash (c :: cs) = '-' :: slugLoop tables true cs) ∨
    (tables.isKept c = false ∧ slugLoop tables prevDash (c :: cs) = slugLoop tables prevDash cs ∧
      (prevDash = false → c ≠ '-')) := by
  rw [slugLoop]
  cases hkept : tables.isKept c with
  | true =>
      rw [if_pos rfl]
      exact Or.inl ⟨rfl, rfl⟩
  | false =>
      rw [if_neg Bool.false_ne_true]
      split
      · rename_i hsep
        rw [Bool.and_eq_true, Bool.not_eq_true'] at hsep
        exact Or.inr (Or.inl ⟨rfl, hsep.2, rfl⟩)
      · rename_i hsep
        refine Or.inr (Or.inr ⟨rfl, rfl, fun hprev hdash => hsep ?_⟩)
        rw [hprev, hdash]
        simp

/-- What the loop pushes is a dash, or comes from a kept character. -/
theorem of_mem_slugLoop {d : Char} (h : d ∈ slugLoop tables prevDash l) :
    d = '-' ∨ ∃ c ∈ l, tables.isKept c = true ∧ d ∈ tables.toLowercase c := by
  induction l generalizing prevDash with
  | nil => cases h
  | cons c cs ih =>
      have htail : ∀ {prevDash : Bool}, d ∈ slugLoop tables prevDash cs →
          d = '-' ∨ ∃ x ∈ c :: cs, tables.isKept x = true ∧ d ∈ tables.toLowercase x := by
        intro prevDash hd
        rcases ih hd with hdash | ⟨x, hx, hrest⟩
        · exact Or.inl hdash
        · exact Or.inr ⟨x, List.mem_cons_of_mem _ hx, hrest⟩
      rcases slugLoop_cons c cs with ⟨hkept, heq⟩ | ⟨-, -, heq⟩ | ⟨-, heq, -⟩
      · rw [heq, List.mem_append] at h
        rcases h with h | h
        · exact Or.inr ⟨c, List.mem_cons_self, hkept, h⟩
        · exact htail h
      · rw [heq] at h
        rcases List.mem_cons.mp h with h | h
        · exact Or.inl h
        · exact htail h
      · rw [heq] at h
        exact htail h

/-- A kept character contributes its lowercase form. -/
theorem mem_slugLoop {c d : Char} (hc : c ∈ l) (hkept : tables.isKept c = true) (hd : d ∈ tables.toLowercase c) :
    d ∈ slugLoop tables prevDash l := by
  induction l generalizing prevDash with
  | nil => cases hc
  | cons x cs ih =>
      rcases slugLoop_cons x cs with ⟨-, heq⟩ | ⟨hnot, -, heq⟩ | ⟨hnot, heq, -⟩
      · rw [heq, List.mem_append]
        rcases List.mem_cons.mp hc with rfl | hc
        · exact Or.inl hd
        · exact Or.inr (ih hc)
      · have hne : c ≠ x := by
          rintro rfl
          rw [hkept] at hnot
          cases hnot
        rw [heq]
        exact List.mem_cons_of_mem _ (ih (List.mem_of_ne_of_mem hne hc))
      · have hne : c ≠ x := by
          rintro rfl
          rw [hkept] at hnot
          cases hnot
        rw [heq]
        exact ih (List.mem_of_ne_of_mem hne hc)

/-- Behind what has no dash, dashes may go on single. -/
theorem SingleDashes.append {m : List Char} (hdash : '-' ∉ l) (hne : l ≠ []) (h : SingleDashes false m) :
    SingleDashes prevDash (l ++ m) := by
  induction l generalizing prevDash with
  | nil => exact absurd rfl hne
  | cons c cs ih =>
      have hc : c ≠ '-' := fun hc => hdash (hc ▸ List.mem_cons_self)
      rw [List.cons_append, SingleDashes, if_neg hc]
      cases cs with
      | nil => exact h
      | cons x cs => exact ih (fun hx => hdash (List.mem_cons_of_mem _ hx)) (List.cons_ne_nil _ _)

/-- The loop writes single dashes. -/
theorem singleDashes_slugLoop (laws : tables.Lawful) : SingleDashes prevDash (slugLoop tables prevDash l) := by
  induction l generalizing prevDash with
  | nil => trivial
  | cons c cs ih =>
      rcases slugLoop_cons c cs with ⟨hkept, heq⟩ | ⟨-, hprev, heq⟩ | ⟨-, heq, -⟩
      · rw [heq]
        exact SingleDashes.append (laws.lower_not_dash c hkept) (laws.lower_ne_nil c) ih
      · rw [heq, SingleDashes, if_pos rfl]
        exact ⟨hprev, ih⟩
      · rw [heq]
        exact ih

/-- The characters that are lower-cased to themselves. -/
def Fixed (tables : CharTables) (l : List Char) : Prop := ∀ c ∈ l, tables.isKept c = true → tables.toLowercase c = [c]

/-- Where lower-casing changes nothing, the loop adds nothing. -/
theorem length_slugLoop_le (h : Fixed tables l) : (slugLoop tables prevDash l).length ≤ l.length := by
  induction l generalizing prevDash with
  | nil => exact Nat.le_refl _
  | cons c cs ih =>
      have hrest : Fixed tables cs := fun x hx => h x (List.mem_cons_of_mem _ hx)
      rcases slugLoop_cons c cs with ⟨hkept, heq⟩ | ⟨-, -, heq⟩ | ⟨-, heq, -⟩
      · rw [heq, h c List.mem_cons_self hkept]
        exact Nat.succ_le_succ (ih hrest)
      · rw [heq]
        exact Nat.succ_le_succ (ih hrest)
      · rw [heq]
        exact Nat.le_succ_of_le (ih hrest)

/-- Where lower-casing changes nothing, the loop changes nothing exactly if there is nothing to drop. -/
theorem slugLoop_eq_self_iff (laws : tables.Lawful) (h : Fixed tables l) :
    slugLoop tables prevDash l = l ↔ (∀ c ∈ l, c = '-' ∨ tables.isKept c = true) ∧ SingleDashes prevDash l := by
  induction l generalizing prevDash with
  | nil => simp [slugLoop, SingleDashes]
  | cons c cs ih =>
      have hrest : Fixed tables cs := fun x hx => h x (List.mem_cons_of_mem _ hx)
      rw [SingleDashes, List.forall_mem_cons]
      rcases slugLoop_cons c cs with ⟨hkept, heq⟩ | ⟨hnot, hprev, heq⟩ | ⟨hnot, heq, hdash⟩
      · have hc : c ≠ '-' := by
          rintro rfl
          rw [laws.dash_not_kept] at hkept
          cases hkept
        rw [heq, h c List.mem_cons_self hkept, if_neg hc, List.singleton_append, List.cons.injEq, ih hrest]
        simp [hkept]
      · rw [heq, List.cons.injEq, ih hrest, hnot]
        by_cases hc : c = '-'
        · simp [hc, hprev]
        · simp [hc, Ne.symm hc]
      · -- what is dropped is missing
        refine iff_of_false (fun hsame => ?_) ?_
        · have hlength : (slugLoop tables prevDash cs).length ≤ cs.length := length_slugLoop_le hrest
          rw [← heq, hsame, List.length_cons] at hlength
          omega
        · rintro ⟨⟨hc | hc, -⟩, hsingle⟩
          · rw [if_pos hc] at hsingle
            exact hdash hsingle.1 hc
          · rw [hnot] at hc
            cases hc

/-- **What the loop accepts**: kept characters and single dashes, none of them in capitals. By induction on the text. -/
theorem canonicalLoop_iff : canonicalLoop tables prevDash l = true ↔
    (∀ c ∈ l, c = '-' ∨ tables.isKept c = true) ∧ (∀ c ∈ l, tables.isUppercase c = false) ∧
      SingleDashes prevDash l := by
  induction l generalizing prevDash with
  | nil => simp [canonicalLoop, SingleDashes]
  | cons c cs ih =>
      rw [canonicalLoop, SingleDashes, List.forall_mem_cons, List.forall_mem_cons]
      cases hupper : tables.isUppercase c with
      | true => simp
      | false =>
          rw [if_neg Bool.false_ne_true]
          by_cases hc : c = '-'
          · rw [if_pos hc, if_pos hc]
            cases prevDash with
            | true => simp
            | false => simpa [hc] using ih
          · rw [if_neg hc, if_neg hc]
            by_cases hkept : tables.isKept c = true
            · rw [if_pos hkept, ih]
              simp [hkept]
            · rw [if_neg hkept]
              simp [hc, hkept]

/-! ## Slugs -/

/-- Kept characters, and dashes as a slug has them. -/
structure Shaped (tables : CharTables) (l : List Char) : Prop extends DashesFine l where
  chars : ∀ c ∈ l, c = '-' ∨ tables.isKept c = true

variable {input : String}

/-- A canonical name is in shape, and has no capital. -/
theorem isCanonicalDTag_iff : isCanonicalDTag tables input = true ↔
    Shaped tables input.toList ∧ ∀ c ∈ input.toList, tables.isUppercase c = false := by
  unfold isCanonicalDTag
  split
  · rename_i hends
    simp only [Bool.or_eq_true, decide_eq_true_eq] at hends
    refine iff_of_false Bool.false_ne_true (fun h => ?_)
    rcases hends with hends | hends
    · exact h.1.noLeading hends
    · exact h.1.noTrailing hends
  · rename_i hends
    simp only [Bool.or_eq_true, decide_eq_true_eq, not_or] at hends
    rw [canonicalLoop_iff, singleDashes_iff]
    constructor
    · rintro ⟨hchars, hupper, hdouble, -⟩
      exact ⟨⟨⟨hends.1, hends.2, hdouble⟩, hchars⟩, hupper⟩
    · rintro ⟨hshaped, hupper⟩
      exact ⟨hshaped.chars, hupper, hshaped.noDoubled, fun h => by cases h⟩

/-- The slug is what the loop yields, without the dashes at its end. -/
theorem toList_slugOf : (slugOf tables input).toList =
    (slugLoop tables true input.toList).rdropWhile (fun ch => ch = '-') := String.toList_ofList

/-- Whatever the text, the loop leaves dashes as a slug has them. -/
theorem dashesFine_slugOf (laws : tables.Lawful) (input : String) : DashesFine (slugOf tables input).toList := by
  have hsingle : SingleDashes true (slugLoop tables true input.toList) := singleDashes_slugLoop laws
  obtain ⟨hdouble, hlead⟩ := singleDashes_iff.mp hsingle
  rw [toList_slugOf]
  have hprefix := List.rdropWhile_prefix (p := fun ch => decide (ch = '-')) (l := slugLoop tables true input.toList)
  refine ⟨fun hhead => ?_, fun hlast => ?_, fun hinside => hdouble (hinside.trans hprefix.isInfix)⟩
  · obtain ⟨rest, hrest⟩ := hprefix
    refine hlead rfl ?_
    rw [← hrest, List.head?_append, hhead]
    rfl
  · have hne : (slugLoop tables true input.toList).rdropWhile (fun ch => decide (ch = '-')) ≠ [] := by
      intro hnil
      rw [hnil] at hlast
      cases hlast
    have hnot := List.rdropWhile_last_not _ _ hne
    rw [List.getLast?_eq_some_getLast hne, Option.some.injEq] at hlast
    exact hnot (by rw [hlast]; rfl)

/-- Apart from dashes, the slug has what the loop yields. -/
theorem mem_slugOf {d : Char} (hd : d ≠ '-') :
    d ∈ (slugOf tables input).toList ↔ d ∈ slugLoop tables true input.toList := by
  rw [toList_slugOf]
  have hprefix := List.rdropWhile_prefix (p := fun ch => decide (ch = '-')) (l := slugLoop tables true input.toList)
  refine ⟨fun h => hprefix.subset h, fun h => ?_⟩
  have hsplit := List.rdropWhile_append_rtakeWhile (p := fun ch => decide (ch = '-'))
    (l := slugLoop tables true input.toList)
  rw [← hsplit, List.mem_append] at h
  refine h.resolve_right (fun hdash => hd ?_)
  simpa using List.mem_rtakeWhile_imp hdash

/-- **The loop leaves a text as it is** exactly if the text has the shape of a slug and lower-casing changes nothing. -/
theorem slugOf_eq_self_iff (laws : tables.Lawful) :
    slugOf tables input = input ↔ Shaped tables input.toList ∧ Fixed tables input.toList := by
  constructor
  · intro h
    have hfine := dashesFine_slugOf laws input
    rw [h] at hfine
    have hfixed : Fixed tables input.toList := by
      intro c hc hkept
      have hne : c ≠ '-' := by
        rintro rfl
        rw [laws.dash_not_kept] at hkept
        cases hkept
      rw [← h, mem_slugOf hne] at hc
      obtain ⟨x, -, -, hx⟩ := (of_mem_slugLoop hc).resolve_left hne
      exact laws.lower_stable x c hx
    have hprefix := List.rdropWhile_prefix (p := fun ch => decide (ch = '-')) (l := slugLoop tables true input.toList)
    rw [← toList_slugOf, h] at hprefix
    have hloop := hprefix.eq_of_length_le (length_slugLoop_le hfixed)
    exact ⟨⟨hfine, ((slugLoop_eq_self_iff laws hfixed).mp hloop.symm).1⟩, hfixed⟩
  · rintro ⟨hshaped, hfixed⟩
    have hsingle : SingleDashes true input.toList :=
      singleDashes_iff.mpr ⟨hshaped.noDoubled, fun _ => hshaped.noLeading⟩
    have hloop := (slugLoop_eq_self_iff laws hfixed).mpr ⟨hshaped.chars, hsingle⟩
    rw [← String.toList_inj, toList_slugOf, hloop, List.rdropWhile_eq_self_iff]
    intro hne hdash
    apply hshaped.noTrailing
    rw [List.getLast?_eq_some_getLast hne, of_decide_eq_true hdash]

/-- What the property of a normal form comes to for one text. -/
structure NormalForm (tables : CharTables) (input : String) : Prop where
  idempotent : normalizeDTag tables (normalizeDTag tables input) = normalizeDTag tables input
  canonical : isCanonicalDTag tables (normalizeDTag tables input) = true
  dashes : DashesFine (normalizeDTag tables input).toList
  fastPath : isCanonicalDTag tables input = true ↔ slugOf tables input = input

/-- The characters that lower-casing gives are kept, and no capitals. -/
def LowersWell (tables : CharTables) (l : List Char) : Prop :=
  ∀ c ∈ l, tables.isKept c = true → ∀ d ∈ tables.toLowercase c, tables.isKept d = true ∧ tables.isUppercase d = false

instance (tables : CharTables) (l : List Char) : Decidable (LowersWell tables l) :=
  decidable_of_iff (l.all (fun c => !tables.isKept c ||
      (tables.toLowercase c).all (fun d => tables.isKept d && !tables.isUppercase d)) = true) (by
    simp only [LowersWell, List.all_eq_true, Bool.or_eq_true, Bool.not_eq_true', Bool.and_eq_true,
      ← Bool.not_eq_true, ← imp_iff_not_or])

/-- **Slugs are a normal form** of a text exactly if lower-casing leads to kept characters that are no capitals, and,
    should the text have the shape of a slug and no capitals, changes nothing.

    A canonical text is handed back, and any other goes through the loop. The loop's result is in shape, so it is
    canonical where lower-casing leads to no capital; and the loop leaves a text as it is exactly where that is
    fixed under lower-casing (`slugOf_eq_self_iff`). -/
theorem normalize_normal_iff (laws : tables.Lawful) (input : String) : NormalForm tables input ↔
    LowersWell tables input.toList ∧
      (Shaped tables input.toList → (∀ c ∈ input.toList, tables.isUppercase c = false) →
        Fixed tables input.toList) := by
  constructor
  · intro h
    have hfixed : isCanonicalDTag tables input = true → Fixed tables input.toList := fun hcanon =>
      ((slugOf_eq_self_iff laws).mp (h.fastPath.mp hcanon)).2
    refine ⟨fun c hc hkept d hd => ?_, fun hshaped hupper => hfixed (isCanonicalDTag_iff.mpr ⟨hshaped, hupper⟩)⟩
    have hne : d ≠ '-' := by
      rintro rfl
      exact laws.lower_not_dash c hkept hd
    obtain ⟨hshaped, hupper⟩ := isCanonicalDTag_iff.mp h.canonical
    have hmem : d ∈ (normalizeDTag tables input).toList := by
      unfold normalizeDTag
      split
      · rename_i hcanon
        rw [hfixed hcanon c hc hkept, List.mem_singleton] at hd
        rw [hd]
        exact hc
      · exact (mem_slugOf hne).mpr (mem_slugLoop hc hkept hd)
    exact ⟨(hshaped.chars d hmem).resolve_left hne, hupper d hmem⟩
  · rintro ⟨hlower, hfixed⟩
    by_cases hcanon : isCanonicalDTag tables input = true
    · -- the text is handed back, and the loop would not change it
      have hsame : normalizeDTag tables input = input := if_pos hcanon
      obtain ⟨hshaped, hupper⟩ := isCanonicalDTag_iff.mp hcanon
      refine ⟨?_, ?_, ?_, iff_of_true hcanon ((slugOf_eq_self_iff laws).mpr ⟨hshaped, hfixed hshaped hupper⟩)⟩
      · rw [hsame, hsame]
      · rw [hsame, hcanon]
      · rw [hsame]
        exact hshaped.toDashesFine
    · -- the loop leaves dashes and lower-cased characters
      have hslug : normalizeDTag tables input = slugOf tables input := if_neg hcanon
      have hout : isCanonicalDTag tables (slugOf tables input) = true := by
        rw [isCanonicalDTag_iff]
        refine ⟨⟨dashesFine_slugOf laws input, fun d hd => ?_⟩, fun d hd => ?_⟩
        · by_cases hne : d = '-'
          · exact Or.inl hne
          · obtain ⟨c, hc, hkept, hdc⟩ := (of_mem_slugLoop ((mem_slugOf hne).mp hd)).resolve_left hne
            exact Or.inr (hlower c hc hkept d hdc).1
        · by_cases hne : d = '-'
          · rw [hne]
            exact laws.dash_not_upper
          · obtain ⟨c, hc, hkept, hdc⟩ := (of_mem_slugLoop ((mem_slugOf hne).mp hd)).resolve_left hne
            exact (hlower c hc hkept d hdc).2
      refine ⟨?_, ?_, ?_, iff_of_false hcanon (fun hsame => hcanon ?_)⟩
      · rw [hslug, normalizeDTag, if_pos hout]
      · rw [hslug, hout]
      · rw [hslug]
        exact dashesFine_slugOf laws input
      · rw [← hsame, hout]

end Tables

namespace Sample

/-- The tables at ASCII letters and digits, the dotted capital `İ` and the titlecase `ǅ`. -/
def tables : CharTables where
  isAlphabetic := fun c => c.isAlpha || c = 'İ' || c = 'ǅ' || c = 'ǆ'
  isNumeric := Char.isDigit
  isUppercase := fun c => c.isUpper || c = 'İ'
  toLowercase := fun c => if c = 'İ' then ['i', Char.ofNat 0x307] else if c = 'ǅ' then ['ǆ'] else [c.toLower]

/-- A letter that no lower case has is left by lower-casing only where it was. -/
theorem eq_of_toLower_eq {c d : Char} (hd : d.isLower = false) (h : c.toLower = d) : c = d := by
  by_cases hupper : c.isUpper = true
  · have hlower := Char.isLower_toLower_eq_isAlpha c
    rw [h, hd, Char.isAlpha, hupper, Bool.true_or] at hlower
    cases hlower
  · rw [Char.toLower_eq_of_not_isUpper hupper] at h
    exact h

/-- These tables obey the laws. Two characters are special, and every other follows `Char.toLower`. -/
theorem lawful : tables.Lawful where
  dash_not_kept := by decide
  dash_not_upper := by decide
  lower_ne_nil := by
    intro c
    unfold tables
    dsimp only
    split
    · exact List.cons_ne_nil _ _
    · split <;> exact List.cons_ne_nil _ _
  lower_not_dash := by
    intro c hkept hdash
    unfold tables at hdash
    dsimp only at hdash
    split at hdash
    · revert hdash
      decide
    · split at hdash
      · revert hdash
        decide
      · obtain rfl : c = '-' := eq_of_toLower_eq (by decide) (List.mem_singleton.mp hdash).symm
        cases hkept
  lower_stable := by
    intro c d hd
    unfold tables at hd ⊢
    dsimp only at hd ⊢
    split at hd
    · rcases List.mem_cons.mp hd with rfl | hd
      · decide
      · rw [List.mem_singleton.mp hd]
        decide
    · rename_i hdotted
      split at hd
      · rw [List.mem_singleton.mp hd]
        decide
      · rename_i htitle
        have hlower := List.mem_singleton.mp hd
        rw [if_neg (fun h => hdotted (eq_of_toLower_eq (by decide) (hlower.symm.trans h))),
          if_neg (fun h => htitle (eq_of_toLower_eq (by decide) (hlower.symm.trans h))), hlower,
          Char.toLower_toLower_eq_toLower]

end Sample

theorem normalize_normal_title : NormalForm Sample.tables "Wiki Article" := by
  refine (normalize_normal_iff Sample.lawful "Wiki Article").mpr ⟨?_, fun _ hupper => ?_⟩
  · decide
  · exact absurd (hupper 'W' (by decide)) (by decide)

/-- `İ` is lower-cased to an `i` and a combining dot, which the next pass drops; `ǅ` passes the check, and the loop
    would lower-case it. -/
theorem capitals_not_normal :
    normalizeDTag Sample.tables (normalizeDTag Sample.tables "İ") ≠ normalizeDTag Sample.tables "İ" ∧
    isCanonicalDTag Sample.tables (normalizeDTag Sample.tables "İ") = false ∧
    isCanonicalDTag Sample.tables "ǅ" = true ∧ slugOf Sample.tables "ǅ" ≠ "ǅ" := by
  decide

end Nula.Nip54
