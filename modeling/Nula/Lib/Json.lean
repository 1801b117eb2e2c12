import Mathlib

/-!
# `Lib.Json` — JSON texts

Values as programs write them (`JsonValue`), texts as programs read them (`JsonContent`), the compact writer, a
recursive-descent reader, and the round trip between the two (`Json.read_write`). Texts are lists of
characters.

What is read keeps two things a value does not have: whether a string stood in the text as it is or behind an
escape (a reader that lends its strings out can only lend the former), and the numbers that are no unsigned
64-bit integers.

A codec (`JsonCodec`) is a writer and a reader tied by the round trip; programs take one as a parameter.
-/

namespace Nula

/-! ## Values and contents -/

/-- A value to be written. -/
inductive JsonValue where
  | null
  | bool (b : Bool)
  | number (n : UInt64)
  | string (s : String)
  | array (elements : List JsonValue)
  | object (members : List (String × JsonValue))

/-- What a reader makes of a text. -/
inductive JsonContent where
  | null
  | bool (b : Bool)
  | unsigned (n : UInt64)
  /-- Negative, fractional, or out of range. -/
  | otherNumber
  /-- Without escapes: lent from the text. -/
  | str (s : String)
  /-- With escapes: a copy. -/
  | string (s : String)
  | seq (elements : List JsonContent)
  | map (members : List (String × JsonContent))

namespace Json

/-- The characters a string cannot hold as they are. -/
def escaped (c : Char) : Bool := c = '"' || c = '\\' || c.toNat < 0x20

/-- How a string comes back. -/
def stringContent (s : String) : JsonContent :=
  if s.toList.any escaped then .string s else .str s

end Json

open Json

mutual

/-- The value as it is read back. -/
def JsonValue.content : JsonValue → JsonContent
  | .null => .null
  | .bool b => .bool b
  | .number n => .unsigned n
  | .string s => stringContent s
  | .array elements => .seq (contentElements elements)
  | .object members => .map (contentMembers members)

/-- The contents of the elements. -/
def contentElements : List JsonValue → List JsonContent
  | [] => []
  | v :: vs => v.content :: contentElements vs

/-- The contents of the members. -/
def contentMembers : List (String × JsonValue) → List (String × JsonContent)
  | [] => []
  | (name, v) :: vs => (name, v.content) :: contentMembers vs

end

@[simp] theorem contentElements_eq_map (vs : List JsonValue) : contentElements vs = vs.map JsonValue.content := by
  induction vs with
  | nil => rfl
  | cons v vs ih => rw [contentElements, ih, List.map_cons]

@[simp] theorem contentMembers_eq_map (vs : List (String × JsonValue)) :
    contentMembers vs = vs.map (fun m => (m.1, m.2.content)) := by
  induction vs with
  | nil => rfl
  | cons m vs ih => rw [contentMembers, ih, List.map_cons]

theorem JsonValue.content_object (members : List (String × JsonValue)) :
    (JsonValue.object members).content = .map (members.map (fun m => (m.1, m.2.content))) := by
  rw [JsonValue.content, contentMembers_eq_map]

mutual

/-- How deep arrays and objects are nested. -/
def JsonValue.depth : JsonValue → Nat
  | .array elements => depthElements elements + 1
  | .object members => depthMembers members + 1
  | _ => 0

/-- The depth of the deepest element. -/
def depthElements : List JsonValue → Nat
  | [] => 0
  | v :: vs => max v.depth (depthElements vs)

/-- The depth of the deepest member. -/
def depthMembers : List (String × JsonValue) → Nat
  | [] => 0
  | (_, v) :: vs => max v.depth (depthMembers vs)

end

theorem depth_array_le {elements : List JsonValue} {k : Nat} (h : ∀ v ∈ elements, v.depth ≤ k) :
    (JsonValue.array elements).depth ≤ k + 1 := by
  have hall : depthElements elements ≤ k := by
    induction elements with
    | nil => exact Nat.zero_le k
    | cons v vs ih =>
        obtain ⟨hv, hvs⟩ := List.forall_mem_cons.mp h
        rw [depthElements]
        exact max_le hv (ih hvs)
  rw [JsonValue.depth]
  exact Nat.succ_le_succ hall

theorem depth_object_le {members : List (String × JsonValue)} {k : Nat} (h : ∀ m ∈ members, m.2.depth ≤ k) :
    (JsonValue.object members).depth ≤ k + 1 := by
  have hall : depthMembers members ≤ k := by
    induction members with
    | nil => exact Nat.zero_le k
    | cons m vs ih =>
        obtain ⟨hm, hvs⟩ := List.forall_mem_cons.mp h
        rw [depthMembers]
        exact max_le hm (ih hvs)
  rw [JsonValue.depth]
  exact Nat.succ_le_succ hall

namespace Json

/-! ## The writer -/

/-- A lowercase hexadecimal digit. -/
def hexDigit (n : Nat) : Char := if n < 10 then Char.ofNat (48 + n) else Char.ofNat (87 + n)

/-- The two-character escapes where JSON has one, `\u00xx` for the other control characters. -/
def escape (c : Char) : List Char :=
  if c = '"' then ['\\', '"']
  else if c = '\\' then ['\\', '\\']
  else if c = '\x08' then ['\\', 'b']
  else if c = '\t' then ['\\', 't']
  else if c = '\n' then ['\\', 'n']
  else if c = '\x0c' then ['\\', 'f']
  else if c = '\r' then ['\\', 'r']
  else if c.toNat < 0x20 then ['\\', 'u', '0', '0', hexDigit (c.toNat / 16), hexDigit (c.toNat % 16)]
  else [c]

/-- A text between quotes, escaped. -/
def writeString (s : String) : List Char := '"' :: s.toList.flatMap escape ++ ['"']

/-- Decimal digits, most significant first. -/
def writeNumber (n : Nat) : List Char :=
  if n = 0 then ['0'] else (Nat.digits 10 n).reverse.map (fun d => Char.ofNat (48 + d))

mutual

/-- The compact text of a value. -/
def writeValue : JsonValue → List Char
  | .null => ['n', 'u', 'l', 'l']
  | .bool true => ['t', 'r', 'u', 'e']
  | .bool false => ['f', 'a', 'l', 's', 'e']
  | .number n => writeNumber n.toNat
  | .string s => writeString s
  | .array [] => ['[', ']']
  | .array (v :: vs) => '[' :: writeValue v ++ writeElements vs
  | .object [] => ['\x7b', '\x7d']
  | .object ((name, v) :: vs) => '\x7b' :: writeString name ++ ':' :: writeValue v ++ writeMembers vs

/-- The elements after the first, and the end. -/
def writeElements : List JsonValue → List Char
  | [] => [']']
  | v :: vs => ',' :: writeValue v ++ writeElements vs

/-- What follows the first member of an object. -/
def writeMembers : List (String × JsonValue) → List Char
  | [] => ['\x7d']
  | (name, v) :: vs => ',' :: writeString name ++ ':' :: writeValue v ++ writeMembers vs

end

theorem escape_plain {c : Char} (h : escaped c = false) : escape c = [c] := by
  simp only [escaped, Bool.or_eq_false_iff, decide_eq_false_iff_not] at h
  obtain ⟨⟨hquote, hslash⟩, hcontrol⟩ := h
  have hne : ∀ d : Char, d.toNat < 0x20 → c ≠ d := by
    rintro d hd rfl
    exact hcontrol hd
  rw [escape, if_neg hquote, if_neg hslash, if_neg (hne _ (by decide)), if_neg (hne _ (by decide)),
    if_neg (hne _ (by decide)), if_neg (hne _ (by decide)), if_neg (hne _ (by decide)), if_neg hcontrol]

theorem length_writeString_le (s : String) : (writeString s).length ≤ 6 * s.toList.length + 2 := by
  have hescape : ∀ c : Char, (escape c).length ≤ 6 := by
    intro c
    unfold escape
    split_ifs <;> simp
  have hall : ∀ cs : List Char, (cs.flatMap escape).length ≤ 6 * cs.length := by
    intro cs
    induction cs with
    | nil => exact le_rfl
    | cons c cs ih =>
        have hc := hescape c
        simp only [List.flatMap_cons, List.length_append, List.length_cons]
        omega
  have hs := hall s.toList
  simp only [writeString, List.length_cons, List.length_append, List.length_nil]
  omega

/-- A number of 64 bits has at most twenty digits. -/
theorem length_writeNumber_le {n : Nat} (h : n < 2 ^ 64) : (writeNumber n).length ≤ 20 := by
  unfold writeNumber
  split
  · simp
  · rw [List.length_map, List.length_reverse, Nat.digits_length_le_iff (by decide)]
    exact h.trans (by decide)

/-! ## The reader -/

/-- The white space of JSON. -/
def isSpace (c : Char) : Bool := c = ' ' || c = '\n' || c = '\t' || c = '\r'

/-- White space is passed over. -/
def skipSpace (cs : List Char) : List Char := cs.dropWhile isSpace

/-- The value of a hexadecimal digit, either case. -/
def hexValue (c : Char) : Option Nat :=
  if '0' ≤ c ∧ c ≤ '9' then some (c.toNat - 48)
  else if 'a' ≤ c ∧ c ≤ 'f' then some (c.toNat - 87)
  else if 'A' ≤ c ∧ c ≤ 'F' then some (c.toNat - 55)
  else none

/-- The four digits of an escape. -/
def readHex : List Char → Option (Nat × List Char)
  | a :: b :: c :: d :: rest => do
      let a ← hexValue a
      let b ← hexValue b
      let c ← hexValue c
      let d ← hexValue d
      return (a * 4096 + b * 256 + c * 16 + d, rest)
  | _ => none

/-- `\uXXXX`: a surrogate only as the first of a pair. -/
def readUnicode (cs : List Char) : Option (Char × List Char) := do
  let (n, rest) ← readHex cs
  -- a second half without its first
  if 0xdc00 ≤ n ∧ n ≤ 0xdfff then none
  else if 0xd800 ≤ n ∧ n ≤ 0xdbff then
    match rest with
    | '\\' :: 'u' :: rest => do
        let (low, rest) ← readHex rest
        if 0xdc00 ≤ low ∧ low ≤ 0xdfff then
          return (Char.ofNat ((n - 0xd800) * 0x400 + (low - 0xdc00) + 0x10000), rest)
        else none
    | _ => none
  else return (Char.ofNat n, rest)

/-- What follows a backslash. -/
def readEscape : List Char → Option (Char × List Char)
  | '"' :: rest => some ('"', rest)
  | '\\' :: rest => some ('\\', rest)
  | '/' :: rest => some ('/', rest)
  | 'b' :: rest => some ('\x08', rest)
  | 'f' :: rest => some ('\x0c', rest)
  | 'n' :: rest => some ('\n', rest)
  | 'r' :: rest => some ('\r', rest)
  | 't' :: rest => some ('\t', rest)
  | 'u' :: rest => readUnicode rest
  | _ => none

/-- The characters up to the closing quote, and whether one of them was escaped. -/
def readCharacters : Nat → List Char → Option ((List Char × Bool) × List Char)
  | 0, _ => none
  | _ + 1, [] => none
  | fuel + 1, c :: cs =>
      if c = '"' then some (([], false), cs)
      else if c = '\\' then do
        let (c, cs) ← readEscape cs
        let ((tail, _), rest) ← readCharacters fuel cs
        return ((c :: tail, true), rest)
      -- control characters must be escaped
      else if c.toNat < 0x20 then none
      else do
        let ((tail, escapes), rest) ← readCharacters fuel cs
        return ((c :: tail, escapes), rest)

/-- A string behind its opening quote. -/
def readString (fuel : Nat) (cs : List Char) : Option ((String × Bool) × List Char) :=
  (readCharacters fuel cs).map (fun r => ((String.ofList r.1.1, r.1.2), r.2))

/-- `.` and digits; whether there was a fraction. -/
def readFraction : List Char → Option (Bool × List Char)
  | '.' :: cs => if (cs.takeWhile Char.isDigit).isEmpty then none else some (true, cs.dropWhile Char.isDigit)
  | cs => some (false, cs)

/-- The sign of an exponent. -/
def skipSign : List Char → List Char
  | '+' :: cs => cs
  | '-' :: cs => cs
  | cs => cs

/-- `e` and digits; whether there was an exponent. -/
def readExponent : List Char → Option (Bool × List Char)
  | c :: cs =>
      if c = 'e' ∨ c = 'E' then
        if ((skipSign cs).takeWhile Char.isDigit).isEmpty then none
        else some (true, (skipSign cs).dropWhile Char.isDigit)
      else some (false, c :: cs)
  | [] => some (false, [])

/-- The number that digits stand for. -/
def digitsValue (ds : List Char) : Nat := ds.foldl (fun n d => n * 10 + (d.toNat - 48)) 0

/-- A number without its sign. -/
def readUnsigned (cs : List Char) : Option (JsonContent × List Char) :=
  let ds := cs.takeWhile Char.isDigit
  if ds = [] ∨ (ds.head? = some '0' ∧ ds ≠ ['0']) then none
  else do
    let (fraction, rest) ← readFraction (cs.dropWhile Char.isDigit)
    let (exponent, rest) ← readExponent rest
    if fraction || exponent || 2 ^ 64 ≤ digitsValue ds then return (.otherNumber, rest)
    else return (.unsigned (UInt64.ofNat (digitsValue ds)), rest)

/-- A number, signed or not. -/
def readNumber : List Char → Option (JsonContent × List Char)
  | '-' :: cs => (readUnsigned cs).map (fun r => (.otherNumber, r.2))
  | cs => readUnsigned cs

/-- The name of a member, its colon included. -/
def readName (fuel : Nat) (cs : List Char) : Option (String × List Char) :=
  match skipSpace cs with
  | '"' :: cs => do
      let ((name, _), cs) ← readString fuel cs
      match skipSpace cs with
      | ':' :: cs => return (name, cs)
      | _ => none
  | _ => none

mutual

/-- A value behind its white space; `depth` more arrays and objects may be opened. -/
def readValue : Nat → Nat → List Char → Option (JsonContent × List Char)
  | 0, _, _ => none
  | fuel + 1, depth, cs =>
      match skipSpace cs with
      | 'n' :: 'u' :: 'l' :: 'l' :: cs => some (.null, cs)
      | 't' :: 'r' :: 'u' :: 'e' :: cs => some (.bool true, cs)
      | 'f' :: 'a' :: 'l' :: 's' :: 'e' :: cs => some (.bool false, cs)
      -- a string without escapes is borrowed from the text
      | '"' :: cs => (readString fuel cs).map (fun r => (if r.1.2 then .string r.1.1 else .str r.1.1, r.2))
      | '[' :: cs =>
          if depth = 0 then none
          else if (skipSpace cs).head? = some ']' then some (.seq [], (skipSpace cs).tail)
          else do
            let (v, cs) ← readValue fuel (depth - 1) cs
            let (vs, cs) ← readElements fuel (depth - 1) cs
            return (.seq (v :: vs), cs)
      | '\x7b' :: cs =>
          if depth = 0 then none
          else if (skipSpace cs).head? = some '\x7d' then some (.map [], (skipSpace cs).tail)
          else do
            let (name, cs) ← readName fuel cs
            let (v, cs) ← readValue fuel (depth - 1) cs
            let (vs, cs) ← readMembers fuel (depth - 1) cs
            return (.map ((name, v) :: vs), cs)
      -- what starts like nothing else is a number, or nothing
      | cs => readNumber cs

/-- The elements after the first, and the end. -/
def readElements : Nat → Nat → List Char → Option (List JsonContent × List Char)
  | 0, _, _ => none
  | fuel + 1, depth, cs =>
      match skipSpace cs with
      | ']' :: cs => some ([], cs)
      | ',' :: cs => do
          let (v, cs) ← readValue fuel depth cs
          let (vs, cs) ← readElements fuel depth cs
          return (v :: vs, cs)
      | _ => none

/-- What follows the first member of an object, up to the closing brace. -/
def readMembers : Nat → Nat → List Char → Option (List (String × JsonContent) × List Char)
  | 0, _, _ => none
  | fuel + 1, depth, cs =>
      match skipSpace cs with
      | '\x7d' :: cs => some ([], cs)
      | ',' :: cs => do
          let (name, cs) ← readName fuel cs
          let (v, cs) ← readValue fuel depth cs
          let (vs, cs) ← readMembers fuel depth cs
          return ((name, v) :: vs, cs)
      | _ => none

end

/-- How many arrays and objects may be open at once. -/
def maxDepth : Nat := 127

/-- The text of a value. -/
def write (v : JsonValue) : String := String.ofList (writeValue v)

/-- A whole text: one value, and nothing but white space after it. -/
def read (text : String) : Option JsonContent :=
  match readValue text.length maxDepth text.toList with
  | some (v, rest) => if (skipSpace rest).isEmpty then some v else none
  | none => none

/-! ## Round trip -/

theorem skipSpace_cons {c : Char} (h : isSpace c = false) (cs : List Char) : skipSpace (c :: cs) = c :: cs := by
  rw [skipSpace, List.dropWhile_cons_of_neg (by simp [h])]

theorem hexValue_hexDigit : ∀ n < 16, hexValue (hexDigit n) = some n := by decide

/-! ### Strings -/

theorem readCharacters_escaped {c : Char} {e cs : List Char} (fuel : Nat) (h : readEscape (e ++ cs) = some (c, cs)) :
    readCharacters (fuel + 1) ('\\' :: e ++ cs) =
      (readCharacters fuel cs).map (fun r => ((c :: r.1.1, true), r.2)) := by
  rw [List.cons_append, readCharacters, if_neg (by decide), if_pos rfl, h]
  simp only [Option.bind_eq_bind, Option.bind_some]
  cases readCharacters fuel cs <;> rfl

theorem readCharacters_plain {c : Char} (cs : List Char) (fuel : Nat) (h : escaped c = false) :
    readCharacters (fuel + 1) (c :: cs) = (readCharacters fuel cs).map (fun r => ((c :: r.1.1, r.1.2), r.2)) := by
  simp only [escaped, Bool.or_eq_false_iff, decide_eq_false_iff_not] at h
  obtain ⟨⟨hquote, hslash⟩, hcontrol⟩ := h
  rw [readCharacters, if_neg hquote, if_neg hslash, if_neg hcontrol]
  cases readCharacters fuel cs <;> rfl

/-- The four digits of a control character. -/
theorem readEscape_control {c : Char} (h : c.toNat < 0x20) (cs : List Char) :
    readEscape (['u', '0', '0', hexDigit (c.toNat / 16), hexDigit (c.toNat % 16)] ++ cs) = some (c, cs) := by
  have hhigh := hexValue_hexDigit (c.toNat / 16) (by omega)
  have hlow := hexValue_hexDigit (c.toNat % 16) (by omega)
  have hvalue : 0 * 4096 + 0 * 256 + c.toNat / 16 * 16 + c.toNat % 16 = c.toNat := by omega
  have hread : readHex (['0', '0', hexDigit (c.toNat / 16), hexDigit (c.toNat % 16)] ++ cs) =
      some (c.toNat, cs) := by
    simp only [List.cons_append, List.nil_append, readHex, hhigh, hlow]
    exact congrArg (fun n => some (n, cs)) hvalue
  simp only [List.cons_append, List.nil_append] at hread ⊢
  rw [readEscape, readUnicode, hread]
  simp only [Option.bind_eq_bind, Option.bind_some]
  rw [if_neg (by omega), if_neg (by omega), Char.ofNat_toNat]
  rfl

/-- A character is read back from the text it is written as, escaped or not. A plain character stands for itself; an
    escape is read back by the case of `escape` that wrote it. -/
theorem readCharacters_escape (c : Char) (fuel : Nat) (cs : List Char) :
    readCharacters (fuel + 1) (escape c ++ cs) =
      (readCharacters fuel cs).map (fun r => ((c :: r.1.1, escaped c || r.1.2), r.2)) := by
  cases hesc : escaped c with
  | false =>
      have hcs : escape c = [c] := by
        simp only [escaped, Bool.or_eq_false_iff, decide_eq_false_iff_not] at hesc
        obtain ⟨⟨hquote, hslash⟩, hcontrol⟩ := hesc
        have hne : ∀ d : Char, d.toNat < 0x20 → c ≠ d := by
          rintro d hd rfl
          exact hcontrol hd
        rw [escape, if_neg hquote, if_neg hslash, if_neg (hne _ (by decide)), if_neg (hne _ (by decide)),
          if_neg (hne _ (by decide)), if_neg (hne _ (by decide)), if_neg (hne _ (by decide)), if_neg hcontrol]
      rw [hcs, List.singleton_append, readCharacters_plain cs fuel hesc]
      simp only [Bool.false_or]
  | true =>
      have hread : ∃ e, escape c = '\\' :: e ∧ readEscape (e ++ cs) = some (c, cs) := by
        rw [escape]
        split_ifs with h1 h2 h3 h4 h5 h6 h7 h8
        · exact ⟨_, rfl, by rw [h1]; rfl⟩
        · exact ⟨_, rfl, by rw [h2]; rfl⟩
        · exact ⟨_, rfl, by rw [h3]; rfl⟩
        · exact ⟨_, rfl, by rw [h4]; rfl⟩
        · exact ⟨_, rfl, by rw [h5]; rfl⟩
        · exact ⟨_, rfl, by rw [h6]; rfl⟩
        · exact ⟨_, rfl, by rw [h7]; rfl⟩
        · exact ⟨_, rfl, readEscape_control h8 cs⟩
        · simp [escaped, h1, h2, h8] at hesc
      obtain ⟨e, he, hread⟩ := hread
      rw [he, readCharacters_escaped fuel hread]
      simp only [Bool.true_or]

theorem readCharacters_escapes (s : List Char) (fuel : Nat) (rest : List Char) (h : s.length < fuel) :
    readCharacters fuel (s.flatMap escape ++ '"' :: rest) = some ((s, s.any escaped), rest) := by
  induction s generalizing fuel with
  | nil =>
      obtain ⟨fuel, rfl⟩ := Nat.exists_eq_add_of_lt h
      simp [readCharacters]
  | cons c s ih =>
      obtain ⟨fuel, rfl⟩ : ∃ k, fuel = k + 1 := ⟨fuel - 1, by simp at h; omega⟩
      rw [List.flatMap_cons, List.append_assoc, readCharacters_escape, ih fuel (by simpa using h)]
      rfl

theorem length_le_length_escape (s : List Char) : s.length ≤ (s.flatMap escape).length := by
  rw [List.length_flatMap]
  refine (List.length_le_sum_of_one_le _ ?_).trans' (by rw [List.length_map])
  intro k hk
  obtain ⟨c, -, rfl⟩ := List.mem_map.mp hk
  rw [escape]
  split_ifs <;> simp

/-- A written string, behind its opening quote. -/
theorem readString_writeString (s : String) (fuel : Nat) (rest : List Char) (h : s.toList.length < fuel) :
    readString fuel (s.toList.flatMap escape ++ '"' :: rest) = some ((s, s.toList.any escaped), rest) := by
  rw [readString, readCharacters_escapes _ _ _ h, Option.map_some, String.ofList_toList]

/-! ### Numbers -/

/-- What may follow a number. -/
def Stops (rest : List Char) : Prop :=
  ∀ c ∈ rest.head?, c.isDigit = false ∧ c ≠ '.' ∧ c ≠ 'e' ∧ c ≠ 'E'

theorem stops_nil : Stops [] := nofun

/-- A number ends before anything that could not continue it. -/
theorem stops_cons {c : Char} (h : c.isDigit = false ∧ c ≠ '.' ∧ c ≠ 'e' ∧ c ≠ 'E') (cs : List Char) :
    Stops (c :: cs) := by
  rintro d hd
  cases hd
  exact h

theorem digit_ofNat : ∀ d < 10, (Char.ofNat (48 + d)).isDigit = true ∧ (Char.ofNat (48 + d)).toNat - 48 = d := by
  decide

/-- The digits of a number, from the last to the first, stand for it. -/
theorem digitsValue_reverse (ds : List Nat) (h : ∀ d ∈ ds, d < 10) :
    digitsValue (ds.reverse.map (fun d => Char.ofNat (48 + d))) = Nat.ofDigits 10 ds := by
  induction ds with
  | nil => rfl
  | cons d ds ih =>
      have hd := (digit_ofNat d (h d List.mem_cons_self)).2
      have ih := ih (fun x hx => h x (List.mem_cons_of_mem _ hx))
      rw [digitsValue] at ih
      rw [List.reverse_cons, List.map_append, digitsValue, List.foldl_append, ih, Nat.ofDigits_cons]
      simp only [List.map_cons, List.map_nil, List.foldl_cons, List.foldl_nil, hd]
      omega

/-- Only digits, at least one, no leading zero, and their value is the number. -/
theorem writeNumber_spec (n : Nat) : (∀ c ∈ writeNumber n, c.isDigit = true) ∧ writeNumber n ≠ [] ∧
    ¬((writeNumber n).head? = some '0' ∧ writeNumber n ≠ ['0']) ∧ digitsValue (writeNumber n) = n := by
  rw [writeNumber]
  split
  · rename_i h
    subst h
    refine ⟨?_, List.cons_ne_nil _ _, fun h => h.2 rfl, rfl⟩
    rintro c hc
    rw [List.mem_singleton.mp hc]
    decide
  · rename_i h
    have hlt : ∀ d ∈ Nat.digits 10 n, d < 10 := fun d hd => Nat.digits_lt_base (by decide) hd
    have hne : Nat.digits 10 n ≠ [] := Nat.digits_ne_nil_iff_ne_zero.mpr h
    refine ⟨?_, by simpa using hne, ?_, ?_⟩
    · intro c hc
      obtain ⟨d, hd, rfl⟩ := List.mem_map.mp hc
      exact (digit_ofNat d (hlt d (List.mem_reverse.mp hd))).1
    · rintro ⟨hhead, -⟩
      rw [List.head?_map, List.head?_reverse, List.getLast?_eq_some_getLast hne, Option.map_some,
        Option.some.injEq] at hhead
      have hlast := hlt _ (List.getLast_mem hne)
      have hzero : (Nat.digits 10 n).getLast hne = 0 := by
        rw [← (digit_ofNat _ hlast).2, hhead]
        rfl
      exact Nat.getLast_digit_ne_zero 10 h hzero
    · rw [digitsValue_reverse _ hlt, Nat.ofDigits_digits]

theorem takeWhile_digits {ds rest : List Char} (hds : ∀ c ∈ ds, c.isDigit = true) (hrest : Stops rest) :
    (ds ++ rest).takeWhile Char.isDigit = ds ∧ (ds ++ rest).dropWhile Char.isDigit = rest := by
  have hstop : rest.takeWhile Char.isDigit = [] ∧ rest.dropWhile Char.isDigit = rest := by
    cases rest with
    | nil => exact ⟨rfl, rfl⟩
    | cons c cs => simp [(hrest c rfl).1]
  rw [List.takeWhile_append_of_pos hds, List.dropWhile_append_of_pos hds, hstop.1, hstop.2, List.append_nil]
  exact ⟨rfl, rfl⟩

theorem readFraction_stops {rest : List Char} (h : Stops rest) : readFraction rest = some (false, rest) := by
  cases rest with
  | nil => rfl
  | cons c cs =>
      obtain ⟨-, hdot, -, -⟩ := h c rfl
      rw [readFraction]
      rintro cs' hcs
      cases hcs
      exact hdot rfl

theorem readExponent_stops {rest : List Char} (h : Stops rest) : readExponent rest = some (false, rest) := by
  cases rest with
  | nil => rfl
  | cons c cs =>
      obtain ⟨-, -, hlower, hupper⟩ := h c rfl
      rw [readExponent, if_neg (by tauto)]

/-- A number is read back, whatever follows that does not continue it. -/
theorem readNumber_writeNumber {n : Nat} (hn : n < 2 ^ 64) {rest : List Char} (hrest : Stops rest) :
    readNumber (writeNumber n ++ rest) = some (.unsigned (UInt64.ofNat n), rest) := by
  obtain ⟨hdigits, hne, hzero, hvalue⟩ := writeNumber_spec n
  have hunsigned : readNumber (writeNumber n ++ rest) = readUnsigned (writeNumber n ++ rest) := by
    obtain ⟨d, ds, hds⟩ := List.exists_cons_of_ne_nil hne
    rw [hds, List.cons_append, readNumber]
    rintro cs hcs
    cases hcs
    exact absurd (hdigits '-' (by rw [hds]; exact List.mem_cons_self)) (by decide)
  obtain ⟨htake, hdrop⟩ := takeWhile_digits hdigits hrest
  rw [hunsigned, readUnsigned, htake, hdrop, if_neg (by tauto), readFraction_stops hrest]
  simp only [Option.bind_eq_bind, Option.bind_some, readExponent_stops hrest, hvalue, Bool.false_or,
    decide_eq_true_eq]
  rw [if_neg (by omega)]
  rfl

/-! ### Values -/

/-- How the text of a value starts. -/
theorem writeValue_head (v : JsonValue) : ∃ c cs, writeValue v = c :: cs ∧ isSpace c = false ∧ c ≠ ']' := by
  cases v with
  | null => exact ⟨_, _, rfl, rfl, by decide⟩
  | bool b =>
      cases b with
      | false => exact ⟨_, _, rfl, rfl, by decide⟩
      | true => exact ⟨_, _, rfl, rfl, by decide⟩
  | number n =>
      obtain ⟨hdigits, hne, -, -⟩ := writeNumber_spec n.toNat
      obtain ⟨d, ds, hds⟩ := List.exists_cons_of_ne_nil hne
      have hd : d.isDigit = true := hdigits d (by rw [hds]; exact List.mem_cons_self)
      refine ⟨d, ds, by rw [writeValue, hds], ?_, ?_⟩
      · by_contra hspace
        simp only [isSpace, Bool.not_eq_false, Bool.or_eq_true, decide_eq_true_eq] at hspace
        rcases hspace with ((rfl | rfl) | rfl) | rfl <;> revert hd <;> decide
      · rintro rfl
        revert hd
        decide
  | string s => exact ⟨_, _, by rw [writeValue, writeString]; rfl, rfl, by decide⟩
  | array elements =>
      cases elements with
      | nil => exact ⟨_, _, by rw [writeValue], rfl, by decide⟩
      | cons v vs => exact ⟨_, _, by rw [writeValue]; rfl, rfl, by decide⟩
  | object members =>
      cases members with
      | nil => exact ⟨_, _, by rw [writeValue], rfl, by decide⟩
      | cons m vs => exact ⟨_, _, by rw [writeValue]; rfl, rfl, by decide⟩

theorem readName_writeString (name : String) (fuel : Nat) (rest : List Char)
    (h : (writeString name).length ≤ fuel) :
    readName fuel (writeString name ++ ':' :: rest) = some (name, rest) := by
  have hlen : name.toList.length < fuel := by
    have hle := length_le_length_escape name.toList
    simp only [writeString, List.length_cons, List.length_append, List.length_nil] at h
    omega
  rw [readName, writeString]
  simp only [List.cons_append, List.append_assoc, List.nil_append]
  rw [skipSpace_cons (by decide)]
  simp only [readString_writeString name fuel _ hlen, Option.bind_eq_bind, Option.bind_some]
  rw [skipSpace_cons (by decide)]
  rfl

theorem length_writeString (s : String) : s.toList.length + 2 ≤ (writeString s).length := by
  have hle := length_le_length_escape s.toList
  simp only [writeString, List.length_cons, List.length_append, List.length_nil]
  omega

/-- Behind an element a number would have ended. -/
theorem stops_writeElements (vs : List JsonValue) (rest : List Char) : Stops (writeElements vs ++ rest) := by
  cases vs with
  | nil =>
      rw [writeElements]
      exact stops_cons (by decide) rest
  | cons v vs =>
      rw [writeElements]
      exact stops_cons (by decide) _

theorem stops_writeMembers (vs : List (String × JsonValue)) (rest : List Char) :
    Stops (writeMembers vs ++ rest) := by
  cases vs with
  | nil =>
      rw [writeMembers]
      exact stops_cons (by decide) rest
  | cons v vs =>
      rw [writeMembers]
      exact stops_cons (by decide) _

/-- Whatever starts no other value is read as a number. -/
theorem readValue_other {c : Char} (h : ∀ d ∈ ['n', 't', 'f', '"', '[', '\x7b', ' ', '\n', '\t', '\r'], c ≠ d)
    (fuel depth : Nat) (cs : List Char) : readValue (fuel + 1) depth (c :: cs) = readNumber (c :: cs) := by
  have hspace : isSpace c = false := by
    simp [isSpace, h ' ' (by decide), h '\n' (by decide), h '\t' (by decide), h '\r' (by decide)]
  rw [readValue, skipSpace_cons hspace]
  split
  · rename_i heq
    exact absurd (List.cons.inj heq).1 (h 'n' (by decide))
  · rename_i heq
    exact absurd (List.cons.inj heq).1 (h 't' (by decide))
  · rename_i heq
    exact absurd (List.cons.inj heq).1 (h 'f' (by decide))
  · rename_i heq
    exact absurd (List.cons.inj heq).1 (h '"' (by decide))
  · rename_i heq
    exact absurd (List.cons.inj heq).1 (h '[' (by decide))
  · rename_i heq
    exact absurd (List.cons.inj heq).1 (h '\x7b' (by decide))
  · rfl

/-- A digit starts a number. -/
theorem readValue_digit {d : Char} (hd : d.isDigit = true) (fuel depth : Nat) (cs : List Char) :
    readValue (fuel + 1) depth (d :: cs) = readNumber (d :: cs) := by
  apply readValue_other
  rintro c hc rfl
  revert hd
  fin_cases hc <;> decide

/-- The text of a value is not the end of an array. -/
theorem skipSpace_writeValue (v : JsonValue) (rest : List Char) :
    (skipSpace (writeValue v ++ rest)).head? ≠ some ']' := by
  obtain ⟨c, cs, hcs, hspace, hne⟩ := writeValue_head v
  rw [hcs, List.cons_append, skipSpace_cons hspace, List.head?_cons]
  exact fun h => hne (Option.some.inj h)

theorem skipSpace_writeString (s : String) (rest : List Char) :
    skipSpace (writeString s ++ rest) = writeString s ++ rest := by
  rw [writeString, List.cons_append, List.cons_append, skipSpace_cons (by decide)]

mutual

/-- Along the value: each part is read with what its own text needs of the fuel. The recursion is mutual with that on
    elements and members. -/
theorem readValue_writeValue : ∀ (v : JsonValue) (fuel depth : Nat) (rest : List Char),
    (writeValue v).length ≤ fuel → v.depth ≤ depth → Stops rest →
      readValue fuel depth (writeValue v ++ rest) = some (v.content, rest)
  | .null, fuel + 1, _, _, _, _, _ => rfl
  | .bool true, fuel + 1, _, _, _, _, _ => rfl
  | .bool false, fuel + 1, _, _, _, _, _ => rfl
  | .number n, 0, _, _, hfuel, _, _ => by
      have hne := (writeNumber_spec n.toNat).2.1
      exact absurd (List.length_eq_zero_iff.mp (Nat.le_zero.mp hfuel)) hne
  | .number n, fuel + 1, depth, rest, _, _, hrest => by
      obtain ⟨hdigits, hne, -, -⟩ := writeNumber_spec n.toNat
      have hread := readNumber_writeNumber n.toNat_lt hrest
      obtain ⟨d, ds, hds⟩ := List.exists_cons_of_ne_nil hne
      rw [writeValue, JsonValue.content]
      rw [hds, List.cons_append] at hread ⊢
      rw [readValue_digit (hdigits d (by rw [hds]; exact List.mem_cons_self)), hread, UInt64.ofNat_toNat]
  | .string s, fuel + 1, depth, rest, hfuel, _, _ => by
      have hlen : s.toList.length < fuel := by
        have hle := length_writeString s
        rw [writeValue] at hfuel
        omega
      rw [writeValue, writeString, JsonValue.content, stringContent]
      simp only [List.cons_append, List.append_assoc, List.nil_append]
      rw [readValue, skipSpace_cons (by decide)]
      simp only [readString_writeString s fuel rest hlen, Option.map_some]
  | .array [], fuel + 1, depth + 1, _, _, _, _ => rfl
  | .array (v :: vs), fuel + 1, depth + 1, rest, hfuel, hdepth, hrest => by
      simp only [writeValue, List.cons_append, List.length_cons, List.length_append, JsonValue.depth,
        depthElements] at hfuel hdepth
      have hv := readValue_writeValue v fuel depth (writeElements vs ++ rest) (by omega) (by omega)
        (stops_writeElements vs rest)
      have hvs := readElements_writeElements vs fuel depth rest (by omega) (by omega)
      rw [writeValue, JsonValue.content, contentElements, List.cons_append, List.cons_append, List.append_assoc,
        readValue, skipSpace_cons (by decide)]
      simp only [Nat.add_eq_zero_iff, one_ne_zero, and_false, if_false, skipSpace_writeValue, Nat.add_sub_cancel,
        hv, hvs, Option.bind_eq_bind, Option.bind_some]
      rfl
  | .object [], fuel + 1, depth + 1, _, _, _, _ => rfl
  | .object ((name, v) :: vs), fuel + 1, depth + 1, rest, hfuel, hdepth, hrest => by
      simp only [writeValue, List.cons_append, List.length_cons, List.length_append, JsonValue.depth,
        depthMembers] at hfuel hdepth
      have hname := readName_writeString name fuel (writeValue v ++ (writeMembers vs ++ rest)) (by omega)
      have hv := readValue_writeValue v fuel depth (writeMembers vs ++ rest) (by omega) (by omega)
        (stops_writeMembers vs rest)
      have hvs := readMembers_writeMembers vs fuel depth rest (by omega) (by omega)
      have hhead : (skipSpace (writeString name ++ ':' :: (writeValue v ++ (writeMembers vs ++ rest)))).head? ≠
          some '\x7d' := by
        rw [skipSpace_writeString, writeString]
        exact fun h => absurd (Option.some.inj h) (by decide)
      rw [writeValue, JsonValue.content, contentMembers]
      simp only [List.cons_append, List.append_assoc]
      rw [readValue, skipSpace_cons (by decide)]
      simp only [Nat.add_eq_zero_iff, one_ne_zero, and_false, if_false, hhead, Nat.add_sub_cancel, hname, hv, hvs,
        Option.bind_eq_bind, Option.bind_some]
      rfl

/-- What follows the first element is read back, by recursion on the list together with the two below. -/
theorem readElements_writeElements : ∀ (vs : List JsonValue) (fuel depth : Nat) (rest : List Char),
    (writeElements vs).length ≤ fuel → depthElements vs ≤ depth →
      readElements fuel depth (writeElements vs ++ rest) = some (contentElements vs, rest)
  | [], fuel + 1, _, _, _, _ => rfl
  | v :: vs, fuel + 1, depth, rest, hfuel, hdepth => by
      simp only [writeElements, List.cons_append, List.length_cons, List.length_append, depthElements] at hfuel hdepth
      have hv := readValue_writeValue v fuel depth (writeElements vs ++ rest) (by omega) (by omega)
        (stops_writeElements vs rest)
      have hvs := readElements_writeElements vs fuel depth rest (by omega) (by omega)
      rw [writeElements, contentElements]
      simp only [List.cons_append, List.append_assoc]
      rw [readElements, skipSpace_cons (by decide)]
      simp only [hv, hvs, Option.bind_eq_bind, Option.bind_some]
      rfl

theorem readMembers_writeMembers : ∀ (vs : List (String × JsonValue)) (fuel depth : Nat) (rest : List Char),
    (writeMembers vs).length ≤ fuel → depthMembers vs ≤ depth →
      readMembers fuel depth (writeMembers vs ++ rest) = some (contentMembers vs, rest)
  | [], fuel + 1, _, _, _, _ => rfl
  | (name, v) :: vs, fuel + 1, depth, rest, hfuel, hdepth => by
      simp only [writeMembers, List.cons_append, List.length_cons, List.length_append, depthMembers] at hfuel hdepth
      have hname := readName_writeString name fuel (writeValue v ++ (writeMembers vs ++ rest)) (by omega)
      have hv := readValue_writeValue v fuel depth (writeMembers vs ++ rest) (by omega) (by omega)
        (stops_writeMembers vs rest)
      have hvs := readMembers_writeMembers vs fuel depth rest (by omega) (by omega)
      rw [writeMembers, contentMembers]
      simp only [List.cons_append, List.append_assoc]
      rw [readMembers, skipSpace_cons (by decide)]
      simp only [hname, hv, hvs, Option.bind_eq_bind, Option.bind_some]
      rfl

end

/-- **Round trip.** What is written is read back, up to the depth the reader allows. -/
theorem read_write {v : JsonValue} (h : v.depth ≤ maxDepth) : read (write v) = some v.content := by
  have hread := readValue_writeValue v (writeValue v).length maxDepth [] le_rfl h stops_nil
  rw [List.append_nil] at hread
  rw [read, write, String.toList_ofList, String.length_ofList, hread]
  rfl

/-! ## Ends of a text -/

/-- A printable character that is no space. -/
def Visible (c : Char) : Prop := 0x20 < c.toNat ∧ c.toNat < 0x7f

theorem visible_of_isDigit {c : Char} (h : c.isDigit = true) : Visible c := by
  simp only [Char.isDigit, Bool.and_eq_true, decide_eq_true_eq] at h
  obtain ⟨hlow, hhigh⟩ := h
  have hlow : 48 ≤ c.toNat := UInt32.le_iff_toNat_le.mp hlow
  have hhigh : c.toNat ≤ 57 := UInt32.le_iff_toNat_le.mp hhigh
  exact ⟨by omega, by omega⟩

theorem getLast_writeElements (vs : List JsonValue) : (writeElements vs).getLast? = some ']' := by
  induction vs with
  | nil => rw [writeElements]; rfl
  | cons v vs ih => simp [writeElements, List.getLast?_append, List.getLast?_cons, ih]

theorem getLast_writeMembers (vs : List (String × JsonValue)) : (writeMembers vs).getLast? = some '\x7d' := by
  induction vs with
  | nil => rw [writeMembers]; rfl
  | cons v vs ih => simp [writeMembers, List.getLast?_append, List.getLast?_cons, ih]

theorem visible_writeNumber {n : Nat} {c : Char} (h : c ∈ writeNumber n) : Visible c :=
  visible_of_isDigit ((writeNumber_spec n).1 c h)

/-- A text begins with a visible character. -/
theorem head_writeValue {v : JsonValue} {c : Char} (h : (writeValue v).head? = some c) : Visible c := by
  cases v with
  | null => cases h; exact ⟨by decide, by decide⟩
  | bool b => cases b <;> cases h <;> exact ⟨by decide, by decide⟩
  | number n => exact visible_writeNumber (List.mem_of_mem_head? h)
  | string s => cases h; exact ⟨by decide, by decide⟩
  | array elements => cases elements <;> cases h <;> exact ⟨by decide, by decide⟩
  | object members => cases members <;> cases h <;> exact ⟨by decide, by decide⟩

/-- A text ends with a visible character. -/
theorem getLast_writeValue {v : JsonValue} {c : Char} (h : (writeValue v).getLast? = some c) : Visible c := by
  cases v with
  | null => cases h; exact ⟨by decide, by decide⟩
  | bool b => cases b <;> cases h <;> exact ⟨by decide, by decide⟩
  | number n => exact visible_writeNumber (List.mem_of_getLast? h)
  | string s =>
      rw [writeValue, writeString, List.getLast?_append] at h
      cases h
      exact ⟨by decide, by decide⟩
  | array elements =>
      cases elements with
      | nil => cases h; exact ⟨by decide, by decide⟩
      | cons v vs =>
          rw [writeValue, List.getLast?_append, getLast_writeElements] at h
          cases h
          exact ⟨by decide, by decide⟩
  | object members =>
      cases members with
      | nil => cases h; exact ⟨by decide, by decide⟩
      | cons m vs =>
          rw [writeValue, List.getLast?_append, getLast_writeMembers] at h
          cases h
          exact ⟨by decide, by decide⟩

/-- A bare word is no text. -/
theorem read_word {c : Char} {cs : List Char} (hc : c.isAlpha = true) (hne : c ≠ 'n' ∧ c ≠ 't' ∧ c ≠ 'f') :
    read (String.ofList (c :: cs)) = none := by
  have hother : ∀ d ∈ ['n', 't', 'f', '"', '[', '\x7b', ' ', '\n', '\t', '\r'], c ≠ d := by
    rintro d hd rfl
    revert hc hne
    fin_cases hd <;> decide
  have hdigit : c.isDigit = false := by
    simp only [Char.isAlpha, Char.isUpper, Char.isLower, Char.isDigit, Bool.or_eq_true, Bool.and_eq_true,
      decide_eq_true_eq, Bool.and_eq_false_iff, decide_eq_false_iff_not, ge_iff_le,
      UInt32.le_iff_toNat_le] at hc ⊢
    simp at hc ⊢
    omega
  have hsign : c ≠ '-' := by
    rintro rfl
    revert hc
    decide
  have hnumber : readNumber (c :: cs) = none := by
    rw [readNumber]
    · rw [readUnsigned, List.takeWhile_cons_of_neg (by simp [hdigit])]
      simp
    · rintro cs' heq
      exact hsign (List.cons.inj heq).1
  rw [read, String.toList_ofList, String.length_ofList, List.length_cons, readValue_other hother, hnumber]

end Json

/-! ## Codecs -/

/-- A writer and a reader that go together: what is written is read back, `null` is its own text, a text
    begins and ends with a visible character, and no text begins with a letter other than those of the three
    words. -/
structure JsonCodec where
  write : JsonValue → String
  read : String → Option JsonContent
  read_write : ∀ v, v.depth ≤ Json.maxDepth → read (write v) = some v.content
  write_null : write .null = "null"
  write_ends : ∀ v c, ((write v).toList.head? = some c ∨ (write v).toList.getLast? = some c) → Json.Visible c
  read_word : ∀ c cs, c.isAlpha = true → (c ≠ 'n' ∧ c ≠ 't' ∧ c ≠ 'f') → read (String.ofList (c :: cs)) = none

/-- The codec of this module. -/
def Json.codec : JsonCodec where
  write := write
  read := read
  read_write _ := read_write
  write_null := rfl
  write_ends v c h := by
    rw [write, String.toList_ofList] at h
    exact h.elim head_writeValue getLast_writeValue
  read_word _ _ := read_word

/-! ## Decoding

What a derived decoder does with a content: strings, lent strings, lists, and the members of an object, of
which a named one may occur once and the others are passed over. -/

namespace JsonContent

/-- Any string. -/
def text : JsonContent → Option String
  | .str s => some s
  | .string s => some s
  | _ => none

/-- A string that can be lent. -/
def lent : JsonContent → Option String
  | .str s => some s
  | _ => none

/-- An unsigned number. -/
def number : JsonContent → Option UInt64
  | .unsigned n => some n
  | _ => none

/-- An array, element by element. -/
def list {α : Type} (item : JsonContent → Option α) : JsonContent → Option (List α)
  | .seq elements => elements.mapM item
  | _ => none

/-- `null` or a value. -/
def nullable {α : Type} (item : JsonContent → Option α) : JsonContent → Option (Option α)
  | .null => some none
  | c => (item c).map some

theorem text_content (s : String) : (JsonValue.string s).content.text = some s := by
  rw [JsonValue.content, Json.stringContent]
  split <;> rfl

/-- A text that was written without escapes can be borrowed. -/
theorem lent_content {s : String} (h : s.toList.any Json.escaped = false) :
    (JsonValue.string s).content.lent = some s := by
  rw [JsonValue.content, Json.stringContent, h]
  rfl

theorem text_of_lent {c : JsonContent} {s : String} (h : c.lent = some s) : c.text = some s := by
  cases c <;> cases h
  rfl

theorem number_content (n : UInt64) : (JsonValue.number n).content.number = some n := by
  rw [JsonValue.content, number]

theorem nullable_text_content (s : String) : (JsonValue.string s).content.nullable text = some (some s) := by
  rw [JsonValue.content, Json.stringContent]
  split <;> rfl

theorem mapM_content {α : Type} {item : JsonContent → Option α} {value : α → JsonValue}
    (h : ∀ a, item (value a).content = some a) (items : List α) :
    (items.map (fun a => (value a).content)).mapM item = some items := by
  induction items with
  | nil => rfl
  | cons a items ih =>
      rw [List.map_cons, List.mapM_cons, h, ih]
      rfl

/-- A list is read back when its items are. -/
theorem list_content {α : Type} {item : JsonContent → Option α} {value : α → JsonValue}
    (h : ∀ a, item (value a).content = some a) (items : List α) :
    (JsonValue.array (items.map value)).content.list item = some items := by
  rw [JsonValue.content, contentElements_eq_map, List.map_map, list]
  exact mapM_content h items

end JsonContent

namespace Json

/-- The members of a record: of an object, or by position. -/
def record (names : List String) : JsonContent → Option (List (String × JsonContent))
  | .map members => some members
  | .seq elements => if elements.length = names.length then some (names.zip elements) else none
  | _ => none

/-- A member that is written when there is a value. -/
def field (name : String) (value : Option JsonValue) : List (String × JsonValue) :=
  value.toList.map (fun v => (name, v))

variable {α : Type} (members : List (String × JsonContent)) (name : String)

/-- The member of this name: absent, or present once. -/
def member : Option (Option JsonContent) :=
  match members.filter (fun m => m.1 = name) with
  | [] => some none
  | [m] => some (some m.2)
  | _ => none

/-- A field without a default. -/
def required (item : JsonContent → Option α) : Option α := do
  let value ← member members name
  item (← value)

/-- A field that is `None` when it is absent or `null`. -/
def optional (item : JsonContent → Option α) : Option (Option α) := do
  match ← member members name with
  | none => return none
  | some c => c.nullable item

variable {members name}

/-- A required field is a member that is there once and can be decoded. -/
theorem required_eq_some_iff {item : JsonContent → Option α} {a : α} : required members name item = some a ↔
    ∃ c, members.filter (fun m => m.1 = name) = [(name, c)] ∧ item c = some a := by
  rw [required, member]
  split
  · rename_i hnone
    simp [hnone]
  · rename_i m hone
    have hname : m.1 = name := by
      have hm : m ∈ members.filter (fun m => m.1 = name) := by
        rw [hone]
        exact List.mem_singleton_self m
      simpa using (List.mem_filter.mp hm).2
    rw [hone]
    obtain ⟨n, c⟩ := m
    obtain rfl : n = name := hname
    simp
  · rename_i hmany
    simp only [Option.bind_eq_bind, Option.bind_none, reduceCtorEq, false_iff, not_exists, not_and]
    intro c hc
    exact absurd hc (hmany _)

/-- The name is there once. -/
def Unique (members : List (String × JsonContent)) (name : String) : Prop :=
  (members.filter (fun m => m.1 = name)).length = 1

theorem filter_eq_of_mem {c : JsonContent} (hunique : Unique members name) (h : (name, c) ∈ members) :
    members.filter (fun m => m.1 = name) = [(name, c)] := by
  obtain ⟨m, hm⟩ := List.length_eq_one_iff.mp hunique
  have hmem : (name, c) ∈ members.filter (fun m => m.1 = name) := List.mem_filter.mpr ⟨h, by simp⟩
  rw [hm] at hmem ⊢
  rw [List.mem_singleton.mp hmem]

/-- A member that is there decodes to the field, if its name is there once. -/
theorem required_eq_some_of_mem {item : JsonContent → Option α} {c : JsonContent} {a : α} (h : (name, c) ∈ members) :
    required members name item = some a ↔ Unique members name ∧ item c = some a := by
  rw [required_eq_some_iff]
  constructor
  · rintro ⟨c', hfilter, hitem⟩
    have hunique : Unique members name := by
      rw [Unique, hfilter]
      rfl
    rw [filter_eq_of_mem hunique h] at hfilter
    cases hfilter
    exact ⟨hunique, hitem⟩
  · rintro ⟨hunique, hitem⟩
    exact ⟨c, filter_eq_of_mem hunique h, hitem⟩

end Json

end Nula
