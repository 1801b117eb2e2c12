import Nula.Core.Event
import Nula.Core.Nip19
import Nula.Core.Str
import Nula.Lib.Scan

/-!
# `Core.Parser` — the content parser

`NostrParserIter` of `parser.rs`: four recognisers over the bytes of a text, tried in order at every character, and an
iterator that yields the text between their matches and what the matches stand for. What could panic is `Checked`.

## Contents
- **The recognisers.** `tryAt`, the first of the four; `Fits`, what a match is.
- **The iterator.** `next_step`, one call; `exists_run`, all of them.
-/

namespace Nula.Parser

open Nip19 (Nip21)
open Scan (runEnd)

/-! ## The crates -/

/-- What the parser uses of the crates `bech32` and `url`. -/
structure Crates where
  bech32 : Nip19.Bech32Crate
  urls : UrlCrate
  /-- `Url::cannot_be_a_base`. -/
  cannotBeABase : Url → Bool
  /-- `Fe32::from_char` succeeds. -/
  isFe32 : Char → Bool

/-- The alphabet of bech32. -/
def bech32Alphabet : List Char := "qpzry9x8gf2tvdw0s3jn54khce6mua7l".toList

/-- A character of bech32 is one of its alphabet, in either case. -/
def Crates.Lawful (crates : Crates) : Prop := ∀ c, crates.isFe32 c = true ↔ c.toLower ∈ bech32Alphabet

/-- `UrlError`. -/
inductive UrlError where
  | parse (text : String)
  | relative (input : String)
  deriving DecidableEq, Repr

/-- `Url::parse` of `types/url.rs`. -/
def parseUrl (crates : Crates) (input : String) : Except UrlError Url :=
  match crates.urls.parse input with
  | .error text => .error (.parse text)
  | .ok inner => if crates.cannotBeABase inner then .error (.relative input) else .ok inner

/-! ## Tokens and options -/

inductive Token where
  | text (s : String)
  | nostr (entity : Nip21)
  | url (url : Url)
  | hashtag (body : String)
  | lineBreak
  deriving DecidableEq

structure NostrParserOptions where
  parseNostrUris : Bool
  parseUrls : Bool
  parseHashtags : Bool
  emitLineBreaks : Bool
  deriving DecidableEq, Repr

def NostrParserOptions.allEnabled : NostrParserOptions := ⟨true, true, true, true⟩

def NostrParserOptions.allDisabled : NostrParserOptions := ⟨false, false, false, false⟩

inductive MatchKind where
  | lineBreak
  | hashtag
  | nostrUri
  | url
  deriving DecidableEq, Repr

/-- `Match`: the bytes from `start` to `stop`. -/
structure Match where
  kind : MatchKind
  start : Nat
  stop : Nat
  deriving DecidableEq, Repr

/-! ## Bytes and characters -/

/-- `u8::is_ascii_whitespace`. -/
def isAsciiWhitespace (b : UInt8) : Bool := b = 32 || b = 9 || b = 10 || b = 12 || b = 13

def isAsciiLowercase (b : UInt8) : Bool := 97 ≤ b && b ≤ 122

def isAsciiUppercase (b : UInt8) : Bool := 65 ≤ b && b ≤ 90

def isAsciiDigit (b : UInt8) : Bool := 48 ≤ b && b ≤ 57

def isAsciiAlphabetic (b : UInt8) : Bool := isAsciiLowercase b || isAsciiUppercase b

def isAsciiAlphanumeric (b : UInt8) : Bool := isAsciiAlphabetic b || isAsciiDigit b

/-- `b as char`. -/
def asChar (b : UInt8) : Char := Char.ofNat b.toNat

/-- `char::is_control`. -/
def isControl (c : Char) : Bool := c.val ≤ 0x1F || (0x7F ≤ c.val && c.val ≤ 0x9F)

/-- `is_forbidden_hashtag_char`. -/
def isForbiddenHashtagChar (ch : Char) : Bool :=
  isWhitespace ch || isControl ch || ".,!?()[]\x7b\x7d\"'@#;:&*+=<>/\\|^~%$`".toList.contains ch

/-- `is_allowed_url_byte`. -/
def isAllowedUrlByte (b : UInt8) : Bool :=
  isAsciiAlphanumeric b || (strBytes "-._~:/?#[]@!$&'()*+,;=%").contains b

/-- `is_url_trailing_punct`. -/
def isUrlTrailingPunct (b : UInt8) : Bool := (strBytes ".,;:!?]\x7d").contains b

/-! ## The recognisers -/

section Recognisers

variable (crates : Crates) (text : String)

/-- The loop of `try_hashtag`. -/
def hashtagEnd (stop : Nat) : Option Nat :=
  if stop < strLen text then
    match strGet text stop (strLen text) with
    | none => none
    | some rest =>
        match rest.toList.head? with
        | none => none
        -- the loop goes on by whole characters
        | some ch => if isForbiddenHashtagChar ch then some stop else hashtagEnd (stop + ch.utf8Size)
  else some stop
  termination_by strLen text - stop
  decreasing_by
    have := ch.utf8Size_pos
    omega

/-- `try_hashtag`. -/
def tryHashtag (start : Nat) : Option Match :=
  let bytes := strBytes text
  if bytes[start]? ≠ some 35 then none
  -- only at the front of the text or behind whitespace: `foo#bar` is text
  else if 0 < start ∧ (bytes[start - 1]?).any (fun prev => !isAsciiWhitespace prev) = true then none
  else
    match hashtagEnd text (start + 1) with
    | none => none
    | some stop => if stop = start + 1 then none else some ⟨.hashtag, start, stop⟩

/-- The bytes that `try_nostr_uri` takes into the body. -/
def isBodyByte (b : UInt8) : Bool := isAsciiLowercase b || b = 49 || crates.isFe32 (asChar b)

/-- `nip21::SCHEME_PREFIX` and `nip27::SCHEME`, as bytes. -/
def scheme : Bytes := strBytes Nip19.schemePrefix

/-- `try_nostr_uri`. -/
def tryNostrUri (start : Nat) : Option Match :=
  let bytes := strBytes text
  if (bytes.drop start).take scheme.length ≠ scheme then none
  else
    let bodyStart := start + scheme.length
    let stop := runEnd (isBodyByte crates) bytes bodyStart
    if stop = bodyStart then none else some ⟨.nostrUri, start, stop⟩

/-- The loop that trims punctuation from the end. -/
def trimEnd (bytes : Bytes) (low : Nat) : Nat → Nat
  | 0 => 0
  | stop + 1 =>
      if low < stop + 1 ∧ (bytes[stop]?).any isUrlTrailingPunct = true then trimEnd bytes low stop else stop + 1

/-- An unmatched closing parenthesis is left out. -/
def balance (bytes : Bytes) (start stop : Nat) : Nat :=
  if start < stop ∧ bytes[stop - 1]? = some 41 then
    let urlBytes := (bytes.take stop).drop start
    if urlBytes.count 40 < urlBytes.count 41 then stop - 1 else stop
  else stop

/-- A byte behind the first of a scheme. -/
def isSchemeByte (b : UInt8) : Bool := isAsciiAlphanumeric b || (strBytes "+-.").contains b

/-- A byte that a url goes on with. -/
def isUrlByte (b : UInt8) : Bool := !isAsciiWhitespace b && isAllowedUrlByte b

/-- `try_url`. -/
def tryUrl (start : Nat) : Option Match :=
  let bytes := strBytes text
  if (bytes[start]?).any isAsciiAlphabetic = false then none
  else
    let afterScheme := runEnd isSchemeByte bytes (start + 1)
    if (bytes.drop afterScheme).take 3 ≠ strBytes "://" then none
    else
      let low := afterScheme + 3
      let stop := runEnd isUrlByte bytes low
      if stop ≤ low then none
      -- what ends a sentence is not of the URL, nor is a parenthesis that was opened before it
      else some ⟨.url, start, balance bytes start (trimEnd bytes low stop)⟩

end Recognisers

/-! ## The iterator -/

/-- What moves of `NostrParserIter`. -/
structure State where
  pos : Nat
  pending : Option Match
  deriving DecidableEq, Repr

section Iterator

variable (crates : Crates) (text : String) (opts : NostrParserOptions)

/-- A line break of `next_match`. -/
def tryLineBreak (search : Nat) : Option Match :=
  if (strBytes text)[search]? = some 10 then some ⟨.lineBreak, search, search + 1⟩ else none

/-- One turn of `next_match`: the affordances that are on, in order. -/
def tryAt (search : Nat) : Option Match :=
  (if opts.emitLineBreaks then tryLineBreak text search else none) <|>
  (if opts.parseHashtags then tryHashtag text search else none) <|>
  (if opts.parseNostrUris then tryNostrUri crates text search else none) <|>
  (if opts.parseUrls then tryUrl text search else none)

/-- `utf8_step`. -/
def utf8Step (byteIndex : Nat) : Checked Nat := do
  let rest ← sliceFrom text byteIndex
  return (rest.toList.head?.map Char.utf8Size).getD 1

theorem utf8Step_pos {i step : Nat} (h : utf8Step text i = .ok step) : 0 < step := by
  rw [utf8Step] at h
  cases hslice : sliceFrom text i with
  | error p =>
      rw [hslice] at h
      cases h
  | ok rest =>
      rw [hslice] at h
      obtain rfl := Except.ok.inj h
      cases rest.toList.head? with
      | none => exact Nat.one_pos
      | some c => exact c.utf8Size_pos

/-- The loop of `next_match`. -/
def nextMatch (search : Nat) : Checked (Option Match) :=
  if search < strLen text then
    match tryAt crates text opts search with
    | some mat => .ok (some mat)
    | none =>
        -- nothing starts here
        match _hstep : utf8Step text search with
        | .error p => .error p
        | .ok step => nextMatch (search + step)
  else .ok none
  termination_by strLen text - search
  decreasing_by
    have := utf8Step_pos text _hstep
    omega

/-- `materialise`. -/
def materialise (mat : Match) : Token :=
  match strGet text mat.start mat.stop with
  | none => .text ""
  | some slice =>
      -- a match that cannot be read is text again
      match mat.kind with
      | .lineBreak => .lineBreak
      | .hashtag =>
          match strGet slice 1 (strLen slice) with
          | some body => .hashtag body
          | none => .text slice
      | .nostrUri =>
          match Nip21.parse crates.bech32 crates.urls slice with
          | .ok entity => .nostr entity
          | .error _ => .text slice
      | .url =>
          match parseUrl crates slice with
          | .ok url => .url url
          | .error _ => .text slice

/-- `NostrParserIter::next`. -/
def next (s : State) : Checked (Option Token × State) :=
  match s.pending with
  -- the gap before this match was the last token
  | some mat => .ok (some (materialise crates text mat), ⟨mat.stop, none⟩)
  | none =>
      if strLen text ≤ s.pos then .ok (none, s)
      else do
        match ← nextMatch crates text opts s.pos with
        | some mat =>
            -- text before a match goes first; the match waits for the next call
            if s.pos < mat.start then
              match strGet text s.pos mat.start with
              | none => return (none, s)
              | some gap => return (some (.text gap), ⟨mat.start, some mat⟩)
            else return (some (materialise crates text mat), ⟨mat.stop, none⟩)
        -- nothing is left to find: the rest is one text
        | none =>
            match strGet text s.pos (strLen text) with
            | none => return (none, s)
            | some rest => return (some (.text rest), ⟨strLen text, none⟩)

/-- `NostrParserIter::new`. -/
def start : State := ⟨0, none⟩

end Iterator

/-! ## Classes of bytes -/

/-- Only ASCII is in the class. -/
def Ascii (p : UInt8 → Bool) : Prop := ∀ b, p b = true → b < 128

/-- The characters of bech32, one by one. -/
theorem bech32Alphabet_eq : bech32Alphabet = ['q', 'p', 'z', 'r', 'y', '9', 'x', '8', 'g', 'f', '2', 't', 'v', 'd', 'w',
    '0', 's', '3', 'j', 'n', '5', '4', 'k', 'h', 'c', 'e', '6', 'm', 'u', 'a', '7', 'l'] := String.toList_ofList

theorem ascii_isAsciiAlphanumeric : Ascii isAsciiAlphanumeric := by
  intro b hb
  simp only [isAsciiAlphanumeric, isAsciiAlphabetic, isAsciiLowercase, isAsciiUppercase, isAsciiDigit, Bool.or_eq_true,
    Bool.and_eq_true, decide_eq_true_eq, UInt8.le_iff_toNat_le] at hb
  rw [UInt8.lt_iff_toNat_lt]
  have h122 : (122 : UInt8).toNat = 122 := rfl
  have h90 : (90 : UInt8).toNat = 90 := rfl
  have h57 : (57 : UInt8).toNat = 57 := rfl
  have h128 : (128 : UInt8).toNat = 128 := rfl
  omega

theorem ascii_isAsciiAlphabetic : Ascii isAsciiAlphabetic :=
  fun b hb => ascii_isAsciiAlphanumeric b (by rw [isAsciiAlphanumeric, hb, Bool.true_or])

/-- What is alphanumeric or among the given bytes is ASCII. -/
theorem ascii_of_contains {l : Bytes} (hl : l.all (fun x => x < 128) = true) {b : UInt8}
    (h : (isAsciiAlphanumeric b || l.contains b) = true) : b < 128 := by
  rcases (Bool.or_eq_true _ _).mp h with h | h
  · exact ascii_isAsciiAlphanumeric b h
  · exact of_decide_eq_true (List.all_eq_true.mp hl b (List.contains_iff_mem.mp h))

theorem ascii_isSchemeByte : Ascii isSchemeByte := fun _ hb => ascii_of_contains (by decide) hb

theorem ascii_isUrlByte : Ascii isUrlByte :=
  fun _ hb => ascii_of_contains (by decide) ((Bool.and_eq_true _ _).mp hb).2

theorem ascii_of_fe32 (b : UInt8) (h : (asChar b).toLower ∈ bech32Alphabet) : b < 128 := by
  have hvals : bech32Alphabet.all (fun c => c.val < 128) = true := by
    rw [bech32Alphabet_eq]
    decide
  have hlt := of_decide_eq_true (List.all_eq_true.mp hvals _ h)
  have hval : (asChar b).val.toNat = b.toNat := by
    have hb := b.toNat_lt
    rw [asChar, Char.ofNat, dif_pos (Or.inl (by omega))]
    rfl
  rw [UInt8.lt_iff_toNat_lt, ← hval]
  unfold Char.toLower at hlt
  split at hlt
  · rename_i hupper
    exact Nat.lt_of_le_of_lt (UInt32.le_iff_toNat_le.mp hupper.2) (by decide)
  · exact UInt32.lt_iff_toNat_lt.mp hlt

theorem ascii_isBodyByte {crates : Crates} (laws : crates.Lawful) : Ascii (isBodyByte crates) := by
  intro b hb
  simp only [isBodyByte, Bool.or_eq_true, decide_eq_true_eq] at hb
  rcases hb with (hb | rfl) | hb
  · exact ascii_isAsciiAlphabetic b (by rw [isAsciiAlphabetic, hb, Bool.true_or])
  · decide
  · exact ascii_of_fe32 b ((laws _).mp hb)

/-! ## Boundaries -/

section Boundaries

variable {text : String} {p : UInt8 → Bool} {i j : Nat}

/-- Behind ASCII there is a boundary. -/
theorem boundary_of_all (hij : i < j) (h : ∀ k, i ≤ k → k < j → ∃ b, (strBytes text)[k]? = some b ∧ b < 128) :
    isCharBoundary text j = true := by
  obtain ⟨b, hb, hascii⟩ := h (j - 1) (by omega) (by omega)
  have hnext := (boundary_of_ascii hb hascii).2
  rwa [Nat.sub_add_cancel (by omega)] at hnext

theorem ascii_of_runEnd (hp : Ascii p) (hij : i ≤ j) (hj : j < runEnd p (strBytes text) i) :
    ∃ b, (strBytes text)[j]? = some b ∧ b < 128 := by
  obtain ⟨b, hb, hpass⟩ := Scan.getElem?_of_lt_runEnd hij hj
  exact ⟨b, hb, hp b hpass⟩

/-- A run of ASCII from a boundary ends at one. -/
theorem boundary_runEnd (hp : Ascii p) (hi : isCharBoundary text i = true) :
    isCharBoundary text (runEnd p (strBytes text) i) = true := by
  rcases Nat.eq_or_lt_of_le (Scan.le_runEnd (p := p) (l := strBytes text) (i := i)) with heq | hlt
  · rw [← heq]
    exact hi
  · exact boundary_of_all hlt (fun k hik hk => ascii_of_runEnd hp hik hk)

/-- The bytes that stand at a position. -/
theorem getElem?_of_take {l : Bytes} {n : Nat} (h : ((strBytes text).drop i).take n = l) {k : Nat} (hk : k < n) :
    (strBytes text)[i + k]? = l[k]? := by
  rw [← h, List.getElem?_take_of_lt hk, List.getElem?_drop]

end Boundaries

/-! ## What the recognisers find -/

/-- A match: a piece between two boundaries, of a kind that is on; a line break and a hashtag have their character. -/
structure Fits (text : String) (mat : Match) : Prop where
  nonempty : mat.start < mat.stop
  start : isCharBoundary text mat.start = true
  stop : isCharBoundary text mat.stop = true
  lineBreak : mat.kind = .lineBreak → (strBytes text)[mat.start]? = some 10 ∧ mat.stop = mat.start + 1
  hashtag : mat.kind = .hashtag → (strBytes text)[mat.start]? = some 35 ∧ mat.start + 1 < mat.stop

section Found

variable {crates : Crates} {text : String} {start : Nat} {mat : Match}

theorem fits_of_tryLineBreak (h : tryLineBreak text start = some mat) :
    Fits text mat ∧ mat.start = start ∧ mat.kind = .lineBreak := by
  rw [tryLineBreak] at h
  split at h
  · rename_i hbyte
    cases h
    obtain ⟨hstart, hstop⟩ := boundary_of_ascii hbyte (by decide)
    exact ⟨⟨Nat.lt_succ_self _, hstart, hstop, fun _ => ⟨hbyte, rfl⟩, nofun⟩, rfl, rfl⟩
  · cases h

/-- **A hashtag ends at a character boundary**: it goes on by whole characters. By induction on the calls: a character
    may be forbidden, and the hashtag ends, or it is stepped over. -/
theorem hashtagEnd_spec {i : Nat} (hi : isCharBoundary text i = true) :
    ∃ stop, hashtagEnd text i = some stop ∧ i ≤ stop ∧ isCharBoundary text stop = true := by
  induction i using hashtagEnd.induct text with
  | case1 i hlt hnone =>
      obtain ⟨_, _, _, _, _, hget⟩ := exists_char hi hlt
      rw [hnone] at hget
      cases hget
  | case2 i hlt rest hsome hhead =>
      obtain ⟨_, _, _, _, _, hget⟩ := exists_char hi hlt
      rw [hsome] at hget
      cases hget
      rw [String.toList_ofList] at hhead
      cases hhead
  | case3 i hlt rest hsome ch hhead hforbidden =>
      refine ⟨i, ?_, Nat.le_refl i, hi⟩
      rw [hashtagEnd, if_pos hlt]
      simp only [hsome, hhead, if_pos hforbidden]
  | case4 i hlt rest hsome ch hhead hallowed ih =>
      obtain ⟨pre, c, cs, rfl, rfl, hget⟩ := exists_char hi hlt
      rw [hsome] at hget
      cases hget
      rw [String.toList_ofList] at hhead
      cases hhead
      obtain ⟨stop, hstop, hle, hboundary⟩ := ih isCharBoundary_next
      refine ⟨stop, ?_, (Nat.le_add_right _ _).trans hle, hboundary⟩
      rw [hashtagEnd, if_pos hlt]
      simp only [hsome, String.toList_ofList, List.head?_cons, if_neg hallowed]
      exact hstop
  | case5 i hge =>
      refine ⟨i, ?_, Nat.le_refl i, hi⟩
      rw [hashtagEnd, if_neg hge]

theorem fits_of_tryHashtag (h : tryHashtag text start = some mat) :
    Fits text mat ∧ mat.start = start ∧ mat.kind = .hashtag := by
  unfold tryHashtag at h
  dsimp only at h
  split at h
  · cases h
  rename_i hbyte
  have hhash : (strBytes text)[start]? = some 35 := not_not.mp hbyte
  split at h
  · cases h
  obtain ⟨hstart, hnext⟩ := boundary_of_ascii hhash (by decide)
  obtain ⟨stop, hstop, hle, hboundary⟩ := hashtagEnd_spec hnext
  rw [hstop] at h
  dsimp only at h
  split at h
  · cases h
  · rename_i hne
    cases h
    have hlt : start + 1 < stop := Nat.lt_of_le_of_ne hle (Ne.symm hne)
    exact ⟨⟨Nat.lt_of_succ_lt hlt, hstart, hboundary, nofun, fun _ => ⟨hhash, hlt⟩⟩, rfl, rfl⟩

theorem ascii_scheme : scheme.all (fun b => b < 128) = true := by decide

theorem ascii_of_scheme (h : ((strBytes text).drop start).take scheme.length = scheme) {k : Nat}
    (hk : start ≤ k) (hlt : k < start + scheme.length) : ∃ b, (strBytes text)[k]? = some b ∧ b < 128 := by
  have hoff : k - start < scheme.length := by omega
  have hbyte := getElem?_of_take h hoff
  rw [Nat.add_sub_cancel' hk, List.getElem?_eq_getElem hoff] at hbyte
  exact ⟨_, hbyte, of_decide_eq_true (List.all_eq_true.mp ascii_scheme _ (List.getElem_mem hoff))⟩

/-- **A reference is matched where it stands**: its body is ASCII, so it ends between two characters. -/
theorem fits_of_tryNostrUri (laws : crates.Lawful) (h : tryNostrUri crates text start = some mat) :
    Fits text mat ∧ mat.start = start ∧ mat.kind = .nostrUri := by
  unfold tryNostrUri at h
  dsimp only at h
  split at h
  · cases h
  rename_i hscheme
  split at h
  · cases h
  rename_i hne
  cases h
  have hmarker := not_not.mp hscheme
  have hfirst : start < start + scheme.length := Nat.lt_add_of_pos_right (by decide)
  have hbody : start + scheme.length ≤ runEnd (isBodyByte crates) (strBytes text) (start + scheme.length) :=
    Scan.le_runEnd
  obtain ⟨b, hb, hascii⟩ := ascii_of_scheme hmarker (Nat.le_refl start) hfirst
  have hafter : isCharBoundary text (start + scheme.length) = true :=
    boundary_of_all hfirst (fun k hk hlt => ascii_of_scheme hmarker hk hlt)
  exact ⟨⟨hfirst.trans_le hbody, (boundary_of_ascii hb hascii).1, boundary_runEnd (ascii_isBodyByte laws) hafter, nofun,
    nofun⟩, rfl, rfl⟩

/-- Trailing punctuation is taken off the end, and no more. -/
theorem trimEnd_bounds (bytes : Bytes) {low stop : Nat} (h : low ≤ stop) :
    low ≤ trimEnd bytes low stop ∧ trimEnd bytes low stop ≤ stop := by
  induction stop with
  | zero => exact ⟨h, Nat.le_refl 0⟩
  | succ stop ih =>
      rw [trimEnd]
      split
      · rename_i hcond
        obtain ⟨hlow, hle⟩ := ih (Nat.le_of_lt_succ hcond.1)
        exact ⟨hlow, hle.trans (Nat.le_succ stop)⟩
      · exact ⟨h, Nat.le_refl _⟩

/-- A closing bracket too many is one byte less. -/
theorem balance_bounds (bytes : Bytes) (start stop : Nat) :
    stop - 1 ≤ balance bytes start stop ∧ balance bytes start stop ≤ stop := by
  unfold balance
  dsimp only
  split
  · split
    · exact ⟨Nat.le_refl _, Nat.sub_le stop 1⟩
    · exact ⟨Nat.sub_le stop 1, Nat.le_refl stop⟩
  · exact ⟨Nat.sub_le stop 1, Nat.le_refl stop⟩

theorem ascii_separator : (strBytes "://").all (fun b => b < 128) = true := by decide

/-- From its first byte to where its run ends, an URL is ASCII. -/
theorem ascii_of_url {b : UInt8} {afterScheme k : Nat} (hb : (strBytes text)[start]? = some b)
    (halpha : isAsciiAlphabetic b = true) (hafter : runEnd isSchemeByte (strBytes text) (start + 1) = afterScheme)
    (hseparator : ((strBytes text).drop afterScheme).take 3 = strBytes "://") (hk : start ≤ k)
    (hlt : k < runEnd isUrlByte (strBytes text) (afterScheme + 3)) : ∃ b, (strBytes text)[k]? = some b ∧ b < 128 := by
  rcases Nat.eq_or_lt_of_le hk with rfl | hk
  · exact ⟨b, hb, ascii_isAsciiAlphabetic b halpha⟩
  rcases Nat.lt_or_ge k afterScheme with hks | hks
  · exact ascii_of_runEnd ascii_isSchemeByte hk (hafter ▸ hks)
  rcases Nat.lt_or_ge k (afterScheme + 3) with hkl | hkl
  · have hoff : k - afterScheme < (strBytes "://").length := by
      have hthree : (strBytes "://").length = 3 := by decide
      omega
    have hbyte := getElem?_of_take hseparator hoff
    rw [Nat.add_sub_cancel' hks, List.getElem?_eq_getElem hoff] at hbyte
    exact ⟨_, hbyte, of_decide_eq_true (List.all_eq_true.mp ascii_separator _ (List.getElem_mem hoff))⟩
  · exact ascii_of_runEnd ascii_isUrlByte hkl hlt

/-- **A url is matched where it stands.** What is taken off its end is ASCII, as is all that was scanned. -/
theorem fits_of_tryUrl (h : tryUrl text start = some mat) : Fits text mat ∧ mat.start = start ∧ mat.kind = .url := by
  unfold tryUrl at h
  dsimp only at h
  split at h
  · cases h
  rename_i hfirst
  obtain ⟨b, hb, halpha⟩ := (Option.any_eq_true ..).mp (Bool.eq_true_of_not_eq_false hfirst)
  generalize hafter : runEnd isSchemeByte (strBytes text) (start + 1) = afterScheme at h
  split at h
  · cases h
  rename_i hseparator
  split at h
  · cases h
  rename_i hne
  have hascii := fun k hk hlt => ascii_of_url (k := k) hb halpha hafter (not_not.mp hseparator) hk hlt
  have hscheme : start + 1 ≤ afterScheme := hafter ▸ Scan.le_runEnd
  obtain ⟨hlow, htrim⟩ := trimEnd_bounds (strBytes text) (Nat.le_of_not_le hne)
  obtain ⟨hless, hbalance⟩ := balance_bounds (strBytes text) start
    (trimEnd (strBytes text) (afterScheme + 3) (runEnd isUrlByte (strBytes text) (afterScheme + 3)))
  cases h
  have hpos : start < balance (strBytes text) start
      (trimEnd (strBytes text) (afterScheme + 3) (runEnd isUrlByte (strBytes text) (afterScheme + 3))) := by
    omega
  exact ⟨⟨hpos, (boundary_of_ascii hb (ascii_isAsciiAlphabetic b halpha)).1,
    boundary_of_all hpos (fun k hk hlt => hascii k hk (hlt.trans_le (hbalance.trans htrim))), nofun, nofun⟩, rfl, rfl⟩

/-- The affordance that a kind of match belongs to. -/
def NostrParserOptions.enables (opts : NostrParserOptions) : MatchKind → Bool
  | .lineBreak => opts.emitLineBreaks
  | .hashtag => opts.parseHashtags
  | .nostrUri => opts.parseNostrUris
  | .url => opts.parseUrls

/-- Whatever is matched is matched where the cursor stands, and is enabled. -/
theorem fits_of_tryAt (laws : crates.Lawful) {opts : NostrParserOptions} (h : tryAt crates text opts start = some mat) :
    Fits text mat ∧ mat.start = start ∧ opts.enables mat.kind = true := by
  simp only [tryAt, Option.orElse_eq_orElse, Option.orElse_eq_or, Option.or_eq_some_iff,
    Option.ite_none_right_eq_some] at h
  rcases h with ⟨hon, hfound⟩ | ⟨-, ⟨hon, hfound⟩ | ⟨-, ⟨hon, hfound⟩ | ⟨-, hon, hfound⟩⟩⟩
  · obtain ⟨hfits, hstart, hkind⟩ := fits_of_tryLineBreak hfound
    exact ⟨hfits, hstart, hkind ▸ hon⟩
  · obtain ⟨hfits, hstart, hkind⟩ := fits_of_tryHashtag hfound
    exact ⟨hfits, hstart, hkind ▸ hon⟩
  · obtain ⟨hfits, hstart, hkind⟩ := fits_of_tryNostrUri laws hfound
    exact ⟨hfits, hstart, hkind ▸ hon⟩
  · obtain ⟨hfits, hstart, hkind⟩ := fits_of_tryUrl hfound
    exact ⟨hfits, hstart, hkind ▸ hon⟩

end Found

/-! ## The next match -/

section NextMatch

variable {crates : Crates} {text : String} {opts : NostrParserOptions} {i j : Nat}

theorem sliceFrom_of_get {rest : String} (h : strGet text i (strLen text) = some rest) :
    sliceFrom text i = .ok rest := by
  rw [sliceFrom, h]

theorem utf8Step_of_get {c : Char} {rest : List Char}
    (h : strGet text i (strLen text) = some (String.ofList (c :: rest))) : utf8Step text i = .ok c.utf8Size := by
  rw [utf8Step, sliceFrom_of_get h]
  change Except.ok (((String.ofList (c :: rest)).toList.head?.map Char.utf8Size).getD 1) = _
  rw [String.toList_ofList]
  rfl

/-- No recogniser finds anything between two positions. -/
def Quiet (crates : Crates) (text : String) (opts : NostrParserOptions) (i j : Nat) : Prop :=
  ∀ k, i ≤ k → k < j → isCharBoundary text k = true → tryAt crates text opts k = none

/-- The first character at which a recogniser finds something. -/
inductive Sought (crates : Crates) (text : String) (opts : NostrParserOptions) (i : Nat) : Option Match → Prop where
  | found {mat : Match} : i ≤ mat.start → tryAt crates text opts mat.start = some mat →
      Quiet crates text opts i mat.start → Sought crates text opts i (some mat)
  | nothing : Quiet crates text opts i (strLen text) → Sought crates text opts i none

theorem Quiet.step {pre : String} {c : Char} {rest : List Char} (hhere : tryAt crates text opts i = none)
    (htext : text = pre ++ String.ofList (c :: rest)) (hi : strLen pre = i)
    (h : Quiet crates text opts (i + c.utf8Size) j) : Quiet crates text opts i j := by
  intro k hik hkj hk
  rcases Nat.eq_or_lt_of_le hik with rfl | hlt
  · exact hhere
  · subst htext
    exact h k (hi ▸ next_le_of_isCharBoundary hk (hi ▸ hlt)) hkj hk

/-- From a boundary the search does not panic. By induction on the calls. What it found is returned with the fact that
    nothing was to be found before. -/
theorem nextMatch_spec (laws : crates.Lawful) (hi : isCharBoundary text i = true) :
    ∃ found, nextMatch crates text opts i = .ok found ∧ Sought crates text opts i found := by
  -- every step of the search ends where a character ends, so it stays on boundaries
  induction i using nextMatch.induct crates text opts with
  | case1 i hlt mat hfound =>
      obtain ⟨-, rfl, -⟩ := fits_of_tryAt laws hfound
      refine ⟨some mat, ?_, .found (Nat.le_refl _) hfound (fun k hik hki _ => absurd hki (Nat.not_lt.mpr hik))⟩
      rw [nextMatch, if_pos hlt]
      simp only [hfound]
  | case2 i hlt hnone p hstep =>
      -- on a boundary there is a character to step over
      obtain ⟨pre, c, rest, -, -, hget⟩ := exists_char hi hlt
      rw [utf8Step_of_get hget] at hstep
      cases hstep
  | case3 i hlt hnone step hstep ih =>
      obtain ⟨pre, c, rest, htext, hpre, hget⟩ := exists_char hi hlt
      obtain rfl : c.utf8Size = step := Except.ok.inj ((utf8Step_of_get hget).symm.trans hstep)
      have hnext : isCharBoundary text (i + c.utf8Size) = true := by
        rw [htext, ← hpre]
        exact isCharBoundary_next
      obtain ⟨found, hsearch, hsought⟩ := ih hnext
      refine ⟨found, ?_, ?_⟩
      · rw [nextMatch, if_pos hlt]
        split
        · rename_i hsome
          rw [hnone] at hsome
          cases hsome
        · split
          · rename_i hstep'
            rw [hstep] at hstep'
            cases hstep'
          · rename_i hstep'
            rw [hstep] at hstep'
            cases hstep'
            exact hsearch
      · cases hsought with
        | found hle hmat hquiet =>
            exact .found ((Nat.le_add_right _ _).trans hle) hmat (.step hnone htext hpre hquiet)
        | nothing hquiet => exact .nothing (.step hnone htext hpre hquiet)
  | case4 i hge =>
      refine ⟨none, ?_, .nothing (fun k hik hk _ => absurd (hik.trans_lt hk) hge)⟩
      rw [nextMatch, if_neg hge]

end NextMatch

/-! ## One call -/

section Calls

variable {crates : Crates} {text : String} {opts : NostrParserOptions} {s s' : State} {token : Token}

/-- What holds between two calls: the cursor is on a boundary, and a pending match was found there. -/
structure Good (crates : Crates) (text : String) (opts : NostrParserOptions) (s : State) : Prop where
  boundary : isCharBoundary text s.pos = true
  pending : ∀ mat, s.pending = some mat → mat.start = s.pos ∧ tryAt crates text opts s.pos = some mat

/-- What a call does. -/
inductive Call (crates : Crates) (text : String) (opts : NostrParserOptions) (s : State) : Option Token × State → Prop
    where
  | finished : s.pending = none → strLen text ≤ s.pos → Call crates text opts s (none, s)
  | found {mat : Match} : mat.start = s.pos → tryAt crates text opts s.pos = some mat →
      Call crates text opts s (some (materialise crates text mat), ⟨mat.stop, none⟩)
  | gap {mat : Match} {gap : String} : s.pos < mat.start → tryAt crates text opts mat.start = some mat →
      Quiet crates text opts s.pos mat.start → strGet text s.pos mat.start = some gap →
      Call crates text opts s (some (.text gap), ⟨mat.start, some mat⟩)
  | rest {rest : String} : s.pos < strLen text → Quiet crates text opts s.pos (strLen text) →
      strGet text s.pos (strLen text) = some rest → Call crates text opts s (some (.text rest), ⟨strLen text, none⟩)

theorem good_start : Good crates text opts start := ⟨isCharBoundary_zero text, nofun⟩

/-- A call does not panic, and there are four things it can do. A pending match, the end, a match with or without a
    gap, and the rest: each is read off the search. -/
theorem next_call (laws : crates.Lawful) (good : Good crates text opts s) :
    ∃ out, next crates text opts s = .ok out ∧ Call crates text opts s out := by
  cases hpending : s.pending with
  | some mat =>
      obtain ⟨hstart, hfound⟩ := good.pending mat hpending
      refine ⟨_, ?_, .found hstart hfound⟩
      simp only [next, hpending]
  | none =>
      by_cases hend : strLen text ≤ s.pos
      · refine ⟨_, ?_, .finished hpending hend⟩
        simp only [next, hpending, if_pos hend]
      have hlt : s.pos < strLen text := Nat.lt_of_not_le hend
      obtain ⟨found, hsearch, hsought⟩ : ∃ found, nextMatch crates text opts s.pos = .ok found ∧
          Sought crates text opts s.pos found := nextMatch_spec laws good.boundary
      cases hsought with
      | @found mat hle hmat hquiet =>
          obtain ⟨hfits, -, -⟩ := fits_of_tryAt laws hmat
          rcases Nat.eq_or_lt_of_le hle with heq | hgap
          · refine ⟨_, ?_, .found heq.symm (heq ▸ hmat)⟩
            simp only [next, hpending, if_neg hend, hsearch, bind, Except.bind, if_neg (Nat.not_lt.mpr heq.ge)]
            rfl
          · obtain ⟨gap, hget, -⟩ := strGet_of_boundary hle good.boundary hfits.start
            refine ⟨_, ?_, .gap hgap hmat hquiet hget⟩
            simp only [next, hpending, if_neg hend, hsearch, hget, bind, Except.bind, if_pos hgap]
            rfl
      | nothing hquiet =>
          obtain ⟨rest, hget, -⟩ := strGet_of_boundary hlt.le good.boundary (isCharBoundary_strLen text)
          refine ⟨_, ?_, .rest hlt hquiet hget⟩
          simp only [next, hpending, if_neg hend, hsearch, hget]
          rfl

/-- A call that yields moves the cursor on, to a boundary. -/
theorem Call.good (laws : crates.Lawful) (h : Call crates text opts s (some token, s')) :
    Good crates text opts s' ∧ s.pos < s'.pos := by
  cases h with
  | found hstart hfound =>
      obtain ⟨hfits, -, -⟩ := fits_of_tryAt laws hfound
      exact ⟨⟨hfits.stop, nofun⟩, hstart ▸ hfits.nonempty⟩
  | gap hlt hfound _ _ =>
      obtain ⟨hfits, -, -⟩ := fits_of_tryAt laws hfound
      refine ⟨⟨hfits.start, fun mat hmat => ?_⟩, hlt⟩
      obtain rfl := Option.some.inj hmat
      exact ⟨rfl, hfound⟩
  | rest hlt _ _ => exact ⟨⟨isCharBoundary_strLen text, nofun⟩, hlt⟩

theorem call_of_next (laws : crates.Lawful) (good : Good crates text opts s) {out : Option Token × State}
    (h : next crates text opts s = .ok out) : Call crates text opts s out := by
  obtain ⟨out', hnext, hcall⟩ := next_call laws good
  obtain rfl := Except.ok.inj (hnext.symm.trans h)
  exact hcall

end Calls

/-! ## All calls -/

/-- A token and the bytes that the cursor passes for it. -/
structure Piece where
  token : Token
  start : Nat
  stop : Nat
  deriving DecidableEq

/-- The calls until the iterator ends. -/
inductive Run (crates : Crates) (text : String) (opts : NostrParserOptions) : State → List Piece → Prop where
  | done {s s' : State} : next crates text opts s = .ok (none, s') → Run crates text opts s []
  | more {s s' : State} {token : Token} {pieces : List Piece} : next crates text opts s = .ok (some token, s') →
      Run crates text opts s' pieces → Run crates text opts s (⟨token, s.pos, s'.pos⟩ :: pieces)

/-- Every piece starts where the one before it stops. -/
def Joins : Nat → List Piece → Nat → Prop
  | i, [], j => i = j
  | i, piece :: rest, j => piece.start = i ∧ Joins piece.stop rest j

/-- The text that a piece covers. -/
def Piece.source (text : String) (piece : Piece) : Option String := strGet text piece.start piece.stop

/-- What a token stands for. -/
def Token.Denotes (crates : Crates) (source : String) : Token → Prop
  | .text s => s = source
  | .nostr entity => Nip21.parse crates.bech32 crates.urls source = .ok entity
  | .url u => parseUrl crates source = .ok u
  | .hashtag body => source = "#" ++ body ∧ body ≠ ""
  | .lineBreak => source = "\n"

/-- The tokens that the options ask for. -/
def NostrParserOptions.allows (opts : NostrParserOptions) : Token → Bool
  | .text _ => true
  | .nostr _ => opts.parseNostrUris
  | .url _ => opts.parseUrls
  | .hashtag _ => opts.parseHashtags
  | .lineBreak => opts.emitLineBreaks

/-- A piece of the text with a token that stands for it and is not turned off. -/
structure Piece.Sound (crates : Crates) (text : String) (opts : NostrParserOptions) (piece : Piece) : Prop where
  nonempty : piece.start < piece.stop
  start : isCharBoundary text piece.start = true
  stop : isCharBoundary text piece.stop = true
  source : ∃ source, piece.source text = some source ∧ piece.token.Denotes crates source
  allowed : opts.allows piece.token = true

section Runs

variable {crates : Crates} {text : String} {opts : NostrParserOptions} {s s' : State} {token : Token}
  {pieces : List Piece}

theorem denotes_of_lineBreak {mat : Match} {source : String} (hfits : Fits text mat) (hkind : mat.kind = .lineBreak)
    (hsource : strGet text mat.start mat.stop = some source) (hlen : strLen source = mat.stop - mat.start) :
    source = "\n" := by
  obtain ⟨hbyte, hstop⟩ := hfits.lineBreak hkind
  have hone : strLen source = 1 := by omega
  have hfirst := getElem?_of_strGet hsource (k := 0) (by omega)
  rw [Nat.add_zero, hbyte] at hfirst
  obtain ⟨b, hb⟩ := List.length_eq_one_iff.mp hone
  rw [hb] at hfirst
  cases hfirst
  exact strBytes_inj hb

/-- Behind its first character a hashtag has a body. -/
theorem body_of_hashtag {mat : Match} {source : String} (hfits : Fits text mat) (hkind : mat.kind = .hashtag)
    (hsource : strGet text mat.start mat.stop = some source) (hlen : strLen source = mat.stop - mat.start) :
    ∃ body, strGet source 1 (strLen source) = some body ∧ source = "#" ++ body ∧ body ≠ "" := by
  obtain ⟨hbyte, hstop⟩ := hfits.hashtag hkind
  have hfirst := getElem?_of_strGet hsource (k := 0) (by omega)
  rw [Nat.add_zero, hbyte] at hfirst
  obtain ⟨body, hbody, hbodyLen⟩ := strGet_of_boundary (s := source) (by omega) (boundary_of_ascii hfirst (by decide)).2
    (isCharBoundary_strLen source)
  refine ⟨body, hbody, ?_, ?_⟩
  · obtain ⟨pre, post, hsplit, hpre, hall⟩ := strGet_eq_some_iff.mp hbody
    have hpost : post = "" := eq_empty_of_strLen (by
      have hsum := congrArg strLen hsplit
      rw [strLen_append] at hsum
      omega)
    obtain ⟨b, hb⟩ := List.length_eq_one_iff.mp hpre
    rw [hsplit, strBytes_append, strBytes_append, hb] at hfirst
    cases hfirst
    have hhash : pre = "#" := strBytes_inj hb
    rw [hsplit, hpost, String.append_empty, hhash]
  · rintro rfl
    have hzero : strLen "" = 0 := rfl
    omega

/-- What `materialise` makes of a match stands for it. One case for each kind of match; a reference or a url that is
    refused is left as text. -/
theorem materialise_sound {mat : Match} (hfits : Fits text mat) (hon : opts.enables mat.kind = true) :
    Piece.Sound crates text opts ⟨materialise crates text mat, mat.start, mat.stop⟩ := by
  obtain ⟨source, hsource, hlen⟩ := strGet_of_boundary hfits.nonempty.le hfits.start hfits.stop
  have hsound : (materialise crates text mat).Denotes crates source ∧
      opts.allows (materialise crates text mat) = true := by
    unfold materialise
    simp only [hsource]
    cases hkind : mat.kind with
    | lineBreak =>
        rw [hkind] at hon
        exact ⟨denotes_of_lineBreak hfits hkind hsource hlen, hon⟩
    | hashtag =>
        rw [hkind] at hon
        obtain ⟨body, hbody, hsplit, hne⟩ := body_of_hashtag hfits hkind hsource hlen
        simp only [hbody]
        exact ⟨⟨hsplit, hne⟩, hon⟩
    | nostrUri =>
        rw [hkind] at hon
        dsimp only
        split
        · rename_i hparse
          exact ⟨hparse, hon⟩
        · exact ⟨rfl, rfl⟩
    | url =>
        rw [hkind] at hon
        dsimp only
        split
        · rename_i hparse
          exact ⟨hparse, hon⟩
        · exact ⟨rfl, rfl⟩
  exact ⟨hfits.nonempty, hfits.start, hfits.stop, ⟨source, hsource, hsound.1⟩, hsound.2⟩

/-- What a call yields stands for what the cursor passes. -/
theorem Call.sound (laws : crates.Lawful) (good : Good crates text opts s)
    (h : Call crates text opts s (some token, s')) : Piece.Sound crates text opts ⟨token, s.pos, s'.pos⟩ := by
  obtain ⟨hgood, hlt⟩ := h.good laws
  cases h with
  | found hstart hfound =>
      obtain ⟨hfits, -, hon⟩ := fits_of_tryAt laws hfound
      rw [← hstart]
      exact materialise_sound hfits hon
  | gap _ _ _ hget => exact ⟨hlt, good.boundary, hgood.boundary, ⟨_, hget, rfl⟩, rfl⟩
  | rest _ _ hget => exact ⟨hlt, good.boundary, hgood.boundary, ⟨_, hget, rfl⟩, rfl⟩

/-- The iterator ends, and does not panic. -/
theorem exists_run (laws : crates.Lawful) (good : Good crates text opts s) :
    ∃ pieces, Run crates text opts s pieces := by
  induction hleft : strLen text - s.pos using Nat.strong_induction_on generalizing s with
  | _ left ih =>
      obtain ⟨⟨token, s'⟩, hnext, hcall⟩ := next_call laws good
      cases token with
      | none => exact ⟨[], .done hnext⟩
      | some token =>
          obtain ⟨hgood, hlt⟩ := hcall.good laws
          have hle := le_of_isCharBoundary hgood.boundary
          obtain ⟨pieces, hrun⟩ := ih (strLen text - s'.pos) (by omega) hgood rfl
          exact ⟨_, .more hnext hrun⟩

/-- The pieces of a run join up to the end of the text. -/
theorem Run.joins (laws : crates.Lawful) (good : Good crates text opts s) (h : Run crates text opts s pieces) :
    Joins s.pos pieces (strLen text) ∧ ∀ piece ∈ pieces, piece.Sound crates text opts := by
  induction h with
  | done hnext =>
      cases call_of_next laws good hnext with
      | finished _ hend => exact ⟨Nat.le_antisymm (le_of_isCharBoundary good.boundary) hend, nofun⟩
  | more hnext _ ih =>
      have hcall := call_of_next laws good hnext
      obtain ⟨hjoins, hsound⟩ := ih (hcall.good laws).1
      exact ⟨⟨rfl, hjoins⟩, List.forall_mem_cons.mpr ⟨hcall.sound laws good, hsound⟩⟩

/-- What pieces that join up cover is the text. -/
theorem Joins.source {i : Nat} (h : Joins i pieces (strLen text)) (hi : isCharBoundary text i = true)
    (hsound : ∀ piece ∈ pieces, piece.Sound crates text opts) :
    (pieces.mapM (Piece.source text)).map String.join = strGet text i (strLen text) := by
  induction pieces generalizing i with
  | nil =>
      obtain ⟨rest, hget, hlen⟩ := strGet_of_boundary (le_of_isCharBoundary hi) hi (isCharBoundary_strLen text)
      have hempty : rest = "" := eq_empty_of_strLen (by rw [hlen, show i = strLen text from h, Nat.sub_self])
      rw [hget, hempty, List.mapM_nil]
      rfl
  | cons piece rest ih =>
      obtain ⟨rfl, hrest⟩ := h
      obtain ⟨hhere, hsound⟩ := List.forall_mem_cons.mp hsound
      obtain ⟨source, hsource, -⟩ := hhere.source
      have hjoin := ih hrest hhere.stop hsound
      obtain ⟨behind, hget, -⟩ := strGet_of_boundary (le_of_isCharBoundary hhere.stop) hhere.stop
        (isCharBoundary_strLen text)
      rw [hget] at hjoin
      obtain ⟨sources, hsources, hjoined⟩ := Option.map_eq_some_iff.mp hjoin
      rw [strGet_trans hsource hget, List.mapM_cons, hsource, hsources, ← hjoined]
      exact congrArg some String.join_cons

theorem Run.allDisabled (laws : crates.Lawful) (htext : text ≠ "")
    (h : Run crates text .allDisabled start pieces) : pieces = [⟨.text text, 0, strLen text⟩] := by
  have hpos : 0 < strLen text := Nat.pos_of_ne_zero (fun hzero => htext (eq_empty_of_strLen hzero))
  cases h with
  | done hnext =>
      cases call_of_next laws good_start hnext with
      | finished _ hend => exact absurd hend (Nat.not_le.mpr hpos)
  | more hnext hrest =>
      cases call_of_next laws good_start hnext with
      | found _ hfound => exact absurd hfound nofun
      | gap _ hfound _ _ => exact absurd hfound nofun
      | rest hlt _ hget =>
          obtain rfl := Option.some.inj ((strGet_self text).symm.trans hget)
          cases hrest with
          | done _ => rfl
          | more hnext' _ =>
              -- behind the text a token would have to move the cursor past the end
              have hgood : Good crates text .allDisabled ⟨strLen text, none⟩ := ⟨isCharBoundary_strLen text, nofun⟩
              have hcall := call_of_next laws hgood hnext'
              exact absurd ((hcall.good laws).2.trans_le (le_of_isCharBoundary (hcall.good laws).1.boundary))
                (Nat.lt_irrefl _)

end Runs

/-- **The parser covers its text.** It ends without a panic; its tokens cover the text without a gap, each one a piece
that it stands for and of a kind that is on; and with everything off the text is one token.

A cursor is good when it stands at a boundary; a call from a good cursor returns, yields a piece and leaves a good
cursor further on (`next_call`), which gives termination by the bytes that are left and coverage by induction on
the run. -/
theorem run_covers {crates : Crates} (laws : crates.Lawful) (text : String) (opts : NostrParserOptions) :
    (∃ pieces, Run crates text opts start pieces) ∧
    ∀ pieces, Run crates text opts start pieces →
      Joins 0 pieces (strLen text) ∧
      (∀ piece ∈ pieces, piece.Sound crates text opts) ∧
      (pieces.mapM (Piece.source text)).map String.join = some text ∧
      (opts = .allDisabled → text ≠ "" → pieces = [⟨.text text, 0, strLen text⟩]) := by
  refine ⟨exists_run laws good_start, fun pieces hrun => ?_⟩
  obtain ⟨hjoins, hsound⟩ := hrun.joins laws good_start
  refine ⟨hjoins, hsound, ?_, ?_⟩
  · exact (hjoins.source (isCharBoundary_zero text) hsound).trans (strGet_self text)
  · rintro rfl htext
    exact hrun.allDisabled laws htext

namespace Sample

/-- Crates that know one npub and no url. -/
def crates : Crates where
  bech32 := Nip19.Sample.bech32
  urls := Nip19.Sample.urls
  cannotBeABase _ := false
  isFe32 c := decide (c.toLower ∈ bech32Alphabet)

theorem crates_lawful : crates.Lawful := fun _ => decide_eq_true_iff

end Sample

/-- A text with a hashtag is covered by its tokens. -/
theorem run_covers_hashtag : ∃ pieces, Run Sample.crates "hi #añb" .allEnabled start pieces ∧
    (pieces.mapM (Piece.source "hi #añb")).map String.join = some "hi #añb" := by
  obtain ⟨⟨pieces, hrun⟩, hall⟩ := run_covers Sample.crates_lawful "hi #añb" .allEnabled
  exact ⟨pieces, hrun, (hall pieces hrun).2.2.1⟩

end Nula.Parser
