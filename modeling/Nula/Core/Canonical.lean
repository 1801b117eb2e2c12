import Nula.Core.Signing
import Nula.Lib.Delimited
import Std.Data.String.ToNat

/-!
# `Core.Canonical` — the canonical form tells events apart

What `canonical_bytes` writes is delimited all the way down: an escape tells its byte, a quoted string ends at
the first quote that no escape contains, a number at the comma behind it, and an array at its bracket. So the
canonical form is that of one event only, whatever its values contain.
-/

namespace Nula

namespace Json

/-! ## Strings -/

/-- The byte behind a backslash. -/
def unescapeTail : Bytes → Option UInt8
  | [] => none
  | c :: rest =>
      if c = 0x75 then if 4 ≤ rest.length then (Hex.decodePairs ((rest.take 4).drop 2)).bind List.head? else none
      else [((0x22 : UInt8), (0x22 : UInt8)), (0x5c, 0x5c), (0x62, 0x08), (0x74, 0x09), (0x6e, 0x0a), (0x66, 0x0c),
        (0x72, 0x0d)].lookup c

/-- The byte at the front of an escaped text. -/
def unescape : Bytes → Option UInt8
  | [] => none
  | b :: rest => if b = 0x5c then unescapeTail rest else some b

/-- Every byte is read back from its escape, over all 256 of them. -/
theorem unescape_escapeByte : ∀ b : UInt8, unescape (escapeByte b) = some b := by decide +kernel

/-- What follows an escape changes nothing of what is read. -/
theorem unescapeTail_append {w : Bytes} {b : UInt8} (h : unescapeTail w = some b) (rest : Bytes) :
    unescapeTail (w ++ rest) = some b := by
  cases w with
  | nil => cases h
  | cons c w =>
      rw [List.cons_append]
      rw [unescapeTail] at h ⊢
      by_cases hunicode : c = 0x75
      · rw [if_pos hunicode] at h ⊢
        by_cases hlong : 4 ≤ w.length
        · have hlonger : 4 ≤ (w ++ rest).length := by
            rw [List.length_append]
            omega
          rw [if_pos hlong] at h
          rwa [if_pos hlonger, List.take_append_of_le_length hlong]
        · rw [if_neg hlong] at h
          cases h
      · rwa [if_neg hunicode] at h ⊢

theorem unescape_append {w : Bytes} {b : UInt8} (h : unescape w = some b) (rest : Bytes) :
    unescape (w ++ rest) = some b := by
  cases w with
  | nil => cases h
  | cons c w =>
      rw [List.cons_append]
      rw [unescape] at h ⊢
      by_cases hescape : c = 0x5c
      · rw [if_pos hescape] at h ⊢
        exact unescapeTail_append h rest
      · rwa [if_neg hescape] at h ⊢

/-- **Escapes are delimited**: no escape of a byte is the beginning of another's, so a run of them splits in one way
    only. Reading the first one back from either text decides the byte. -/
theorem delimited_escapeByte : Delimited escapeByte := by
  refine Delimited.of_prefix (fun b c hprefix => ?_)
  obtain ⟨rest, hrest⟩ := hprefix
  have hb := unescape_append (unescape_escapeByte b) rest
  rw [hrest, unescape_escapeByte] at hb
  exact (Option.some.inj hb).symm

/-- No escape begins with a quote. -/
theorem head_escapeByte (b : UInt8) : ∃ c w, escapeByte b = c :: w ∧ c ≠ 0x22 := by
  have hhead : ∀ b : UInt8, (escapeByte b).head?.any (fun c => c ≠ 0x22) = true := by decide +kernel
  have hb := hhead b
  cases hword : escapeByte b with
  | nil =>
      rw [hword] at hb
      cases hb
  | cons c w =>
      rw [hword] at hb
      exact ⟨c, w, rfl, by simpa using hb⟩

/-- A string ends at its first bare quote, so two texts that begin with a string begin with the same one. -/
theorem delimited_string : Delimited string := by
  have hbytes : Delimited (fun l : Bytes => (0x22 : UInt8) :: (l.flatMap escapeByte ++ [0x22])) :=
    (delimited_escapeByte.list head_escapeByte).cons 0x22
  have hstrings := hbytes.comp (fun s t => strBytes_inj)
  intro s t r r' heq
  simp only [string, List.append_assoc, List.singleton_append] at heq
  refine hstrings s t r r' ?_
  simpa only [List.append_assoc, List.singleton_append, List.cons_append, List.nil_append] using heq

/-- The first byte of a string is its quote, which is not the bracket that ends an array. -/
theorem head_string (s : String) : ∃ c w, string s = c :: w ∧ c ≠ 0x5d := by
  exact ⟨0x22, _, rfl, by decide⟩

/-! ## Numbers and arrays -/

theorem number_injective : Function.Injective number := by
  intro n m h
  exact Nat.repr_injective (strBytes_inj h)

theorem comma_notMem_number (n : Nat) : (0x2c : UInt8) ∉ number n := by
  intro h
  rw [number, ← String.ofList_toList (s := toString n), strBytes_ofList, List.mem_flatMap] at h
  obtain ⟨c, hc, hbyte⟩ := h
  have hdigit : c.isDigit = true := by
    rw [show toString n = Nat.repr n from rfl, Nat.toList_repr] at hc
    exact Nat.isDigit_of_mem_toDigits (by decide) (by decide) hc
  obtain ⟨hlow, hhigh⟩ : 48 ≤ c.val.toNat ∧ c.val.toNat ≤ 57 := by
    simpa [Char.isDigit, UInt32.le_iff_toNat_le] using hdigit
  have hascii : c.val ≤ 127 := UInt32.le_iff_toNat_le.mpr (hhigh.trans (by decide))
  rw [String.utf8EncodeChar_eq_singleton (Char.utf8Size_eq_one_iff.mpr hascii), List.mem_singleton] at hbyte
  have hnat := congrArg UInt8.toNat hbyte
  rw [UInt32.toNat_toUInt8, Nat.mod_eq_of_lt (by omega)] at hnat
  have hcomma : (0x2c : UInt8).toNat = 44 := rfl
  omega

/-- A number and the comma behind it are delimited: the comma is at the same place in both. -/
theorem delimited_number : Delimited (fun n => number n ++ [0x2c]) :=
  Delimited.marked number_injective comma_notMem_number

/-- An array of strings. -/
theorem delimited_strings : Delimited (fun values : List String => array (values.map string)) :=
  delimited_string.bracketed (by decide) head_string

/-- An array of arrays of strings. -/
theorem delimited_tags :
    Delimited (fun tags : List (List String) => array (tags.map (fun values => array (values.map string)))) :=
  delimited_strings.bracketed (by decide) (fun values => ⟨0x5b, _, rfl, by decide⟩)

end Json

/-! ## Events -/

/-- The canonical form as the row of its parts, each with the separator that ends it. -/
theorem canonicalBytes_eq (pubkey : PublicKey) (createdAt : Timestamp) (kind : Kind) (tags : Tags)
    (content : String) : canonicalBytes pubkey createdAt kind tags content =
      [0x5b, 0x30, 0x2c] ++ (Json.string pubkey.toHex ++ (0x2c :: ((Json.number createdAt.toNat ++ [0x2c]) ++
        ((Json.number kind.val.toNat ++ [0x2c]) ++
          (Json.array ((tags.items.map Tag.values).map (fun values => Json.array (values.map Json.string))) ++
            (0x2c :: (Json.string content ++ [0x5d]))))))) := by
  have hzero : Json.number 0 = [0x30] := by decide +kernel
  rw [canonicalBytes, Json.array, Delimited.intercalate_cons, hzero, List.map_map]
  simp [List.flatMap_cons, Function.comp_def]

/-- The canonical form is that of one tuple only. -/
theorem canonicalBytes_inj (pubkey pubkey' : PublicKey) (createdAt createdAt' : Timestamp) (kind kind' : Kind)
    (tags tags' : Tags) (content content' : String) :
    canonicalBytes pubkey createdAt kind tags content = canonicalBytes pubkey' createdAt' kind' tags' content' ↔
      pubkey = pubkey' ∧ createdAt = createdAt' ∧ kind = kind' ∧ tags = tags' ∧ content = content' := by
  constructor
  · intro h
    simp only [canonicalBytes_eq] at h
    obtain ⟨hpubkey, h⟩ := Json.delimited_string _ _ _ _ (List.append_cancel_left h)
    obtain ⟨hcreatedAt, h⟩ := Json.delimited_number _ _ _ _ (List.cons.inj h).2
    obtain ⟨hkind, h⟩ := Json.delimited_number _ _ _ _ h
    obtain ⟨htags, h⟩ := Json.delimited_tags _ _ _ _ h
    obtain ⟨hcontent, -⟩ := Json.delimited_string _ _ _ _ (List.cons.inj h).2
    refine ⟨PublicKey.toHex_injective hpubkey, UInt64.toNat_inj.mp hcreatedAt, ?_, ?_, hcontent⟩
    · exact Kind.val_injective (UInt16.toNat_inj.mp hkind)
    · cases tags
      cases tags'
      exact congrArg Tags.mk (List.map_injective_iff.mpr Tag.values_injective htags)
  · rintro ⟨rfl, rfl, rfl, rfl, rfl⟩
    rfl

/-- **Two events with one canonical form are the same, and where two that differ have one id, their canonical forms
    are a collision of SHA-256.**

    The form is a row of delimited parts: from a common text each can be read off in one way only, numbers up to
    the comma, strings up to the bare quote (`delimited_string`, `delimited_number`), and the tags by induction. -/
theorem canonical_form_unique :
    (∀ (pubkey pubkey' : PublicKey) (createdAt createdAt' : Timestamp) (kind kind' : Kind) (tags tags' : Tags)
      (content content' : String),
      canonicalBytes pubkey createdAt kind tags content = canonicalBytes pubkey' createdAt' kind' tags' content' ↔
        pubkey = pubkey' ∧ createdAt = createdAt' ∧ kind = kind' ∧ tags = tags' ∧ content = content') ∧
    ∀ (crypto : Crypto) (u v : UnsignedEvent), u.computeId crypto ≠ v.computeId crypto ∨
      (u.pubkey = v.pubkey ∧ u.createdAt = v.createdAt ∧ u.kind = v.kind ∧ u.tags = v.tags ∧
        u.content = v.content) ∨
      (canonicalBytes u.pubkey u.createdAt u.kind u.tags u.content ≠
          canonicalBytes v.pubkey v.createdAt v.kind v.tags v.content ∧
        crypto.sha256 (canonicalBytes u.pubkey u.createdAt u.kind u.tags u.content) =
          crypto.sha256 (canonicalBytes v.pubkey v.createdAt v.kind v.tags v.content)) := by
  refine ⟨canonicalBytes_inj, fun crypto u v => ?_⟩
  by_cases hid : u.computeId crypto = v.computeId crypto
  · refine Or.inr ?_
    by_cases hform : canonicalBytes u.pubkey u.createdAt u.kind u.tags u.content =
        canonicalBytes v.pubkey v.createdAt v.kind v.tags v.content
    · exact Or.inl ((canonicalBytes_inj ..).mp hform)
    · exact Or.inr ⟨hform, congrArg EventId.bytes hid⟩
  · exact Or.inl hid

end Nula
