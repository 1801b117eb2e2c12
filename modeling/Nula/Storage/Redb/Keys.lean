import Nula.Storage.Canonical

/-!
# `Storage.Redb.Keys` — byte keys of the secondary indexes

The key builders of `redb/keys.rs`, and what their byte order means. Fixed-width big-endian fields
compare as numbers, so a key compares by its fields in turn; a key determines the fields it was built
from; and among keys at least as long as a prefix, the half-open range from the prefix to its upper bound
holds exactly the keys that start with it (`inRange_iff`). A shorter key may stray into it (`inRange_iff_or`).
-/

namespace Nula

open Std

namespace Keys

/-- The length of an id. -/
def idLen : Nat := 32

/-- The length of a key. -/
def pubkeyLen : Nat := 32

/-- The length of a timestamp. -/
def tsLen : Nat := 8

/-- The length of a kind. -/
def kindLen : Nat := 2

/-- `by_created_at`: `[ts_be(8)] [event_id(32)]`. -/
def byCreatedAt (ts : Timestamp) (id : EventId) : Bytes := beBytes tsLen ts.toNat ++ id.bytes

/-- `by_author_ts`: `[pubkey(32)] [ts_be(8)] [event_id(32)]`. -/
def byAuthorTs (pubkey : PublicKey) (ts : Timestamp) (id : EventId) : Bytes :=
  pubkey.bytes ++ (beBytes tsLen ts.toNat ++ id.bytes)

/-- `by_kind_author_ts`: `[kind_be(2)] [pubkey(32)] [ts_be(8)] [event_id(32)]`. -/
def byKindAuthorTs (kind : Kind) (pubkey : PublicKey) (ts : Timestamp) (id : EventId) : Bytes :=
  (beBytes kindLen kind.val.toNat ++ pubkey.bytes) ++ (beBytes tsLen ts.toNat ++ id.bytes)

/-- `by_coordinate`: `[kind_be(2)] [pubkey(32)] [identifier_utf8(..)]`. -/
def byCoordinate (kind : Kind) (pubkey : PublicKey) (identifier : String) : Bytes :=
  (beBytes kindLen kind.val.toNat ++ pubkey.bytes) ++ strBytes identifier

/-- `kind_author_prefix`. -/
def kindAuthorPrefix (kind : Kind) (pubkey : PublicKey) : Bytes :=
  beBytes kindLen kind.val.toNat ++ pubkey.bytes

/-- `author_prefix`. -/
def authorPrefix (pubkey : PublicKey) : Bytes := pubkey.bytes

/-- The loop of `upper_bound`, over the bytes in reverse. -/
def bump : Bytes → Option Bytes
  | [] => none
  | byte :: rest =>
      if byte = 0xFF then (bump rest).map (fun out => 0 :: out) else some ((byte + 1) :: rest)

/-- `upper_bound`: bump the rightmost byte that is not `0xFF`; `none` when there is none. -/
def upperBound (p : Bytes) : Option Bytes := (bump p.reverse).map List.reverse

/-! ## Fields -/

theorem byCreatedAt_length (ts : Timestamp) (id : EventId) :
    (byCreatedAt ts id).length = tsLen + idLen := by
  simp [byCreatedAt, id.size, idLen]

theorem kindAuthorPrefix_length (kind : Kind) (pubkey : PublicKey) :
    (kindAuthorPrefix kind pubkey).length = kindLen + pubkeyLen := by
  simp [kindAuthorPrefix, pubkey.size, pubkeyLen]

theorem byKindAuthorTs_length (kind : Kind) (pubkey : PublicKey) (ts : Timestamp) (id : EventId) :
    (byKindAuthorTs kind pubkey ts id).length = kindLen + pubkeyLen + tsLen + idLen := by
  simp [byKindAuthorTs, pubkey.size, id.size, idLen, pubkeyLen, tsLen, kindLen]

theorem beBytes_toNat_inj {ts ts' : Timestamp} (h : beBytes tsLen ts.toNat = beBytes tsLen ts'.toNat) :
    ts = ts' :=
  UInt64.toNat_inj.mp (beBytes_inj ts.toNat_lt ts'.toNat_lt h)

theorem byCreatedAt_inj {ts ts' : Timestamp} {id id' : EventId}
    (h : byCreatedAt ts id = byCreatedAt ts' id') : ts = ts' ∧ id = id' := by
  obtain ⟨hts, hid⟩ := List.append_inj h (by simp)
  exact ⟨beBytes_toNat_inj hts, EventId.bytes_injective hid⟩

theorem byAuthorTs_inj {pk pk' : PublicKey} {ts ts' : Timestamp} {id id' : EventId}
    (h : byAuthorTs pk ts id = byAuthorTs pk' ts' id') : pk = pk' ∧ ts = ts' ∧ id = id' := by
  obtain ⟨hpk, hrest⟩ := List.append_inj h (by rw [pk.size, pk'.size])
  exact ⟨PublicKey.bytes_injective hpk, byCreatedAt_inj hrest⟩

theorem kindAuthorPrefix_inj {k k' : Kind} {pk pk' : PublicKey}
    (h : kindAuthorPrefix k pk = kindAuthorPrefix k' pk') : k = k' ∧ pk = pk' := by
  obtain ⟨hk, hpk⟩ := List.append_inj h (by simp)
  have hval : k.val.toNat = k'.val.toNat := beBytes_inj k.val.toNat_lt k'.val.toNat_lt hk
  exact ⟨Kind.val_injective (UInt16.toNat_inj.mp hval), PublicKey.bytes_injective hpk⟩

theorem byKindAuthorTs_inj {k k' : Kind} {pk pk' : PublicKey} {ts ts' : Timestamp} {id id' : EventId}
    (h : byKindAuthorTs k pk ts id = byKindAuthorTs k' pk' ts' id') :
    k = k' ∧ pk = pk' ∧ ts = ts' ∧ id = id' := by
  obtain ⟨hp, hrest⟩ := List.append_inj h
    (by rw [← kindAuthorPrefix, ← kindAuthorPrefix, kindAuthorPrefix_length, kindAuthorPrefix_length])
  obtain ⟨hk, hpk⟩ := kindAuthorPrefix_inj hp
  exact ⟨hk, hpk, byCreatedAt_inj hrest⟩

/-- A coordinate key determines the coordinate, whatever bytes the identifier has. -/
theorem byCoordinate_inj {k k' : Kind} {pk pk' : PublicKey} {d d' : String}
    (h : byCoordinate k pk d = byCoordinate k' pk' d') : k = k' ∧ pk = pk' ∧ d = d' := by
  obtain ⟨hp, hd⟩ := List.append_inj h
    (by rw [← kindAuthorPrefix, ← kindAuthorPrefix, kindAuthorPrefix_length, kindAuthorPrefix_length])
  obtain ⟨hk, hpk⟩ := kindAuthorPrefix_inj hp
  exact ⟨hk, hpk, strBytes_inj hd⟩

/-- The time and id part of a key compares oldest first, ties by ascending id. -/
theorem compare_byCreatedAt (ts ts' : Timestamp) (id id' : EventId) :
    compare (byCreatedAt ts id) (byCreatedAt ts' id') = (compare ts ts').then (compare id id') := by
  have hts : compare (beBytes tsLen ts.toNat) (beBytes tsLen ts'.toNat) = compare ts ts' := by
    rw [compare_beBytes ts.toNat_lt ts'.toNat_lt]
    rcases Nat.lt_trichotomy ts.toNat ts'.toNat with h | h | h
    · rw [Nat.compare_eq_lt.mpr h, eq_comm, Std.compare_eq_lt]
      exact UInt64.lt_iff_toNat_lt.mpr h
    · rw [UInt64.toNat_inj.mp h, Std.compare_self, Std.compare_self]
    · rw [Nat.compare_eq_gt.mpr h, eq_comm, Std.compare_eq_gt]
      exact UInt64.lt_iff_toNat_lt.mpr h
  rw [byCreatedAt, byCreatedAt, compare_append (by simp), hts]
  rfl

/-- **Bytes are ordered as what they stand for**: by time, and then by id. -/
theorem compare_byCreatedAt_pair (ts ts' : Timestamp) (id id' : EventId) :
    compare (byCreatedAt ts id) (byCreatedAt ts' id') = compare (ts, id) (ts', id') :=
  compare_byCreatedAt ts ts' id id'

theorem compare_byAuthorTs (pk pk' : PublicKey) (ts ts' : Timestamp) (id id' : EventId) :
    compare (byAuthorTs pk ts id) (byAuthorTs pk' ts' id') = compare (pk, ts, id) (pk', ts', id') := by
  have hrest := compare_byCreatedAt_pair ts ts' id id'
  rw [byCreatedAt, byCreatedAt] at hrest
  rw [byAuthorTs, byAuthorTs, compare_append (by rw [pk.size, pk'.size]), hrest]
  rfl

theorem compare_kind (k k' : Kind) :
    compare (beBytes kindLen k.val.toNat) (beBytes kindLen k'.val.toNat) = compare k k' := by
  have hkind : compare k k' = compare k.val k'.val := rfl
  rw [compare_beBytes k.val.toNat_lt k'.val.toNat_lt, hkind]
  rcases Nat.lt_trichotomy k.val.toNat k'.val.toNat with h | h | h
  · rw [Nat.compare_eq_lt.mpr h, eq_comm, Std.compare_eq_lt]
    exact UInt16.lt_iff_toNat_lt.mpr h
  · rw [UInt16.toNat_inj.mp h, Std.compare_self, Std.compare_self]
  · rw [Nat.compare_eq_gt.mpr h, eq_comm, Std.compare_eq_gt]
    exact UInt16.lt_iff_toNat_lt.mpr h

theorem compare_byKindAuthorTs (k k' : Kind) (pk pk' : PublicKey) (ts ts' : Timestamp) (id id' : EventId) :
    compare (byKindAuthorTs k pk ts id) (byKindAuthorTs k' pk' ts' id') =
      compare (k, pk, ts, id) (k', pk', ts', id') := by
  have hrest := compare_byAuthorTs pk pk' ts ts' id id'
  rw [byAuthorTs, byAuthorTs] at hrest
  rw [byKindAuthorTs, byKindAuthorTs, List.append_assoc, List.append_assoc, compare_append (by simp), hrest,
    compare_kind]
  rfl

/-- Every key of the width of a time and an id is built from one. -/
theorem byCreatedAt_surj {k : Bytes} (h : k.length = tsLen + idLen) : ∃ ts id, k = byCreatedAt ts id := by
  have hts : (k.take tsLen).length = tsLen := by
    rw [List.length_take, h]
    rfl
  have hid : (k.drop tsLen).length = 32 := by
    rw [List.length_drop, h]
    rfl
  have hlt : ofBe (k.take tsLen) < 2 ^ 64 := by
    have hbound := ofBe_lt (k.take tsLen)
    rw [hts] at hbound
    exact hbound
  refine ⟨UInt64.ofNat (ofBe (k.take tsLen)), ⟨k.drop tsLen, hid⟩, ?_⟩
  have hcode := beBytes_ofBe (k.take tsLen)
  rw [hts] at hcode
  rw [byCreatedAt, UInt64.toNat_ofNat_of_lt' hlt, hcode, List.take_append_drop]

/-! ## Prefix ranges -/

/-- The bumped reversed bytes with one more byte in front of the original. -/
theorem bump_append_singleton (l : Bytes) (b : UInt8) :
    bump (l ++ [b]) = match bump l with
      | some out => some (out ++ [b])
      | none => if b = 0xFF then none else some (List.replicate l.length 0 ++ [b + 1]) := by
  induction l with
  | nil =>
      simp only [List.nil_append, bump]
      split <;> simp
  | cons x l ih =>
      rw [List.cons_append, bump, bump, ih]
      by_cases hx : x = 0xFF
      · simp only [hx, if_true]
        cases bump l with
        | none =>
            simp only [Option.map_none, List.length_cons]
            split
            · rfl
            · simp [List.replicate_succ]
        | some out => rfl
      · simp only [hx, if_false, List.cons_append]

/-- The bound bumps the last byte that can be bumped. -/
theorem upperBound_cons (b : UInt8) (p : Bytes) :
    upperBound (b :: p) = match upperBound p with
      | some u => some (b :: u)
      | none => if b = 0xFF then none else some ((b + 1) :: List.replicate p.length 0) := by
  rw [upperBound, List.reverse_cons, bump_append_singleton, upperBound]
  cases bump p.reverse with
  | none =>
      simp only [Option.map_none, List.length_reverse]
      split
      · rfl
      · simp
  | some out => simp

/-- The keys below `n` zeros are the shorter runs of zeros. -/
theorem compare_replicate_zero {n : Nat} {k : Bytes} :
    compare k (List.replicate n 0) = .lt ↔ ∃ j < n, k = List.replicate j 0 := by
  induction n generalizing k with
  | zero => cases k <;> simp
  | succ n ih =>
      cases k with
      | nil => exact iff_of_true rfl ⟨0, Nat.succ_pos n, rfl⟩
      | cons c k =>
          have hnot : ¬ c.toNat < (0 : UInt8).toNat := Nat.not_lt_zero _
          rw [List.replicate_succ, List.compare_cons_cons, Ordering.then_eq_lt, compare_uint8_toNat, Nat.compare_eq_lt,
            Nat.compare_eq_eq, UInt8.toNat_inj, ih, or_iff_right hnot]
          constructor
          · rintro ⟨rfl, j, hj, rfl⟩
            exact ⟨j + 1, Nat.succ_lt_succ hj, rfl⟩
          · rintro ⟨_ | j, hj, h⟩
            · cases h
            · cases h
              exact ⟨rfl, j, Nat.lt_of_succ_lt_succ hj, rfl⟩

/-- There is no upper bound behind a prefix of `0xFF` bytes alone. -/
theorem upperBound_eq_none {p : Bytes} : upperBound p = none ↔ p = List.replicate p.length 0xFF := by
  induction p with
  | nil => exact iff_of_true rfl rfl
  | cons b p ih =>
      rw [upperBound_cons, List.length_cons, List.replicate_succ, List.cons.injEq, ← ih]
      cases upperBound p with
      | some u => simp
      | none => simp

/-- The bounds of a range scan over a prefix. -/
def InRange (p k : Bytes) : Prop :=
  (compare p k).isLE = true ∧ ∀ hi, upperBound p = some hi → compare k hi = .lt

instance (p k : Bytes) : Decidable (InRange p k) :=
  match h : upperBound p with
  | none => decidable_of_iff ((compare p k).isLE = true) (by simp [InRange, h])
  | some hi => decidable_of_iff ((compare p k).isLE = true ∧ compare k hi = .lt) (by simp [InRange, h])

theorem toNat_succ_of_ne {b : UInt8} (h : b ≠ 0xFF) : (b + 1).toNat = b.toNat + 1 := by
  have hb : b.toNat ≠ 255 := fun hb => h (UInt8.toNat_inj.mp hb)
  have hlt := b.toNat_lt
  rw [UInt8.toNat_add]
  have hone : (1 : UInt8).toNat = 1 := rfl
  omega

theorem compare_cons_eq_lt {b c : UInt8} {p k : Bytes} :
    compare (b :: p) (c :: k) = .lt ↔ b.toNat < c.toNat ∨ (b = c ∧ compare p k = .lt) := by
  rw [List.compare_cons_cons, Ordering.then_eq_lt, compare_uint8_toNat, Nat.compare_eq_lt, Nat.compare_eq_eq,
    UInt8.toNat_inj]

/-- A key that starts with no `p` and is in the range of `p` all the same: shorter than `p`, it ends where `upper_bound`
    filled up with zeros. -/
def Stray (p k : Bytes) : Prop :=
  ∃ (q : Bytes) (b : UInt8) (m j : Nat), b ≠ 0xFF ∧ j < m ∧ p = q ++ b :: List.replicate m 0xFF ∧
    k = q ++ (b + 1) :: List.replicate j 0

theorem Stray.length_lt {p k : Bytes} (h : Stray p k) : k.length < p.length := by
  obtain ⟨q, b, m, j, _, hj, rfl, rfl⟩ := h
  simpa using hj

theorem not_stray_nil (p : Bytes) : ¬ Stray p [] := by
  rintro ⟨q, b, m, j, _, _, _, h⟩
  cases q <;> cases h

/-- The byte that is bumped is the first one of the prefix, or both keys go on alike. -/
theorem stray_cons {b c : UInt8} {p k : Bytes} : Stray (b :: p) (c :: k) ↔
    (b = c ∧ Stray p k) ∨
      (b ≠ 0xFF ∧ c = b + 1 ∧ p = List.replicate p.length 0xFF ∧ ∃ j < p.length, k = List.replicate j 0) := by
  constructor
  · rintro ⟨q, x, m, j, hff, hj, hp, hk⟩
    cases q with
    | nil =>
        cases hp
        cases hk
        rw [List.length_replicate]
        exact Or.inr ⟨hff, rfl, rfl, j, hj, rfl⟩
    | cons y q =>
        cases hp
        cases hk
        exact Or.inl ⟨rfl, q, x, m, j, hff, hj, rfl, rfl⟩
  · rintro (⟨rfl, q, x, m, j, hff, hj, rfl, rfl⟩ | ⟨hff, rfl, hp, j, hj, rfl⟩)
    · exact ⟨b :: q, x, m, j, hff, hj, rfl, rfl⟩
    · refine ⟨[], b, p.length, j, hff, hj, ?_, rfl⟩
      rw [← hp]
      rfl

/-- Of the keys with a greater first byte only the strays are below the upper bound. -/
theorem below_of_lt_iff {b c : UInt8} {p k : Bytes} (hbc : b.toNat < c.toNat) :
    (∀ hi, upperBound (b :: p) = some hi → compare (c :: k) hi = .lt) ↔
      c = b + 1 ∧ p = List.replicate p.length 0xFF ∧ ∃ j < p.length, k = List.replicate j 0 := by
  rw [← upperBound_eq_none, upperBound_cons]
  cases upperBound p with
  | some u =>
      refine iff_of_false (fun h => ?_) (fun h => by cases h.2.1)
      rcases compare_cons_eq_lt.mp (h _ rfl) with hcb | ⟨rfl, _⟩
      · omega
      · omega
  | none =>
      have hff : b ≠ 0xFF := by
        rintro rfl
        have hlt := c.toNat_lt
        have hff : (0xFF : UInt8).toNat = 255 := rfl
        omega
      have hsucc := toNat_succ_of_ne hff
      have hnot : ¬ c.toNat < (b + 1).toNat := by omega
      simp only [if_neg hff, Option.some.injEq, forall_eq', true_and]
      rw [compare_cons_eq_lt, or_iff_right hnot, compare_replicate_zero]

/-- Between keys with the first byte of the prefix the rest decides. -/
theorem below_cons_iff {b : UInt8} {p k : Bytes} :
    (∀ hi, upperBound (b :: p) = some hi → compare (b :: k) hi = .lt) ↔
      ∀ hi, upperBound p = some hi → compare k hi = .lt := by
  rw [upperBound_cons]
  cases upperBound p with
  | some u => simp
  | none =>
      refine iff_of_true (fun hi hhi => ?_) (by simp)
      dsimp only at hhi
      split at hhi
      · cases hhi
      · rename_i hff
        cases hhi
        have hsucc := toNat_succ_of_ne hff
        exact compare_cons_eq_lt.mpr (Or.inl (by omega))

/-- **A range scan sees the prefix**, and the strays. By induction on the prefix: the first byte of a key is below,
    equal or above, and the upper bound decides only in the last case. -/
theorem inRange_iff_or (p k : Bytes) : InRange p k ↔ p <+: k ∨ Stray p k := by
  induction p generalizing k with
  | nil =>
      have hup : upperBound [] = none := rfl
      cases k <;> simp [InRange, hup]
  | cons b p ih =>
      cases k with
      | nil =>
          have hgt : compare (b :: p) ([] : Bytes) = .gt := rfl
          rw [InRange, hgt]
          exact iff_of_false (fun h => absurd h.1 (by decide)) (fun h => h.elim (by simp) (not_stray_nil _))
      | cons c k =>
          rw [List.cons_prefix_cons, stray_cons, InRange]
          rcases Nat.lt_trichotomy b.toNat c.toNat with hbc | hbc | hbc
          · -- the key is behind the prefix: the upper bound decides
            have hle : (compare (b :: p) (c :: k)).isLE = true := by
              rw [compare_cons_eq_lt.mpr (Or.inl hbc)]
              rfl
            have hne : b ≠ c := by
              rintro rfl
              omega
            have hff : b ≠ 0xFF := by
              rintro rfl
              have hlt := c.toNat_lt
              have hff : (0xFF : UInt8).toNat = 255 := rfl
              omega
            rw [below_of_lt_iff hbc]
            simp only [hle, hne, hff, false_and, false_or, true_and, ne_eq, not_false_eq_true]
          · -- equal first bytes: the rest decides
            obtain rfl : b = c := UInt8.toNat_inj.mp hbc
            have hne : b ≠ b + 1 := by
              intro h
              simp at h
            rw [below_cons_iff, List.compare_cons_cons, Std.compare_self, Ordering.eq_then]
            simp only [true_and, hne, false_and, and_false, or_false]
            exact ih k
          · -- the key is before the prefix
            have hgt : compare (b :: p) (c :: k) = .gt :=
              OrientedCmp.gt_of_lt (compare_cons_eq_lt.mpr (Or.inl hbc))
            have hne : b ≠ c := by
              rintro rfl
              omega
            rw [hgt]
            refine iff_of_false (fun h => absurd h.1 (by decide)) ?_
            rintro (h | h | ⟨hff, rfl, _⟩)
            · exact hne h.1
            · exact hne h.1
            · have hsucc := toNat_succ_of_ne hff
              omega

/-- **A range scan sees exactly the prefix**, among keys at least as long as the prefix. -/
theorem inRange_iff {p k : Bytes} (hlen : p.length ≤ k.length) : InRange p k ↔ p <+: k := by
  rw [inRange_iff_or]
  exact or_iff_left (fun h => Nat.not_le_of_lt h.length_lt hlen)

/-- The keys of the width of the author index in the range of an author are the ones built for this author. -/
theorem inRange_authorPrefix {pk : PublicKey} {k : Bytes} (hlen : k.length = pubkeyLen + tsLen + idLen) :
    InRange (authorPrefix pk) k ↔ ∃ ts id, k = byAuthorTs pk ts id := by
  have hsize : (authorPrefix pk).length = pubkeyLen := pk.size
  rw [inRange_iff (by omega)]
  constructor
  · rintro ⟨rest, rfl⟩
    rw [List.length_append] at hlen
    obtain ⟨ts, id, rfl⟩ := byCreatedAt_surj (k := rest) (by omega)
    exact ⟨ts, id, rfl⟩
  · rintro ⟨ts, id, rfl⟩
    exact List.prefix_append _ _

/-- The same for the index by kind and author. -/
theorem inRange_kindAuthorPrefix {kind : Kind} {pk : PublicKey} {k : Bytes}
    (hlen : k.length = kindLen + pubkeyLen + tsLen + idLen) :
    InRange (kindAuthorPrefix kind pk) k ↔ ∃ ts id, k = byKindAuthorTs kind pk ts id := by
  have hsize := kindAuthorPrefix_length kind pk
  rw [inRange_iff (by omega)]
  constructor
  · rintro ⟨rest, rfl⟩
    rw [List.length_append] at hlen
    obtain ⟨ts, id, rfl⟩ := byCreatedAt_surj (k := rest) (by omega)
    exact ⟨ts, id, rfl⟩
  · rintro ⟨ts, id, rfl⟩
    exact List.prefix_append _ _

/-- **Prefix scans.** The range of a prefix holds the keys that start with it and, below its length, the strays. Keys
    compare as the tuples they are built from, and a prefix picks out of an index the keys of its author or of its kind
    and author.

    What is not below the prefix and is below its upper bound begins with the prefix or is shorter
    (`inRange_iff_or`). Big-endian fields of fixed length compare as numbers, so keys compare as their tuples. -/
theorem range_scans :
    (∀ p k : Bytes, InRange p k ↔ p <+: k ∨ Stray p k) ∧
    (∀ p k : Bytes, Stray p k → k.length < p.length) ∧
    (Function.Injective (fun x : Timestamp × EventId => byCreatedAt x.1 x.2) ∧
      ∀ ts id ts' id', compare (byCreatedAt ts id) (byCreatedAt ts' id') = compare (ts, id) (ts', id')) ∧
    (Function.Injective (fun x : PublicKey × Timestamp × EventId => byAuthorTs x.1 x.2.1 x.2.2) ∧
      ∀ pk ts id pk' ts' id',
        compare (byAuthorTs pk ts id) (byAuthorTs pk' ts' id') = compare (pk, ts, id) (pk', ts', id')) ∧
    (Function.Injective (fun x : Kind × PublicKey × Timestamp × EventId =>
        byKindAuthorTs x.1 x.2.1 x.2.2.1 x.2.2.2) ∧
      ∀ kind pk ts id kind' pk' ts' id',
        compare (byKindAuthorTs kind pk ts id) (byKindAuthorTs kind' pk' ts' id') =
          compare (kind, pk, ts, id) (kind', pk', ts', id')) ∧
    (∀ pk k, k.length = pubkeyLen + tsLen + idLen →
      (InRange (authorPrefix pk) k ↔ authorPrefix pk <+: k) ∧
      (InRange (authorPrefix pk) k ↔ ∃ ts id, k = byAuthorTs pk ts id)) ∧
    (∀ kind pk k, k.length = kindLen + pubkeyLen + tsLen + idLen →
      (InRange (kindAuthorPrefix kind pk) k ↔ kindAuthorPrefix kind pk <+: k) ∧
      (InRange (kindAuthorPrefix kind pk) k ↔ ∃ ts id, k = byKindAuthorTs kind pk ts id)) := by
  refine ⟨inRange_iff_or, fun _ _ h => h.length_lt, ⟨?_, ?_⟩, ⟨?_, ?_⟩, ⟨?_, ?_⟩, ?_, ?_⟩
  · rintro ⟨ts, id⟩ ⟨ts', id'⟩ h
    obtain ⟨rfl, rfl⟩ := byCreatedAt_inj h
    rfl
  · intro ts id ts' id'
    exact compare_byCreatedAt_pair ts ts' id id'
  · rintro ⟨pk, ts, id⟩ ⟨pk', ts', id'⟩ h
    obtain ⟨rfl, rfl, rfl⟩ := byAuthorTs_inj h
    rfl
  · intro pk ts id pk' ts' id'
    exact compare_byAuthorTs pk pk' ts ts' id id'
  · rintro ⟨kind, pk, ts, id⟩ ⟨kind', pk', ts', id'⟩ h
    obtain ⟨rfl, rfl, rfl, rfl⟩ := byKindAuthorTs_inj h
    rfl
  · intro kind pk ts id kind' pk' ts' id'
    exact compare_byKindAuthorTs kind kind' pk pk' ts ts' id id'
  · intro pk k hlen
    have hsize : (authorPrefix pk).length = pubkeyLen := pk.size
    exact ⟨inRange_iff (by omega), inRange_authorPrefix hlen⟩
  · intro kind pk k hlen
    have hsize := kindAuthorPrefix_length kind pk
    exact ⟨inRange_iff (by omega), inRange_kindAuthorPrefix hlen⟩

/-- The one byte `02` is in the range of the prefix `01 FF`, below its bound `02 00`. -/
theorem stray_in_range : InRange [0x01, 0xFF] [0x02] ∧ ¬ [0x01, 0xFF] <+: ([0x02] : Bytes) := by decide

end Keys

end Nula
