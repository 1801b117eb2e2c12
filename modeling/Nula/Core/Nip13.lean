import Nula.Core.Nips
import Nula.Core.TagList
import Nula.Lib.Yields

/-!
# `Core.Nip13` — mining events

The miner of `nips/nip13.rs`: nonces are tried from one upwards until the id has enough leading zero bits, and the mined
event is signed. `countLeadingZeroBits_eq` says what is counted, `mineFrom_eq_ok_iff` where the search stops.
-/

namespace Nula.Nip13

/-! ## Leading zero bits -/

/-- The bits of a byte, the highest first. -/
def bits (b : UInt8) : List Bool := (List.range 8).map (fun i => b.toNat.testBit (7 - i))

/-- The zero bits at the start. -/
def leadingZeroBits (bytes : Bytes) : Nat := ((bytes.flatMap bits).takeWhile (fun bit => !bit)).length

theorem length_bits (b : UInt8) : (bits b).length = 8 := by
  rw [bits, List.length_map, List.length_range]

/-- The leading zeros of a byte, over all 256 of them. -/
theorem bits_spec : ∀ b : UInt8, ((bits b).takeWhile (fun bit => !bit)).length = leadingZeros b ∧
    (b ≠ 0 → ∃ bit ∈ bits b, bit = true) := by
  decide +kernel

theorem leadingZeroBits_cons (b : UInt8) (bytes : Bytes) :
    leadingZeroBits (b :: bytes) = if b = 0 then 8 + leadingZeroBits bytes else leadingZeros b := by
  rw [leadingZeroBits, List.flatMap_cons]
  split
  · rename_i hzero
    have hbits : ∀ bit ∈ bits b, (!bit) = true := by
      rw [hzero]
      decide
    rw [List.takeWhile_append_of_pos hbits, List.length_append, length_bits]
    rfl
  · rename_i hne
    obtain ⟨hzeros, hset⟩ := bits_spec b
    obtain ⟨bit, hmem, hbit⟩ := hset hne
    rw [← hzeros, List.takeWhile_append, if_neg]
    intro hall
    have hsame : (bits b).takeWhile (fun bit => !bit) = bits b :=
      (List.takeWhile_prefix _).eq_of_length hall
    have hzero := List.takeWhile_eq_self_iff.mp hsame bit hmem
    rw [hbit] at hzero
    cases hzero

/-- The count is that of the leading zero bits, up to 255. -/
theorem countLeadingZeroBits_eq {total : Nat} (h : total ≤ 255) (bytes : Bytes) :
    countLeadingZeroBits total bytes = min 255 (total + leadingZeroBits bytes) := by
  induction bytes generalizing total with
  | nil =>
      rw [countLeadingZeroBits]
      exact (Nat.min_eq_right h).symm
  | cons b bytes ih =>
      rw [countLeadingZeroBits, leadingZeroBits_cons]
      split
      · rw [ih (Nat.min_le_right _ _)]
        omega
      · exact Nat.min_comm _ _

/-! ## Verification -/

/-- `verify_pow_strict`. -/
def verifyPowStrict (event : Event) (minDifficulty : UInt8) : Except PowError Unit := do
  verifyPow event minDifficulty
  if 0 < minDifficulty then
    if (← committedDifficulty event).isNone then .error .missingCommitment

/-! ## Mining -/

inductive MineError where
  | clock (text : String)
  | builder (e : EventBuilderError)
  | nonceExhausted
  deriving DecidableEq, Repr

/-- The kind of the `nonce` tag. -/
def nonceKind : TagKind := TagKind.fromWire "nonce"

/-- `make_nonce_tag`. -/
def makeNonceTag (nonce : Nat) (difficulty : UInt8) : Tag :=
  .withArgs nonceKind [toString nonce, toString difficulty.toNat]

/-- `PowAttempt`: what mining found. -/
structure PowAttempt where
  unsigned : UnsignedEvent
  iterations : Nat
  difficulty : UInt8

/-- The loop of `PowAttempt::mine`, after so many iterations; their count is an `u64`. -/
def mineFrom (attempt : Nat → UnsignedEvent) (difficulty : UInt8) (iterations : Nat) : Except MineError PowAttempt :=
  if 2 ^ 64 ≤ iterations + 1 then .error .nonceExhausted
  else if difficulty ≤ eventIdDifficulty (attempt (iterations + 1)).id then
    .ok ⟨attempt (iterations + 1), iterations + 1, difficulty⟩
  else mineFrom attempt difficulty (iterations + 1)
  termination_by 2 ^ 64 - iterations

/-- The event with this nonce; a nonce tag that the builder has is dropped. -/
def attempt (crypto : Crypto) (pubkey : PublicKey) (createdAt : Timestamp) (b : EventBuilder) (difficulty : UInt8)
    (nonce : Nat) : UnsignedEvent :=
  .new crypto pubkey createdAt b.kind ⟨notOfKind nonceKind b.tags.items ++ [makeNonceTag nonce difficulty]⟩ b.content

/-- The time that `PowAttempt::mine` fixes. -/
def fixCreatedAt (clock : Clock) (b : EventBuilder) : Except MineError Timestamp :=
  match b.createdAt with
  | some ts => .ok ts
  | none => clock.mapError .clock

/-- `PowAttempt::mine`. -/
def PowAttempt.mine (crypto : Crypto) (clock : Clock) (b : EventBuilder) (pubkey : PublicKey) (difficulty : UInt8) :
    Except MineError PowAttempt := do
  let createdAt ← fixCreatedAt clock b
  mineFrom (attempt crypto pubkey createdAt b difficulty) difficulty 0

/-- `PowAttempt::into_signed_with_keys`. -/
def PowAttempt.intoSignedWithKeys (crypto : KeyCrypto) (aux : Bytes) (keys : Keys) (a : PowAttempt) :
    Except EventBuilderError Event :=
  (a.unsigned.signWithKeys crypto aux keys).mapError .signer

/-- `mine_and_sign`. -/
def mineAndSign (crypto : KeyCrypto) (clock : Clock) (aux : Bytes) (b : EventBuilder) (keys : Keys)
    (difficulty : UInt8) : Except MineError Event := do
  let a ← PowAttempt.mine crypto.toCrypto clock b keys.publicKey difficulty
  (a.intoSignedWithKeys crypto aux keys).mapError .builder

/-- The search stops at the first nonce that works. -/
theorem mineFrom_eq_ok {attempt : Nat → UnsignedEvent} {difficulty : UInt8} {iterations : Nat} {a : PowAttempt}
    (h : mineFrom attempt difficulty iterations = .ok a) :
    a.unsigned = attempt a.iterations ∧ iterations < a.iterations ∧
      difficulty ≤ eventIdDifficulty (attempt a.iterations).id ∧
      ∀ n, iterations < n → n < a.iterations → eventIdDifficulty (attempt n).id < difficulty := by
  induction iterations using mineFrom.induct attempt difficulty with
  | case1 iterations hlast =>
      rw [mineFrom, if_pos hlast] at h
      cases h
  | case2 iterations hlast hworks =>
      rw [mineFrom, if_neg hlast, if_pos hworks] at h
      cases h
      refine ⟨rfl, Nat.lt_succ_self _, hworks, fun n hlow hhigh => ?_⟩
      exact absurd (Nat.le_of_lt_succ hhigh) (Nat.not_le.mpr hlow)
  | case3 iterations hlast hfails ih =>
      rw [mineFrom, if_neg hlast, if_neg hfails] at h
      obtain ⟨hunsigned, hlow, hworks, hleast⟩ := ih h
      refine ⟨hunsigned, Nat.lt_of_succ_lt hlow, hworks, fun n hn hhigh => ?_⟩
      rcases Nat.eq_or_lt_of_le hn with heq | hlt
      · rw [← heq]
        exact UInt8.not_le.mp hfails
      · exact hleast n hlt hhigh

/-- What is mined and signed is the first attempt that works, with a signature. -/
theorem mineAndSign_eq_ok {crypto : KeyCrypto} {clock : Clock} {aux : Bytes} {b : EventBuilder} {keys : Keys}
    {difficulty : UInt8} {event : Event} (h : mineAndSign crypto clock aux b keys difficulty = .ok event) :
    ∃ nonce, let mined := attempt crypto.toCrypto event.pubkey event.createdAt b difficulty
      event.id = (mined nonce).id ∧ event.pubkey = keys.publicKey ∧ fixCreatedAt clock b = .ok event.createdAt ∧
        event.kind = b.kind ∧ event.tags = (mined nonce).tags ∧ event.content = b.content ∧
        event.sig = crypto.signSchnorr keys.secretKey aux event.id.bytes ∧
        0 < nonce ∧ difficulty ≤ eventIdDifficulty (mined nonce).id ∧
        ∀ n, 0 < n → n < nonce → eventIdDifficulty (mined n).id < difficulty := by
  obtain ⟨a, hmine, hsign⟩ := bind_ok_iff.mp h
  obtain ⟨createdAt, hclock, hloop⟩ := bind_ok_iff.mp hmine
  obtain ⟨hunsigned, hpos, hworks, hleast⟩ := mineFrom_eq_ok hloop
  have hevent := mapError_ok_iff.mp (mapError_ok_iff.mp hsign)
  have hauthor : ¬keys.publicKey ≠
      (attempt crypto.toCrypto keys.publicKey createdAt b difficulty a.iterations).pubkey := not_not.mpr rfl
  rw [hunsigned, UnsignedEvent.signWithKeys, if_neg hauthor] at hevent
  obtain rfl := Except.ok.inj hevent
  exact ⟨a.iterations, rfl, rfl, hclock, rfl, rfl, rfl, rfl, hpos, hworks, hleast⟩

theorem kind_makeNonceTag (nonce : Nat) (difficulty : UInt8) : (makeNonceTag nonce difficulty).kind = nonceKind := rfl

theorem ofKind_mined (items : List Tag) (nonce : Nat) (difficulty : UInt8) :
    ofKind nonceKind (notOfKind nonceKind items ++ [makeNonceTag nonce difficulty]) =
      [makeNonceTag nonce difficulty] := by
  have hnone : ofKind nonceKind (notOfKind nonceKind items) = [] := by
    refine List.filter_eq_nil_iff.mpr (fun t ht => ?_)
    simpa using (List.mem_filter.mp ht).2
  have hone : ofKind nonceKind [makeNonceTag nonce difficulty] = [makeNonceTag nonce difficulty] := by
    rw [ofKind, List.filter_singleton, decide_eq_true (kind_makeNonceTag nonce difficulty)]
    rfl
  rw [ofKind, List.filter_append]
  show ofKind nonceKind _ ++ ofKind nonceKind _ = _
  rw [hnone, hone, List.nil_append]

theorem parseU8_toString (n : UInt8) : parseU8 (toString n.toNat) = some n := by
  have hle : n.toNat ≤ 2 ^ 8 - 1 := Nat.le_pred_of_lt n.toNat_lt
  rw [parseU8, parseUnsigned_toString hle, Option.map_some, UInt8.ofNat_toNat]

/-- The commitment is read from the only nonce tag. -/
theorem committedDifficulty_of_only {event : Event} {nonce : Nat} {difficulty : UInt8}
    (h : ofKind nonceKind event.tags.items = [makeNonceTag nonce difficulty]) :
    committedDifficulty event = .ok (some difficulty) := by
  have hfirst : event.tags.findFirst (TagKind.fromWire "nonce") = some (makeNonceTag nonce difficulty) := by
    show (Tags.mk event.tags.items).findFirst nonceKind = _
    rw [findFirst_eq_head?, h, List.head?_cons]
  have hcolumn : (makeNonceTag nonce difficulty).values[2]? = some (toString difficulty.toNat) := rfl
  rw [committedDifficulty, hfirst]
  dsimp only
  rw [hcolumn]
  dsimp only
  rw [parseU8_toString]

/-- What is committed to and done proves every smaller difficulty as well. -/
theorem verifyPowStrict_of_committed {event : Event} {difficulty : UInt8}
    (hcommitted : committedDifficulty event = .ok (some difficulty))
    (hwork : difficulty ≤ eventIdDifficulty event.id) {d : UInt8} (hd : d ≤ difficulty) :
    verifyPowStrict event d = .ok () := by
  have hverify : verifyPow event d = .ok () := by
    rw [verifyPow, if_neg (UInt8.not_lt.mpr (UInt8.le_trans hd hwork)), hcommitted]
    exact if_neg (UInt8.not_lt.mpr hd)
  rw [verifyPowStrict, hverify, hcommitted]
  split <;> rfl

/-- **Mined events prove their work.** What `mine_and_sign` returns verifies, also strictly and at every difficulty up
    to the one asked for; its only nonce tag comes last, behind the other tags of the builder, commits to the difficulty
    and holds the least nonce that works; and the zero bits are counted up to 255.

    The search returns the least nonce that works (`mineAndSign_eq_ok`). Its tag is the only one of its head, so
    the commitment is read from it, and the id is that of the tags with it. -/
theorem mined_proves (crypto : Curve)
    (hlaw : ∀ secret aux message, message.length = 32 →
      crypto.verifySchnorr (crypto.signSchnorr secret aux message) message (crypto.xOnlyPublicKey secret) = true)
    (clock : Clock) (aux : Bytes) (b : EventBuilder) (secret : SecretKey) (difficulty : UInt8) (event : Event)
    (h : mineAndSign crypto.toKeyCrypto clock aux b (.fromSecretKey crypto secret) difficulty = .ok event) :
    event.verify crypto.toCrypto = .ok () ∧ (∀ d ≤ difficulty, verifyPowStrict event d = .ok ()) ∧
      (∃ nonce, 0 < nonce ∧
        event.tags.items = notOfKind nonceKind b.tags.items ++ [makeNonceTag nonce difficulty] ∧
        ofKind nonceKind event.tags.items = [makeNonceTag nonce difficulty] ∧
        committedDifficulty event = .ok (some difficulty) ∧
        event.id = (attempt crypto.toCrypto event.pubkey event.createdAt b difficulty nonce).id ∧
        difficulty ≤ eventIdDifficulty event.id ∧
        ∀ n, 0 < n → n < nonce →
          eventIdDifficulty (attempt crypto.toCrypto event.pubkey event.createdAt b difficulty n).id < difficulty) ∧
      ∀ bytes, countLeadingZeroBits 0 bytes = min 255 (leadingZeroBits bytes) := by
  obtain ⟨nonce, hid, hpubkey, -, hkind, htags, hcontent, hsig, hpos, hwork, hleast⟩ := mineAndSign_eq_ok h
  have hitems : event.tags.items = notOfKind nonceKind b.tags.items ++ [makeNonceTag nonce difficulty] :=
    congrArg Tags.items htags
  have honly : ofKind nonceKind event.tags.items = [makeNonceTag nonce difficulty] := by
    rw [hitems, ofKind_mined]
  have hcommitted := committedDifficulty_of_only honly
  rw [← hid] at hwork
  refine ⟨Event.verify_ok_iff.mpr ⟨?_, ?_⟩, fun d hd => verifyPowStrict_of_committed hcommitted hwork hd,
    ⟨nonce, hpos, hitems, honly, hcommitted, hid, hwork, hleast⟩, fun bytes => ?_⟩
  · rw [hkind, htags, hcontent, hid]
    rfl
  · rw [hsig, hpubkey]
    exact hlaw secret aux event.id.bytes event.id.size
  · rw [countLeadingZeroBits_eq (Nat.zero_le _), Nat.zero_add]

/-! Carol mines two zero bits with the third nonce. -/

namespace Sample

open Nula.Sample

/-- A note with a stale nonce tag and another tag. -/
def plain : EventBuilder :=
  ⟨⟨1⟩, "proof", ⟨[⟨["nonce", "9", "1"], by decide⟩, ⟨["t", "pow"], by decide⟩]⟩, some 1700000000⟩

/-- The tags it is tried with. -/
def minedTags (nonce : Nat) : Tags := ⟨[⟨["t", "pow"], by decide⟩, makeNonceTag nonce 2]⟩

/-- An id of the hex. -/
def minedId (hex : String) (h : (hexBytes hex).length = 32) : EventId := ⟨hexBytes hex, h⟩

/-- The note that the third attempt finds. -/
def mined : Event where
  id := minedId "3b06942071b1f5735e21d5ab563952b77b5f6b9002d8f041a47d4a0336f62214" (by decide +kernel)
  pubkey := carol
  createdAt := 1700000000
  kind := ⟨1⟩
  tags := minedTags 3
  content := "proof"
  sig := ⟨hexBytes ("cdc9a2a170366efa3080100ef9cbcc75d35f9246d93c804dbbe0e8b653abfc44" ++
    "1352dea9c031185e2092e4e1b263663d362e0e505c026ce14fefd19b368f657d"), by decide +kernel⟩

/-- The digests of the three attempts, and a signature of the last. -/
def miningCrypto : Curve :=
  let canonical (nonce : Nat) : Bytes := canonicalBytes carol 1700000000 ⟨1⟩ (minedTags nonce) "proof"
  knowing
    [(canonical 1, minedId "76699f9b3edb0168838063c6dcd3f05ceb78615ca07ce80ae16368f8f2beb869" (by decide +kernel)),
      (canonical 2, minedId "4b1e1e8cba7f0d316e7ba1ba8cf0865cc84483e6efcd3f81b808438b6ace2e7d" (by decide +kernel)),
      (canonical 3, mined.id)]
    [mined]

/-- The third attempt is the first with two leading zero bits. -/
theorem mined_found : mineAndSign miningCrypto.toKeyCrypto (.error "") [] plain
    (.fromSecretKey miningCrypto carolKeys.secretKey) 2 = .ok mined := by
  have hfirst : ¬(2 : UInt8) ≤ eventIdDifficulty (attempt miningCrypto.toCrypto carol 1700000000 plain 2 1).id := by
    decide +kernel
  have hsecond : ¬(2 : UInt8) ≤ eventIdDifficulty (attempt miningCrypto.toCrypto carol 1700000000 plain 2 2).id := by
    decide +kernel
  have hthird : (2 : UInt8) ≤ eventIdDifficulty (attempt miningCrypto.toCrypto carol 1700000000 plain 2 3).id := by
    decide +kernel
  have hmine : PowAttempt.mine miningCrypto.toCrypto (.error "") plain carol 2 =
      .ok ⟨attempt miningCrypto.toCrypto carol 1700000000 plain 2 3, 3, 2⟩ := by
    show mineFrom (attempt miningCrypto.toCrypto carol 1700000000 plain 2) 2 0 = _
    rw [mineFrom, if_neg (by decide), if_neg hfirst, mineFrom, if_neg (by decide), if_neg hsecond, mineFrom,
      if_neg (by decide), if_pos hthird]
  show (do
    let a ← PowAttempt.mine miningCrypto.toCrypto (.error "") plain carol 2
    (a.intoSignedWithKeys miningCrypto.toKeyCrypto [] ⟨carolKeys.secretKey, carol⟩).mapError .builder) = .ok mined
  rw [hmine]
  decide +kernel

end Sample

open Nula.Nip13.Sample in
theorem mined_proves_third : mined.verify miningCrypto.toCrypto = .ok () ∧
    ∀ d ≤ (2 : UInt8), verifyPowStrict mined d = .ok () := by
  have hproves := mined_proves miningCrypto
    (fun secret aux message _ => Nula.Sample.verify_knowing (fun e he => by
      rw [List.mem_singleton.mp he]
      rfl) secret aux message)
    (.error "") [] plain Nula.Sample.carolKeys.secretKey 2 mined mined_found
  exact ⟨hproves.1, hproves.2.1⟩

end Nula.Nip13
