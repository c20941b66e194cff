import ArbExecutor.BinArrayLayout
import ArbExecutor.ByteRanges

/-!
The account parsers of quote/accounts.rs that a market is read with, and the
layouts they agree on. A parser succeeds with a value exactly on the accounts
that carry the value's fields in their places, whatever else those bytes hold.
-/

namespace ArbExecutor.MarketLayouts

open Checked QuoteMath QuoteAccounts AccountValidation BinArrayLayout ByteRanges

structure PumpPoolState where
  creator : Pubkey
  baseMint : Pubkey
  coinCreator : Pubkey
  virtualQuoteReserves : UInt64
  deriving DecidableEq

section Reading

def readU16 (data : Bytes) (offset : Nat) : Except QuoteError UInt16 := do
  let slice ← bytes data offset 2
  pure (UInt16.ofNat (leNat slice))

def readI32 (data : Bytes) (offset : Nat) : Except QuoteError Int32 := do
  let slice ← bytes data offset 4
  pure (UInt32.ofNat (leNat slice)).toInt32

/-- `i128::from_le_bytes`, as the integer it denotes. -/
def readI128 (data : Bytes) (offset : Nat) : Except QuoteError Int := do
  let slice ← bytes data offset 16
  pure (BitVec.ofNat 128 (leNat slice)).toInt

def readByte (data : Bytes) (offset : Nat) : Except QuoteError UInt8 :=
  okOr (data[offset]?) .invalidInput

/-- `bytes::<32>`. -/
def readKey (data : Bytes) (offset : Nat) : Except QuoteError Pubkey :=
  let slice := (data.drop offset).take 32
  if size : slice.length = 32 then .ok ⟨slice, size⟩ else .error .invalidInput

def readWords (data : Bytes) (offset : Nat) :
    (count : Nat) → Except QuoteError (Vector UInt64 count)
  | 0 => .ok #v[]
  | count + 1 => do
      let words ← readWords data offset count
      let word ← readU64 data (offset + count * 8)
      pure (words.push word)

end Reading

section Parsing

/-- A signed value converted to an unsigned word: negative ones have none. -/
def narrowSigned (bits : Nat) (value : Int) : Option Nat :=
  if 0 ≤ value then narrow bits value.toNat else none

def parsePumpPool (data : Bytes) : Except QuoteError PumpPoolState := do
  let virtualReserves ← readI128 data 245
  let creator ← readKey data 11
  let baseMint ← readKey data 43
  let coinCreator ← readKey data 211
  let virtualQuoteReserves ← okOr (narrowSigned 64 virtualReserves) .invalidInput
  pure { creator, baseMint, coinCreator,
         virtualQuoteReserves := UInt64.ofNat virtualQuoteReserves }

def parsePumpGlobalFees (data : Bytes) : Except QuoteError PumpFees := do
  let lpFeeBps ← readFeeBps data 40
  let protocolFeeBps ← readFeeBps data 48
  let creatorFeeBps ← readFeeBps data 313
  pure { lpFeeBps, protocolFeeBps, creatorFeeBps }

def tokenAmount (data : Bytes) : Except QuoteError UInt64 := readU64 data 64

def mintSupply (data : Bytes) : Except QuoteError UInt64 := readU64 data 36

def zeroKey : Pubkey := ⟨List.replicate 32 0, rfl⟩

def parseLbPair (data : Bytes) : Except QuoteError LbPairState := do
  let base := discriminatorLen
  let baseFactor ← readU16 data base
  let filterPeriod ← readU16 data (base + 2)
  let decayPeriod ← readU16 data (base + 4)
  let reductionFactor ← readU16 data (base + 6)
  let variableFeeControl ← readU32 data (base + 8)
  let maxVolatilityAccumulator ← readU32 data (base + 12)
  let protocolShare ← readU16 data (base + 24)
  let baseFeePowerFactor ← readByte data (base + 26)
  let functionType ← readByte data (base + 27)
  let collectFeeMode ← readByte data (base + 28)
  let variableBase := base + 32
  let volatilityAccumulator ← readU32 data variableBase
  let volatilityReference ← readU32 data (variableBase + 4)
  let indexReference ← readI32 data (variableBase + 8)
  let lastUpdateTimestamp ← readI64 data (variableBase + 16)
  let bitmap ← readWords data (base + 576) 16
  let firstRewardMint ← readKey data (base + 256)
  let secondRewardMint ← readKey data (base + 400)
  let activeId ← readI32 data (base + 68)
  let binStep ← readU16 data (base + 72)
  pure {
    staticParameters := {
      baseFactor, filterPeriod, decayPeriod, reductionFactor, variableFeeControl,
      maxVolatilityAccumulator, protocolShare, baseFeePowerFactor, functionType, collectFeeMode }
    variableParameters := {
      volatilityAccumulator, volatilityReference, indexReference, lastUpdateTimestamp }
    activeId, binStep, bitmap
    rewardsAreEmpty := firstRewardMint == zeroKey && secondRewardMint == zeroKey }

end Parsing

/-! A read succeeds with a value exactly when the account has the value's bytes
in the place read. -/
section Fields

theorem le_bytes_le_nat (slice : Bytes) : leBytes slice.length (leNat slice) = slice := by
  induction slice with
  | nil => rfl
  | cons byte rest ih =>
      have small : byte.toNat < 256 := byte.toNat_lt
      rw [List.length_cons, leBytes, leNat, Nat.add_mul_div_left _ _ (by decide),
        Nat.div_eq_of_lt small, Nat.zero_add, ih]
      congr 1
      rw [← UInt8.toNat_inj, UInt8.toNat_ofNat']
      omega

theorem le_nat_lt (slice : Bytes) : leNat slice < 256 ^ slice.length := by
  induction slice with
  | nil => exact Nat.one_pos
  | cons byte rest ih =>
      have small : byte.toNat < 256 := byte.toNat_lt
      rw [leNat, List.length_cons, pow_succ]
      omega

theorem bytes_ok (data content : Bytes) (offset size : Nat) :
    bytes data offset size = .ok content ↔ slice data offset size = content ∧ content.length = size := by
  unfold bytes ByteRanges.slice
  dsimp only
  split
  · rename_i wide
    rw [Except.ok.injEq]
    exact ⟨fun same => ⟨same, same ▸ wide⟩, fun held => held.1⟩
  · rename_i narrow
    constructor
    · intro impossible
      cases impossible
    · rintro ⟨rfl, wide⟩
      exact absurd wide narrow

/-- A number of a given width is read exactly when its little-endian bytes stand there. -/
theorem word_read (data : Bytes) (offset size value : Nat) (fits : value < 256 ^ size) :
    (∃ content, bytes data offset size = .ok content ∧ leNat content = value) ↔
      HasField data ⟨offset, leBytes size value⟩ := by
  simp only [bytes_ok, HasField, length_le_bytes]
  constructor
  · rintro ⟨content, ⟨held, wide⟩, rfl⟩
    rw [held, ← wide, le_bytes_le_nat]
  · intro held
    exact ⟨_, ⟨held, length_le_bytes _ _⟩, le_nat_le_bytes _ _ fits⟩

theorem bytes_small {data content : Bytes} {offset size : Nat}
    (read : bytes data offset size = .ok content) : leNat content < 256 ^ size := by
  have wide := ((bytes_ok _ _ _ _).mp read).2
  rw [← wide]
  exact le_nat_lt content

/-- The integer readers differ in the width and in how the number becomes a value. -/
theorem converted_read {Value : Type} (data : Bytes) (offset size : Nat) (convert : Nat → Value)
    (number : Value → Nat) (fits : ∀ value, number value < 256 ^ size)
    (back : ∀ value, convert (number value) = value)
    (forth : ∀ value, value < 256 ^ size → number (convert value) = value) (value : Value) :
    (∃ content, bytes data offset size = .ok content ∧ convert (leNat content) = value) ↔
      HasField data ⟨offset, leBytes size (number value)⟩ := by
  rw [← word_read _ _ _ _ (fits value)]
  refine exists_congr fun content => and_congr_right fun read => ?_
  have small := bytes_small read
  constructor
  · rintro rfl
    exact (forth _ small).symm
  · intro same
    rw [same, back]

theorem read_u16_ok (data : Bytes) (offset : Nat) (value : UInt16) :
    readU16 data offset = .ok value ↔ HasField data ⟨offset, leBytes 2 value.toNat⟩ := by
  rw [readU16, bind_ok_iff]
  simp only [pure_ok, Except.ok.injEq]
  exact converted_read data offset 2 UInt16.ofNat UInt16.toNat (fun value => value.toNat_lt)
    (fun value => UInt16.ofNat_toNat) (fun value small => UInt16.toNat_ofNat_of_lt' small) value

theorem read_u32_ok (data : Bytes) (offset : Nat) (value : UInt32) :
    readU32 data offset = .ok value ↔ HasField data ⟨offset, leBytes 4 value.toNat⟩ := by
  rw [readU32, bind_ok_iff]
  simp only [pure_ok, Except.ok.injEq]
  exact converted_read data offset 4 UInt32.ofNat UInt32.toNat (fun value => value.toNat_lt)
    (fun value => UInt32.ofNat_toNat) (fun value small => UInt32.toNat_ofNat_of_lt' small) value

theorem read_u64_ok (data : Bytes) (offset : Nat) (value : UInt64) :
    readU64 data offset = .ok value ↔ HasField data ⟨offset, leBytes 8 value.toNat⟩ := by
  rw [readU64, bind_ok_iff]
  simp only [pure_ok, Except.ok.injEq]
  exact converted_read data offset 8 UInt64.ofNat UInt64.toNat (fun value => value.toNat_lt)
    (fun value => UInt64.ofNat_toNat) (fun value small => UInt64.toNat_ofNat_of_lt' small) value

theorem read_i32_ok (data : Bytes) (offset : Nat) (value : Int32) :
    readI32 data offset = .ok value ↔ HasField data ⟨offset, leBytes 4 value.toUInt32.toNat⟩ := by
  rw [readI32, bind_ok_iff]
  simp only [pure_ok, Except.ok.injEq]
  refine converted_read data offset 4 (fun number => (UInt32.ofNat number).toInt32)
    (fun value => value.toUInt32.toNat) (fun value => value.toUInt32.toNat_lt) (fun value => ?_)
    (fun value small => UInt32.toNat_ofNat_of_lt' small) value
  rw [UInt32.ofNat_toNat]
  rfl

theorem read_i64_ok (data : Bytes) (offset : Nat) (value : Int64) :
    readI64 data offset = .ok value ↔ HasField data ⟨offset, leBytes 8 value.toUInt64.toNat⟩ := by
  rw [readI64, bind_ok_iff]
  simp only [pure_ok, Except.ok.injEq]
  refine converted_read data offset 8 (fun number => (UInt64.ofNat number).toInt64)
    (fun value => value.toUInt64.toNat) (fun value => value.toUInt64.toNat_lt) (fun value => ?_)
    (fun value small => UInt64.toNat_ofNat_of_lt' small) value
  rw [UInt64.ofNat_toNat]
  rfl

theorem read_byte_ok (data : Bytes) (offset : Nat) (value : UInt8) :
    readByte data offset = .ok value ↔ HasField data ⟨offset, [value]⟩ := by
  rw [readByte, ok_or_eq_ok]
  unfold HasField ByteRanges.slice
  rw [List.length_singleton, List.take_one, List.head?_drop]
  cases data[offset]? <;> simp

theorem read_key_ok (data : Bytes) (offset : Nat) (key : Pubkey) :
    readKey data offset = .ok key ↔ HasField data ⟨offset, key.val⟩ := by
  unfold readKey HasField ByteRanges.slice
  dsimp only
  rw [key.property]
  split
  · rw [Except.ok.injEq, Subtype.ext_iff]
  · rename_i short
    constructor
    · intro impossible
      cases impossible
    · intro held
      exact absurd (held ▸ key.property) short

theorem read_words_ok (data : Bytes) (offset count : Nat) (words : Vector UInt64 count) :
    readWords data offset count = .ok words ↔
      ∀ index (inside : index < count), HasField data ⟨offset + index * 8, leBytes 8 words[index].toNat⟩ := by
  induction count with
  | zero => simp [readWords]
  | succ count ih =>
      rw [readWords, bind_ok_iff]
      simp only [bind_ok_iff, ih, read_u64_ok, pure_ok, Except.ok.injEq]
      constructor
      · rintro ⟨front, stands, last, atEnd, rfl⟩ index inside
        rcases Nat.lt_succ_iff_lt_or_eq.mp inside with before | rfl
        · rw [Vector.getElem_push_lt before]
          exact stands index before
        · rw [Vector.getElem_push_eq]
          exact atEnd
      · intro stands
        refine ⟨words.pop, fun index inside => ?_, words.back, ?_, Vector.push_pop_back _⟩
        · rw [Vector.getElem_pop]
          exact stands index (by omega)
        · rw [Vector.back_eq_getElem]
          exact stands count (by omega)

theorem signed_of_raw (raw : Nat) (small : raw < 2 ^ 128) :
    (BitVec.ofNat 128 raw).toInt = if 2 * raw < 2 ^ 128 then (raw : Int) else raw - 2 ^ 128 := by
  rw [BitVec.toInt_eq_toNat_cond, BitVec.toNat_ofNat, Nat.mod_eq_of_lt small]
  rfl

/-- An i128 is accepted exactly when its bytes are those of a number below 2^64. -/
theorem read_virtual_ok (data : Bytes) (offset number : Nat) :
    (∃ value, readI128 data offset = .ok value ∧ narrowSigned 64 value = some number) ↔
      HasField data ⟨offset, leBytes 16 number⟩ ∧ number < 2 ^ 64 := by
  unfold readI128 narrowSigned
  simp only [bind_ok_iff, pure_ok, Except.ok.injEq]
  constructor
  · rintro ⟨_, ⟨content, read, rfl⟩, accepted⟩
    have small : leNat content < 2 ^ 128 := bytes_small read
    rw [signed_of_raw _ small] at accepted
    split at accepted
    · simp only [Nat.cast_nonneg, if_true, Int.toNat_natCast, narrow_some] at accepted
      obtain ⟨rfl, fits⟩ := accepted
      exact ⟨(word_read _ _ _ _ small).mp ⟨content, read, rfl⟩, fits⟩
    · rw [if_neg (by omega)] at accepted
      cases accepted
  · rintro ⟨held, fits⟩
    have small : number < 2 ^ 128 := Nat.lt_trans fits (by decide)
    obtain ⟨content, read, same⟩ := (word_read _ _ _ _ small).mpr held
    refine ⟨_, ⟨content, read, rfl⟩, ?_⟩
    rw [same, signed_of_raw _ small, if_pos (by omega), if_pos (by omega), Int.toNat_natCast,
      narrow_some]
    exact ⟨rfl, fits⟩

end Fields

section Layouts

def pumpPoolFields (pool : PumpPoolState) : List (FieldAt UInt8) :=
  [⟨11, pool.creator.val⟩, ⟨43, pool.baseMint.val⟩, ⟨211, pool.coinCreator.val⟩,
   ⟨245, leBytes 16 pool.virtualQuoteReserves.toNat⟩]

/-- The reward mints of a pair account, of which its parsed state keeps a verdict only. -/
structure PairRemainder where
  firstRewardMint : Pubkey
  secondRewardMint : Pubkey
  deriving DecidableEq

def PairRemainder.rewardsAreEmpty (remainder : PairRemainder) : Bool :=
  remainder.firstRewardMint == zeroKey && remainder.secondRewardMint == zeroKey

def bitmapFields (bitmap : Vector UInt64 16) : List (FieldAt UInt8) :=
  (List.finRange 16).map fun index => ⟨584 + index.val * 8, leBytes 8 (bitmap.get index).toNat⟩

def parameterFields (pair : LbPairState) : List (FieldAt UInt8) :=
  [⟨8, leBytes 2 pair.staticParameters.baseFactor.toNat⟩,
   ⟨10, leBytes 2 pair.staticParameters.filterPeriod.toNat⟩,
   ⟨12, leBytes 2 pair.staticParameters.decayPeriod.toNat⟩,
   ⟨14, leBytes 2 pair.staticParameters.reductionFactor.toNat⟩,
   ⟨16, leBytes 4 pair.staticParameters.variableFeeControl.toNat⟩,
   ⟨20, leBytes 4 pair.staticParameters.maxVolatilityAccumulator.toNat⟩,
   ⟨32, leBytes 2 pair.staticParameters.protocolShare.toNat⟩,
   ⟨34, [pair.staticParameters.baseFeePowerFactor]⟩,
   ⟨35, [pair.staticParameters.functionType]⟩,
   ⟨36, [pair.staticParameters.collectFeeMode]⟩,
   ⟨40, leBytes 4 pair.variableParameters.volatilityAccumulator.toNat⟩,
   ⟨44, leBytes 4 pair.variableParameters.volatilityReference.toNat⟩,
   ⟨48, leBytes 4 pair.variableParameters.indexReference.toUInt32.toNat⟩,
   ⟨56, leBytes 8 pair.variableParameters.lastUpdateTimestamp.toUInt64.toNat⟩,
   ⟨76, leBytes 4 pair.activeId.toUInt32.toNat⟩,
   ⟨80, leBytes 2 pair.binStep.toNat⟩]

def rewardFields (remainder : PairRemainder) : List (FieldAt UInt8) :=
  [⟨264, remainder.firstRewardMint.val⟩, ⟨408, remainder.secondRewardMint.val⟩]

theorem parse_pump_pool_ok (data : Bytes) (pool : PumpPoolState) :
    parsePumpPool data = .ok pool ↔ Carries data (pumpPoolFields pool) := by
  have small : pool.virtualQuoteReserves.toNat < 2 ^ 64 := pool.virtualQuoteReserves.toNat_lt
  unfold parsePumpPool pumpPoolFields
  simp only [bind_ok_iff, read_key_ok, ok_or_eq_ok, pure_ok, Except.ok.injEq, carries_cons,
    carries_nil, and_true]
  constructor
  · rintro ⟨value, read, creator, atCreator, base, atBase, coin, atCoin, number, accepted, rfl⟩
    obtain ⟨held, fits⟩ := (read_virtual_ok _ _ _).mp ⟨value, read, accepted⟩
    refine ⟨atCreator, atBase, atCoin, ?_⟩
    rwa [UInt64.toNat_ofNat_of_lt' fits]
  · rintro ⟨atCreator, atBase, atCoin, held⟩
    obtain ⟨value, read, accepted⟩ := (read_virtual_ok _ _ _).mpr ⟨held, small⟩
    exact ⟨value, read, _, atCreator, _, atBase, _, atCoin, _, accepted,
      by rw [UInt64.ofNat_toNat]⟩

theorem carries_bitmap (data : Bytes) (bitmap : Vector UInt64 16) :
    Carries data (bitmapFields bitmap) ↔ readWords data 584 16 = .ok bitmap := by
  rw [read_words_ok]
  simp only [Carries, bitmapFields, List.mem_map, List.mem_finRange, true_and,
    forall_exists_index, forall_apply_eq_imp_iff]
  exact ⟨fun all index inside => all ⟨index, inside⟩, fun all index => all index.val index.isLt⟩

/-- A pair account parses to a state exactly when it carries the state's fields
and some remainder with the state's verdict on the rewards. -/
theorem parse_lb_pair_ok (data : Bytes) (pair : LbPairState) :
    parseLbPair data = .ok pair ↔ ∃ remainder : PairRemainder,
      Carries data (parameterFields pair) ∧ Carries data (rewardFields remainder) ∧
      Carries data (bitmapFields pair.bitmap) ∧
      pair.rewardsAreEmpty = remainder.rewardsAreEmpty := by
  unfold parseLbPair parameterFields rewardFields
  simp only [carries_bitmap, bind_ok_iff, read_u16_ok, read_u32_ok, read_i32_ok, read_i64_ok,
    read_byte_ok, read_key_ok, pure_ok, Except.ok.injEq, carries_cons, carries_nil, and_true,
    discriminatorLen, Nat.reduceAdd]
  constructor
  · rintro ⟨baseFactor, h1, filterPeriod, h2, decayPeriod, h3, reductionFactor, h4, control, h5,
      maximum, h6, share, h7, power, h8, function, h9, mode, h10, accumulator, h11, reference, h12,
      index, h13, updated, h14, bitmap, h15, first, h16, second, h17, active, h18, step, h19, rfl⟩
    exact ⟨⟨first, second⟩, ⟨h1, h2, h3, h4, h5, h6, h7, h8, h9, h10, h11, h12, h13, h14, h18,
      h19⟩, ⟨h16, h17⟩, h15, rfl⟩
  · rintro ⟨remainder, ⟨h1, h2, h3, h4, h5, h6, h7, h8, h9, h10, h11, h12, h13, h14, h18, h19⟩,
      ⟨h16, h17⟩, h15, empty⟩
    refine ⟨_, h1, _, h2, _, h3, _, h4, _, h5, _, h6, _, h7, _, h8, _, h9, _, h10, _, h11, _, h12,
      _, h13, _, h14, _, h15, _, h16, _, h17, _, h18, _, h19, ?_⟩
    rw [← PairRemainder.rewardsAreEmpty, ← empty]

end Layouts

end ArbExecutor.MarketLayouts
