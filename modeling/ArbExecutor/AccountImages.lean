import ArbExecutor.AccountPrefixes

/-!
Pool and pair accounts written out over arbitrary contents. Each account has a
validating and a quoting parser; both read the written values back, and the two
accept the same bytes together exactly when the bytes carry one common layout.
-/

namespace ArbExecutor.AccountImages

open Checked QuoteMath QuoteAccounts AccountValidation BinArrayLayout ByteRanges MarketLayouts
  AccountPrefixes

def cashbackByte (isCashbackCoin : Bool) : UInt8 := if isCashbackCoin then 1 else 0

/-- A pool account as both parsers see it; the quote mint and the vaults only one of them reads. -/
def poolFields (pool : PumpPoolState) (checked : PumpPoolPrefix) : List (FieldAt UInt8) :=
  [⟨0, pumpPoolDiscriminator⟩, ⟨11, pool.creator.val⟩, ⟨43, pool.baseMint.val⟩,
   ⟨75, checked.quoteMint.val⟩, ⟨139, checked.baseVault.val⟩, ⟨171, checked.quoteVault.val⟩,
   ⟨211, pool.coinCreator.val⟩, ⟨244, [cashbackByte checked.isCashbackCoin]⟩,
   ⟨245, leBytes 16 pool.virtualQuoteReserves.toNat⟩]

/-- The fields in front of a pair's bitmap. -/
def pairHeaderFields (pair : LbPairState) (remainder : PairRemainder) (checked : MeteoraPairPrefix) :
    List (FieldAt UInt8) :=
  ⟨0, meteoraLbPairDiscriminator⟩ :: parameterFields pair ++
    [⟨88, checked.tokenXMint.val⟩, ⟨120, checked.tokenYMint.val⟩, ⟨152, checked.reserveX.val⟩,
     ⟨184, checked.reserveY.val⟩] ++ rewardFields remainder

def pairFields (pair : LbPairState) (remainder : PairRemainder) (checked : MeteoraPairPrefix) :
    List (FieldAt UInt8) :=
  pairHeaderFields pair remainder checked ++ bitmapFields pair.bitmap

def poolImage (contents : Bytes) (pool : PumpPoolState) (checked : PumpPoolPrefix) : Bytes :=
  putAll contents (poolFields pool checked)

def pairImage (contents : Bytes) (pair : LbPairState) (remainder : PairRemainder)
    (checked : MeteoraPairPrefix) : Bytes :=
  putAll contents (pairFields pair remainder checked)

def poolSize : Nat := 261
def pairSize : Nat := 712

theorem cashback_flag_ok {data : Bytes} (flag : Bool) (long : pumpIsCashbackCoinOffset < data.length) :
    readCashbackFlag data = .ok flag ↔ HasField data ⟨244, [cashbackByte flag]⟩ := by
  have present : data[pumpIsCashbackCoinOffset]? = some data[pumpIsCashbackCoinOffset] :=
    List.getElem?_eq_getElem long
  rw [← read_byte_ok]
  change _ ↔ okOr (data[pumpIsCashbackCoinOffset]?) _ = _
  unfold readCashbackFlag
  rw [present]
  generalize data[pumpIsCashbackCoinOffset] = byte
  cases flag <;> simp only [ok_or_some, Except.ok.injEq, cashbackByte] <;> grind

/-- Every bitmap word stands eight bytes after the one before it. -/
theorem bitmap_placed (bitmap : Vector UInt64 16) : WellPlaced (bitmapFields bitmap) pairSize := by
  constructor
  · refine List.pairwise_map.mpr (List.Pairwise.imp ?_ (List.pairwise_lt_finRange 16))
    intro first second before
    have ordered : first.val < second.val := before
    simp only [Precedes, FieldAt.finish, length_le_bytes]
    omega
  · intro field member
    obtain ⟨index, _, rfl⟩ := List.mem_map.mp member
    have inside := index.isLt
    simp only [FieldAt.finish, length_le_bytes, pairSize]
    omega

theorem bitmap_after (bitmap : Vector UInt64 16) (field : FieldAt UInt8)
    (member : field ∈ bitmapFields bitmap) : 584 ≤ field.offset := by
  obtain ⟨index, _, rfl⟩ := List.mem_map.mp member
  simp only
  omega

theorem pool_placed (pool : PumpPoolState) (checked : PumpPoolPrefix) :
    WellPlaced (poolFields pool checked) poolSize := by
  constructor
  · simp [poolFields, Precedes, FieldAt.finish, pool.creator.property, pool.baseMint.property,
      checked.quoteMint.property, checked.baseVault.property, checked.quoteVault.property,
      pool.coinCreator.property, pumpPoolDiscriminator]
  · simp [poolFields, FieldAt.finish, pool.creator.property, pool.baseMint.property, poolSize,
      checked.quoteMint.property, checked.baseVault.property, checked.quoteVault.property,
      pool.coinCreator.property, pumpPoolDiscriminator]

theorem pair_header_placed (pair : LbPairState) (remainder : PairRemainder)
    (checked : MeteoraPairPrefix) : WellPlaced (pairHeaderFields pair remainder checked) 584 := by
  constructor
  · simp [pairHeaderFields, parameterFields, rewardFields, Precedes, FieldAt.finish,
      meteoraLbPairDiscriminator, checked.tokenXMint.property, checked.tokenYMint.property,
      checked.reserveX.property, checked.reserveY.property, remainder.firstRewardMint.property]
  · simp [pairHeaderFields, parameterFields, rewardFields, FieldAt.finish,
      meteoraLbPairDiscriminator, checked.tokenXMint.property, checked.tokenYMint.property,
      checked.reserveX.property, checked.reserveY.property, remainder.firstRewardMint.property,
      remainder.secondRewardMint.property]

theorem pair_placed (pair : LbPairState) (remainder : PairRemainder) (checked : MeteoraPairPrefix) :
    WellPlaced (pairFields pair remainder checked) pairSize := by
  have header := pair_header_placed pair remainder checked
  have words := bitmap_placed pair.bitmap
  constructor
  · refine List.pairwise_append.mpr ⟨header.ordered, words.ordered, fun field early word late => ?_⟩
    exact Nat.le_trans (header.inside field early) (bitmap_after pair.bitmap word late)
  · intro field member
    rcases List.mem_append.mp member with early | late
    · exact Nat.le_trans (header.inside field early) (by decide)
    · exact words.inside field late

/-- The quoting and the validating fields of a pool, in one list. -/
theorem pool_carried {data : Bytes} (pool : PumpPoolState) (checked : PumpPoolPrefix) :
    (parsePumpPool data = .ok pool ∧ parsePumpPoolPrefix data = .ok checked) ↔
      pool.baseMint = checked.baseMint ∧ pool.coinCreator = checked.coinCreator ∧
        Carries data (poolFields pool checked) := by
  have sameField (offset : Nat) (left right : Pubkey) (atLeft : HasField data ⟨offset, left.val⟩)
      (atRight : HasField data ⟨offset, right.val⟩) : left = right := by
    unfold HasField at atLeft atRight
    rw [left.property] at atLeft
    rw [right.property] at atRight
    exact Subtype.ext (atLeft.symm.trans atRight)
  have flagged (virtualEnd : HasField data ⟨245, leBytes 16 pool.virtualQuoteReserves.toNat⟩) :
      readCashbackFlag data = .ok checked.isCashbackCoin ↔
        HasField data ⟨244, [cashbackByte checked.isCashbackCoin]⟩ := by
    have long := has_field_fits virtualEnd (by rw [length_le_bytes]; decide)
    rw [FieldAt.finish, length_le_bytes] at long
    exact cashback_flag_ok _ (Nat.lt_of_lt_of_le (show 244 < 245 + 16 by decide) long)
  rw [parse_pump_pool_ok, parse_pump_prefix_ok]
  simp only [pumpPoolFields, pumpPrefixFields, poolFields, carries_cons, carries_nil, and_true]
  constructor
  · rintro ⟨⟨creator, base, coin, reserves⟩, ⟨marked, base', quote, baseVault, quoteVault, coin'⟩, flag⟩
    exact ⟨sameField _ _ _ base base', sameField _ _ _ coin coin', marked, creator, base, quote,
      baseVault, quoteVault, coin, (flagged reserves).mp flag, reserves⟩
  · rintro ⟨sameBase, sameCoin, marked, creator, base, quote, baseVault, quoteVault, coin, flag, reserves⟩
    rw [← sameBase, ← sameCoin]
    exact ⟨⟨creator, base, coin, reserves⟩, ⟨marked, base, quote, baseVault, quoteVault, coin⟩,
      (flagged reserves).mpr flag⟩

theorem pair_carried {data : Bytes} (pair : LbPairState) (checked : MeteoraPairPrefix) :
    (parseLbPair data = .ok pair ∧ parseMeteoraPair data = .ok checked) ↔
      ∃ remainder : PairRemainder, pair.rewardsAreEmpty = remainder.rewardsAreEmpty ∧
        Carries data (pairFields pair remainder checked) := by
  rw [parse_lb_pair_ok, parse_meteora_pair_ok]
  simp only [pairFields, pairHeaderFields, pairPrefixFields, List.cons_append, carries_cons,
    carries_append, carries_nil, and_true]
  constructor
  · rintro ⟨⟨remainder, parameters, rewards, bitmap, empty⟩, marked, mints⟩
    exact ⟨remainder, empty, marked, ⟨⟨parameters, mints⟩, rewards⟩, bitmap⟩
  · rintro ⟨remainder, empty, marked, ⟨⟨parameters, mints⟩, rewards⟩, bitmap⟩
    exact ⟨⟨remainder, parameters, rewards, bitmap, empty⟩, marked, mints⟩

/-- Both parsers read an account written over any contents back as it was
written, the bytes outside the fields are left alone, and the bytes they accept
together are the ones that carry the same fields. -/
theorem pool_account_round_trip (pool : PumpPoolState) (checked : PumpPoolPrefix)
    (contents : Bytes) (long : poolSize ≤ contents.length)
    (sameBase : pool.baseMint = checked.baseMint) (sameCoin : pool.coinCreator = checked.coinCreator) :
    parsePumpPool (poolImage contents pool checked) = .ok pool ∧
    parsePumpPoolPrefix (poolImage contents pool checked) = .ok checked ∧
    (∀ offset size, (∀ field ∈ poolFields pool checked,
        offset + size ≤ field.offset ∨ field.finish ≤ offset) →
      slice (poolImage contents pool checked) offset size = slice contents offset size) ∧
    ∀ data, (parsePumpPool data = .ok pool ∧ parsePumpPoolPrefix data = .ok checked) ↔
      Carries data (poolFields pool checked) := by
  have placed := pool_placed pool checked
  have inside : ∀ field ∈ poolFields pool checked, field.finish ≤ contents.length :=
    fun field member => Nat.le_trans (placed.inside field member) long
  have carried := put_all_carries contents _ ⟨placed.ordered, inside⟩
  obtain ⟨quoted, validated⟩ := (pool_carried pool checked).mpr ⟨sameBase, sameCoin, carried⟩
  refine ⟨quoted, validated, fun offset size => slice_put_all_apart _ _ _ _ inside, fun data => ?_⟩
  rw [pool_carried]
  exact ⟨fun accepted => accepted.2.2, fun held => ⟨sameBase, sameCoin, held⟩⟩

theorem pool_account_round_trip_zero :
    parsePumpPool (poolImage (List.replicate 300 7) ⟨zeroKey, wsolMintId, zeroKey, 5⟩
      ⟨wsolMintId, zeroKey, zeroKey, zeroKey, zeroKey, true⟩) = .ok ⟨zeroKey, wsolMintId, zeroKey, 5⟩ :=
  (pool_account_round_trip ⟨zeroKey, wsolMintId, zeroKey, 5⟩
    ⟨wsolMintId, zeroKey, zeroKey, zeroKey, zeroKey, true⟩ (List.replicate 300 7)
    (by rw [List.length_replicate]; decide) rfl rfl).1

theorem pair_account_round_trip (pair : LbPairState) (remainder : PairRemainder)
    (checked : MeteoraPairPrefix) (contents : Bytes) (long : pairSize ≤ contents.length)
    (empty : pair.rewardsAreEmpty = remainder.rewardsAreEmpty) :
    parseLbPair (pairImage contents pair remainder checked) = .ok pair ∧
    parseMeteoraPair (pairImage contents pair remainder checked) = .ok checked ∧
    (∀ offset size, (∀ field ∈ pairFields pair remainder checked,
        offset + size ≤ field.offset ∨ field.finish ≤ offset) →
      slice (pairImage contents pair remainder checked) offset size = slice contents offset size) ∧
    ∀ data, (parseLbPair data = .ok pair ∧ parseMeteoraPair data = .ok checked) ↔
      ∃ other : PairRemainder, pair.rewardsAreEmpty = other.rewardsAreEmpty ∧
        Carries data (pairFields pair other checked) := by
  have placed := pair_placed pair remainder checked
  have inside : ∀ field ∈ pairFields pair remainder checked, field.finish ≤ contents.length :=
    fun field member => Nat.le_trans (placed.inside field member) long
  have carried := put_all_carries contents _ ⟨placed.ordered, inside⟩
  obtain ⟨quoted, validated⟩ := (pair_carried pair checked).mpr ⟨remainder, empty, carried⟩
  exact ⟨quoted, validated, fun offset size => slice_put_all_apart _ _ _ _ inside,
    fun data => pair_carried pair checked⟩

def plainPair : LbPairState where
  staticParameters := ⟨100, 30, 600, 5000, 40000, 350000, 500, 0, 1, 0⟩
  variableParameters := ⟨0, 0, -7, 1700000000⟩
  activeId := -7
  binStep := 25
  bitmap := Vector.replicate 16 1
  rewardsAreEmpty := true

theorem pair_account_round_trip_plain :
    parseLbPair (pairImage (List.replicate 904 7) plainPair ⟨zeroKey, zeroKey⟩
      ⟨wsolMintId, zeroKey, zeroKey, zeroKey⟩) = .ok plainPair :=
  (pair_account_round_trip plainPair ⟨zeroKey, zeroKey⟩ ⟨wsolMintId, zeroKey, zeroKey, zeroKey⟩
    (List.replicate 904 7) (by rw [List.length_replicate]; decide) (by decide)).1

end ArbExecutor.AccountImages
