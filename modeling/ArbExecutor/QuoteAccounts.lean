import ArbExecutor.QuoteMath

/-!
Account layouts, bin addressing, volatility state and the parsed-snapshot bin
traversal of quote/accounts.rs. An account's data is its byte list; slices are
taken the way `get(offset..offset + N)` takes them, so that a short account
fails at the first field it cannot hold.
-/

namespace ArbExecutor.QuoteAccounts

open Checked QuoteMath

abbrev Bytes := List UInt8

def discriminatorLen : Nat := 8
def binSize : Nat := 144
def binArrayHeaderSize : Nat := 48
def maxQuoteBinArraysPerDirection : Nat := 2
def maxQuoteVisitedBinsPerDirection : Nat := 16

structure PumpFees where
  lpFeeBps : UInt16
  protocolFeeBps : UInt16
  creatorFeeBps : UInt16
  deriving DecidableEq, Repr

structure PumpFeeTier where
  marketCapThreshold : BitVec 128
  fees : PumpFees
  deriving DecidableEq

structure PumpFeeConfig where
  flatFees : PumpFees
  tiers : List PumpFeeTier
  deriving DecidableEq

structure DlmmStaticParameters where
  baseFactor : UInt16
  filterPeriod : UInt16
  decayPeriod : UInt16
  reductionFactor : UInt16
  variableFeeControl : UInt32
  maxVolatilityAccumulator : UInt32
  protocolShare : UInt16
  baseFeePowerFactor : UInt8
  functionType : UInt8
  collectFeeMode : UInt8
  deriving DecidableEq, Repr

structure DlmmVariableParameters where
  volatilityAccumulator : UInt32
  volatilityReference : UInt32
  indexReference : Int32
  lastUpdateTimestamp : Int64
  deriving DecidableEq

structure LbPairState where
  staticParameters : DlmmStaticParameters
  variableParameters : DlmmVariableParameters
  activeId : Int32
  binStep : UInt16
  bitmap : Vector UInt64 16
  rewardsAreEmpty : Bool
  deriving DecidableEq

structure ParsedBinArray where
  index : Int
  bins : List (UInt8 × Bin)
  deriving DecidableEq

structure DlmmSnapshotQuote where
  quote : QuoteResult
  usedArrayIndices : List Int
  deriving DecidableEq

section Reading

def leNat : Bytes → Nat
  | [] => 0
  | byte :: rest => byte.toNat + 256 * leNat rest

def bytes (data : Bytes) (offset size : Nat) : Except QuoteError Bytes :=
  let slice := (data.drop offset).take size
  if slice.length = size then .ok slice else .error .invalidInput

def readU32 (data : Bytes) (offset : Nat) : Except QuoteError UInt32 := do
  let slice ← bytes data offset 4
  pure (UInt32.ofNat (leNat slice))

def readU64 (data : Bytes) (offset : Nat) : Except QuoteError UInt64 := do
  let slice ← bytes data offset 8
  pure (UInt64.ofNat (leNat slice))

def readI64 (data : Bytes) (offset : Nat) : Except QuoteError Int64 := do
  let slice ← bytes data offset 8
  pure (UInt64.ofNat (leNat slice)).toInt64

def readU128 (data : Bytes) (offset : Nat) : Except QuoteError (BitVec 128) := do
  let slice ← bytes data offset 16
  pure (BitVec.ofNat 128 (leNat slice))

end Reading

section PumpFeeConfigs

/-- A fee is stored as a u64 and used as a u16. -/
def readFeeBps (data : Bytes) (offset : Nat) : Except QuoteError UInt16 := do
  let value ← readU64 data offset
  let value ← okOr (narrow 16 value.toNat) .invalidInput
  pure (UInt16.ofNat value)

def parseFees (data : Bytes) (offset : Nat) : Except QuoteError PumpFees := do
  let lpFeeBps ← readFeeBps data offset
  let protocolFeeBps ← readFeeBps data (offset + 8)
  let creatorFeeBps ← readFeeBps data (offset + 16)
  pure { lpFeeBps, protocolFeeBps, creatorFeeBps }

def parseTiers (data : Bytes) : Nat → Nat → Except QuoteError (List PumpFeeTier)
  | _, 0 => .ok []
  | offset, count + 1 => do
      let marketCapThreshold ← readU128 data offset
      let fees ← parseFees data (offset + 16)
      let next ← okOr (checkedAdd 64 offset 40) .mathOverflow
      let rest ← parseTiers data next count
      pure ({ marketCapThreshold, fees } :: rest)

def flatOffset : Nat := discriminatorLen + 1 + 32
def tiersOffset : Nat := flatOffset + 28

/-- Whether the bytes hold that many tiers, at least one and at most 64. -/
def tierCountFits (data : Bytes) (tierCount : Nat) : Bool :=
  tierCount ≠ 0 ∧ tierCount ≤ (data.length - tiersOffset) / 40 ∧ tierCount ≤ 64

def parsePumpFeeConfig (data : Bytes) : Except QuoteError PumpFeeConfig := do
  let tierCount ← readU32 data (flatOffset + 24)
  if !tierCountFits data tierCount.toNat then .error .invalidInput
  else do
    let tiers ← parseTiers data tiersOffset tierCount.toNat
    let flatFees ← parseFees data flatOffset
    pure { flatFees, tiers }

def selectPumpFees (config : Option PumpFeeConfig) (globalFees : PumpFees) (isPumpPool : Bool)
    (mintSupply baseReserve effectiveQuoteReserve : Nat) : Except QuoteError PumpFees :=
  match config with
  | none => .ok globalFees
  | some config =>
      if !isPumpPool then .ok config.flatFees
      else match config.tiers with
        | [] => .error .invalidInput
        | first :: rest =>
            if baseReserve = 0 then .error .invalidInput
            else do
              let product ← okOr (checkedMul 128 effectiveQuoteReserve mintSupply) .mathOverflow
              let marketCap := product / baseReserve
              pure ((first :: rest).foldl
                (fun selected tier =>
                  if tier.marketCapThreshold.toNat ≤ marketCap then tier.fees else selected)
                first.fees)

def selectPumpFeesFromData (data : Bytes) (globalFees : PumpFees) (isPumpPool : Bool)
    (mintSupply baseReserve effectiveQuoteReserve : Nat) : Except QuoteError PumpFees := do
  let flatFees ← parseFees data flatOffset
  if !isPumpPool then pure flatFees
  else if baseReserve = 0 then .error .invalidInput
  else do
    let tierCount ← readU32 data (flatOffset + 24)
    if !tierCountFits data tierCount.toNat then
      if tierCount.toNat = 0 then pure globalFees else .error .invalidInput
    else do
      let product ← okOr (checkedMul 128 effectiveQuoteReserve mintSupply) .mathOverflow
      let marketCap := product / baseReserve
      let first ← parseFees data (tiersOffset + 16)
      (List.range tierCount.toNat).foldlM
        (fun selected tierIndex => do
          let relative ← okOr (checkedMul 64 tierIndex 40) .mathOverflow
          let offset ← okOr (checkedAdd 64 tiersOffset relative) .mathOverflow
          let threshold ← readU128 data offset
          if threshold.toNat ≤ marketCap then parseFees data (offset + 16) else pure selected)
        first

end PumpFeeConfigs

section BinArrays

def binArrayIndex (binId : Int) : Int := binId / 70

def binOffset (binId arrayIndex : Int) : Except QuoteError Nat := do
  let start ← okOr (checkedSigned 64 (arrayIndex * 70)) .mathOverflow
  let offset ← okOr (checkedSigned 64 (binId - start)) .mathOverflow
  if 0 ≤ offset ∧ offset < 70 then pure offset.toNat else .error .invalidInput

def parseBin (data : Bytes) (binsBase binIndex : Nat) : Except QuoteError Bin := do
  let relative ← okOr (checkedMul 64 binIndex binSize) .mathOverflow
  let offset ← okOr (checkedAdd 64 binsBase relative) .mathOverflow
  let amountX ← readU64 data offset
  let amountY ← readU64 data (offset + 8)
  let priceQ64 ← readU128 data (offset + 16)
  let openOrderAmount ← readU64 data (offset + 112)
  let processedOrderRemainingAmount ← readU64 data (offset + 128)
  let askSide ← okOr (data[offset + 140]?) .invalidInput
  pure { priceQ64, amountX, amountY, openOrderAmount, processedOrderRemainingAmount,
         limitOrderAskSide := askSide != 0 }

def parseBinArrayIndex (data : Bytes) : Except QuoteError Int := do
  let index ← readI64 data discriminatorLen
  pure index.toInt

def parseBinForId (data : Bytes) (binId arrayIndex : Int) : Except QuoteError Bin := do
  let binIndex ← binOffset binId arrayIndex
  parseBin data (discriminatorLen + binArrayHeaderSize) binIndex

def parseBinEntry (data : Bytes) (binIndex : Nat) : Except QuoteError (UInt8 × Bin) := do
  let bin ← parseBin data (discriminatorLen + binArrayHeaderSize) binIndex
  pure (UInt8.ofNat binIndex, bin)

def parseBinArray (data : Bytes) : Except QuoteError ParsedBinArray := do
  let index ← parseBinArrayIndex data
  let bins ← (List.range 70).mapM (parseBinEntry data)
  pure { index, bins }

/-- The window loop: a bin outside `lower..=upper` is passed over unparsed. -/
def parseWindowBins (data : Bytes) (index lower upper : Int) :
    List Nat → Except QuoteError (List (UInt8 × Bin))
  | [] => .ok []
  | binIndex :: rest => do
      let start ← okOr (checkedSigned 64 (index * 70)) .mathOverflow
      let absoluteId ← okOr (checkedSigned 64 (start + binIndex)) .mathOverflow
      if lower ≤ absoluteId ∧ absoluteId ≤ upper then do
        let entry ← parseBinEntry data binIndex
        let bins ← parseWindowBins data index lower upper rest
        pure (entry :: bins)
      else parseWindowBins data index lower upper rest

def parseBinArrayWindow (data : Bytes) (activeId : Int) : Except QuoteError ParsedBinArray := do
  let index ← parseBinArrayIndex data
  let reach : Int := (maxQuoteVisitedBinsPerDirection : Int) - 1
  let lower := saturatingSigned 32 (activeId - reach)
  let upper := saturatingSigned 32 (activeId + reach)
  let bins ← parseWindowBins data index lower upper (List.range 70)
  pure { index, bins }

end BinArrays

section Bitmap

def defaultBitmapContains (bitmap : Vector UInt64 16) (arrayIndex : Int) : Bool :=
  if inside : -512 ≤ arrayIndex ∧ arrayIndex ≤ 511 then
    let bit := (arrayIndex + 512).toNat
    (bitmap.get ⟨bit / 64, by omega⟩).toNat.testBit (bit % 64)
  else false

def extensionBitmapContains (data : Bytes) (arrayIndex : Int) : Except QuoteError Bool :=
  if -512 ≤ arrayIndex ∧ arrayIndex ≤ 511 then .ok false
  else do
    let header : Nat := 8 + 32
    let sideBytes : Nat := 12 * 8 * 8
    let (sideOffset, relative) ←
      if 512 ≤ arrayIndex then pure (header, arrayIndex)
      else do
        let raised ← okOr (checkedSigned 64 (arrayIndex + 1)) .mathOverflow
        let relative ← okOr (checkedSigned 64 (-raised)) .mathOverflow
        pure (header + sideBytes, relative)
    let chunk := relative / 512 - 1
    let bit := relative % 512
    if 0 ≤ chunk ∧ chunk < 12 then do
      let offset ← okOr ((checkedAdd 64 sideOffset (chunk.toNat * 64)).bind
        fun value => checkedAdd 64 value ((bit / 64).toNat * 8)) .mathOverflow
      let word ← readU64 data offset
      pure (word.toNat.testBit (bit % 64).toNat)
    else pure false

/-- The bitmap lookup every traversal makes before it looks for an account. -/
def arrayInitialized (pair : LbPairState) (bitmapExtension : Option Bytes) (arrayIndex : Int) :
    Except QuoteError Bool :=
  if -512 ≤ arrayIndex ∧ arrayIndex ≤ 511 then .ok (defaultBitmapContains pair.bitmap arrayIndex)
  else match bitmapExtension with
    | some data => extensionBitmapContains data arrayIndex
    | none => .ok false

end Bitmap

section Volatility

def updateReference (activeId : Int32) (variableParameters : DlmmVariableParameters)
    (parameters : DlmmStaticParameters) (timestamp : Int64) : DlmmVariableParameters :=
  let elapsed := saturatingSigned 64 (timestamp.toInt - variableParameters.lastUpdateTimestamp.toInt)
  if (parameters.filterPeriod.toNat : Int) ≤ elapsed then
    { variableParameters with
      indexReference := activeId
      volatilityReference :=
        if elapsed < (parameters.decayPeriod.toNat : Int) then
          UInt32.ofNat (saturatingMul 64 variableParameters.volatilityAccumulator.toNat
            parameters.reductionFactor.toNat / 10000)
        else 0 }
  else variableParameters

def updateVolatilityAccumulator (activeId : Int) (variableParameters : DlmmVariableParameters)
    (parameters : DlmmStaticParameters) : DlmmVariableParameters :=
  let delta := min (variableParameters.indexReference.toInt - activeId).natAbs (wordMax 32)
  { variableParameters with
    volatilityAccumulator := UInt32.ofNat (min
      (saturatingAdd 32 variableParameters.volatilityReference.toNat (saturatingMul 32 delta 10000))
      parameters.maxVolatilityAccumulator.toNat) }

def dlmmFeeParameters (pair : LbPairState) (variableParameters : DlmmVariableParameters) :
    DlmmFeeParameters where
  binStep := pair.binStep
  baseFactor := pair.staticParameters.baseFactor
  baseFeePowerFactor := pair.staticParameters.baseFeePowerFactor
  variableFeeControl := pair.staticParameters.variableFeeControl
  volatilityAccumulator := variableParameters.volatilityAccumulator

def feeOnInput (pair : LbPairState) (swapForY : Bool) : Except QuoteError Bool :=
  if pair.staticParameters.collectFeeMode = 0 then .ok true
  else if pair.staticParameters.collectFeeMode = 1 then .ok !swapForY
  else .error .invalidInput

def supportsLimitOrders (pair : LbPairState) : Except QuoteError Bool :=
  if pair.staticParameters.functionType = 2 then .ok true
  else if pair.staticParameters.functionType = 1 then .ok false
  else if pair.staticParameters.functionType = 0 then .ok pair.rewardsAreEmpty
  else .error .invalidInput

end Volatility

section Traversal

def nextBin (activeId : Int) (swapForY : Bool) : Int :=
  saturatingSigned 32 (if swapForY then activeId - 1 else activeId + 1)

/-- Appends an array index the traversal has just entered; `none` past two arrays. -/
def enterArray (used : List Int) (arrayIndex : Int) : Option (List Int) :=
  if used.getLast? = some arrayIndex then some used
  else if used.length = maxQuoteBinArraysPerDirection then none
  else some (used ++ [arrayIndex])

def quotedBin (supportsLimitOrders : Bool) (bin : Bin) : Bin :=
  if supportsLimitOrders then bin
  else { bin with openOrderAmount := 0, processedOrderRemainingAmount := 0 }

structure SnapshotState where
  variableParameters : DlmmVariableParameters
  activeId : Int
  remaining : Nat
  amountOut : Nat
  totalFee : Nat
  usedArrayIndices : List Int
  deriving DecidableEq

def quoteSnapshotBins (pair : LbPairState) (arrays : List ParsedBinArray)
    (bitmapExtension : Option Bytes) (swapForY feeOnInput supportsLimitOrders : Bool) :
    Nat → SnapshotState → Except QuoteError SnapshotState
  | 0, state => .ok state
  | visits + 1, state =>
      if state.remaining = 0 then .ok state
      else do
        let arrayIndex := binArrayIndex state.activeId
        let initialized ← arrayInitialized pair bitmapExtension arrayIndex
        if !initialized then
          quoteSnapshotBins pair arrays bitmapExtension swapForY feeOnInput supportsLimitOrders visits
            { state with activeId := nextBin state.activeId swapForY }
        else do
          let array ← okOr (arrays.find? fun array => array.index == arrayIndex) .insufficientLiquidity
          let usedArrayIndices ← okOr (enterArray state.usedArrayIndices arrayIndex) .insufficientLiquidity
          let wantedOffset ← binOffset state.activeId array.index
          let entry ← okOr (array.bins.find? fun entry => entry.1 == UInt8.ofNat wantedOffset)
            .insufficientLiquidity
          let bin := quotedBin supportsLimitOrders entry.2
          let variableParameters :=
            updateVolatilityAccumulator state.activeId state.variableParameters pair.staticParameters
          let filled ← dlmmQuoteExactInPartial state.remaining [bin] swapForY feeOnInput
            (dlmmFeeParameters pair variableParameters)
          let remaining ← okOr (checkedSub state.remaining filled.amountIn) .mathOverflow
          let amountOut ← okOr (checkedAdd 64 state.amountOut filled.amountOut) .mathOverflow
          let totalFee ← okOr (checkedAdd 64 state.totalFee filled.fee) .mathOverflow
          quoteSnapshotBins pair arrays bitmapExtension swapForY feeOnInput supportsLimitOrders visits
            { variableParameters, remaining, amountOut, totalFee, usedArrayIndices
              activeId := if remaining ≠ 0 then nextBin state.activeId swapForY else state.activeId }

def quoteDlmmSnapshotWithBitmap (amountIn : Nat) (pair : LbPairState)
    (arrays : List ParsedBinArray) (bitmapExtension : Option Bytes) (swapForY : Bool)
    (timestamp : Int64) : Except QuoteError DlmmSnapshotQuote := do
  let variableParameters :=
    updateReference pair.activeId pair.variableParameters pair.staticParameters timestamp
  let feeOnInput ← feeOnInput pair swapForY
  let supportsLimitOrders ← supportsLimitOrders pair
  let state ← quoteSnapshotBins pair arrays bitmapExtension swapForY feeOnInput supportsLimitOrders
    maxQuoteVisitedBinsPerDirection
    { variableParameters, activeId := pair.activeId.toInt, remaining := amountIn, amountOut := 0,
      totalFee := 0, usedArrayIndices := [] }
  if state.remaining ≠ 0 then .error .insufficientLiquidity
  else pure { quote := { amountIn, amountOut := state.amountOut, fee := state.totalFee }
              usedArrayIndices := state.usedArrayIndices }

def quoteDlmmSnapshotWithArrays (amountIn : Nat) (pair : LbPairState)
    (arrays : List ParsedBinArray) (swapForY : Bool) (timestamp : Int64) :
    Except QuoteError DlmmSnapshotQuote :=
  quoteDlmmSnapshotWithBitmap amountIn pair arrays none swapForY timestamp

def quoteDlmmSnapshot (amountIn : Nat) (pair : LbPairState) (arrays : List ParsedBinArray)
    (swapForY : Bool) (timestamp : Int64) : Except QuoteError QuoteResult := do
  let snapshot ← quoteDlmmSnapshotWithArrays amountIn pair arrays swapForY timestamp
  pure snapshot.quote

end Traversal

end ArbExecutor.QuoteAccounts
