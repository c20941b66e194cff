import ArbExecutor.Checked

/-!
Integer-only Pump AMM and Meteora DLMM quote arithmetic of quote/math.rs.
Amounts are naturals and every conversion or product the source checks is
checked here at the same width; stored fields keep their machine types.
-/

namespace ArbExecutor.QuoteMath

open Checked

def feePrecision : Nat := 1000000000
def maxFeeRate : Nat := 100000000

inductive QuoteError where
  | invalidInput
  | mathOverflow
  | insufficientLiquidity
  deriving DecidableEq, Repr

structure QuoteResult where
  amountIn : Nat
  amountOut : Nat
  fee : Nat
  deriving DecidableEq, Repr

structure DlmmFeeParameters where
  binStep : UInt16
  baseFactor : UInt16
  baseFeePowerFactor : UInt8
  variableFeeControl : UInt32
  volatilityAccumulator : UInt32
  deriving DecidableEq, Repr

structure Bin where
  priceQ64 : BitVec 128
  amountX : UInt64
  amountY : UInt64
  openOrderAmount : UInt64
  processedOrderRemainingAmount : UInt64
  limitOrderAskSide : Bool
  deriving DecidableEq, Repr

def ceilDiv (numerator denominator : Nat) : Except QuoteError Nat :=
  if denominator = 0 then .error .invalidInput
  else do
    let raised ← okOr (checkedAdd 128 numerator (denominator - 1)) .mathOverflow
    pure (raised / denominator)

def toU64 (value : Nat) : Except QuoteError Nat := okOr (narrow 64 value) .mathOverflow

/-- The `fee_for` closure of both Pump quotes. -/
def bpsFee (amount bps : Nat) : Except QuoteError Nat := do
  let product ← okOr (checkedMul 128 amount bps) .mathOverflow
  ceilDiv product 10000

def pumpBuyExactQuoteIn (quoteIn baseReserve quoteReserve virtualQuoteReserves
    lpFeeBps protocolFeeBps creatorFeeBps : Nat) : Except QuoteError QuoteResult :=
  if quoteIn = 0 ∨ baseReserve = 0 ∨ quoteReserve = 0 then .error .invalidInput
  else do
    let totalFeeBps ← okOr ((checkedAdd 128 lpFeeBps protocolFeeBps).bind
      fun value => checkedAdd 128 value creatorFeeBps) .mathOverflow
    let scaledQuote ← okOr (checkedMul 128 quoteIn 10000) .mathOverflow
    let effectiveQuote := scaledQuote / (10000 + totalFeeBps)
    let lpFee ← bpsFee effectiveQuote lpFeeBps
    let totalWithFees ← okOr (((checkedAdd 128 effectiveQuote lpFee).bind
      fun value => (bpsFee effectiveQuote protocolFeeBps).toOption.bind (checkedAdd 128 value)).bind
      fun value => (bpsFee effectiveQuote creatorFeeBps).toOption.bind (checkedAdd 128 value))
      .mathOverflow
    -- An over-spend left by the three fee ceilings is taken out of the curve input.
    let effectiveQuote ←
      if totalWithFees > quoteIn then
        okOr (checkedSub effectiveQuote (totalWithFees - quoteIn)) .mathOverflow
      else pure effectiveQuote
    let curveInput ← okOr (checkedSub effectiveQuote 1) .invalidInput
    let effectiveQuoteReserve ← okOr (checkedAdd 128 quoteReserve virtualQuoteReserves) .mathOverflow
    let product ← okOr (checkedMul 128 baseReserve curveInput) .mathOverflow
    let divisor ← okOr (checkedAdd 128 effectiveQuoteReserve curveInput) .mathOverflow
    let amountOut ← toU64 (product / divisor)
    let fee ← toU64 (quoteIn - effectiveQuote)
    pure { amountIn := quoteIn, amountOut, fee }

def pumpSellBaseIn (baseIn baseReserve quoteReserve virtualQuoteReserves
    lpFeeBps protocolFeeBps creatorFeeBps : Nat) : Except QuoteError QuoteResult :=
  if baseIn = 0 ∨ baseReserve = 0 ∨ quoteReserve = 0 then .error .invalidInput
  else do
    let effectiveQuoteReserve ← okOr (checkedAdd 128 quoteReserve virtualQuoteReserves) .mathOverflow
    let product ← okOr (checkedMul 128 effectiveQuoteReserve baseIn) .mathOverflow
    let divisor ← okOr (checkedAdd 128 baseReserve baseIn) .mathOverflow
    let rawQuote := product / divisor
    let lpFee ← bpsFee rawQuote lpFeeBps
    let protocolFee ← bpsFee rawQuote protocolFeeBps
    let fee ← okOr ((checkedAdd 128 lpFee protocolFee).bind
      fun value => (bpsFee rawQuote creatorFeeBps).toOption.bind (checkedAdd 128 value)) .mathOverflow
    let amountOut ← okOr (checkedSub rawQuote fee) .mathOverflow
    let leavingVault ← okOr (checkedSub rawQuote lpFee) .mathOverflow
    if quoteReserve < leavingVault then .error .insufficientLiquidity
    else do
      let amountOut ← toU64 amountOut
      let fee ← toU64 fee
      pure { amountIn := baseIn, amountOut, fee }

def dlmmTotalFeeRate (parameters : DlmmFeeParameters) : Except QuoteError Nat := do
  let power ← okOr (narrow 128 (10 ^ parameters.baseFeePowerFactor.toNat)) .mathOverflow
  let baseFee ← okOr (((checkedMul 128 parameters.baseFactor.toNat parameters.binStep.toNat).bind
    fun value => checkedMul 128 value 10).bind fun value => checkedMul 128 value power) .mathOverflow
  let variableFee ←
    if parameters.variableFeeControl = 0 then pure 0
    else do
      let volatilityBin ← okOr (checkedMul 128 parameters.volatilityAccumulator.toNat
        parameters.binStep.toNat) .mathOverflow
      let squared ← okOr (checkedMul 128 volatilityBin volatilityBin) .mathOverflow
      let raised ← okOr ((checkedMul 128 parameters.variableFeeControl.toNat squared).bind
        fun value => checkedAdd 128 value 99999999999) .mathOverflow
      pure (raised / 100000000000)
  let total ← okOr (checkedAdd 128 baseFee variableFee) .mathOverflow
  pure (min total maxFeeRate)

def excludedFeeAmount (amount feeRate : Nat) : Except QuoteError (Nat × Nat) := do
  let product ← okOr (checkedMul 128 amount feeRate) .mathOverflow
  let fee ← ceilDiv product feePrecision
  let excluded ← okOr (checkedSub amount fee) .mathOverflow
  let excluded ← toU64 excluded
  let fee ← toU64 fee
  pure (excluded, fee)

def includedFeeAmount (amount feeRate : Nat) : Except QuoteError (Nat × Nat) := do
  let denominator ← okOr (checkedSub feePrecision feeRate) .invalidInput
  let product ← okOr (checkedMul 128 amount feePrecision) .mathOverflow
  let included ← ceilDiv product denominator
  let gross ← toU64 included
  let fee ← toU64 (included - amount)
  pure (gross, fee)

def amountInForOut (amountOut priceQ64 : Nat) (swapForY : Bool) : Except QuoteError Nat :=
  if priceQ64 = 0 then .error .invalidInput
  else do
    let value ←
      if swapForY then ceilDiv (amountOut * 2 ^ 64) priceQ64
      else do
        let product ← okOr (checkedMul 128 amountOut priceQ64) .mathOverflow
        ceilDiv product (2 ^ 64)
    toU64 value

def amountOutForIn (amountIn priceQ64 : Nat) (swapForY : Bool) : Except QuoteError Nat :=
  if priceQ64 = 0 then .error .invalidInput
  else do
    let value ←
      if swapForY then do
        let product ← okOr (checkedMul 128 amountIn priceQ64) .mathOverflow
        pure (product / 2 ^ 64)
      else pure (amountIn * 2 ^ 64 / priceQ64)
    toU64 value

/-- Market-maker plus limit-order liquidity a bin can pay out in one direction. -/
def maxOut (bin : Bin) (swapForY : Bool) : Except QuoteError Nat := do
  let mmOut := if swapForY then bin.amountY.toNat else bin.amountX.toNat
  let limitOrderOut ←
    if (swapForY && !bin.limitOrderAskSide) || (!swapForY && bin.limitOrderAskSide) then
      okOr (checkedAdd 64 bin.openOrderAmount.toNat bin.processedOrderRemainingAmount.toNat) .mathOverflow
    else pure 0
  okOr (checkedAdd 64 mmOut limitOrderOut) .mathOverflow

structure FillTotals where
  remaining : Nat
  totalIn : Nat
  totalOut : Nat
  totalFee : Nat
  deriving DecidableEq, Repr

/-- One iteration of the bin loop, entered with `remaining` nonzero. -/
def fillBin (swapForY feeOnInput : Bool) (feeRate : Nat) (bin : Bin) (totals : FillTotals) :
    Except QuoteError FillTotals := do
  let (available, feeForFullInput) ←
    if feeOnInput then excludedFeeAmount totals.remaining feeRate else pure (totals.remaining, 0)
  let maxOut ← maxOut bin swapForY
  if maxOut = 0 then pure totals
  else do
    let maxInputWithoutFee ← amountInForOut maxOut bin.priceQ64.toNat swapForY
    let usedWithoutFee := min available maxInputWithoutFee
    let rawOut ←
      if usedWithoutFee = maxInputWithoutFee then pure maxOut
      else amountOutForIn usedWithoutFee bin.priceQ64.toNat swapForY
    let (usedWithFee, fee, output) ←
      if feeOnInput then
        -- Net input that meets the bin's need absorbs the whole gross remainder.
        if usedWithoutFee = available then pure (totals.remaining, feeForFullInput, rawOut)
        else do
          let (included, includedFee) ← includedFeeAmount usedWithoutFee feeRate
          pure (included, includedFee, rawOut)
      else do
        let (output, outputFee) ← excludedFeeAmount rawOut feeRate
        pure (usedWithoutFee, outputFee, output)
    let remaining ← okOr (checkedSub totals.remaining usedWithFee) .mathOverflow
    let totalIn ← okOr (checkedAdd 64 totals.totalIn usedWithFee) .mathOverflow
    let totalOut ← okOr (checkedAdd 64 totals.totalOut output) .mathOverflow
    let totalFee ← okOr (checkedAdd 64 totals.totalFee fee) .mathOverflow
    pure { remaining, totalIn, totalOut, totalFee }

def fillBins (swapForY feeOnInput : Bool) (feeRate : Nat) :
    List Bin → FillTotals → Except QuoteError FillTotals
  | [], totals => .ok totals
  | bin :: rest, totals =>
      if totals.remaining = 0 then .ok totals
      else do
        let next ← fillBin swapForY feeOnInput feeRate bin totals
        fillBins swapForY feeOnInput feeRate rest next

def dlmmQuoteExactInImpl (amountIn : Nat) (bins : List Bin) (swapForY feeOnInput : Bool)
    (parameters : DlmmFeeParameters) (requireFullFill : Bool) : Except QuoteError QuoteResult :=
  if amountIn = 0 ∨ bins = [] then .error .invalidInput
  else do
    let feeRate ← dlmmTotalFeeRate parameters
    let totals ← fillBins swapForY feeOnInput feeRate bins
      { remaining := amountIn, totalIn := 0, totalOut := 0, totalFee := 0 }
    if requireFullFill && totals.remaining != 0 then .error .insufficientLiquidity
    else pure { amountIn := totals.totalIn, amountOut := totals.totalOut, fee := totals.totalFee }

def dlmmQuoteExactIn (amountIn : Nat) (bins : List Bin) (swapForY feeOnInput : Bool)
    (parameters : DlmmFeeParameters) : Except QuoteError QuoteResult :=
  dlmmQuoteExactInImpl amountIn bins swapForY feeOnInput parameters true

def dlmmQuoteExactInPartial (amountIn : Nat) (bins : List Bin) (swapForY feeOnInput : Bool)
    (parameters : DlmmFeeParameters) : Except QuoteError QuoteResult :=
  dlmmQuoteExactInImpl amountIn bins swapForY feeOnInput parameters false

/-- The gross input, net output and fee that consume everything one bin offers. -/
def dlmmBinQuoteCapacity (bin : Bin) (swapForY feeOnInput : Bool)
    (parameters : DlmmFeeParameters) : Except QuoteError QuoteResult := do
  let quote ← dlmmQuoteExactInPartial (wordMax 64) [bin] swapForY feeOnInput parameters
  if quote.amountIn = 0 ∨ quote.amountOut = 0 then .error .insufficientLiquidity
  else pure quote

def dlmmBinOutputWithinCapacity (amountIn capacityIn capacityOut priceQ64 : Nat)
    (swapForY feeOnInput : Bool) (feeRate : Nat) : Except QuoteError Nat :=
  if amountIn = 0 ∨ amountIn > capacityIn ∨ capacityIn = 0 ∨ capacityOut = 0 then
    .error .invalidInput
  else if amountIn = capacityIn then .ok capacityOut
  else if feeOnInput then do
    let (netInput, _) ← excludedFeeAmount amountIn feeRate
    amountOutForIn netInput priceQ64 swapForY
  else do
    let rawOutput ← amountOutForIn amountIn priceQ64 swapForY
    (excludedFeeAmount rawOutput feeRate).map fun (output, _) => output

end ArbExecutor.QuoteMath
