import ArbExecutor.BestDirection
import ArbExecutor.Bisection

/-!
Bounded dynamic amount selection of instructions/dynamic_amount.rs: the
piecewise DLMM curve, candidate generation, candidate evaluation and the
two-direction decision. Fixed-capacity arrays are lists of their live part.
-/

namespace ArbExecutor.DynamicAmount

open Checked QuoteMath QuoteAccounts AccountValidation BestDirection Bisection

def pumpFeeDenominator : Nat := 10000
def interiorNeighborhood : Nat := 1
def interiorRootPrefilterMargin : Nat := 32
def maxDynamicCandidates : Nat := 2 + maxQuoteVisitedBinsPerDirection * 4

structure BestDirectionDynamicArgs where
  minWsolAmountIn : UInt64
  maxWsolAmountIn : UInt64
  minProfitLamports : UInt64
  deriving DecidableEq

structure DlmmSegment where
  inputStart : Nat
  inputEnd : Nat
  outputStart : Nat
  outputEnd : Nat
  priceQ64 : Nat
  feeRate : Nat
  swapForY : Bool
  feeOnInput : Bool
  usedIndices : List Int
  deriving DecidableEq, Repr

def DlmmSegment.inputCapacity (segment : DlmmSegment) : Nat := segment.inputEnd - segment.inputStart
def DlmmSegment.outputCapacity (segment : DlmmSegment) : Nat := segment.outputEnd - segment.outputStart

inductive CurveStopReason where
  | inputLimitReached
  | missingBinArray
  | binArrayLimitReached
  | visitedBinLimitReached
  | noUsableLiquidity
  deriving DecidableEq, Repr

structure DlmmCurve where
  segments : List DlmmSegment
  visitedBins : Nat
  stopReason : CurveStopReason
  deriving DecidableEq, Repr

structure CurveQuote where
  amountOut : Nat
  usedIndices : List Int
  deriving DecidableEq, Repr

def DlmmCurve.largestCompleteInput (curve : DlmmCurve) : Nat :=
  (curve.segments.getLast?.map (·.inputEnd)).getD 0

/-- Whether the segment at an index reaches an input; the bisection stays in bounds. -/
def reaches (segments : List DlmmSegment) (amountIn index : Nat) : Bool :=
  match segments[index]? with
  | some segment => amountIn ≤ segment.inputEnd
  | none => true

def DlmmCurve.quote (curve : DlmmCurve) (amountIn : Nat) : Except QuoteError CurveQuote :=
  if amountIn = 0 then .error .invalidInput
  else do
    let lower := firstTrue (reaches curve.segments amountIn) 0 curve.segments.length
    let segment ← okOr (curve.segments[lower]?) .insufficientLiquidity
    let remaining ← okOr (checkedSub amountIn segment.inputStart) .mathOverflow
    let amountOut ←
      if remaining = 0 then pure segment.outputStart
      else do
        let output ← dlmmBinOutputWithinCapacity remaining segment.inputCapacity
          segment.outputCapacity segment.priceQ64 segment.swapForY segment.feeOnInput segment.feeRate
        okOr (checkedAdd 64 segment.outputStart output) .mathOverflow
    pure { amountOut, usedIndices := segment.usedIndices }

structure DirectionChoice where
  amountIn : Nat
  amountOut : Nat
  profit : Nat
  usedIndices : List Int
  deriving DecidableEq, Repr

structure DirectionSearch where
  best : Option DirectionChoice
  completeSeen : Bool
  minimumQuoteComplete : Bool
  minimumAmountOut : Nat
  largestCompleteAmount : Nat
  boundaryCandidates : Nat
  interiorCandidates : Nat
  visitedBins : Nat
  curveStopReason : CurveStopReason
  deriving DecidableEq, Repr

structure DynamicSelection where
  direction : SelectedDirection
  choice : DirectionChoice
  largestCompleteAmount : Nat
  boundaryCandidates : Nat
  interiorCandidates : Nat
  visitedBins : Nat
  deriving DecidableEq, Repr

inductive DynamicDecision where
  | selected (direction : SelectedDirection) (choice : DirectionChoice)
  | quoteIncomplete
  | noProfitableDirection
  deriving DecidableEq, Repr

structure DynamicSearchBounds where
  minAmount : Nat
  maxAmount : Nat
  minProfit : Nat
  deriving DecidableEq, Repr

structure CandidateEvaluationContext where
  minAmount : Nat
  minProfit : Nat
  largestCompleteAmount : Nat
  visitedBins : Nat
  boundaryCandidates : Nat
  interiorCandidates : Nat
  curveStopReason : CurveStopReason
  deriving DecidableEq, Repr

/-- `CandidateAmounts::push_unique`; a full buffer silently keeps its contents. -/
def pushUnique (candidates : List Nat) (amount : Nat) : List Nat :=
  if amount = 0 ∨ amount ∈ candidates then candidates
  else if candidates.length < maxDynamicCandidates then candidates ++ [amount]
  else candidates

section CurveBuilding

structure CurveTraversal where
  variableParameters : DlmmVariableParameters
  activeId : Int
  totalIn : Nat
  totalOut : Nat
  usedIndices : List Int
  visitedBins : Nat
  segments : List DlmmSegment
  stopReason : CurveStopReason
  deriving DecidableEq

def buildCurveBins (pair : LbPairState) (arrays : List AccountInfo)
    (bitmapExtension : Option Bytes) (swapForY feeOnInput supportsLimitOrders : Bool)
    (inputLimit : Nat) : Nat → CurveTraversal → Except ArbError CurveTraversal
  | 0, state => .ok state
  | visits + 1, state => do
      let visitedBins := saturatingAdd 8 state.visitedBins 1
      let arrayIndex := binArrayIndex state.activeId
      let initialized ← incomplete (arrayInitialized pair bitmapExtension arrayIndex)
      if !initialized then
        buildCurveBins pair arrays bitmapExtension swapForY feeOnInput supportsLimitOrders inputLimit
          visits { state with visitedBins, activeId := nextBin state.activeId swapForY }
      else match findBinArray arrays arrayIndex with
        | none => pure { state with visitedBins, stopReason := .missingBinArray }
        | some account => match enterArray state.usedIndices arrayIndex with
          | none => pure { state with visitedBins, stopReason := .binArrayLimitReached }
          | some usedIndices => do
            let bin ← incomplete (parseBinForId account.data state.activeId arrayIndex)
            let bin := quotedBin supportsLimitOrders bin
            let variableParameters :=
              updateVolatilityAccumulator state.activeId state.variableParameters pair.staticParameters
            let parameters := dlmmFeeParameters pair variableParameters
            let feeRate ← incomplete (dlmmTotalFeeRate parameters)
            let feeRate ← okOr (narrow 64 feeRate) .bestDirectionQuoteIncomplete
            let activeId := nextBin state.activeId swapForY
            match dlmmBinQuoteCapacity bin swapForY feeOnInput parameters with
            | .ok capacity => do
                let inputEnd ← okOr (checkedAdd 64 state.totalIn capacity.amountIn) .arithmeticOverflow
                let outputEnd ← okOr (checkedAdd 64 state.totalOut capacity.amountOut) .arithmeticOverflow
                require (state.segments.length < maxQuoteVisitedBinsPerDirection)
                  .bestDirectionQuoteIncomplete
                let segments := state.segments ++
                  [{ inputStart := state.totalIn, inputEnd, outputStart := state.totalOut, outputEnd,
                     priceQ64 := bin.priceQ64.toNat, feeRate, swapForY, feeOnInput, usedIndices }]
                let state := { state with variableParameters, usedIndices, visitedBins, segments
                                          totalIn := inputEnd, totalOut := outputEnd }
                if inputLimit ≤ inputEnd then pure { state with stopReason := .inputLimitReached }
                else
                  buildCurveBins pair arrays bitmapExtension swapForY feeOnInput supportsLimitOrders
                    inputLimit visits { state with activeId }
            | .error .insufficientLiquidity =>
                buildCurveBins pair arrays bitmapExtension swapForY feeOnInput supportsLimitOrders
                  inputLimit visits { state with variableParameters, usedIndices, visitedBins, activeId }
            | .error _ => .error .bestDirectionQuoteIncomplete

def buildCurve (pair : LbPairState) (arrays : List AccountInfo) (bitmapExtension : Option Bytes)
    (swapForY : Bool) (timestamp : Int64) (inputLimit : Nat) : Except ArbError DlmmCurve := do
  let variableParameters :=
    updateReference pair.activeId pair.variableParameters pair.staticParameters timestamp
  let feeOnInput ← incomplete (feeOnInput pair swapForY)
  let supportsLimitOrders ← incomplete (supportsLimitOrders pair)
  let state ← buildCurveBins pair arrays bitmapExtension swapForY feeOnInput supportsLimitOrders
    inputLimit maxQuoteVisitedBinsPerDirection
    { variableParameters, activeId := pair.activeId.toInt, totalIn := 0, totalOut := 0,
      usedIndices := [], visitedBins := 0, segments := [], stopReason := .visitedBinLimitReached }
  pure { segments := state.segments
         visitedBins := state.visitedBins
         stopReason :=
           if state.segments = [] ∧ state.stopReason = .visitedBinLimitReached then .noUsableLiquidity
           else state.stopReason }

end CurveBuilding

section Roots

def divCeil (numerator denominator : Nat) : Option Nat :=
  if denominator = 0 then none
  else do
    let raised ← checkedAdd 128 numerator (denominator - 1)
    pure (raised / denominator)

/-- `(mantissa / 2^63) * 2^exponent` with a 64-bit mantissa. -/
structure Normalized where
  mantissa : Nat
  exponent : Int
  deriving DecidableEq, Repr

def Normalized.fromU128 (value : Nat) : Option Normalized :=
  if value = 0 then none
  else
    let bits := Nat.log2 value + 1
    let mantissa := if bits ≤ 64 then value * 2 ^ (64 - bits) else value / 2 ^ (bits - 64)
    some { mantissa, exponent := bits - 1 }

def Normalized.multiply (left right : Normalized) : Option Normalized := do
  let product ← checkedMul 128 left.mantissa right.mantissa
  let mantissa := product / 2 ^ 63
  let exponent ← checkedSigned 32 (left.exponent + right.exponent)
  if 2 ^ 64 ≤ mantissa then do
    let exponent ← checkedSigned 32 (exponent + 1)
    let mantissa ← narrow 64 (mantissa / 2)
    pure { mantissa, exponent }
  else do
    let mantissa ← narrow 64 mantissa
    pure { mantissa, exponent }

def Normalized.divide (left right : Normalized) : Option Normalized := do
  let quotient := left.mantissa * 2 ^ 63 / right.mantissa
  let exponent ← checkedSigned 32 (left.exponent - right.exponent)
  if quotient < 2 ^ 63 then do
    let exponent ← checkedSigned 32 (exponent - 1)
    let mantissa ← narrow 64 (quotient * 2)
    pure { mantissa, exponent }
  else do
    let mantissa ← narrow 64 quotient
    pure { mantissa, exponent }

def Normalized.compare (left right : Normalized) : Ordering :=
  (Ord.compare left.exponent right.exponent).then (Ord.compare left.mantissa right.mantissa)

def integerSqrtFrom : Nat → Nat → Nat → Nat
  | 0, _, estimate => estimate
  | steps + 1, value, estimate =>
      let next := (estimate + value / estimate) / 2
      if estimate ≤ next then estimate else integerSqrtFrom steps value next

def integerSqrt (value : Nat) : Nat :=
  if value < 2 then value
  else
    let estimate := 2 ^ ((Nat.log2 value + 2) / 2)
    integerSqrtFrom estimate value estimate

def Normalized.sqrtFloor (value : Normalized) : Option Nat := do
  let (mantissa, exponent) ←
    if value.exponent % 2 ≠ 0 then do
      let doubled ← checkedMul 128 value.mantissa 2
      let exponent ← checkedSigned 32 (value.exponent - 1)
      pure (doubled, exponent)
    else pure (value.mantissa, value.exponent)
  let scaledRoot := integerSqrt (mantissa * 2 ^ 63)
  let shift ← checkedSigned 32 (exponent.tdiv 2 - 63)
  if 0 ≤ shift then
    if shift < 128 then pure (scaledRoot * 2 ^ shift.toNat % 2 ^ 128) else none
  else pure (scaledRoot / 2 ^ shift.natAbs)

def multiplyAll : Normalized → List Nat → Option Normalized
  | value, [] => some value
  | value, numerator :: rest => do
      let factor ← Normalized.fromU128 numerator
      let value ← value.multiply factor
      multiplyAll value rest

def divideAll : Normalized → List Nat → Option Normalized
  | value, [] => some value
  | value, denominator :: rest => do
      let divisor ← Normalized.fromU128 denominator
      let value ← value.divide divisor
      divideAll value rest

def normalizedProductRatio (numerators denominators : List Nat) : Option Normalized := do
  let one ← Normalized.fromU128 1
  let product ← multiplyAll one numerators
  divideAll product denominators

def normalizedSquare (value : Nat) : Option Normalized := do
  let normalized ← Normalized.fromU128 value
  normalized.multiply normalized

def sqrtIntervalDefinitelyExcludes (squaredValue : Normalized) (lowerRoot upperRoot : Nat) : Bool :=
  let conservativeLower := lowerRoot - interiorRootPrefilterMargin
  let conservativeUpper := saturatingAdd 128 upperRoot interiorRootPrefilterMargin
  let below := (normalizedSquare conservativeLower).any fun lowerSquared =>
    squaredValue.compare lowerSquared != .gt
  let above := (normalizedSquare conservativeUpper).any fun upperSquared =>
    squaredValue.compare upperSquared != .lt
  below || above

end Roots

section Candidates

def pumpTotalFeeBps (market : MarketState) : Option Nat := do
  let value ← checkedAdd 64 market.pumpFees.lpFeeBps.toNat market.pumpFees.protocolFeeBps.toNat
  checkedAdd 64 value market.pumpFees.creatorFeeBps.toNat

def pumpBuyAmountOut (market : MarketState) (amountIn : Nat) : Option Nat :=
  (pumpBuy market amountIn).toOption.map (·.amountOut)

def effectiveQuoteReserve (market : MarketState) : Option Nat :=
  checkedAdd 128 market.pumpQuoteReserve.toNat market.pumpVirtualQuoteReserve.toNat

def pumpInputAtOrBelowTargetOut (market : MarketState) (targetOut : Nat) : Option Nat :=
  if targetOut = 0 ∨ market.pumpBaseReserve.toNat ≤ targetOut then none
  else do
    let effectiveQuoteReserve ← effectiveQuoteReserve market
    let product ← checkedMul 128 targetOut effectiveQuoteReserve
    let divisor ← checkedSub market.pumpBaseReserve.toNat targetOut
    let boundaryCurveInput ← divCeil product divisor
    let totalFeeBps ← pumpTotalFeeBps market
    let feeFactor ← checkedAdd 128 pumpFeeDenominator totalFeeBps
    let scaled ← checkedMul 128 boundaryCurveInput feeFactor
    let candidate ← narrow 64 (scaled / pumpFeeDenominator)
    if candidate = 0 then none
    else if (pumpBuyAmountOut market candidate).any fun output => output < targetOut then
      some candidate
    else none

def forwardInteriorCandidate (market : MarketState) (segment : DlmmSegment)
    (segmentStart segmentEnd : Nat) : Option Nat := do
  let totalFeeBps ← pumpTotalFeeBps market
  let effectiveQuoteReserve ← effectiveQuoteReserve market
  let feeFactor ← checkedAdd 128 pumpFeeDenominator totalFeeBps
  let ratio ← normalizedProductRatio
    [segment.outputCapacity, market.pumpBaseReserve.toNat, pumpFeeDenominator, effectiveQuoteReserve]
    [segment.inputCapacity, feeFactor]
  let scaledStart ← checkedMul 128 segmentStart pumpFeeDenominator
  let lowerRoot ← checkedAdd 128 effectiveQuoteReserve (scaledStart / feeFactor)
  let scaledEnd ← checkedMul 128 segmentEnd pumpFeeDenominator
  let roundedEnd ← divCeil scaledEnd feeFactor
  let upperRoot ← checkedAdd 128 effectiveQuoteReserve roundedEnd
  if sqrtIntervalDefinitelyExcludes ratio lowerRoot upperRoot then none
  else do
    let root ← ratio.sqrtFloor
    if root ≤ effectiveQuoteReserve then none
    else do
      let aboveReserve ← checkedSub root effectiveQuoteReserve
      let scaled ← checkedMul 128 aboveReserve feeFactor
      let candidate ← narrow 64 (scaled / pumpFeeDenominator)
      if segmentStart < candidate ∧ candidate < segmentEnd then some candidate else none

def reverseInteriorCandidate (market : MarketState) (segment : DlmmSegment) : Option Nat := do
  let totalFeeBps ← pumpTotalFeeBps market
  if pumpFeeDenominator ≤ totalFeeBps then none
  else do
    let effectiveQuoteReserve ← effectiveQuoteReserve market
    let netFactor ← checkedSub pumpFeeDenominator totalFeeBps
    let ratio ← normalizedProductRatio
      [segment.outputCapacity, effectiveQuoteReserve, market.pumpBaseReserve.toNat, netFactor]
      [segment.inputCapacity, pumpFeeDenominator]
    let lowerRoot ← checkedAdd 128 market.pumpBaseReserve.toNat segment.outputStart
    let upperRoot ← checkedAdd 128 market.pumpBaseReserve.toNat segment.outputEnd
    if sqrtIntervalDefinitelyExcludes ratio lowerRoot upperRoot then none
    else do
      let root ← ratio.sqrtFloor
      let targetAtOptimum ← checkedSub root market.pumpBaseReserve.toNat
      if targetAtOptimum ≤ segment.outputStart ∨ segment.outputEnd ≤ targetAtOptimum then none
      else do
        let targetDelta ← checkedSub targetAtOptimum segment.outputStart
        let scaled ← checkedMul 128 targetDelta segment.inputCapacity
        let candidate ← checkedAdd 128 segment.inputStart (scaled / segment.outputCapacity)
        narrow 64 candidate

def pushNeighborhood (candidates : List Nat) (amount least greatest : Nat) : List Nat :=
  [amount - interiorNeighborhood, amount, saturatingAdd 64 amount interiorNeighborhood].foldl
    (fun candidates candidate =>
      if least ≤ candidate ∧ candidate ≤ greatest then pushUnique candidates candidate
      else candidates) candidates

structure CandidateState where
  candidates : List Nat
  boundaryCandidates : Nat
  interiorCandidates : Nat
  previousSegmentEndInput : Option Nat
  deriving DecidableEq, Repr

/-- The two pushes a sampled segment makes, shared by both searches. -/
def pushSegment (state : CandidateState) (boundary : Nat) (interior : Option Nat)
    (minAmount largestCompleteAmount : Nat) : CandidateState :=
  let state :=
    if minAmount ≤ boundary ∧ boundary ≤ largestCompleteAmount then
      { state with candidates := pushUnique state.candidates boundary
                   boundaryCandidates := saturatingAdd 8 state.boundaryCandidates 1 }
    else state
  match interior with
  | some interior =>
      if minAmount ≤ interior ∧ interior ≤ largestCompleteAmount then
        { state with
          candidates := pushNeighborhood state.candidates interior minAmount largestCompleteAmount
          interiorCandidates := saturatingAdd 8 state.interiorCandidates 1 }
      else state
  | none => state

def forwardSegmentStart (market : MarketState) (segment : DlmmSegment)
    (previousSegmentEndInput : Option Nat) : Option Nat :=
  if segment.inputStart = 0 then some 1
  else match previousSegmentEndInput with
    | some value => some value
    | none => pumpInputAtOrBelowTargetOut market segment.inputStart

def pushForwardSegment (market : MarketState) (minAmount largestCompleteAmount : Nat)
    (state : CandidateState) (segment : DlmmSegment) : CandidateState :=
  match forwardSegmentStart market segment state.previousSegmentEndInput with
  | none => state
  | some segmentStart =>
    match pumpInputAtOrBelowTargetOut market segment.inputEnd with
    | none => state
    | some segmentEnd =>
      let state := { state with previousSegmentEndInput := some segmentEnd }
      if segmentEnd < minAmount ∨ largestCompleteAmount < segmentStart then state
      else pushSegment state segmentEnd (forwardInteriorCandidate market segment segmentStart segmentEnd)
        minAmount largestCompleteAmount

def pushReverseSegment (market : MarketState) (minAmount largestCompleteAmount : Nat)
    (state : CandidateState) (segment : DlmmSegment) : CandidateState :=
  if segment.inputEnd < minAmount ∨ largestCompleteAmount < segment.inputStart then state
  else pushSegment state segment.inputEnd (reverseInteriorCandidate market segment)
    minAmount largestCompleteAmount

def startCandidates (minAmount largestCompleteAmount : Nat) : CandidateState where
  candidates := pushUnique (pushUnique [] minAmount) largestCompleteAmount
  boundaryCandidates := 0
  interiorCandidates := 0
  previousSegmentEndInput := none

def forwardCandidates (market : MarketState) (curve : DlmmCurve)
    (minAmount largestCompleteAmount : Nat) : CandidateState :=
  curve.segments.foldl (pushForwardSegment market minAmount largestCompleteAmount)
    (startCandidates minAmount largestCompleteAmount)

def reverseCandidates (market : MarketState) (curve : DlmmCurve)
    (minAmount largestCompleteAmount : Nat) : CandidateState :=
  curve.segments.foldl (pushReverseSegment market minAmount largestCompleteAmount)
    (startCandidates minAmount largestCompleteAmount)

end Candidates

section Evaluation

def betterChoice (candidate current : DirectionChoice) : Bool :=
  decide (current.profit < candidate.profit) ||
    (decide (candidate.profit = current.profit) && decide (candidate.amountIn < current.amountIn))

structure EvaluationState where
  best : Option DirectionChoice
  completeSeen : Bool
  minimumQuoteComplete : Bool
  minimumAmountOut : Nat
  deriving DecidableEq, Repr

def evaluateCandidate (context : CandidateEvaluationContext)
    (evaluate : Nat → Except QuoteError CurveQuote) (state : EvaluationState) (amountIn : Nat) :
    EvaluationState :=
  match evaluate amountIn with
  | .error _ => state
  | .ok quote =>
    let state := { state with completeSeen := true }
    let state :=
      if amountIn = context.minAmount then
        { state with minimumQuoteComplete := true, minimumAmountOut := quote.amountOut }
      else state
    match checkedSub quote.amountOut amountIn with
    | none => state
    | some profit =>
      if profit < context.minProfit then state
      else
        let candidate : DirectionChoice :=
          { amountIn, amountOut := quote.amountOut, profit, usedIndices := quote.usedIndices }
        if state.best.all fun current => betterChoice candidate current then
          { state with best := some candidate }
        else state

def evaluateCandidates (candidates : List Nat) (context : CandidateEvaluationContext)
    (evaluate : Nat → Except QuoteError CurveQuote) : DirectionSearch :=
  let state := (candidates.filter fun amount =>
      context.minAmount ≤ amount ∧ amount ≤ context.largestCompleteAmount).foldl
    (evaluateCandidate context evaluate)
    { best := none, completeSeen := false, minimumQuoteComplete := false, minimumAmountOut := 0 }
  { best := state.best
    completeSeen := state.completeSeen
    minimumQuoteComplete := state.minimumQuoteComplete
    minimumAmountOut := state.minimumAmountOut
    largestCompleteAmount := context.largestCompleteAmount
    boundaryCandidates := context.boundaryCandidates
    interiorCandidates := context.interiorCandidates
    visitedBins := context.visitedBins
    curveStopReason := context.curveStopReason }

def incompleteDirection (curve : DlmmCurve) (largestCompleteAmount : Nat) : DirectionSearch where
  best := none
  completeSeen := false
  minimumQuoteComplete := false
  minimumAmountOut := 0
  largestCompleteAmount := largestCompleteAmount
  boundaryCandidates := 0
  interiorCandidates := 0
  visitedBins := curve.visitedBins
  curveStopReason := curve.stopReason

def evaluateForward (market : MarketState) (curve : DlmmCurve) (amountIn : Nat) :
    Except QuoteError CurveQuote := do
  let buy ← pumpBuy market amountIn
  curve.quote buy.amountOut

def evaluateReverse (market : MarketState) (curve : DlmmCurve) (amountIn : Nat) :
    Except QuoteError CurveQuote := do
  let dlmm ← curve.quote amountIn
  let sell ← pumpSell market dlmm.amountOut
  pure { amountOut := sell.amountOut, usedIndices := dlmm.usedIndices }

/-- The midpoint test of the coverage search: Pump quotes it within the curve. -/
def coverable (market : MarketState) (capacity amountIn : Nat) : Bool :=
  (pumpBuyAmountOut market amountIn).any fun output => output ≤ capacity

def largestForwardCompleteAmount (market : MarketState) (curve : DlmmCurve) (maxAmount : Nat) : Nat :=
  if (evaluateForward market curve maxAmount).toOption.isSome then maxAmount
  else
    let capacity := curve.largestCompleteInput
    if capacity = 0 ∨ maxAmount = 0 then 0
    else lastTrue (coverable market capacity) 0 maxAmount

def candidateContext (curve : DlmmCurve) (state : CandidateState)
    (minAmount minProfit largestCompleteAmount : Nat) : CandidateEvaluationContext where
  minAmount := minAmount
  minProfit := minProfit
  largestCompleteAmount := largestCompleteAmount
  visitedBins := curve.visitedBins
  boundaryCandidates := state.boundaryCandidates
  interiorCandidates := state.interiorCandidates
  curveStopReason := curve.stopReason

def searchForward (market : MarketState) (curve : DlmmCurve)
    (minAmount maxAmount minProfit : Nat) : DirectionSearch :=
  let largestCompleteAmount := largestForwardCompleteAmount market curve maxAmount
  if largestCompleteAmount < minAmount then incompleteDirection curve largestCompleteAmount
  else
    let state := forwardCandidates market curve minAmount largestCompleteAmount
    evaluateCandidates state.candidates
      (candidateContext curve state minAmount minProfit largestCompleteAmount)
      (evaluateForward market curve)

def searchReverse (market : MarketState) (curve : DlmmCurve)
    (minAmount maxAmount minProfit : Nat) : DirectionSearch :=
  let largestCompleteAmount := min maxAmount curve.largestCompleteInput
  if largestCompleteAmount < minAmount then incompleteDirection curve largestCompleteAmount
  else
    let state := reverseCandidates market curve minAmount largestCompleteAmount
    evaluateCandidates state.candidates
      (candidateContext curve state minAmount minProfit largestCompleteAmount)
      (evaluateReverse market curve)

end Evaluation

section Selection

def probeMinimum (curve : DlmmCurve) (bounds : DynamicSearchBounds) (largestCompleteAmount : Nat)
    (evaluated : Except QuoteError CurveQuote) : DirectionSearch :=
  if largestCompleteAmount < bounds.minAmount then incompleteDirection curve largestCompleteAmount
  else match evaluated with
    | .error _ => incompleteDirection curve largestCompleteAmount
    | .ok quote =>
      let profit := quote.amountOut - bounds.minAmount
      { best :=
          if bounds.minProfit ≤ profit then
            some { amountIn := bounds.minAmount, amountOut := quote.amountOut, profit,
                   usedIndices := quote.usedIndices }
          else none
        completeSeen := true
        minimumQuoteComplete := true
        minimumAmountOut := quote.amountOut
        largestCompleteAmount
        boundaryCandidates := 0
        interiorCandidates := 0
        visitedBins := curve.visitedBins
        curveStopReason := curve.stopReason }

/-- The DLMM input a forward direction can reach with a WSOL amount. -/
def forwardInputLimit (market : MarketState) (amount : Nat) : Nat :=
  (pumpBuyAmountOut market amount).getD (wordMax 64)

variable (binArrayAccounts : List AccountInfo) (bitmapExtension : Option Bytes)
  (timestamp : Int64) (market : MarketState)

def probeForwardDirection (bounds : DynamicSearchBounds) : Except ArbError DirectionSearch := do
  let curve ← buildCurve market.pair binArrayAccounts bitmapExtension market.targetIsX timestamp
    (forwardInputLimit market bounds.minAmount)
  let largestCompleteAmount := largestForwardCompleteAmount market curve bounds.minAmount
  pure (probeMinimum curve bounds largestCompleteAmount
    (evaluateForward market curve bounds.minAmount))

def probeReverseDirection (bounds : DynamicSearchBounds) : Except ArbError DirectionSearch := do
  let curve ← buildCurve market.pair binArrayAccounts bitmapExtension (!market.targetIsX) timestamp
    bounds.minAmount
  let largestCompleteAmount := min bounds.minAmount curve.largestCompleteInput
  pure (probeMinimum curve bounds largestCompleteAmount
    (evaluateReverse market curve bounds.minAmount))

def searchForwardDirection (bounds : DynamicSearchBounds) : Except ArbError DirectionSearch := do
  let curve ← buildCurve market.pair binArrayAccounts bitmapExtension market.targetIsX timestamp
    (forwardInputLimit market bounds.maxAmount)
  pure (searchForward market curve bounds.minAmount bounds.maxAmount bounds.minProfit)

def searchReverseDirection (bounds : DynamicSearchBounds) : Except ArbError DirectionSearch := do
  let curve ← buildCurve market.pair binArrayAccounts bitmapExtension (!market.targetIsX) timestamp
    bounds.maxAmount
  pure (searchReverse market curve bounds.minAmount bounds.maxAmount bounds.minProfit)

def expandsAt (search : DirectionSearch) (minAmount : Nat) : Bool :=
  search.minimumQuoteComplete && decide (minAmount < search.minimumAmountOut)

def directionsToExpand (forward reverse : DirectionSearch) (minAmount maxAmount : Nat) :
    Bool × Bool :=
  if maxAmount = minAmount then (false, false)
  else (expandsAt forward minAmount, expandsAt reverse minAmount)

def decideDynamicSearch (forward reverse : DirectionSearch) : DynamicDecision :=
  match forward.best, reverse.best with
  | some forwardChoice, some reverseChoice =>
      if betterChoice reverseChoice forwardChoice then .selected .meteoraToPump reverseChoice
      else .selected .pumpToMeteora forwardChoice
  | some choice, none => .selected .pumpToMeteora choice
  | none, some choice => .selected .meteoraToPump choice
  | none, none =>
      if forward.minimumQuoteComplete && reverse.minimumQuoteComplete then .noProfitableDirection
      else .quoteIncomplete

/-- The placeholder for a reverse direction whose cashback accounts are not ready. -/
def unreadyDirection : DirectionSearch where
  best := none
  completeSeen := false
  minimumQuoteComplete := false
  minimumAmountOut := 0
  largestCompleteAmount := 0
  boundaryCandidates := 0
  interiorCandidates := 0
  visitedBins := 0
  curveStopReason := .noUsableLiquidity

def selectDynamic (cashbackSellIsReady : Bool) (minAmount maxAmount minProfit : Nat) :
    Except ArbError DynamicSelection := do
  let bounds : DynamicSearchBounds := { minAmount, maxAmount, minProfit }
  let minimumBounds : DynamicSearchBounds := { minAmount, maxAmount := minAmount, minProfit }
  let forwardMinimum ←
    probeForwardDirection binArrayAccounts bitmapExtension timestamp market minimumBounds
  let reverseMinimum ←
    if cashbackSellIsReady then
      probeReverseDirection binArrayAccounts bitmapExtension timestamp market minimumBounds
    else pure unreadyDirection
  let expand := directionsToExpand forwardMinimum reverseMinimum bounds.minAmount bounds.maxAmount
  let forward ←
    if expand.1 then searchForwardDirection binArrayAccounts bitmapExtension timestamp market bounds
    else pure forwardMinimum
  let reverse ←
    if expand.2 then searchReverseDirection binArrayAccounts bitmapExtension timestamp market bounds
    else pure reverseMinimum
  match decideDynamicSearch forward reverse with
  | .selected direction choice =>
      let stats := match direction with
        | .pumpToMeteora => forward
        | .meteoraToPump => reverse
      pure { direction, choice
             largestCompleteAmount := stats.largestCompleteAmount
             boundaryCandidates := stats.boundaryCandidates
             interiorCandidates := stats.interiorCandidates
             visitedBins := stats.visitedBins }
  | .quoteIncomplete => .error .bestDirectionQuoteIncomplete
  | .noProfitableDirection => .error .noProfitableDirection

def validateArgs (args : BestDirectionDynamicArgs) : Except ArbError Unit :=
  require (0 < args.minWsolAmountIn ∧ args.minWsolAmountIn ≤ args.maxWsolAmountIn ∧
    0 < args.minProfitLamports) .invalidDynamicAmountRange

end Selection

end ArbExecutor.DynamicAmount
