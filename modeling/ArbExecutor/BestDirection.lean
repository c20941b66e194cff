import ArbExecutor.AccountValidation

/-!
Fixed-amount direction selection of instructions/best_direction.rs: the raw
account traversal, the two route quotes and the choice between them. Both
selectors parse the same market record; it and the cashback readiness flag are
arguments here.
-/

namespace ArbExecutor.BestDirection

open Checked QuoteMath QuoteAccounts AccountValidation

inductive SelectedDirection where
  | pumpToMeteora
  | meteoraToPump
  deriving DecidableEq, Repr

structure MarketState where
  pumpBaseReserve : UInt64
  pumpQuoteReserve : UInt64
  pumpVirtualQuoteReserve : UInt64
  pumpFees : PumpFees
  pair : LbPairState
  targetIsX : Bool
  deriving DecidableEq

/-- `used_indices[..used_len]` is kept as the list it slices. -/
structure AccountDataQuote where
  amountOut : Nat
  usedIndices : List Int
  deriving DecidableEq, Repr

def pumpBuy (market : MarketState) (amountIn : Nat) : Except QuoteError QuoteResult :=
  pumpBuyExactQuoteIn amountIn market.pumpBaseReserve.toNat market.pumpQuoteReserve.toNat
    market.pumpVirtualQuoteReserve.toNat market.pumpFees.lpFeeBps.toNat
    market.pumpFees.protocolFeeBps.toNat market.pumpFees.creatorFeeBps.toNat

def pumpSell (market : MarketState) (amountIn : Nat) : Except QuoteError QuoteResult :=
  pumpSellBaseIn amountIn market.pumpBaseReserve.toNat market.pumpQuoteReserve.toNat
    market.pumpVirtualQuoteReserve.toNat market.pumpFees.lpFeeBps.toNat
    market.pumpFees.protocolFeeBps.toNat market.pumpFees.creatorFeeBps.toNat

/-- First account whose embedded index is the wanted one. -/
def findBinArray (arrays : List AccountInfo) (arrayIndex : Int) : Option AccountInfo :=
  arrays.find? fun account => (parseBinArrayIndex account.data).toOption == some arrayIndex

def incomplete {Result : Type} (outcome : Except QuoteError Result) : Except ArbError Result :=
  outcome.mapError fun _ => .bestDirectionQuoteIncomplete

structure AccountTraversal where
  variableParameters : DlmmVariableParameters
  activeId : Int
  remaining : Nat
  amountOut : Nat
  usedIndices : List Int
  deriving DecidableEq

def quoteAccountBins (pair : LbPairState) (arrays : List AccountInfo)
    (bitmapExtension : Option Bytes) (swapForY feeOnInput supportsLimitOrders : Bool) :
    Nat → AccountTraversal → Except ArbError AccountTraversal
  | 0, state => .ok state
  | visits + 1, state =>
      if state.remaining = 0 then .ok state
      else do
        let arrayIndex := binArrayIndex state.activeId
        let initialized ← incomplete (arrayInitialized pair bitmapExtension arrayIndex)
        if !initialized then
          quoteAccountBins pair arrays bitmapExtension swapForY feeOnInput supportsLimitOrders visits
            { state with activeId := nextBin state.activeId swapForY }
        else do
          let account ← okOr (findBinArray arrays arrayIndex) .bestDirectionQuoteIncomplete
          let usedIndices ← okOr (enterArray state.usedIndices arrayIndex) .bestDirectionQuoteIncomplete
          let bin ← incomplete (parseBinForId account.data state.activeId arrayIndex)
          let bin := quotedBin supportsLimitOrders bin
          let variableParameters :=
            updateVolatilityAccumulator state.activeId state.variableParameters pair.staticParameters
          let filled ← incomplete (dlmmQuoteExactInPartial state.remaining [bin] swapForY feeOnInput
            (dlmmFeeParameters pair variableParameters))
          let remaining ← okOr (checkedSub state.remaining filled.amountIn) .arithmeticOverflow
          let amountOut ← okOr (checkedAdd 64 state.amountOut filled.amountOut) .arithmeticOverflow
          quoteAccountBins pair arrays bitmapExtension swapForY feeOnInput supportsLimitOrders visits
            { variableParameters, remaining, amountOut, usedIndices
              activeId := if remaining ≠ 0 then nextBin state.activeId swapForY else state.activeId }

def quoteDlmmFromAccounts (amountIn : Nat) (pair : LbPairState) (arrays : List AccountInfo)
    (bitmapExtension : Option Bytes) (swapForY : Bool) (timestamp : Int64) :
    Except ArbError AccountDataQuote := do
  let variableParameters :=
    updateReference pair.activeId pair.variableParameters pair.staticParameters timestamp
  let feeOnInput ← incomplete (feeOnInput pair swapForY)
  let supportsLimitOrders ← incomplete (supportsLimitOrders pair)
  let state ← quoteAccountBins pair arrays bitmapExtension swapForY feeOnInput supportsLimitOrders
    maxQuoteVisitedBinsPerDirection
    { variableParameters, activeId := pair.activeId.toInt, remaining := amountIn, amountOut := 0,
      usedIndices := [] }
  require (state.remaining = 0) .bestDirectionQuoteIncomplete
  pure { amountOut := state.amountOut, usedIndices := state.usedIndices }

/-- The forward route of `select_direction`: every failure is an absent quote. -/
def forwardQuote (market : MarketState) (arrays : List AccountInfo)
    (bitmapExtension : Option Bytes) (amountIn : Nat) (timestamp : Int64) :
    Option AccountDataQuote :=
  (pumpBuy market amountIn).toOption.bind fun buy =>
    (quoteDlmmFromAccounts buy.amountOut market.pair arrays bitmapExtension market.targetIsX
      timestamp).toOption

/-- The reverse route: final WSOL output together with the DLMM quote behind it. -/
def reverseQuote (market : MarketState) (cashbackSellIsReady : Bool) (arrays : List AccountInfo)
    (bitmapExtension : Option Bytes) (amountIn : Nat) (timestamp : Int64) :
    Option (Nat × AccountDataQuote) :=
  if cashbackSellIsReady then
    (quoteDlmmFromAccounts amountIn market.pair arrays bitmapExtension (!market.targetIsX)
      timestamp).toOption.bind fun dlmmQuote =>
        (pumpSell market dlmmQuote.amountOut).toOption.map fun sell => (sell.amountOut, dlmmQuote)
  else none

def chooseDirection (forwardOut reverseOut : Option Nat) (requiredOut : Nat) :
    Except ArbError SelectedDirection := do
  require (forwardOut.isSome || reverseOut.isSome) .bestDirectionQuoteIncomplete
  let forwardOut := forwardOut.filter fun amountOut => requiredOut ≤ amountOut
  let reverseOut := reverseOut.filter fun amountOut => requiredOut ≤ amountOut
  require (forwardOut.isSome || reverseOut.isSome) .noProfitableDirection
  pure (match forwardOut, reverseOut with
    | some forward, some reverse =>
        if forward < reverse then .meteoraToPump else .pumpToMeteora
    | some _, none => .pumpToMeteora
    | none, _ => .meteoraToPump)

def selectDirection (market : MarketState) (cashbackSellIsReady : Bool)
    (binArrayAccounts : List AccountInfo) (bitmapExtension : Option Bytes)
    (amountIn minProfit : Nat) (timestamp : Int64) :
    Except ArbError (SelectedDirection × List Int) := do
  let forward := forwardQuote market binArrayAccounts bitmapExtension amountIn timestamp
  let reverse := reverseQuote market cashbackSellIsReady binArrayAccounts bitmapExtension
    amountIn timestamp
  let requiredOut ← okOr (checkedAdd 64 amountIn minProfit) .arithmeticOverflow
  let direction ← chooseDirection (forward.map (·.amountOut)) (reverse.map (·.1)) requiredOut
  match direction with
  | .pumpToMeteora => do
      let forward ← okOr forward .bestDirectionQuoteIncomplete
      pure (.pumpToMeteora, forward.usedIndices)
  | .meteoraToPump => do
      let reverse ← okOr reverse .bestDirectionQuoteIncomplete
      pure (.meteoraToPump, reverse.2.usedIndices)

def orderedBinArrays (accounts : List AccountInfo) (indices : List Int) :
    Except ArbError (List AccountInfo) :=
  indices.mapM fun wanted => okOr (findBinArray accounts wanted) .bestDirectionQuoteIncomplete

end ArbExecutor.BestDirection
