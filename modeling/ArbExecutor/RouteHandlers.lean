import ArbExecutor.RouteAccounts
import ArbExecutor.DynamicAmount

/-!
The four instructions of lib.rs over a whole ledger: the handlers of
pump_to_meteora.rs, meteora_to_pump.rs, best_direction.rs and dynamic_amount.rs
with their validation, the market parse, the selection and the execution. The
token accounts a handler computes with are deserialised copies that it reloads.
-/

namespace ArbExecutor.RouteHandlers

open Checked QuoteMath QuoteAccounts AccountValidation MarketLayouts AccountPrefixes DexAdapters
  RouteAccounts BestDirection DynamicAmount RouteExecution

inductive RunFailure where
  | arb (error : ArbError)
  | program (code : Nat)
  | accountDidNotDeserialize
  deriving DecidableEq, Repr

structure DynamicAmountSelected where
  direction : SelectedDirection
  minWsolAmountIn : Nat
  maxWsolAmountIn : Nat
  balanceLimitedMax : Nat
  largestCompleteAmount : Nat
  actualWsolAmountIn : Nat
  expectedWsolAmountOut : Nat
  expectedProfitLamports : Nat
  visitedBins : Nat
  boundaryCandidates : Nat
  interiorCandidates : Nat
  earlyStopUsed : Bool
  deriving DecidableEq

inductive ProgramEvent where
  | route (event : RouteEvent)
  | dynamicAmountSelected (event : DynamicAmountSelected)
  deriving DecidableEq

structure RouteRun where
  ledger : Ledger
  userWsol : TokenAccount
  userTarget : TokenAccount
  invocations : List Invocation
  events : List ProgramEvent

def checked {Result : Type} (outcome : Except ArbError Result) : Except RunFailure Result :=
  outcome.mapError .arb

/-- An adapter's builder, given the ledger at the time of the call. -/
abbrev Adapter := Nat → Nat → Ledger → Except ArbError Invocation

section Execution
variable (runtime : Runtime) (accounts : RouteAccounts.ExecuteRoute)

def RouteRun.emit (run : RouteRun) (event : RouteEvent) : RouteRun :=
  { run with events := run.events ++ [.route event] }

def reload (ledger : Ledger) (account : AccountRef) : Except RunFailure TokenAccount :=
  okOr (runtime.unpackTokenAccount (ledger account.key).data) .accountDidNotDeserialize

def RouteRun.reloadWsol (run : RouteRun) : Except RunFailure RouteRun := do
  let userWsol ← reload runtime run.ledger accounts.userWsol.val
  pure { run with userWsol }

def RouteRun.reloadTarget (run : RouteRun) : Except RunFailure RouteRun := do
  let userTarget ← reload runtime run.ledger accounts.userTarget.val
  pure { run with userTarget }

def RouteRun.invoke (run : RouteRun) (built : Except ArbError Invocation) :
    Except RunFailure RouteRun := do
  let invocation ← checked built
  let ledger ← (runtime.invoke invocation.instruction invocation.infos run.ledger).mapError .program
  pure { run with ledger, invocations := run.invocations ++ [invocation] }

/-- What the first half of a route hands to its second leg. -/
structure Halfway where
  run : RouteRun
  actualTargetDelta : Nat
  requiredSecondLegOut : Nat

def firstHalf (direction : SelectedDirection) (firstLeg : Adapter)
    (wsolAmountIn minProfitLamports : Nat) (run : RouteRun) : Except RunFailure Halfway := do
  let initialWsol := run.userWsol.amount.toNat
  let initialTarget := run.userTarget.amount.toNat
  let run := run.emit (.routeStarted direction accounts.trader.val.key accounts.targetMint.val.key
    initialWsol)
  let run ← run.invoke runtime (firstLeg wsolAmountIn 1 run.ledger)
  let run ← run.reloadTarget runtime accounts
  let actualTargetDelta ← checked (checkedIncrease initialTarget run.userTarget.amount.toNat)
  let run := run.emit (.firstLegCompleted direction actualTargetDelta)
  let run ← run.reloadWsol runtime accounts
  let requiredSecondLegOut ←
    checked (requiredSecondLegOut initialWsol run.userWsol.amount.toNat minProfitLamports)
  pure { run, actualTargetDelta, requiredSecondLegOut }

def secondHalf (direction : SelectedDirection) (secondLeg : Adapter)
    (initialWsol initialTarget minProfitLamports : Nat) (half : Halfway) :
    Except RunFailure RouteRun := do
  let wsolBeforeSecondLeg := half.run.userWsol.amount.toNat
  let run ← half.run.invoke runtime
    (secondLeg half.actualTargetDelta half.requiredSecondLegOut half.run.ledger)
  let run ← run.reloadWsol runtime accounts
  let secondLegWsolDelta ← checked (checkedIncrease wsolBeforeSecondLeg run.userWsol.amount.toNat)
  let run := run.emit (.secondLegCompleted direction secondLegWsolDelta)
  let finalWsol := run.userWsol.amount.toNat
  let run ← run.reloadTarget runtime accounts
  checked (enforce initialWsol finalWsol minProfitLamports initialTarget run.userTarget.amount.toNat)
  pure (run.emit (.routeCompleted direction accounts.trader.val.key accounts.targetMint.val.key
    initialWsol finalWsol half.actualTargetDelta secondLegWsolDelta))

/-- Both `execute` functions: they differ in the two adapters and the direction. -/
def executeRoute (direction : SelectedDirection) (firstLeg secondLeg : Adapter)
    (wsolAmountIn minProfitLamports : Nat) (run : RouteRun) : Except RunFailure RouteRun := do
  let half ← firstHalf runtime accounts direction firstLeg wsolAmountIn minProfitLamports run
  secondHalf runtime accounts direction secondLeg run.userWsol.amount.toNat
    run.userTarget.amount.toNat minProfitLamports half

def buyLeg : Adapter := fun amountIn minOut ledger =>
  buyExactQuoteIn runtime ledger accounts.pumpAccounts amountIn minOut

def sellLeg : Adapter := fun amountIn minOut ledger =>
  DexAdapters.sell runtime ledger accounts.pumpAccounts amountIn minOut

def swapLeg (binArrays : List AccountRef) (input output : AccountRef) : Adapter :=
  fun amountIn minOut ledger =>
    swap2 ledger (accounts.meteoraAccounts ledger input output) binArrays amountIn minOut

def pumpToMeteora.execute (binArrays : List AccountRef) : Nat → Nat → RouteRun →
    Except RunFailure RouteRun :=
  executeRoute runtime accounts .pumpToMeteora (buyLeg runtime accounts)
    (swapLeg accounts binArrays accounts.userTarget.val accounts.userWsol.val)

def meteoraToPump.execute (binArrays : List AccountRef) : Nat → Nat → RouteRun →
    Except RunFailure RouteRun :=
  executeRoute runtime accounts .meteoraToPump
    (swapLeg accounts binArrays accounts.userWsol.val accounts.userTarget.val)
    (sellLeg runtime accounts)

def executeDirection (direction : SelectedDirection) (binArrays : List AccountRef) :
    Nat → Nat → RouteRun → Except RunFailure RouteRun :=
  match direction with
  | .pumpToMeteora => pumpToMeteora.execute runtime accounts binArrays
  | .meteoraToPump => meteoraToPump.execute runtime accounts binArrays

end Execution

section Selection
variable {runtime : Runtime} (context : RouteContext runtime)

def dataOf (account : AccountRef) : Bytes := (context.ledger account.key).data

def arrayInfos : List AccountInfo :=
  context.remainingAccounts.map (·.info context.ledger)

/-- The run as a handler finds it: the copies are the deserialised accounts. -/
def opened : RouteRun where
  ledger := context.ledger
  userWsol := context.userWsol
  userTarget := context.userTarget
  invocations := []
  events := []

def maxBestDirectionBinArrays : Nat := 4

def expectedGlobalConfig (runtime : Runtime) : Pubkey :=
  runtime.findProgramAddress [seed "global_config"] pumpSwapProgramId

def expectedFeeConfig (runtime : Runtime) : Pubkey :=
  runtime.findProgramAddress [seed "fee_config", pumpSwapProgramId.val] pumpFeeProgramId

def expectedBitmap (runtime : Runtime) (lbPair : Pubkey) : Pubkey :=
  runtime.findProgramAddress [seed "bitmap", lbPair.val] meteoraDlmmProgramId

def validateBitmapExtension : Except ArbError Unit :=
  let extension := context.accounts.meteoraBinArrayBitmapExtension.val
  if extension.key ≠ meteoraDlmmProgramId then do
    require ((context.ledger extension.key).owner = meteoraDlmmProgramId) .invalidPool
    require (extension.key = expectedBitmap runtime context.accounts.meteoraLbPair.val.key) .invalidPool
  else .ok ()

def validateQuoteAccounts : Except ArbError Unit := do
  let accounts := context.accounts
  validatePump runtime context.ledger accounts.pumpAccounts
  require (context.remainingAccounts.length ≤ maxBestDirectionBinArrays) .invalidRemainingAccounts
  require ((context.ledger accounts.pumpGlobalConfig.key).owner = pumpSwapProgramId) .invalidPool
  require ((context.ledger accounts.pumpFeeConfig.key).owner = pumpFeeProgramId) .invalidPool
  require (accounts.pumpGlobalConfig.key = expectedGlobalConfig runtime) .invalidPool
  require (accounts.pumpFeeConfig.key = expectedFeeConfig runtime) .invalidPool
  validateBitmapExtension context
  validateBinArrays (arrayInfos context) accounts.meteoraLbPair.val.key

def invalidData {Result : Type} (outcome : Except QuoteError Result) : Except ArbError Result :=
  outcome.mapError fun _ => .invalidAccountData

def expectedPumpCreator (runtime : Runtime) (targetMint : Pubkey) : Pubkey :=
  runtime.findProgramAddress [seed "pool-authority", targetMint.val] pumpProgramId

/-- A pool without a coin creator charges no creator fee. -/
def chargedFees (pool : PumpPoolState) (fees : PumpFees) : PumpFees :=
  if pool.coinCreator = zeroKey then { fees with creatorFeeBps := 0 } else fees

/-- `parse_market`; `select_direction` reads the accounts with the same statements in line. -/
def parseMarket : Except ArbError MarketState := do
  let accounts := context.accounts
  let pool ← invalidData (parsePumpPool (dataOf context accounts.pumpPool.val))
  let pumpBaseReserve ←
    invalidData (tokenAmount (dataOf context accounts.pumpPoolBaseTokenAccount.val))
  let pumpQuoteReserve ←
    invalidData (tokenAmount (dataOf context accounts.pumpPoolQuoteTokenAccount.val))
  let effectiveQuoteReserve ← okOr
    (checkedAdd 64 pumpQuoteReserve.toNat pool.virtualQuoteReserves.toNat) .arithmeticOverflow
  let globalFees ← invalidData (parsePumpGlobalFees (dataOf context accounts.pumpGlobalConfig))
  let fees ← incomplete (selectPumpFeesFromData (dataOf context accounts.pumpFeeConfig) globalFees
    (pool.creator == expectedPumpCreator runtime accounts.targetMint.val.key)
    context.targetMintSupply.toNat pumpBaseReserve.toNat effectiveQuoteReserve)
  let pair ← invalidData (parseLbPair (dataOf context accounts.meteoraLbPair.val))
  let checkedPair ← parseMeteoraPair (dataOf context accounts.meteoraLbPair.val)
  pure { pumpBaseReserve, pumpQuoteReserve
         pumpVirtualQuoteReserve := pool.virtualQuoteReserves
         pumpFees := chargedFees pool fees
         pair, targetIsX := checkedPair.tokenXMint == accounts.targetMint.val.key }

def bitmapExtension : Option Bytes :=
  let extension := context.accounts.meteoraBinArrayBitmapExtension.val
  if extension.key = meteoraDlmmProgramId then none else some (dataOf context extension)

/-- `select_direction` on the accounts. Its readiness test cannot fail after
validation, which parses the same pool, so where it stands makes no difference. -/
def selectDirectionFromAccounts (amountIn minProfit : Nat) :
    Except ArbError (SelectedDirection × List Int) := do
  let market ← parseMarket context
  let ready ← cashbackSellIsReady context.ledger context.accounts.pumpAccounts
  BestDirection.selectDirection market ready (arrayInfos context) (bitmapExtension context) amountIn
    minProfit runtime.unixTimestamp

def selectDynamicFromAccounts (minAmount maxAmount minProfit : Nat) :
    Except ArbError DynamicSelection := do
  let market ← parseMarket context
  let ready ← cashbackSellIsReady context.ledger context.accounts.pumpAccounts
  DynamicAmount.selectDynamic (arrayInfos context) (bitmapExtension context) runtime.unixTimestamp market
    ready minAmount maxAmount minProfit

/-- The account list entry an info was taken from. -/
def entryOf (info : AccountInfo) : AccountRef := ⟨info.key, info.isSigner, info.isWritable⟩

def orderedArrayRefs (indices : List Int) : Except ArbError (List AccountRef) := do
  let infos ← BestDirection.orderedBinArrays (arrayInfos context) indices
  pure (infos.map entryOf)

end Selection

section Handlers
variable {runtime : Runtime} (context : RouteContext runtime)

inductive RouteInstruction where
  | executePumpToMeteora (wsolAmountIn minProfitLamports : UInt64)
  | executeMeteoraToPump (wsolAmountIn minProfitLamports : UInt64)
  | executeBestDirection (wsolAmountIn minProfitLamports : UInt64)
  | executeBestDirectionDynamic (args : BestDirectionDynamicArgs)
  deriving DecidableEq

/-- `pump_to_meteora::handler` and `meteora_to_pump::handler`. -/
def directHandler (direction : SelectedDirection) (wsolAmountIn minProfitLamports : UInt64) :
    Except RunFailure RouteRun := do
  checked (validateRouteArgs wsolAmountIn.toNat minProfitLamports.toNat)
  checked context.validateRouteMints
  executeDirection runtime context.accounts direction context.remainingAccounts wsolAmountIn.toNat
    minProfitLamports.toNat (opened context)

def bestDirectionHandler (wsolAmountIn minProfitLamports : UInt64) : Except RunFailure RouteRun := do
  checked (validateRouteArgs wsolAmountIn.toNat minProfitLamports.toNat)
  checked context.validateRouteMints
  checked (validateQuoteAccounts context)
  let selected ← checked
    (selectDirectionFromAccounts context wsolAmountIn.toNat minProfitLamports.toNat)
  let selectedBinArrays ← checked (orderedArrayRefs context selected.2)
  executeDirection runtime context.accounts selected.1 selectedBinArrays wsolAmountIn.toNat
    minProfitLamports.toNat (opened context)

/-- No traversal stops early in this version, and the event says so. -/
def selectedEvent (args : BestDirectionDynamicArgs) (balanceLimitedMax : Nat)
    (selection : DynamicSelection) : DynamicAmountSelected where
  direction := selection.direction
  minWsolAmountIn := args.minWsolAmountIn.toNat
  maxWsolAmountIn := args.maxWsolAmountIn.toNat
  balanceLimitedMax := balanceLimitedMax
  largestCompleteAmount := selection.largestCompleteAmount
  actualWsolAmountIn := selection.choice.amountIn
  expectedWsolAmountOut := selection.choice.amountOut
  expectedProfitLamports := selection.choice.profit
  visitedBins := selection.visitedBins
  boundaryCandidates := selection.boundaryCandidates
  interiorCandidates := selection.interiorCandidates
  earlyStopUsed := false

def dynamicHandler (args : BestDirectionDynamicArgs) : Except RunFailure RouteRun := do
  checked (DynamicAmount.validateArgs args)
  checked context.validateRouteMints
  checked (validateQuoteAccounts context)
  let balanceLimitedMax := min args.maxWsolAmountIn.toNat context.userWsol.amount.toNat
  checked (require (args.minWsolAmountIn.toNat ≤ balanceLimitedMax) .invalidDynamicAmountRange)
  let selection ← checked (selectDynamicFromAccounts context args.minWsolAmountIn.toNat balanceLimitedMax
    args.minProfitLamports.toNat)
  checked (require (args.minWsolAmountIn.toNat ≤ selection.choice.amountIn ∧
    selection.choice.amountIn ≤ balanceLimitedMax) .invalidDynamicAmountRange)
  let selectedBinArrays ← checked (orderedArrayRefs context selection.choice.usedIndices)
  executeDirection runtime context.accounts selection.direction selectedBinArrays
    selection.choice.amountIn args.minProfitLamports.toNat
    { opened context with
      events := [.dynamicAmountSelected (selectedEvent args balanceLimitedMax selection)] }

/-- The dispatch of lib.rs. -/
def process : RouteInstruction → Except RunFailure RouteRun
  | .executePumpToMeteora wsolAmountIn minProfitLamports =>
      directHandler context .pumpToMeteora wsolAmountIn minProfitLamports
  | .executeMeteoraToPump wsolAmountIn minProfitLamports =>
      directHandler context .meteoraToPump wsolAmountIn minProfitLamports
  | .executeBestDirection wsolAmountIn minProfitLamports =>
      bestDirectionHandler context wsolAmountIn minProfitLamports
  | .executeBestDirectionDynamic args => dynamicHandler context args

end Handlers

end ArbExecutor.RouteHandlers
