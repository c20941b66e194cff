import ArbExecutor.BestDirection

/-!
Route execution of instructions/pump_to_meteora.rs and meteora_to_pump.rs with
the checks of post_trade_checks.rs and utils/balance.rs. The two DEX programs
are arbitrary functions on the trader's on-chain balances; the program sees
them only through the account copies it reloads. Both routes are one skeleton
with the legs exchanged.
-/

namespace ArbExecutor.RouteExecution

open Checked QuoteAccounts AccountValidation BestDirection

structure TokenBalances where
  wsol : UInt64
  target : UInt64
  deriving DecidableEq

inductive DexProgram where
  | pumpSwap
  | meteoraDlmm
  deriving DecidableEq, Repr

inductive RouteFailure where
  | arb (error : ArbError)
  | cpi (code : Nat)
  deriving DecidableEq, Repr

structure CpiCall where
  program : DexProgram
  amountIn : Nat
  minAmountOut : Nat
  deriving DecidableEq, Repr

/-- A callee may fail, or leave any balances behind. -/
abbrev Cpi := Nat → Nat → TokenBalances → Except RouteFailure TokenBalances

inductive RouteEvent where
  | routeStarted (direction : SelectedDirection) (trader targetMint : Pubkey)
      (initialWsolBalance : Nat)
  | firstLegCompleted (direction : SelectedDirection) (actualTargetDelta : Nat)
  | secondLegCompleted (direction : SelectedDirection) (actualWsolDelta : Nat)
  | routeCompleted (direction : SelectedDirection) (trader targetMint : Pubkey)
      (initialWsolBalance finalWsolBalance firstLegTargetDelta secondLegWsolDelta : Nat)
  deriving DecidableEq

/-- `chain` holds the ledger, `userWsol` and `userTarget` the deserialised copies. -/
structure ExecuteRoute where
  trader : Pubkey
  targetMint : Pubkey
  userWsol : UInt64
  userTarget : UInt64
  chain : TokenBalances
  calls : List CpiCall
  events : List RouteEvent
  deriving DecidableEq

/-- Accounts as an instruction receives them: the copies agree with the ledger. -/
def openedRoute (trader targetMint : Pubkey) (chain : TokenBalances) : ExecuteRoute where
  trader := trader
  targetMint := targetMint
  userWsol := chain.wsol
  userTarget := chain.target
  chain := chain
  calls := []
  events := []

def ExecuteRoute.emit (accounts : ExecuteRoute) (event : RouteEvent) : ExecuteRoute :=
  { accounts with events := accounts.events ++ [event] }

def ExecuteRoute.reloadWsol (accounts : ExecuteRoute) : ExecuteRoute :=
  { accounts with userWsol := accounts.chain.wsol }

def ExecuteRoute.reloadTarget (accounts : ExecuteRoute) : ExecuteRoute :=
  { accounts with userTarget := accounts.chain.target }

def ExecuteRoute.invoke (program : DexProgram) (cpi : Cpi) (amountIn minAmountOut : Nat)
    (accounts : ExecuteRoute) : Except RouteFailure ExecuteRoute := do
  let chain ← cpi amountIn minAmountOut accounts.chain
  pure { accounts with chain, calls := accounts.calls ++ [{ program, amountIn, minAmountOut }] }

def checkedIncrease (before after : Nat) : Except ArbError Nat := do
  let delta ← okOr (checkedSub after before) .balanceDidNotIncreaseAsExpected
  require (0 < delta) .balanceDidNotIncreaseAsExpected
  pure delta

def validateRouteArgs (wsolAmountIn minProfitLamports : Nat) : Except ArbError Unit := do
  require (0 < wsolAmountIn) .invalidAmount
  require (0 < minProfitLamports) .invalidAmount

def requiredSecondLegOut (initialWsol wsolBeforeSecondLeg minProfitLamports : Nat) :
    Except ArbError Nat := do
  let requiredFinalWsol ← okOr (checkedAdd 64 initialWsol minProfitLamports) .arithmeticOverflow
  pure (max (requiredFinalWsol - wsolBeforeSecondLeg) 1)

def enforce (initialWsol finalWsol minProfitLamports initialTarget finalTarget : Nat) :
    Except ArbError Unit := do
  let requiredFinalWsol ← okOr (checkedAdd 64 initialWsol minProfitLamports) .arithmeticOverflow
  require (requiredFinalWsol ≤ finalWsol) .profitTooLow
  require (finalTarget = initialTarget) .targetBalanceNotRestored

def arb {Result : Type} (outcome : Except ArbError Result) : Except RouteFailure Result :=
  outcome.mapError .arb

/-- A leg of a route: input amount and minimum output over the route's accounts. -/
abbrev Leg := Nat → Nat → ExecuteRoute → Except RouteFailure ExecuteRoute

/-- What the first half of a route hands to the second leg. -/
structure SecondLegInput where
  accounts : ExecuteRoute
  actualTargetDelta : Nat
  requiredSecondLegOut : Nat
  deriving DecidableEq

def runFirstLeg (direction : SelectedDirection) (firstLeg : Leg)
    (wsolAmountIn minProfitLamports : Nat) (accounts : ExecuteRoute) :
    Except RouteFailure SecondLegInput := do
  let initialWsol := accounts.userWsol.toNat
  let initialTarget := accounts.userTarget.toNat
  let accounts := accounts.emit
    (.routeStarted direction accounts.trader accounts.targetMint initialWsol)
  let accounts ← firstLeg wsolAmountIn 1 accounts
  let accounts := accounts.reloadTarget
  let actualTargetDelta ← arb (checkedIncrease initialTarget accounts.userTarget.toNat)
  let accounts := accounts.emit (.firstLegCompleted direction actualTargetDelta)
  let accounts := accounts.reloadWsol
  let requiredSecondLegOut ←
    arb (requiredSecondLegOut initialWsol accounts.userWsol.toNat minProfitLamports)
  pure { accounts, actualTargetDelta, requiredSecondLegOut }

def runSecondLeg (direction : SelectedDirection) (secondLeg : Leg)
    (initialWsol initialTarget minProfitLamports : Nat) (input : SecondLegInput) :
    Except RouteFailure ExecuteRoute := do
  let wsolBeforeSecondLeg := input.accounts.userWsol.toNat
  let accounts ← secondLeg input.actualTargetDelta input.requiredSecondLegOut input.accounts
  let accounts := accounts.reloadWsol
  let secondLegWsolDelta ← arb (checkedIncrease wsolBeforeSecondLeg accounts.userWsol.toNat)
  let accounts := accounts.emit (.secondLegCompleted direction secondLegWsolDelta)
  let finalWsol := accounts.userWsol.toNat
  let accounts := accounts.reloadTarget
  arb (enforce initialWsol finalWsol minProfitLamports initialTarget accounts.userTarget.toNat)
  pure (accounts.emit (.routeCompleted direction accounts.trader accounts.targetMint initialWsol
    finalWsol input.actualTargetDelta secondLegWsolDelta))

def executeLegs (direction : SelectedDirection) (firstLeg secondLeg : Leg)
    (wsolAmountIn minProfitLamports : Nat) (accounts : ExecuteRoute) :
    Except RouteFailure ExecuteRoute := do
  let input ← runFirstLeg direction firstLeg wsolAmountIn minProfitLamports accounts
  runSecondLeg direction secondLeg accounts.userWsol.toNat accounts.userTarget.toNat
    minProfitLamports input

/-- `pump_to_meteora::execute`: buy the target on Pump, swap it back on Meteora. -/
def pumpToMeteoraExecute (buyExactQuoteIn swap2 : Cpi) : Nat → Nat → ExecuteRoute →
    Except RouteFailure ExecuteRoute :=
  executeLegs .pumpToMeteora (ExecuteRoute.invoke .pumpSwap buyExactQuoteIn)
    (ExecuteRoute.invoke .meteoraDlmm swap2)

/-- `meteora_to_pump::execute`: swap into the target on Meteora, sell it on Pump. -/
def meteoraToPumpExecute (swap2 sell : Cpi) : Nat → Nat → ExecuteRoute →
    Except RouteFailure ExecuteRoute :=
  executeLegs .meteoraToPump (ExecuteRoute.invoke .meteoraDlmm swap2)
    (ExecuteRoute.invoke .pumpSwap sell)

section Checks

theorem checked_increase_ok (before after delta : Nat) :
    checkedIncrease before after = .ok delta ↔ after = before + delta ∧ 0 < delta := by
  unfold checkedIncrease require
  by_cases fits : before ≤ after
  · rw [checked_sub_fits fits]
    by_cases positive : 0 < after - before
    · simp [positive]; omega
    · simp [positive]; omega
  · simp [checkedSub, fits]; omega

theorem required_out_ok (initialWsol wsolBefore minProfit out : Nat) :
    requiredSecondLegOut initialWsol wsolBefore minProfit = .ok out ↔
      initialWsol + minProfit < 2 ^ 64 ∧ out = max (initialWsol + minProfit - wsolBefore) 1 := by
  unfold requiredSecondLegOut
  simp only [bind_ok_iff, ok_or_eq_ok, checked_add_some, pure_ok, Except.ok.injEq]
  constructor
  · rintro ⟨_, ⟨rfl, fits⟩, rfl⟩
    exact ⟨fits, rfl⟩
  · rintro ⟨fits, rfl⟩
    exact ⟨_, ⟨rfl, fits⟩, rfl⟩

theorem enforce_ok (initialWsol finalWsol minProfit initialTarget finalTarget : Nat) (done : Unit) :
    enforce initialWsol finalWsol minProfit initialTarget finalTarget = .ok done ↔
      initialWsol + minProfit < 2 ^ 64 ∧ initialWsol + minProfit ≤ finalWsol ∧
        finalTarget = initialTarget := by
  unfold enforce
  simp only [bind_ok_iff, ok_or_eq_ok, checked_add_some, require_ok, decide_eq_true_eq]
  constructor
  · rintro ⟨_, ⟨rfl, fits⟩, _, enough, restored⟩
    exact ⟨fits, enough, restored⟩
  · rintro ⟨fits, enough, restored⟩
    exact ⟨_, ⟨rfl, fits⟩, (), enough, restored⟩

theorem arb_ok {Result : Type} (outcome : Except ArbError Result) (value : Result) :
    arb outcome = .ok value ↔ outcome = .ok value := map_error_ok_iff _ _ _

theorem invoke_ok (program : DexProgram) (cpi : Cpi) (amountIn minOut : Nat)
    (before after : ExecuteRoute) :
    before.invoke program cpi amountIn minOut = .ok after ↔
      ∃ chain, cpi amountIn minOut before.chain = .ok chain ∧
        after = { before with
          chain := chain
          calls := before.calls ++ [⟨program, amountIn, minOut⟩] } := by
  unfold ExecuteRoute.invoke
  simp only [bind_ok_iff, pure_ok, Except.ok.injEq]
  exact exists_congr fun chain => and_congr_right fun _ => eq_comm

end Checks

/-- What the first half of a route establishes before the second leg is called. -/
theorem first_leg_ok (direction : SelectedDirection) (program : DexProgram) (cpi : Cpi)
    (amountIn minProfit : Nat) (start : ExecuteRoute) (input : SecondLegInput)
    (ran : runFirstLeg direction (ExecuteRoute.invoke program cpi) amountIn minProfit start =
      .ok input) :
    cpi amountIn 1 start.chain = .ok input.accounts.chain ∧
    input.accounts.userWsol = input.accounts.chain.wsol ∧
    input.accounts.calls = start.calls ++ [⟨program, amountIn, 1⟩] ∧
    input.accounts.chain.target.toNat = start.userTarget.toNat + input.actualTargetDelta ∧
    0 < input.actualTargetDelta ∧
    start.userWsol.toNat + minProfit < 2 ^ 64 ∧
    input.requiredSecondLegOut =
      max (start.userWsol.toNat + minProfit - input.accounts.chain.wsol.toNat) 1 := by
  unfold runFirstLeg at ran
  simp only [bind_ok_iff, invoke_ok, arb_ok, checked_increase_ok, required_out_ok, pure_ok,
    Except.ok.injEq] at ran
  obtain ⟨_, ⟨chain, called, rfl⟩, delta, increased, out, ⟨fits, required⟩, rfl⟩ := ran
  exact ⟨called, rfl, rfl, increased.1, increased.2, fits, required⟩

/-- The second half succeeds exactly on a callee result that passes the three
post-trade conditions, and it leaves that result on the ledger. -/
theorem second_leg_ok (direction : SelectedDirection) (program : DexProgram) (cpi : Cpi)
    (initialWsol initialTarget minProfit : Nat) (input : SecondLegInput) (final : ExecuteRoute) :
    runSecondLeg direction (ExecuteRoute.invoke program cpi) initialWsol initialTarget minProfit
      input = .ok final →
    cpi input.actualTargetDelta input.requiredSecondLegOut input.accounts.chain = .ok final.chain ∧
    final.calls = input.accounts.calls ++
      [⟨program, input.actualTargetDelta, input.requiredSecondLegOut⟩] ∧
    input.accounts.userWsol.toNat < final.chain.wsol.toNat ∧
    initialWsol + minProfit ≤ final.chain.wsol.toNat ∧
    final.chain.target.toNat = initialTarget := by
  intro ran
  unfold runSecondLeg at ran
  simp only [bind_ok_iff, invoke_ok, arb_ok, checked_increase_ok, enforce_ok, pure_ok,
    Except.ok.injEq] at ran
  obtain ⟨_, ⟨chain, called, rfl⟩, delta, increased, _, passed, rfl⟩ := ran
  refine ⟨called, rfl, ?_, passed.2.1, passed.2.2⟩
  have grown : chain.wsol.toNat = input.accounts.userWsol.toNat + delta := increased.1
  change input.accounts.userWsol.toNat < chain.wsol.toNat
  omega

theorem second_leg_runs (direction : SelectedDirection) (program : DexProgram) (cpi : Cpi)
    (initialWsol initialTarget minProfit : Nat) (input : SecondLegInput) (chain : TokenBalances)
    (called : cpi input.actualTargetDelta input.requiredSecondLegOut input.accounts.chain = .ok chain)
    (grown : input.accounts.userWsol.toNat < chain.wsol.toNat)
    (fits : initialWsol + minProfit < 2 ^ 64)
    (enough : initialWsol + minProfit ≤ chain.wsol.toNat)
    (restored : chain.target.toNat = initialTarget) :
    ∃ final, runSecondLeg direction (ExecuteRoute.invoke program cpi) initialWsol initialTarget
      minProfit input = .ok final := by
  unfold runSecondLeg
  simp only [bind_ok_iff, invoke_ok, arb_ok, checked_increase_ok, enforce_ok, pure_ok]
  refine ⟨_, _, ⟨chain, called, rfl⟩, chain.wsol.toNat - input.accounts.userWsol.toNat, ⟨?_, ?_⟩,
    (), ⟨fits, enough, restored⟩, rfl⟩
  · change chain.wsol.toNat = _; omega
  · omega

/-- The legs of each route, in call order. -/
def routePrograms : SelectedDirection → DexProgram × DexProgram
  | .pumpToMeteora => (.pumpSwap, .meteoraDlmm)
  | .meteoraToPump => (.meteoraDlmm, .pumpSwap)

def execute (direction : SelectedDirection) (first second : Cpi) : Nat → Nat → ExecuteRoute →
    Except RouteFailure ExecuteRoute :=
  match direction with
  | .pumpToMeteora => pumpToMeteoraExecute first second
  | .meteoraToPump => meteoraToPumpExecute first second

theorem execute_eq_legs (direction : SelectedDirection) (first second : Cpi) :
    execute direction first second = executeLegs direction
      (ExecuteRoute.invoke (routePrograms direction).1 first)
      (ExecuteRoute.invoke (routePrograms direction).2 second) := by
  cases direction <;> rfl

/-- Whatever the two callees do, a route that returns has its profit, its target
balance restored and both deltas positive, and its second leg was given exactly
what the first one delivered. When the second callee debits that input and
credits at least one lamport, the minimum output it was given is the exact
threshold of success. -/
theorem executed_route_profitable (direction : SelectedDirection) (first second : Cpi)
    (trader targetMint : Pubkey) (chain : TokenBalances) (wsolAmountIn minProfit : UInt64) :
    (∀ final, execute direction first second wsolAmountIn.toNat minProfit.toNat
        (openedRoute trader targetMint chain) = .ok final →
      chain.wsol.toNat + minProfit.toNat < 2 ^ 64 ∧
      chain.wsol.toNat + minProfit.toNat ≤ final.chain.wsol.toNat ∧
      final.chain.target = chain.target ∧
      ∃ between firstDelta secondDelta minOut,
        first wsolAmountIn.toNat 1 chain = .ok between ∧
        second firstDelta minOut between = .ok final.chain ∧
        between.target.toNat = chain.target.toNat + firstDelta ∧ 0 < firstDelta ∧
        final.chain.wsol.toNat = between.wsol.toNat + secondDelta ∧ 0 < secondDelta ∧
        final.calls = [⟨(routePrograms direction).1, wsolAmountIn.toNat, 1⟩,
          ⟨(routePrograms direction).2, firstDelta, minOut⟩]) ∧
    (∀ input after out, runFirstLeg direction
        (ExecuteRoute.invoke (routePrograms direction).1 first) wsolAmountIn.toNat minProfit.toNat
        (openedRoute trader targetMint chain) = .ok input →
      second input.actualTargetDelta input.requiredSecondLegOut input.accounts.chain = .ok after →
      after.target.toNat + input.actualTargetDelta = input.accounts.chain.target.toNat →
      after.wsol.toNat = input.accounts.chain.wsol.toNat + out → 1 ≤ out →
      ((∃ final, execute direction first second wsolAmountIn.toNat minProfit.toNat
        (openedRoute trader targetMint chain) = .ok final) ↔ input.requiredSecondLegOut ≤ out)) := by
  rw [execute_eq_legs]
  unfold executeLegs
  constructor
  · intro final ran
    obtain ⟨input, opened, closed⟩ := (bind_ok_iff _ _ _).mp ran
    obtain ⟨called, reloaded, calls, grown, positive, fits, _⟩ := first_leg_ok _ _ _ _ _ _ _ opened
    -- The second leg checks the balances itself, so what the DEX programs did in between does not matter.
    obtain ⟨closing, finalCalls, gained, enough, restored⟩ := second_leg_ok _ _ _ _ _ _ _ _ closed
    rw [reloaded] at gained
    rw [calls] at finalCalls
    refine ⟨fits, enough, UInt64.toNat_inj.mp restored, input.accounts.chain,
      input.actualTargetDelta, final.chain.wsol.toNat - input.accounts.chain.wsol.toNat,
      input.requiredSecondLegOut, called, closing, grown, positive, by omega, by omega, finalCalls⟩
  · intro input after out opened called debited credited atLeastOne
    obtain ⟨_, reloaded, _, grown, _, fits, required⟩ := first_leg_ok _ _ _ _ _ _ _ opened
    rw [opened, ok_bind]
    change chain.wsol.toNat + minProfit.toNat < 2 ^ 64 at fits
    change _ = max (chain.wsol.toNat + minProfit.toNat - _) 1 at required
    change _ = chain.target.toNat + _ at grown
    constructor
    · rintro ⟨final, closed⟩
      obtain ⟨closing, _, _, enough, _⟩ := second_leg_ok _ _ _ _ _ _ _ _ closed
      rw [called] at closing
      cases closing
      change chain.wsol.toNat + minProfit.toNat ≤ _ at enough
      omega
    · intro threshold
      exact second_leg_runs _ _ _ _ _ _ _ after called (by rw [reloaded]; omega) fits
        (by change chain.wsol.toNat + minProfit.toNat ≤ _; omega)
        (by change _ = chain.target.toNat; omega)

/-- A run in which the first callee delivers 500 target units for 1000 lamports
and the second one returns 1080 lamports for them. -/
theorem executed_route_profitable_run :
    ∃ final, pumpToMeteoraExecute
        (fun amountIn _ held => .ok ⟨held.wsol - UInt64.ofNat amountIn, held.target + 500⟩)
        (fun amountIn _ held => .ok ⟨held.wsol + 1080, held.target - UInt64.ofNat amountIn⟩)
        1000 50 (openedRoute meteoraDlmmProgramId meteoraDlmmProgramId ⟨5000, 7⟩) = .ok final ∧
      5000 + 50 ≤ final.chain.wsol.toNat ∧ final.chain.target = 7 := by
  have theorems := executed_route_profitable .pumpToMeteora
    (fun amountIn _ held => .ok ⟨held.wsol - UInt64.ofNat amountIn, held.target + 500⟩)
    (fun amountIn _ held => .ok ⟨held.wsol + 1080, held.target - UInt64.ofNat amountIn⟩)
    meteoraDlmmProgramId meteoraDlmmProgramId ⟨5000, 7⟩ 1000 50
  obtain ⟨final, ran⟩ := (theorems.2 _ ⟨5080, 7⟩ 1080 rfl rfl rfl rfl (by decide)).mpr (by decide)
  have safe := theorems.1 final ran
  exact ⟨final, ran, safe.2.1, safe.2.2.1⟩

end ArbExecutor.RouteExecution
