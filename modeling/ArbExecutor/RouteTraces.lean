import ArbExecutor.RouteHandlers

/-!
What a completed route is: the two invocations, the ledgers after them and the
token accounts read from those. An execution succeeds exactly when there is such
a trace, and then it ends as the trace says. The account-level execution refines
the balance-level one, whose callees are whatever the invocations did.
-/

namespace ArbExecutor.RouteTraces

open Checked QuoteAccounts AccountValidation AccountPrefixes DexAdapters RouteAccounts
  BestDirection RouteExecution RouteHandlers

structure RouteTrace where
  first : Invocation
  between : Ledger
  targetBetween : TokenAccount
  wsolBetween : TokenAccount
  second : Invocation
  after : Ledger
  wsolAfter : TokenAccount
  targetAfter : TokenAccount

variable (runtime : Runtime) (accounts : RouteAccounts.ExecuteRoute)

def RouteTrace.targetDelta (trace : RouteTrace) (start : RouteRun) : Nat :=
  trace.targetBetween.amount.toNat - start.userTarget.amount.toNat

def RouteTrace.wsolDelta (trace : RouteTrace) : Nat :=
  trace.wsolAfter.amount.toNat - trace.wsolBetween.amount.toNat

def RouteTrace.requiredOut (trace : RouteTrace) (start : RouteRun) (minProfit : Nat) : Nat :=
  max (start.userWsol.amount.toNat + minProfit - trace.wsolBetween.amount.toNat) 1

def Loads (ledger : Ledger) (account : AccountRef) (loaded : TokenAccount) : Prop :=
  runtime.unpackTokenAccount (ledger account.key).data = some loaded

def Invokes (invocation : Invocation) (before after : Ledger) : Prop :=
  runtime.invoke invocation.instruction invocation.infos before = .ok after

/-- Everything a route has to get through, in the order it happens. -/
structure Completes (firstLeg secondLeg : Adapter) (amountIn minProfit : Nat) (start : RouteRun)
    (trace : RouteTrace) : Prop where
  firstBuilt : firstLeg amountIn 1 start.ledger = .ok trace.first
  firstInvoked : Invokes runtime trace.first start.ledger trace.between
  targetReloaded : Loads runtime trace.between accounts.userTarget.val trace.targetBetween
  targetGrew : start.userTarget.amount.toNat < trace.targetBetween.amount.toNat
  wsolReloaded : Loads runtime trace.between accounts.userWsol.val trace.wsolBetween
  fits : start.userWsol.amount.toNat + minProfit < 2 ^ 64
  secondBuilt : secondLeg (trace.targetDelta start) (trace.requiredOut start minProfit)
    trace.between = .ok trace.second
  secondInvoked : Invokes runtime trace.second trace.between trace.after
  wsolFinal : Loads runtime trace.after accounts.userWsol.val trace.wsolAfter
  wsolGrew : trace.wsolBetween.amount.toNat < trace.wsolAfter.amount.toNat
  targetFinal : Loads runtime trace.after accounts.userTarget.val trace.targetAfter
  profitable : start.userWsol.amount.toNat + minProfit ≤ trace.wsolAfter.amount.toNat
  restored : trace.targetAfter.amount.toNat = start.userTarget.amount.toNat

def routeEvents (direction : SelectedDirection) (start : RouteRun) (trace : RouteTrace) :
    List RouteEvent :=
  [.routeStarted direction accounts.trader.val.key accounts.targetMint.val.key
      start.userWsol.amount.toNat,
   .firstLegCompleted direction (trace.targetDelta start),
   .secondLegCompleted direction trace.wsolDelta,
   .routeCompleted direction accounts.trader.val.key accounts.targetMint.val.key
      start.userWsol.amount.toNat trace.wsolAfter.amount.toNat (trace.targetDelta start)
      trace.wsolDelta]

def finishedRun (direction : SelectedDirection) (start : RouteRun) (trace : RouteTrace) : RouteRun where
  ledger := trace.after
  userWsol := trace.wsolAfter
  userTarget := trace.targetAfter
  invocations := start.invocations ++ [trace.first, trace.second]
  events := start.events ++ (routeEvents accounts direction start trace).map .route

@[simp] theorem checked_ok {Result : Type} (outcome : Except ArbError Result) (value : Result) :
    checked outcome = .ok value ↔ outcome = .ok value := map_error_ok_iff _ _ _

theorem reload_ok (ledger : Ledger) (account : AccountRef) (loaded : TokenAccount) :
    reload runtime ledger account = .ok loaded ↔ Loads runtime ledger account loaded := by
  unfold reload Loads
  exact ok_or_eq_ok _ _ _

theorem invoke_run_ok (run next : RouteRun) (built : Except ArbError Invocation) :
    run.invoke runtime built = .ok next ↔ ∃ invocation ledger, built = .ok invocation ∧
      Invokes runtime invocation run.ledger ledger ∧
      next = { run with ledger := ledger, invocations := run.invocations ++ [invocation] } := by
  unfold RouteRun.invoke Invokes
  simp only [bind_ok_iff, checked_ok, map_error_ok_iff, pure_ok, Except.ok.injEq]
  constructor
  · rintro ⟨invocation, made, ledger, invoked, rfl⟩
    exact ⟨invocation, ledger, made, invoked, rfl⟩
  · rintro ⟨invocation, ledger, made, invoked, rfl⟩
    exact ⟨invocation, made, ledger, invoked, rfl⟩

theorem reload_wsol_ok (run next : RouteRun) :
    run.reloadWsol runtime accounts = .ok next ↔ ∃ loaded,
      Loads runtime run.ledger accounts.userWsol.val loaded ∧ next = { run with userWsol := loaded } := by
  unfold RouteRun.reloadWsol
  simp only [bind_ok_iff, reload_ok, pure_ok, Except.ok.injEq]
  exact exists_congr fun _ => and_congr_right fun _ => eq_comm

theorem reload_target_ok (run next : RouteRun) :
    run.reloadTarget runtime accounts = .ok next ↔ ∃ loaded,
      Loads runtime run.ledger accounts.userTarget.val loaded ∧
      next = { run with userTarget := loaded } := by
  unfold RouteRun.reloadTarget
  simp only [bind_ok_iff, reload_ok, pure_ok, Except.ok.injEq]
  exact exists_congr fun _ => and_congr_right fun _ => eq_comm

/-- A route succeeds exactly when it has a trace, and ends as the trace does. -/
theorem execute_route_iff (direction : SelectedDirection) (firstLeg secondLeg : Adapter)
    (amountIn minProfit : Nat) (start final : RouteRun) :
    executeRoute runtime accounts direction firstLeg secondLeg amountIn minProfit start = .ok final ↔
      ∃ trace, Completes runtime accounts firstLeg secondLeg amountIn minProfit start trace ∧
        final = finishedRun accounts direction start trace := by
  unfold executeRoute firstHalf secondHalf
  simp only [bind_ok_iff, invoke_run_ok, reload_wsol_ok, reload_target_ok, checked_ok,
    checked_increase_ok, required_out_ok, enforce_ok, pure_ok, Except.ok.injEq]
  constructor
  · rintro ⟨_, ⟨_, ⟨first, between, firstBuilt, firstInvoked, rfl⟩, _,
      ⟨targetBetween, targetReloaded, rfl⟩, delta, ⟨grew, positive⟩, _,
      ⟨wsolBetween, wsolReloaded, rfl⟩, out, ⟨fits, rfl⟩, rfl⟩, _,
      ⟨second, after, secondBuilt, secondInvoked, rfl⟩, _, ⟨wsolAfter, wsolFinal, rfl⟩, gain,
      ⟨gained, some⟩, _, ⟨targetAfter, targetFinal, rfl⟩, _, ⟨_, enough, restored⟩, rfl⟩
    dsimp only [RouteRun.emit] at *
    have sameDelta : delta = targetBetween.amount.toNat - start.userTarget.amount.toNat := by omega
    have sameGain : gain = wsolAfter.amount.toNat - wsolBetween.amount.toNat := by omega
    subst sameDelta sameGain
    refine ⟨⟨first, between, targetBetween, wsolBetween, second, after, wsolAfter, targetAfter⟩,
      ⟨firstBuilt, firstInvoked, targetReloaded, by dsimp only; omega, wsolReloaded, fits,
        secondBuilt, secondInvoked, wsolFinal, by dsimp only; omega, targetFinal, enough, restored⟩, ?_⟩
    simp [finishedRun, routeEvents, RouteTrace.targetDelta, RouteTrace.wsolDelta]
  · rintro ⟨trace, completes, rfl⟩
    have grew := completes.targetGrew
    have gained := completes.wsolGrew
    refine ⟨⟨_, trace.targetDelta start, trace.requiredOut start minProfit⟩,
      ⟨_, ⟨trace.first, trace.between, completes.firstBuilt, completes.firstInvoked, rfl⟩, _,
        ⟨trace.targetBetween, completes.targetReloaded, rfl⟩, trace.targetDelta start, ⟨?_, ?_⟩, _,
        ⟨trace.wsolBetween, completes.wsolReloaded, rfl⟩, _, ⟨completes.fits, rfl⟩, rfl⟩, _,
      ⟨trace.second, trace.after, completes.secondBuilt, completes.secondInvoked, rfl⟩, _,
      ⟨trace.wsolAfter, completes.wsolFinal, rfl⟩, trace.wsolDelta, ⟨?_, ?_⟩, _,
      ⟨trace.targetAfter, completes.targetFinal, rfl⟩, (), ⟨completes.fits, completes.profitable,
        completes.restored⟩, ?_⟩
    · simp only [RouteTrace.targetDelta]; omega
    · unfold RouteTrace.targetDelta; omega
    · simp only [RouteTrace.wsolDelta]; omega
    · unfold RouteTrace.wsolDelta; omega
    · simp [finishedRun, routeEvents, RouteRun.emit]

end ArbExecutor.RouteTraces
