import ArbExecutor.DynamicAmount
import ArbExecutor.PumpQuotes

/-!
The closed-form Pump input just below a target output. Grossing the curve's own
boundary input up by the joint fee stays under the first input that crosses the
target, and by no more than eight units.
-/

namespace ArbExecutor.BoundarySample

open Checked QuoteMath QuoteAccounts BestDirection DynamicAmount ConstantProduct SplitFees PumpQuotes

variable (market : MarketState)

/-- The curve input that first pays a target. -/
def boundaryInput (target : Nat) : Nat :=
  curveIn market.pumpBaseReserve.toNat (pumpQuoteSide market) target

/-- The boundary input grossed up by the joint fee rate. -/
def grossBoundary (target : Nat) : Nat :=
  boundaryInput market target * (bpsPrecision + (pumpRates market).sum) / bpsPrecision

theorem div_ceil_some {numerator denominator value : Nat}
    (divided : divCeil numerator denominator = some value) :
    value = ceilQuotient numerator denominator := by
  unfold divCeil at divided
  split at divided
  · cases divided
  · obtain ⟨raised, fits, same⟩ := Option.bind_eq_some_iff.mp divided
    rw [checked_add_some] at fits
    rw [← Option.some.inj same, fits.1]
    rfl

/-- Everything a sample says about its target. -/
theorem sample_some {target sample : Nat}
    (sampled : pumpInputAtOrBelowTargetOut market target = some sample) :
    target ≠ 0 ∧ target < market.pumpBaseReserve.toNat ∧ sample = grossBoundary market target ∧
      sample ≠ 0 ∧ sample < 2 ^ 64 ∧
      ∃ output, pumpBuyAmountOut market sample = some output ∧ output < target := by
  unfold pumpInputAtOrBelowTargetOut at sampled
  split at sampled
  · cases sampled
  next inside =>
    rw [not_or] at inside
    simp only [Option.bind_eq_bind, Option.bind_eq_some_iff, checked_mul_some, checked_sub_some,
      checked_add_some, narrow_some] at sampled
    obtain ⟨side, sideFits, _, ⟨rfl, _⟩, _, ⟨rfl, _⟩, boundary, divided, total, rates, _, ⟨rfl, _⟩, _,
      ⟨rfl, _⟩, _, ⟨rfl, narrowed⟩, sampled⟩ := sampled
    have sideEq : side = pumpQuoteSide market := by
      unfold effectiveQuoteReserve at sideFits
      exact ((checked_add_some _ _ _ _).mp sideFits).1
    have totalEq : total = (pumpRates market).sum := by
      unfold pumpTotalFeeBps at rates
      simp only [Option.bind_eq_bind, Option.bind_eq_some_iff, checked_add_some] at rates
      obtain ⟨_, ⟨rfl, _⟩, rfl, _⟩ := rates
      exact (pump_rates_sum market).symm
    have boundaryEq : boundary = boundaryInput market target := by
      rw [div_ceil_some divided, sideEq]
      rfl
    rw [boundaryEq, totalEq] at sampled narrowed
    have gross : boundaryInput market target * (pumpFeeDenominator + (pumpRates market).sum) /
        pumpFeeDenominator = grossBoundary market target := rfl
    rw [gross] at sampled narrowed
    split at sampled
    · cases sampled
    next some =>
      split at sampled
      next below =>
        cases sampled
        cases quoted : pumpBuyAmountOut market (grossBoundary market target) with
        | none => rw [quoted] at below; cases below
        | some output =>
            rw [quoted, Option.any_some, decide_eq_true_eq] at below
            exact ⟨inside.1, by omega, rfl, some, narrowed, output, rfl, below⟩
      next => cases sampled

/-- Up to the grossed-up boundary no effective quote exceeds the boundary input. -/
theorem effective_below {target amountIn : Nat} (within : amountIn ≤ grossBoundary market target) :
    effectiveQuote market amountIn ≤ boundaryInput market target := by
  have back : scaled bpsPrecision (pumpRates market) (grossBoundary market target) ≤
      boundaryInput market target := by
    unfold scaled grossBoundary
    apply Nat.div_le_of_le_mul
    rw [Nat.mul_comm (bpsPrecision + _)]
    exact Nat.div_mul_le_self _ _
  exact ((net_le_scaled _ _).trans (scaled_mono _ within)).trans back

/-- Three more units of curve input make up for any rounding of the fees. -/
theorem effective_above (target : Nat) (capped : (pumpRates market).sum ≤ bpsPrecision) :
    ∃ amountIn, grossBoundary market target + 1 ≤ amountIn ∧
      amountIn ≤ grossBoundary market target + 8 ∧
      boundaryInput market target + 1 ≤ effectiveQuote market amountIn := by
  have positive : 0 < bpsPrecision := by decide
  let net := boundaryInput market target + 3
  have reached := (le_scaled_iff (pumpRates market) positive net
    (net + jointFee bpsPrecision (pumpRates market) net)).mpr le_rfl
  have close := scaled_le_net (pumpRates market) positive
    (net + jointFee bpsPrecision (pumpRates market) net)
  have few : (pumpRates market).length - 1 = 2 := rfl
  refine ⟨net + jointFee bpsPrecision (pumpRates market) net, ?_, ?_, ?_⟩
  · unfold grossBoundary jointFee ceilQuotient bpsPrecision
    rw [Nat.mul_add, Nat.add_mul]
    omega
  · unfold grossBoundary jointFee ceilQuotient bpsPrecision
    unfold bpsPrecision at capped
    rw [Nat.mul_add, Nat.add_mul]
    omega
  · unfold effectiveQuote
    omega

theorem quote_side_positive (real : market.pumpQuoteReserve.toNat ≠ 0) (input : Nat) :
    0 < pumpQuoteSide market + input := by
  unfold pumpQuoteSide
  omega

/-- The sample is conservative and tight: nothing up to it reaches the target, and
one of the next eight inputs does. -/
theorem boundary_sample_tight (capped : (pumpRates market).sum ≤ 10000) (target sample : Nat)
    (sampled : pumpInputAtOrBelowTargetOut market target = some sample) :
    (∀ amountIn quote, 1 ≤ amountIn → amountIn ≤ sample → pumpBuy market amountIn = .ok quote →
      quote.amountOut < target) ∧
    (sample + 8 ≤ wordMax 64 → ∃ amountIn quote, sample + 1 ≤ amountIn ∧ amountIn ≤ sample + 8 ∧
      pumpBuy market amountIn = .ok quote ∧ target ≤ quote.amountOut) := by
  obtain ⟨_, below, rfl, some, fits, output, quoted, _⟩ := sample_some market sampled
  obtain ⟨atSample, bought, _⟩ := Option.map_eq_some_iff.mp quoted
  obtain ⟨_, baseSome, realSome, _⟩ :=
    (pump_buy_ok market _ fits atSample).mp ((to_option_some _ _).mp bought)
  constructor
  · intro amountIn quote positive within bought
    obtain ⟨_, _, _, effective, rfl⟩ := (pump_buy_ok market amountIn (by omega) quote).mp bought
    have short := effective_below market within
    by_contra reached
    -- An output at the target needs an effective input that no amount up to the sample leaves.
    have crossed := (reaches_iff below (quote_side_positive market realSome _)).mp (Nat.le_of_not_lt reached)
    unfold boundaryInput at short
    omega
  · intro room
    obtain ⟨amountIn, after, before, effective⟩ := effective_above market target capped
    unfold wordMax at room
    refine ⟨amountIn, _, after, before, (pump_buy_ok market amountIn (by omega) _).mpr
      ⟨by omega, baseSome, realSome, by omega, rfl⟩, ?_⟩
    refine (reaches_iff below (quote_side_positive market realSome _)).mpr ?_
    unfold boundaryInput at effective
    omega

theorem boundary_sample_tight_rounding :
    pumpInputAtOrBelowTargetOut roundingMarket 1000 = some 1009 ∧
      ∃ amountIn quote, 1010 ≤ amountIn ∧ amountIn ≤ 1017 ∧
        pumpBuy roundingMarket amountIn = .ok quote ∧ 1000 ≤ quote.amountOut := by
  have sampled : pumpInputAtOrBelowTargetOut roundingMarket 1000 = some 1009 := by decide
  exact ⟨sampled, (boundary_sample_tight roundingMarket (by decide) 1000 1009 sampled).2 (by decide)⟩

end ArbExecutor.BoundarySample
