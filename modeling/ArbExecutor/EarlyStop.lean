import ArbExecutor.CurveShape
import ArbExecutor.PumpQuotes

/-!
A curve stopped at its direction's own input limit against the curve without a
limit. Up to the limit both look an input up in the same stages; a forward
amount whose Pump output outruns the output at the maximum can be told apart.
-/

namespace ArbExecutor.EarlyStop

open Checked QuoteMath QuoteAccounts AccountValidation BestDirection DynamicAmount BinPricing
  StagedFill BinWalk CurveMeasure BinArrayLayout DirectionOutcome MinimumProbe CurveShape CurveSoundness PumpQuotes

section Curves
variable {pair : LbPairState} {arrays : List AccountInfo} {bitmapExtension : Option Bytes}
  {swapForY : Bool} {timestamp : Int64} {inputLimit larger : Nat} {early full : DlmmCurve}
  (builtEarly : buildCurve pair arrays bitmapExtension swapForY timestamp inputLimit = .ok early)
  (builtFull : buildCurve pair arrays bitmapExtension swapForY timestamp larger = .ok full)

theorem to_option_eq {Error Result : Type} {left right : Except Error Result}
    (same : ∀ value, left = .ok value ↔ right = .ok value) : left.toOption = right.toOption := by
  cases first : left with
  | ok value => rw [(same value).mp first]
  | error error =>
      cases second : right with
      | ok value => exact absurd ((same value).mpr second) (by rw [first]; simp)
      | error error => rfl

include builtEarly builtFull

/-- An input that the lookup finds alike in both measurements is quoted alike. -/
theorem quotes_alike {result : Walk} (amountIn : Nat) (positive : 0 < amountIn)
    (walked : directionWalk pair arrays bitmapExtension swapForY timestamp = .ok result)
    (same : lookup (measured inputLimit 0 (stages result.bins)) amountIn =
      lookup (measured larger 0 (stages result.bins)) amountIn) :
    (early.quote amountIn).toOption = (full.quote amountIn).toOption := by
  refine to_option_eq fun quote => ?_
  rw [curve_quote_ok _ _ _ _ _ _ _ result builtEarly walked amountIn positive,
    curve_quote_ok _ _ _ _ _ _ _ result builtFull walked amountIn positive, same]

/-- Up to their limits two curves of one direction quote alike. -/
theorem quotes_within_limit (amountIn : Nat) (within : amountIn ≤ inputLimit) (fits : amountIn ≤ larger) :
    (early.quote amountIn).toOption = (full.quote amountIn).toOption := by
  rcases Nat.eq_zero_or_pos amountIn with rfl | positive
  · rfl
  obtain ⟨result, walked, _⟩ := build_curve_ok _ _ _ _ _ builtEarly
  refine quotes_alike builtEarly builtFull amountIn positive walked ?_
  rw [lookup_measured _ _ _ _ (by omega), lookup_measured _ _ _ _ (by omega)]

/-- So does it up to its coverage. -/
theorem quotes_within_coverage (amountIn : Nat) (limited : inputLimit ≤ larger)
    (within : amountIn ≤ early.largestCompleteInput) :
    (early.quote amountIn).toOption = (full.quote amountIn).toOption := by
  rcases Nat.eq_zero_or_pos amountIn with rfl | positive
  · rfl
  obtain ⟨result, walked, _⟩ := build_curve_ok _ _ _ _ _ builtEarly
  refine quotes_alike builtEarly builtFull amountIn positive walked ?_
  obtain ⟨more, split⟩ := measured_prefix inputLimit larger 0 (stages result.bins) limited
  rw [largest_input _ _ _ _ _ _ _ result builtEarly walked] at within
  rw [split, lookup_append _ _ _ positive within]

/-- Past the early coverage the full curve quotes all it covers: no bin that the
early curve left out has a whole word of capacity. -/
theorem full_quotes (amountIn : Nat) (limited : inputLimit ≤ larger)
    (beyond : early.largestCompleteInput < amountIn) (within : amountIn ≤ full.largestCompleteInput) :
    ∃ quote, full.quote amountIn = .ok quote := by
  obtain ⟨result, walked, _⟩ := build_curve_ok _ _ _ _ _ builtEarly
  have fits := largest_fits builtFull
  have covered := largest_input _ _ _ _ _ _ _ result builtEarly walked
  have largest := largest_input _ _ _ _ _ _ _ result builtFull walked
  refine covered_quotes builtFull walked (fun entry member usable => (walked_total member usable ?_).up_to _)
    (by omega) within
  obtain ⟨more, split⟩ := measured_prefix inputLimit larger 0 (stages result.bins) limited
  have positive : 0 < totalCapacity (measured inputLimit 0 (stages result.bins)) := by
    rcases measured_positive inputLimit larger 0 (stages result.bins) with same | positive
    · rw [same] at largest
      omega
    · exact positive
  rw [split] at member
  rw [split, total_capacity_append] at largest
  unfold wordMax
  rcases List.mem_append.mp member with front | later
  · have bounded := capacity_le_total _ entry front usable
    omega
  · have bounded := capacity_le_total _ entry later usable
    omega

end Curves

section Directions
variable (market : MarketState)

/-- Two curves that evaluate every amount of a range alike. -/
def Indistinguishable (direction : SelectedDirection) (early full : DlmmCurve)
    (minAmount maxAmount : UInt64) : Prop :=
  ∀ amountIn : UInt64, minAmount ≤ amountIn → amountIn ≤ maxAmount →
    (evaluateIn market direction early amountIn.toNat).toOption =
      (evaluateIn market direction full amountIn.toNat).toOption

/-- An amount whose Pump output is more than that of the maximum, enough to leave
the early curve and stay on the full one. -/
def Outruns (early full : DlmmCurve) (maxAmount amountIn : Nat) : Prop :=
  BuyQuoted market amountIn ∧ BuyQuoted market maxAmount ∧ BuyDrops market amountIn maxAmount ∧
    early.largestCompleteInput < buyOut market (effectiveQuote market amountIn) ∧
    buyOut market (effectiveQuote market amountIn) ≤ full.largestCompleteInput

theorem forward_option (curve : DlmmCurve) (amountIn : Nat) (bought : QuoteResult)
    (quoted : pumpBuy market amountIn = .ok bought) :
    evaluateForward market curve amountIn = curve.quote bought.amountOut := by
  unfold evaluateForward
  rw [quoted, ok_bind]

theorem reverse_option (early full : DlmmCurve) (amountIn : Nat)
    (same : (early.quote amountIn).toOption = (full.quote amountIn).toOption) :
    (evaluateReverse market early amountIn).toOption = (evaluateReverse market full amountIn).toOption := by
  refine to_option_eq fun value => ?_
  unfold evaluateReverse
  rw [bind_ok_iff, bind_ok_iff]
  refine exists_congr fun quote => and_congr_left fun _ => ?_
  rw [← to_option_some, ← to_option_some, same]

variable {market} {binArrayAccounts : List AccountInfo} {bitmapExtension : Option Bytes}
  {timestamp : Int64}

theorem forward_limit_failed {maxAmount : Nat} {error : QuoteError}
    (last : pumpBuy market maxAmount = .error error) : forwardInputLimit market maxAmount = wordMax 64 := by
  unfold forwardInputLimit pumpBuyAmountOut
  rw [last]
  rfl

theorem forward_limit_quoted {maxAmount : Nat} {final : QuoteResult}
    (last : pumpBuy market maxAmount = .ok final) :
    forwardInputLimit market maxAmount = final.amountOut := by
  unfold forwardInputLimit pumpBuyAmountOut
  rw [last]
  rfl

theorem forward_limit_word (maxAmount : UInt64) :
    forwardInputLimit market maxAmount.toNat ≤ wordMax 64 := by
  cases quoted : pumpBuy market maxAmount.toNat with
  | error error => exact (forward_limit_failed quoted).le
  | ok bought =>
      rw [forward_limit_quoted quoted]
      obtain ⟨_, _, _, _, rfl⟩ := (pump_buy_ok market _ maxAmount.toNat_lt bought).mp quoted
      have bounded : buyOut market (effectiveQuote market maxAmount.toNat) ≤
        market.pumpBaseReserve.toNat := ConstantProduct.curve_out_le_base _
      have small := market.pumpBaseReserve.toNat_lt
      change buyOut market _ ≤ wordMax 64
      unfold wordMax
      omega

section Forward
variable {early full : DlmmCurve} {amountIn maxAmount : UInt64}
  (builtEarly : buildCurve market.pair binArrayAccounts bitmapExtension
    (directionSwapForY market .pumpToMeteora) timestamp (forwardInputLimit market maxAmount.toNat) = .ok early)
  (builtFull : buildCurve market.pair binArrayAccounts bitmapExtension
    (directionSwapForY market .pumpToMeteora) timestamp (wordMax 64) = .ok full)
include builtEarly builtFull

/-- An amount that outruns the maximum is quoted by the full curve only. -/
theorem outrun_told_apart (outruns : Outruns market early full maxAmount.toNat amountIn.toNat) :
    (evaluateForward market early amountIn.toNat).toOption ≠
      (evaluateForward market full amountIn.toNat).toOption := by
  obtain ⟨⟨bought, quoted⟩, _, _, beyond, within⟩ := outruns
  rw [forward_option market early _ _ quoted, forward_option market full _ _ quoted]
  obtain ⟨_, _, _, _, rfl⟩ := (pump_buy_ok market _ amountIn.toNat_lt bought).mp quoted
  obtain ⟨quote, covered⟩ := full_quotes builtEarly builtFull _ (forward_limit_word maxAmount) beyond within
  intro same
  rw [covered] at same
  exact Nat.not_le.mpr beyond (quote_within_largest builtEarly ((to_option_some _ _).mp same))

theorem forward_alike (most : amountIn ≤ maxAmount)
    (calm : ¬ Outruns market early full maxAmount.toNat amountIn.toNat) :
    (evaluateForward market early amountIn.toNat).toOption =
      (evaluateForward market full amountIn.toNat).toOption := by
  have limited : forwardInputLimit market maxAmount.toNat ≤ wordMax 64 := forward_limit_word maxAmount
  cases quoted : pumpBuy market amountIn.toNat with
  | error error =>
      unfold evaluateForward
      rw [quoted, error_bind, error_bind]
  | ok bought =>
      rw [forward_option market early _ _ quoted, forward_option market full _ _ quoted]
      obtain ⟨_, _, _, _, rfl⟩ := (pump_buy_ok market _ amountIn.toNat_lt bought).mp quoted
      by_cases covered : buyOut market (effectiveQuote market amountIn.toNat) ≤ early.largestCompleteInput
      · exact quotes_within_coverage builtEarly builtFull _ limited covered
      by_cases reached : buyOut market (effectiveQuote market amountIn.toNat) ≤
          forwardInputLimit market maxAmount.toNat
      · exact quotes_within_limit builtEarly builtFull _ reached (reached.trans limited)
      -- Only a Pump output above the one at the maximum is left.
      cases last : pumpBuy market maxAmount.toNat with
      | error error =>
          rw [forward_limit_failed last, builtFull] at builtEarly
          cases builtEarly
          rfl
      | ok final =>
          have drops : BuyDrops market amountIn.toNat maxAmount.toNat := by
            by_contra ordered
            have kept := (buy_order_iff market most maxAmount.toNat_lt quoted last).mpr ordered
            exact reached (forward_limit_quoted last ▸ kept)
          refine to_option_eq fun quote => ⟨fun found => ?_, fun found => ?_⟩
          · exact absurd (quote_within_largest builtEarly found) covered
          · exact absurd ⟨⟨_, quoted⟩, ⟨_, last⟩, drops, Nat.lt_of_not_le covered,
              quote_within_largest builtFull found⟩ calm

end Forward

/-- Stopping early is invisible exactly when no forward amount outruns the maximum. -/
theorem early_stop_iff (direction : SelectedDirection) (early full : DlmmCurve)
    (minAmount maxAmount : UInt64)
    (builtEarly : directionCurve binArrayAccounts bitmapExtension timestamp market direction
      maxAmount.toNat = .ok early)
    (builtFull : buildCurve market.pair binArrayAccounts bitmapExtension
      (directionSwapForY market direction) timestamp (wordMax 64) = .ok full) :
    Indistinguishable market direction early full minAmount maxAmount ↔
      (direction = .pumpToMeteora → ∀ amountIn : UInt64, minAmount ≤ amountIn → amountIn ≤ maxAmount →
        ¬ Outruns market early full maxAmount.toNat amountIn.toNat) := by
  unfold directionCurve at builtEarly
  cases direction with
  | meteoraToPump =>
      refine iff_of_true (fun amountIn _ most => ?_) (fun other => by cases other)
      have fits : amountIn.toNat ≤ wordMax 64 := by
        have small := amountIn.toNat_lt
        unfold wordMax
        omega
      exact reverse_option market early full _ (quotes_within_limit builtEarly builtFull _ most fits)
  | pumpToMeteora =>
      constructor
      · intro alike _ amountIn least most outruns
        exact outrun_told_apart builtEarly builtFull outruns (alike amountIn least most)
      · intro calm amountIn least most
        exact forward_alike builtEarly builtFull most (calm rfl amountIn least most)

end Directions

/-! Three fees of 25 bps make 404 buy one unit more than 405, and the bin that the
output at 405 ends in is full without that unit. -/
section Outrun

def fullBinArray : AccountInfo :=
  binArrayAccount meteoraDlmmProgramId meteoraDlmmProgramId 0 [payingBin 1000, payingBin 397]

theorem full_array_curves :
    ((directionCurve [fullBinArray] none 0 roundingMarket .pumpToMeteora 405).toOption.map
      fun curve => (evaluateForward roundingMarket curve 404).toOption.isSome) = some false ∧
    ((buildCurve roundingMarket.pair [fullBinArray] none true 0 (wordMax 64)).toOption.map
      fun curve => (evaluateForward roundingMarket curve 404).toOption.isSome) = some true := by
  decide +kernel

theorem early_stop_visible :
    ∃ early full, directionCurve [fullBinArray] none 0 roundingMarket .pumpToMeteora
        (405 : UInt64).toNat = .ok early ∧
      buildCurve roundingMarket.pair [fullBinArray] none (directionSwapForY roundingMarket .pumpToMeteora) 0
        (wordMax 64) = .ok full ∧
      ¬ Indistinguishable roundingMarket .pumpToMeteora early full 404 405 := by
  obtain ⟨early, builtEarly, fails⟩ := Option.map_eq_some_iff.mp full_array_curves.1
  obtain ⟨full, builtFull, completes⟩ := Option.map_eq_some_iff.mp full_array_curves.2
  refine ⟨early, full, (to_option_some _ _).mp builtEarly, (to_option_some _ _).mp builtFull, ?_⟩
  intro alike
  have same : (evaluateForward roundingMarket early 404).toOption =
    (evaluateForward roundingMarket full 404).toOption := alike 404 (by decide) (by decide)
  rw [same, completes] at fails
  cases fails

theorem early_stop_iff_at_maximum :
    ∃ early full, directionCurve [fullBinArray] none 0 roundingMarket .pumpToMeteora
        (405 : UInt64).toNat = .ok early ∧
      buildCurve roundingMarket.pair [fullBinArray] none (directionSwapForY roundingMarket .pumpToMeteora) 0
        (wordMax 64) = .ok full ∧
      Indistinguishable roundingMarket .pumpToMeteora early full 405 405 := by
  obtain ⟨early, builtEarly, _⟩ := Option.map_eq_some_iff.mp full_array_curves.1
  obtain ⟨full, builtFull, _⟩ := Option.map_eq_some_iff.mp full_array_curves.2
  have builtEarly := (to_option_some _ _).mp builtEarly
  have builtFull := (to_option_some _ _).mp builtFull
  refine ⟨early, full, builtEarly, builtFull, ?_⟩
  refine (early_stop_iff .pumpToMeteora early full 405 405 builtEarly builtFull).mpr ?_
  rintro _ amountIn least most ⟨_, _, ⟨drops, _⟩, _⟩
  obtain rfl : amountIn = 405 := UInt64.le_antisymm most least
  exact absurd drops (by decide)

end Outrun

end ArbExecutor.EarlyStop
