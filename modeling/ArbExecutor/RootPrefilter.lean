import ArbExecutor.BoundarySample
import ArbExecutor.NormalizedValue

/-!
The square-root prefilter of the interior candidates. It compares truncated
squares instead of taking the root; the margin it leaves around the interval is
wider than everything that the truncations and the root can lose.
-/

namespace ArbExecutor.RootPrefilter

open Checked QuoteAccounts BestDirection DynamicAmount NormalizedValue

section Ratios

/-- An upper bound on the bits a list of factors can add to an exponent. -/
def factorBits (factors : List Nat) : Nat := (factors.map fun factor => Nat.log2 factor + 1).sum

theorem multiply_all_some (factors : List Nat) {start product : Normalized} (normal : Normal start)
    (multiplied : multiplyAll start factors = some product) :
    Normal product ∧ product.exponent ≤ start.exponent + factorBits factors := by
  induction factors generalizing start with
  | nil =>
      cases multiplied
      exact ⟨normal, by simp [factorBits]⟩
  | cons first rest ih =>
      simp only [multiplyAll, Option.bind_eq_bind, Option.bind_eq_some_iff] at multiplied
      obtain ⟨factor, read, next, once, multiplied⟩ := multiplied
      obtain ⟨factorNormal, exponent, _⟩ := from_u128_some read
      obtain ⟨nextNormal, grown, _⟩ := multiply_some normal factorNormal once
      obtain ⟨productNormal, bounded⟩ := ih nextNormal multiplied
      refine ⟨productNormal, ?_⟩
      unfold factorBits at bounded ⊢
      rw [List.map_cons, List.sum_cons]
      push_cast at bounded ⊢
      omega

theorem divide_all_some (factors : List Nat) {start quotient : Normalized} (normal : Normal start)
    (divided : divideAll start factors = some quotient) :
    Normal quotient ∧ quotient.exponent ≤ start.exponent := by
  induction factors generalizing start with
  | nil =>
      cases divided
      exact ⟨normal, le_rfl⟩
  | cons first rest ih =>
      simp only [divideAll, Option.bind_eq_bind, Option.bind_eq_some_iff] at divided
      obtain ⟨divisor, read, next, once, divided⟩ := divided
      obtain ⟨divisorNormal, exponent, _⟩ := from_u128_some read
      obtain ⟨nextNormal, shrunk⟩ := divide_some normal divisorNormal once
      obtain ⟨quotientNormal, bounded⟩ := ih nextNormal divided
      exact ⟨quotientNormal, by omega⟩

theorem product_ratio_some (numerators denominators : List Nat) {ratio : Normalized}
    (formed : normalizedProductRatio numerators denominators = some ratio) :
    Normal ratio ∧ ratio.exponent ≤ factorBits numerators := by
  unfold normalizedProductRatio at formed
  simp only [Option.bind_eq_bind, Option.bind_eq_some_iff] at formed
  obtain ⟨one, read, product, multiplied, divided⟩ := formed
  obtain ⟨oneNormal, zero, _⟩ := from_u128_some read
  obtain ⟨productNormal, grown⟩ := multiply_all_some numerators oneNormal multiplied
  obtain ⟨normal, shrunk⟩ := divide_all_some denominators productNormal divided
  have none : Nat.log2 1 = 0 := by decide
  exact ⟨normal, by omega⟩

theorem log_two_lt {factor bits : Nat} (positive : 0 < bits) (fits : factor < 2 ^ bits) :
    Nat.log2 factor + 1 ≤ bits := by
  by_cases zero : factor = 0
  · rw [zero, Nat.log2_zero]
    omega
  · exact (Nat.log2_lt zero).mpr fits

end Ratios

section Margin

/-- The truncated square of a root of at most 66 bits loses less than nine units of it. -/
theorem square_near {root : Nat} {squared : Normalized} (large : 32 ≤ root) (small : root < 2 ^ 66)
    (formed : normalizedSquare root = some squared) :
    Normal squared ∧ value squared ≤ (root : ℚ) ^ 2 ∧ ((root - 9 : Nat) : ℚ) ^ 2 ≤ value squared := by
  unfold normalizedSquare at formed
  simp only [Option.bind_eq_bind, Option.bind_eq_some_iff] at formed
  obtain ⟨number, read, multiplied⟩ := formed
  obtain ⟨normal, exponent, below, above⟩ := from_u128_some read
  obtain ⟨squaredNormal, _, squareBelow, squareAbove⟩ := multiply_some normal normal multiplied
  have nonnegative : 0 ≤ value number := (zpow_pos (by norm_num) _).le.trans (value_bounds normal).1
  have unit : lastPlace number ≤ 4 := by
    have bits := log_two_lt (by decide) small
    have place := power_le (show number.exponent - 63 ≤ 2 by omega)
    unfold lastPlace
    norm_num at place
    exact place
  have place := last_place_le squaredNormal
  have large : (32 : ℚ) ≤ root := by exact_mod_cast large
  have small : (root : ℚ) < 2 ^ 66 := by exact_mod_cast small
  have cast : ((root - 9 : Nat) : ℚ) = root - 9 := by
    rw [Nat.cast_sub (by exact_mod_cast (by linarith : (9 : ℚ) ≤ root))]
    norm_num
  refine ⟨squaredNormal, ?_, ?_⟩
  · calc value squared ≤ value number * value number := squareBelow
      _ ≤ root * root := mul_le_mul below below nonnegative (Nat.cast_nonneg root)
      _ = (root : ℚ) ^ 2 := (pow_two _).symm
  · -- The square loses less than a 2^63rd of itself, which is less than eight roots.
    have lost : lastPlace squared ≤ 8 * value number := by
      nlinarith
    have kept : (root : ℚ) - 4 < value number := by linarith
    rw [cast]
    nlinarith

variable {ratio : Normalized} (normal : Normal ratio)

include normal

/-- Below the interval the filter leaves only roots below the interval. -/
theorem excluded_below {lowerRoot root : Nat} {squared : Normalized}
    (formed : normalizedSquare (lowerRoot - interiorRootPrefilterMargin) = some squared)
    (low : ratio.compare squared ≠ .gt) (rooted : ratio.sqrtFloor = some root) : root ≤ lowerRoot := by
  unfold normalizedSquare at formed
  simp only [Option.bind_eq_bind, Option.bind_eq_some_iff] at formed
  obtain ⟨number, read, multiplied⟩ := formed
  obtain ⟨numberNormal, _, below, _⟩ := from_u128_some read
  obtain ⟨squaredNormal, _, squareBelow, _⟩ := multiply_some numberNormal numberNormal multiplied
  have nonnegative : 0 ≤ value number := (zpow_pos (by norm_num) _).le.trans (value_bounds numberNormal).1
  have within : (root : ℚ) ^ 2 ≤ ((lowerRoot - interiorRootPrefilterMargin : Nat) : ℚ) ^ 2 :=
    calc (root : ℚ) ^ 2 ≤ value ratio := sqrt_floor_below normal rooted
      _ ≤ value squared := (compare_value normal squaredNormal).1 low
      _ ≤ value number * value number := squareBelow
      _ ≤ _ := by rw [pow_two]; exact mul_le_mul below below nonnegative (Nat.cast_nonneg _)
  have ordered : (root : ℚ) ≤ ((lowerRoot - interiorRootPrefilterMargin : Nat) : ℚ) :=
    le_of_sq_le_sq within (Nat.cast_nonneg _)
  have whole : root ≤ lowerRoot - interiorRootPrefilterMargin := by exact_mod_cast ordered
  omega

/-- Above the interval the filter leaves only roots above the interval. -/
theorem excluded_above (bounded : ratio.exponent < 256) {upperRoot root : Nat} {squared : Normalized}
    (small : upperRoot + interiorRootPrefilterMargin < 2 ^ 66)
    (formed : normalizedSquare (saturatingAdd 128 upperRoot interiorRootPrefilterMargin) = some squared)
    (high : ratio.compare squared ≠ .lt) (rooted : ratio.sqrtFloor = some root) : upperRoot ≤ root := by
  have raised : saturatingAdd 128 upperRoot interiorRootPrefilterMargin =
      upperRoot + interiorRootPrefilterMargin := by
    unfold saturatingAdd
    omega
  rw [raised] at formed
  have margin : interiorRootPrefilterMargin = 32 := rfl
  obtain ⟨squaredNormal, _, reached⟩ := square_near (by omega) small formed
  have squared := reached.trans ((compare_value normal squaredNormal).2 high)
  have near := sqrt_floor_near normal bounded rooted (by omega) squared
  omega

/-- An excluded interval holds no root in its interior. -/
theorem excluded_root (bounded : ratio.exponent < 256) {lowerRoot upperRoot root : Nat}
    (small : upperRoot + interiorRootPrefilterMargin < 2 ^ 66)
    (excluded : sqrtIntervalDefinitelyExcludes ratio lowerRoot upperRoot = true)
    (rooted : ratio.sqrtFloor = some root) : root ≤ lowerRoot ∨ upperRoot ≤ root := by
  unfold sqrtIntervalDefinitelyExcludes at excluded
  dsimp only at excluded
  rw [Bool.or_eq_true, Option.any_eq_true, Option.any_eq_true] at excluded
  rcases excluded with ⟨squared, formed, low⟩ | ⟨squared, formed, high⟩
  · exact .inl (excluded_below normal formed (bne_iff_ne.mp low) rooted)
  · exact .inr (excluded_above normal bounded small formed (bne_iff_ne.mp high) rooted)

end Margin

/-! The two interior candidates without the early exit. -/
section Candidates

def forwardInteriorUnfiltered (market : MarketState) (segment : DlmmSegment)
    (segmentStart segmentEnd : Nat) : Option Nat := do
  let totalFeeBps ← pumpTotalFeeBps market
  let effectiveQuoteReserve ← effectiveQuoteReserve market
  let feeFactor ← checkedAdd 128 pumpFeeDenominator totalFeeBps
  let ratio ← normalizedProductRatio
    [segment.outputCapacity, market.pumpBaseReserve.toNat, pumpFeeDenominator, effectiveQuoteReserve]
    [segment.inputCapacity, feeFactor]
  let scaledStart ← checkedMul 128 segmentStart pumpFeeDenominator
  let _ ← checkedAdd 128 effectiveQuoteReserve (scaledStart / feeFactor)
  let scaledEnd ← checkedMul 128 segmentEnd pumpFeeDenominator
  let roundedEnd ← divCeil scaledEnd feeFactor
  let _ ← checkedAdd 128 effectiveQuoteReserve roundedEnd
  let root ← ratio.sqrtFloor
  if root ≤ effectiveQuoteReserve then none
  else do
    let aboveReserve ← checkedSub root effectiveQuoteReserve
    let scaled ← checkedMul 128 aboveReserve feeFactor
    let candidate ← narrow 64 (scaled / pumpFeeDenominator)
    if segmentStart < candidate ∧ candidate < segmentEnd then some candidate else none

def reverseInteriorUnfiltered (market : MarketState) (segment : DlmmSegment) : Option Nat := do
  let totalFeeBps ← pumpTotalFeeBps market
  if pumpFeeDenominator ≤ totalFeeBps then none
  else do
    let effectiveQuoteReserve ← effectiveQuoteReserve market
    let netFactor ← checkedSub pumpFeeDenominator totalFeeBps
    let ratio ← normalizedProductRatio
      [segment.outputCapacity, effectiveQuoteReserve, market.pumpBaseReserve.toNat, netFactor]
      [segment.inputCapacity, pumpFeeDenominator]
    let _ ← checkedAdd 128 market.pumpBaseReserve.toNat segment.outputStart
    let _ ← checkedAdd 128 market.pumpBaseReserve.toNat segment.outputEnd
    let root ← ratio.sqrtFloor
    let targetAtOptimum ← checkedSub root market.pumpBaseReserve.toNat
    if targetAtOptimum ≤ segment.outputStart ∨ segment.outputEnd ≤ targetAtOptimum then none
    else do
      let targetDelta ← checkedSub targetAtOptimum segment.outputStart
      let scaled ← checkedMul 128 targetDelta segment.inputCapacity
      let candidate ← checkedAdd 128 segment.inputStart (scaled / segment.outputCapacity)
      narrow 64 candidate

variable (market : MarketState)

theorem quote_reserve_some {reserve : Nat} (summed : effectiveQuoteReserve market = some reserve) :
    reserve < 2 ^ 65 := by
  unfold effectiveQuoteReserve at summed
  obtain ⟨rfl, _⟩ := (checked_add_some _ _ _ _).mp summed
  have real := market.pumpQuoteReserve.toNat_lt
  have virtual := market.pumpVirtualQuoteReserve.toNat_lt
  omega

/-- Four factors of these widths keep an exponent well below the width of a root. -/
theorem ratio_bounded (first second third fourth : Nat) {denominators : List Nat} {ratio : Normalized}
    (firstFits : first < 2 ^ 65) (secondFits : second < 2 ^ 65) (thirdFits : third < 2 ^ 64)
    (fourthFits : fourth < 2 ^ 14)
    (factors : List Nat) (same : factors.Perm [first, second, third, fourth])
    (formed : normalizedProductRatio factors denominators = some ratio) :
    Normal ratio ∧ ratio.exponent < 256 := by
  obtain ⟨normal, bounded⟩ := product_ratio_some _ _ formed
  have total : factorBits factors = factorBits [first, second, third, fourth] := (same.map _).sum_eq
  have firstBits := log_two_lt (by decide) firstFits
  have secondBits := log_two_lt (by decide) secondFits
  have thirdBits := log_two_lt (by decide) thirdFits
  have fourthBits := log_two_lt (by decide) fourthFits
  rw [total] at bounded
  unfold factorBits at bounded
  simp only [List.map_cons, List.map_nil, List.sum_cons, List.sum_nil] at bounded
  exact ⟨normal, by omega⟩

/-- A root outside the interval gives no candidate inside the segment. -/
theorem forward_outside {reserve feeFactor segmentStart segmentEnd root : Nat} (positive : 0 < feeFactor)
    (outside : root ≤ reserve + segmentStart * pumpFeeDenominator / feeFactor ∨
      reserve + ceilQuotient (segmentEnd * pumpFeeDenominator) feeFactor ≤ root) :
    ¬ (segmentStart < (root - reserve) * feeFactor / pumpFeeDenominator ∧
      (root - reserve) * feeFactor / pumpFeeDenominator < segmentEnd) := by
  rintro ⟨above, below⟩
  rcases outside with low | high
  · have within : (root - reserve) * feeFactor ≤ segmentStart * pumpFeeDenominator := by
      rw [← le_floor_quotient_iff positive]
      exact Nat.sub_le_iff_le_add'.mpr low
    have back := Nat.div_le_of_le_mul (within.trans (Nat.mul_comm _ _).le)
    omega
  · have covered : segmentEnd * pumpFeeDenominator ≤ (root - reserve) * feeFactor := by
      rw [← ceil_quotient_le_iff positive]
      exact Nat.le_sub_of_add_le' high
    have reached := (Nat.le_div_iff_mul_le (by decide : 0 < pumpFeeDenominator)).mpr covered
    omega

theorem forward_prefilter_neutral (segment : DlmmSegment) (fits : segment.outputEnd < 2 ^ 64)
    (segmentStart segmentEnd : UInt64) :
    forwardInteriorCandidate market segment segmentStart.toNat segmentEnd.toNat =
      forwardInteriorUnfiltered market segment segmentStart.toNat segmentEnd.toNat := by
  unfold forwardInteriorCandidate forwardInteriorUnfiltered
  refine Option.bind_congr fun totalFeeBps _ => Option.bind_congr fun reserve summed =>
    Option.bind_congr fun feeFactor added => Option.bind_congr fun ratio formed =>
    Option.bind_congr fun scaledStart started => Option.bind_congr fun lowerRoot lower =>
    Option.bind_congr fun scaledEnd ended => Option.bind_congr fun roundedEnd rounded =>
    Option.bind_congr fun upperRoot upper => ?_
  by_cases excluded : sqrtIntervalDefinitelyExcludes ratio lowerRoot upperRoot = true
  · rw [if_pos excluded]
    cases rooted : ratio.sqrtFloor with
    | none => rfl
    | some root =>
        obtain ⟨rfl, _⟩ := (checked_add_some _ _ _ _).mp added
        obtain ⟨rfl, _⟩ := (checked_mul_some _ _ _ _).mp started
        obtain ⟨rfl, _⟩ := (checked_add_some _ _ _ _).mp lower
        obtain ⟨rfl, _⟩ := (checked_mul_some _ _ _ _).mp ended
        obtain rfl := BoundarySample.div_ceil_some rounded
        obtain ⟨rfl, _⟩ := (checked_add_some _ _ _ _).mp upper
        have positive : 0 < pumpFeeDenominator + totalFeeBps := Nat.add_pos_left (by decide) _
        have reserveFits := quote_reserve_some market summed
        have base := market.pumpBaseReserve.toNat_lt
        have small := segmentEnd.toNat_lt
        have ceiling : ceilQuotient (segmentEnd.toNat * pumpFeeDenominator)
            (pumpFeeDenominator + totalFeeBps) ≤ segmentEnd.toNat := by
          rw [ceil_quotient_le_iff positive]
          exact Nat.mul_le_mul_left _ (Nat.le_add_right _ _)
        obtain ⟨normal, bounded⟩ := ratio_bounded segment.outputCapacity reserve
          market.pumpBaseReserve.toNat pumpFeeDenominator
          (by unfold DlmmSegment.outputCapacity; omega) reserveFits base (by decide) _
          (by grind) formed
        have margin : interiorRootPrefilterMargin = 32 := rfl
        have outside := excluded_root normal bounded (by omega) excluded rooted
        -- The excluded root leaves no interior candidate, so the unfiltered path offers nothing either.
        have nothing := forward_outside positive outside
        symm
        rw [Option.bind_eq_bind, Option.bind_some]
        split
        · rfl
        next beyond =>
          rw [Option.eq_none_iff_forall_ne_some]
          intro candidate found
          simp only [Option.bind_eq_some_iff, checked_sub_some, checked_mul_some, narrow_some] at found
          obtain ⟨_, ⟨rfl, _⟩, _, ⟨rfl, _⟩, _, ⟨rfl, _⟩, found⟩ := found
          rw [if_neg nothing] at found
          cases found
  · rw [if_neg excluded]

theorem reverse_prefilter_neutral (segment : DlmmSegment) (fits : segment.outputEnd < 2 ^ 64) :
    reverseInteriorCandidate market segment = reverseInteriorUnfiltered market segment := by
  unfold reverseInteriorCandidate reverseInteriorUnfiltered
  refine Option.bind_congr fun totalFeeBps _ => ?_
  by_cases whole : pumpFeeDenominator ≤ totalFeeBps
  · rw [if_pos whole, if_pos whole]
  rw [if_neg whole, if_neg whole]
  refine Option.bind_congr fun reserve summed => Option.bind_congr fun netFactor net =>
    Option.bind_congr fun ratio formed => Option.bind_congr fun lowerRoot lower =>
    Option.bind_congr fun upperRoot upper => ?_
  by_cases excluded : sqrtIntervalDefinitelyExcludes ratio lowerRoot upperRoot = true
  · rw [if_pos excluded]
    cases rooted : ratio.sqrtFloor with
    | none => rfl
    | some root =>
        obtain ⟨rfl, _⟩ := (checked_sub_some _ _ _).mp net
        obtain ⟨rfl, _⟩ := (checked_add_some _ _ _ _).mp lower
        obtain ⟨rfl, _⟩ := (checked_add_some _ _ _ _).mp upper
        have reserveFits := quote_reserve_some market summed
        have base := market.pumpBaseReserve.toNat_lt
        have denominator : pumpFeeDenominator = 10000 := rfl
        obtain ⟨normal, bounded⟩ := ratio_bounded segment.outputCapacity reserve
          market.pumpBaseReserve.toNat (pumpFeeDenominator - totalFeeBps)
          (by unfold DlmmSegment.outputCapacity; omega) reserveFits base (by omega) _
          (List.Perm.refl _) formed
        have margin : interiorRootPrefilterMargin = 32 := rfl
        have outside := excluded_root normal bounded (by omega) excluded rooted
        symm
        rw [Option.eq_none_iff_forall_ne_some]
        intro candidate found
        simp only [Option.bind_eq_bind, Option.bind_eq_some_iff, Option.some.injEq, checked_sub_some] at found
        obtain ⟨_, rfl, _, ⟨rfl, covered⟩, found⟩ := found
        rw [if_pos (by omega)] at found
        cases found
  · rw [if_neg excluded]

/-- The prefilter changes neither interior candidate. -/
theorem prefilter_neutral (segment : DlmmSegment) (fits : segment.outputEnd < 2 ^ 64) :
    (∀ segmentStart segmentEnd : UInt64,
      forwardInteriorCandidate market segment segmentStart.toNat segmentEnd.toNat =
        forwardInteriorUnfiltered market segment segmentStart.toNat segmentEnd.toNat) ∧
      reverseInteriorCandidate market segment = reverseInteriorUnfiltered market segment :=
  ⟨forward_prefilter_neutral market segment fits, reverse_prefilter_neutral market segment fits⟩

def sampleSegment : DlmmSegment where
  inputStart := 0
  inputEnd := 1000
  outputStart := 0
  outputEnd := 1100
  priceQ64 := 2 ^ 64
  feeRate := 0
  swapForY := true
  feeOnInput := true
  usedIndices := [0]

theorem prefilter_neutral_sample :
    forwardInteriorCandidate PumpQuotes.roundingMarket sampleSegment (1 : UInt64).toNat (900 : UInt64).toNat =
        forwardInteriorUnfiltered PumpQuotes.roundingMarket sampleSegment (1 : UInt64).toNat
          (900 : UInt64).toNat ∧
      reverseInteriorCandidate PumpQuotes.roundingMarket sampleSegment =
        reverseInteriorUnfiltered PumpQuotes.roundingMarket sampleSegment :=
  ⟨(prefilter_neutral PumpQuotes.roundingMarket sampleSegment (by decide)).1 1 900,
    (prefilter_neutral PumpQuotes.roundingMarket sampleSegment (by decide)).2⟩

end Candidates

end ArbExecutor.RootPrefilter
