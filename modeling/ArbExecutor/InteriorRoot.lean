import ArbExecutor.RelativeError
import ArbExecutor.RootPrefilter

/-!
How far the interior root is from the exact one. The operands are words, which a
mantissa holds exactly; every multiplication and division is short by less than a
unit or two in the last place, and the root of the result is floored once. All of
it together moves the root by at most one.
-/

namespace ArbExecutor.InteriorRoot

open Checked BestDirection DynamicAmount NormalizedValue RelativeError RootPrefilter

section Steps

/-- A unit in the last place of a mantissa, relative to its least value. -/
def roundoff : ℚ := 1 / 2 ^ 63

theorem roundoff_nonnegative : 0 ≤ roundoff := by
  unfold roundoff
  positivity

theorem value_positive {number : Normalized} (normal : Normal number) : 0 < value number :=
  (zpow_pos (by norm_num) _).trans_le (value_bounds normal).1

theorem last_place_within {number : Normalized} (normal : Normal number) :
    lastPlace number ≤ roundoff * value number := by
  have place := last_place_le normal
  unfold roundoff
  rw [one_div_mul_eq_div, le_div_iff₀ (by positivity)]
  exact place

theorem word_exact {operand : ℕ} (nonzero : operand ≠ 0) (fits : operand < 2 ^ 64) :
    ∃ number, Normalized.fromU128 operand = some number ∧ Normal number ∧ value number = operand ∧
      0 ≤ number.exponent ∧ number.exponent ≤ 63 := by
  have short := log_two_lt (by decide) fits
  have read : Normalized.fromU128 operand = some
      { mantissa := operand * 2 ^ (64 - (Nat.log2 operand + 1))
        exponent := ((Nat.log2 operand + 1 : ℕ) : ℤ) - 1 } := by
    unfold Normalized.fromU128
    dsimp only
    rw [if_neg nonzero, if_pos short]
  have normal := (from_u128_some read).1
  exact ⟨_, read, normal, short_exact short, by dsimp only; omega, by dsimp only; omega⟩

variable {left right : Normalized}

theorem multiply_ok (leftNormal : Normal left) (rightNormal : Normal right)
    (low : -2 ^ 30 ≤ left.exponent + right.exponent) (high : left.exponent + right.exponent ≤ 2 ^ 30) :
    ∃ product, left.multiply right = some product ∧ Normal product ∧
      left.exponent + right.exponent ≤ product.exponent ∧
      product.exponent ≤ left.exponent + right.exponent + 1 ∧
      Below roundoff 1 (value left * value right) (value product) := by
  have wide : left.mantissa * right.mantissa < 2 ^ 64 * 2 ^ 64 :=
    Nat.mul_lt_mul'' leftNormal.2 rightNormal.2
  obtain ⟨product, multiplied, grown⟩ : ∃ product, left.multiply right = some product ∧
      left.exponent + right.exponent ≤ product.exponent := by
    unfold Normalized.multiply
    rw [checked_mul_fits (by omega), (checked_signed_some 32 _ _).mpr ⟨rfl, by omega, by omega⟩]
    simp only [Option.bind_eq_bind, Option.bind_some]
    split
    · rw [(checked_signed_some 32 _ _).mpr ⟨rfl, by omega, by omega⟩, narrow_fits (by omega)]
      exact ⟨_, rfl, by dsimp only; omega⟩
    · rw [narrow_fits (by omega)]
      exact ⟨_, rfl, le_rfl⟩
  obtain ⟨normal, bounded, below, above⟩ := multiply_some leftNormal rightNormal multiplied
  refine ⟨product, multiplied, normal, grown, bounded, below_of_short below roundoff_nonnegative ?_⟩
  have place := last_place_within normal
  push_cast
  linarith

/-- The quotient of the mantissas is short of the exact one by less than its unit. -/
theorem quotient_bounds (left : Normalized) (rightNormal : Normal right) :
    ((left.mantissa * 2 ^ 63 / right.mantissa : ℕ) : ℚ) * 2 ^ (left.exponent - right.exponent - 63) ≤
        value left / value right ∧
      value left / value right ≤
        ((left.mantissa * 2 ^ 63 / right.mantissa + 1 : ℕ) : ℚ) * 2 ^ (left.exponent - right.exponent - 63) := by
  have positive : 0 < right.mantissa := (Nat.two_pow_pos 63).trans_le rightNormal.1
  have unit : (0 : ℚ) < 2 ^ (left.exponent - 63 - (63 : ℕ)) := zpow_pos (by norm_num) _
  have scaled (quotient : ℕ) : (quotient : ℚ) * 2 ^ (left.exponent - right.exponent - 63) * value right =
      (quotient * right.mantissa : ℕ) * 2 ^ (left.exponent - 63 - (63 : ℕ)) := by
    rw [show left.exponent - 63 - ((63 : ℕ) : ℤ) =
      left.exponent - right.exponent - 63 + (right.exponent - 63) by omega, zpow_add₀ (by norm_num)]
    unfold value lastPlace
    push_cast
    ring
  have whole : value left = (left.mantissa * 2 ^ 63 : ℕ) * 2 ^ (left.exponent - 63 - (63 : ℕ)) := by
    unfold value lastPlace
    rw [power_split (left.exponent - 63) 63]
    push_cast
    ring
  have rest := Nat.lt_div_mul_add (a := left.mantissa * 2 ^ 63) positive
  rw [le_div_iff₀ (value_positive rightNormal), div_le_iff₀ (value_positive rightNormal), scaled, scaled, whole]
  constructor
  · exact mul_le_mul_of_nonneg_right (Nat.cast_le.mpr (Nat.div_mul_le_self _ _)) unit.le
  · refine mul_le_mul_of_nonneg_right (Nat.cast_le.mpr ?_) unit.le
    rw [Nat.add_mul, Nat.one_mul]
    exact rest.le

/-- A step that is short by less than two last places of its result. -/
theorem below_of_place {number : Normalized} (normal : Normal number) {exact floor scale : ℚ}
    (same : value number = floor * scale) (place : scale ≤ 2 * lastPlace number)
    (under : floor * scale ≤ exact) (short : exact ≤ floor * scale + scale) :
    Below roundoff 2 exact (value number) := by
  have lost := last_place_within normal
  rw [← same] at under short
  refine below_of_short under roundoff_nonnegative ?_
  push_cast
  linarith

/-- A quotient below the least mantissa is doubled. -/
theorem divide_forms (low : -2 ^ 30 ≤ left.exponent - right.exponent)
    (high : left.exponent - right.exponent ≤ 2 ^ 30)
    (small : left.mantissa * 2 ^ 63 / right.mantissa < 2 ^ 64) :
    left.divide right = some
      (if left.mantissa * 2 ^ 63 / right.mantissa < 2 ^ 63 then
        { mantissa := left.mantissa * 2 ^ 63 / right.mantissa * 2
          exponent := left.exponent - right.exponent - 1 }
      else
        { mantissa := left.mantissa * 2 ^ 63 / right.mantissa
          exponent := left.exponent - right.exponent }) := by
  have level : checkedSigned 32 (left.exponent - right.exponent) = some (left.exponent - right.exponent) :=
    (checked_signed_some 32 _ _).mpr ⟨rfl, by omega, by omega⟩
  have lowered : checkedSigned 32 (left.exponent - right.exponent - 1) =
      some (left.exponent - right.exponent - 1) :=
    (checked_signed_some 32 _ _).mpr ⟨rfl, by omega, by omega⟩
  unfold Normalized.divide
  rw [level]
  generalize left.mantissa * 2 ^ 63 / right.mantissa = quotient at small ⊢
  rw [Option.bind_eq_bind, Option.bind_some]
  by_cases short : quotient < 2 ^ 63
  · rw [if_pos short, if_pos short, lowered, narrow_fits (by omega)]
    rfl
  · rw [if_neg short, if_neg short, narrow_fits small]
    rfl

theorem divide_ok (leftNormal : Normal left) (rightNormal : Normal right)
    (low : -2 ^ 30 ≤ left.exponent - right.exponent) (high : left.exponent - right.exponent ≤ 2 ^ 30) :
    ∃ quotient, left.divide right = some quotient ∧ Normal quotient ∧
      left.exponent - right.exponent - 1 ≤ quotient.exponent ∧
      quotient.exponent ≤ left.exponent - right.exponent ∧
      Below roundoff 2 (value left / value right) (value quotient) := by
  have small : left.mantissa * 2 ^ 63 / right.mantissa < 2 ^ 64 := by
    rw [Nat.div_lt_iff_lt_mul ((Nat.two_pow_pos 63).trans_le rightNormal.1)]
    have wide := leftNormal.2
    have tall := rightNormal.1
    omega
  have divided := divide_forms low high small
  obtain ⟨normal, bounded⟩ := divide_some leftNormal rightNormal divided
  obtain ⟨under, short⟩ := quotient_bounds left rightNormal
  generalize left.mantissa * 2 ^ 63 / right.mantissa = floor at *
  push_cast at short
  rw [add_mul, one_mul] at short
  refine ⟨_, divided, normal, ?_, bounded, ?_⟩
  · split <;> dsimp only <;> omega
  -- A quotient below 2 ^ 63 is doubled to stay normal; the bit it lacks is the second unit of the error.
  by_cases doubled : floor < 2 ^ 63
  · have halved : (2 : ℚ) ^ (left.exponent - right.exponent - 63) =
        2 * 2 ^ (left.exponent - right.exponent - 1 - 63) := by
      rw [power_split _ 1, show left.exponent - right.exponent - 63 - ((1 : ℕ) : ℤ) =
        left.exponent - right.exponent - 1 - 63 by omega, pow_one]
    rw [if_pos doubled] at normal ⊢
    refine below_of_place normal ?_ halved.le under short
    unfold value lastPlace
    dsimp only
    rw [halved]
    push_cast
    ring
  · have unit : (0 : ℚ) < 2 ^ (left.exponent - right.exponent - 63) := zpow_pos (by norm_num) _
    rw [if_neg doubled] at normal ⊢
    refine below_of_place normal rfl ?_ under short
    unfold lastPlace
    dsimp only
    linarith

end Steps

section Ratio

/-- Nonzero operands that fit a word. -/
def Words (operands : List ℕ) : Prop := ∀ operand ∈ operands, operand ≠ 0 ∧ operand < 2 ^ 64

def exactProduct (operands : List ℕ) : ℚ := (operands.map (Nat.cast : ℕ → ℚ)).prod

def exactRatio (numerators denominators : List ℕ) : ℚ :=
  exactProduct numerators / exactProduct denominators

theorem product_cons (first : ℕ) (rest : List ℕ) :
    exactProduct (first :: rest) = first * exactProduct rest := by
  simp [exactProduct]

theorem product_nonnegative (operands : List ℕ) : 0 ≤ exactProduct operands :=
  List.prod_nonneg fun factor member => by
    obtain ⟨operand, _, rfl⟩ := List.mem_map.mp member
    exact Nat.cast_nonneg operand

theorem units_small {count : ℕ} (few : count ≤ 2 ^ 20) : (count : ℚ) * roundoff ≤ 1 := by
  have cast : (count : ℚ) ≤ 2 ^ 20 := by exact_mod_cast few
  unfold roundoff
  linarith

theorem multiply_all_ok (factors : List ℕ) {start : Normalized} (normal : Normal start)
    (words : Words factors) (low : -2 ^ 20 ≤ start.exponent)
    (high : start.exponent + 64 * factors.length ≤ 2 ^ 20) :
    ∃ product, multiplyAll start factors = some product ∧ Normal product ∧
      start.exponent ≤ product.exponent ∧ product.exponent ≤ start.exponent + 64 * factors.length ∧
      Below roundoff factors.length (value start * exactProduct factors) (value product) := by
  -- Each factor adds one rounding unit and at most 64 to the exponent.
  induction factors generalizing start with
  | nil =>
      refine ⟨start, rfl, normal, le_rfl, by simp, ?_⟩
      simpa [exactProduct] using below_refl roundoff (value start)
  | cons first rest ih =>
      obtain ⟨nonzero, fits⟩ := words first List.mem_cons_self
      obtain ⟨factor, read, factorNormal, exact, least, most⟩ := word_exact nonzero fits
      rw [List.length_cons] at high ⊢
      push_cast at high ⊢
      obtain ⟨next, once, nextNormal, grown, bounded, near⟩ :=
        multiply_ok normal factorNormal (by omega) (by omega)
      obtain ⟨product, multiplied, productNormal, further, limit, below⟩ :=
        ih nextNormal (fun operand member => words operand (List.mem_cons_of_mem first member))
          (by omega) (by omega)
      refine ⟨product, ?_, productNormal, by omega, by omega, ?_⟩
      · simp only [multiplyAll, Option.bind_eq_bind, read, Option.bind_some, once, multiplied]
      · rw [exact] at near
        have scaled := below_mul (product_nonnegative rest) near
        rw [product_cons, ← mul_assoc, Nat.add_comm]
        have positive := value_positive normal
        have remaining := product_nonnegative rest
        exact below_trans (by positivity) roundoff_nonnegative (units_small (by omega)) scaled below

theorem divide_all_ok (factors : List ℕ) {start : Normalized} (normal : Normal start)
    (words : Words factors) (low : -2 ^ 20 ≤ start.exponent - 64 * factors.length)
    (high : start.exponent ≤ 2 ^ 20) :
    ∃ quotient, divideAll start factors = some quotient ∧ Normal quotient ∧
      start.exponent - 64 * factors.length ≤ quotient.exponent ∧ quotient.exponent ≤ start.exponent ∧
      Below roundoff (2 * factors.length) (value start / exactProduct factors) (value quotient) := by
  induction factors generalizing start with
  | nil =>
      refine ⟨start, rfl, normal, by simp, le_rfl, ?_⟩
      simpa [exactProduct] using below_refl roundoff (value start)
  | cons first rest ih =>
      obtain ⟨nonzero, fits⟩ := words first List.mem_cons_self
      obtain ⟨factor, read, factorNormal, exact, least, most⟩ := word_exact nonzero fits
      rw [List.length_cons] at low ⊢
      push_cast at low ⊢
      -- A division costs two units: the dropped remainder, and the bit lost to normalization.
      obtain ⟨next, once, nextNormal, shrunk, bounded, near⟩ :=
        divide_ok normal factorNormal (by omega) (by omega)
      obtain ⟨quotient, divided, quotientNormal, further, limit, below⟩ :=
        ih nextNormal (fun operand member => words operand (List.mem_cons_of_mem first member))
          (by omega) (by omega)
      refine ⟨quotient, ?_, quotientNormal, by omega, by omega, ?_⟩
      · simp only [divideAll, Option.bind_eq_bind, read, Option.bind_some, once, divided]
      · rw [exact] at near
        have scaled := below_div (product_nonnegative rest) near
        have positive := value_positive normal
        have remaining := product_nonnegative rest
        rw [product_cons, ← div_div, show 2 * (rest.length + 1) = 2 + 2 * rest.length by omega]
        exact below_trans (by positivity) roundoff_nonnegative (units_small (by omega)) scaled below

/-- On words every operation of the ratio succeeds; the losses add up. -/
theorem product_ratio_ok {numerators denominators : List ℕ} (above : Words numerators)
    (below : Words denominators) (few : numerators.length ≤ 4) (two : denominators.length ≤ 2) :
    ∃ ratio, normalizedProductRatio numerators denominators = some ratio ∧ Normal ratio ∧
      -128 ≤ ratio.exponent ∧ ratio.exponent ≤ 256 ∧
      Below roundoff 8 (exactRatio numerators denominators) (value ratio) := by
  obtain ⟨one, read, oneNormal, exact, least, most⟩ := word_exact one_ne_zero (by decide : 1 < 2 ^ 64)
  have zero : one.exponent = 0 := by
    obtain ⟨-, level, -⟩ := from_u128_some read
    rw [level]
    decide
  obtain ⟨product, multiplied, productNormal, grown, bounded, near⟩ :=
    multiply_all_ok numerators oneNormal above (by omega) (by omega)
  obtain ⟨ratio, divided, normal, shrunk, limit, close⟩ :=
    divide_all_ok denominators productNormal below (by omega) (by omega)
  refine ⟨ratio, ?_, normal, by omega, by omega, ?_⟩
  · simp only [normalizedProductRatio, Option.bind_eq_bind, read, Option.bind_some, multiplied, divided]
  · have unit : value one = 1 := by
      rw [exact, Nat.cast_one]
    rw [unit, one_mul] at near
    have ratioed := below_div (product_nonnegative denominators) near
    have nonnegative := div_nonneg (product_nonnegative numerators) (product_nonnegative denominators)
    have total := below_trans nonnegative roundoff_nonnegative (units_small (by omega)) ratioed close
    exact below_more nonnegative roundoff_nonnegative (by omega) total

end Ratio

section Root

/-- Eight units off, a root of at most sixty bits moves by at most one. -/
theorem root_close {exact approx : ℚ} {root floor : ℕ} (below : Below roundoff 8 exact approx)
    (rootLow : (root : ℚ) ^ 2 ≤ approx) (rootHigh : approx < ((root : ℚ) + 1) ^ 2)
    (floorLow : (floor : ℚ) ^ 2 ≤ exact) (floorHigh : exact < ((floor : ℚ) + 1) ^ 2)
    (small : floor < 2 ^ 60) : root ≤ floor ∧ floor ≤ root + 1 := by
  constructor
  · have ordered : (root : ℚ) < (floor : ℚ) + 1 :=
      lt_of_pow_lt_pow_left₀ 2 (by positivity) (rootLow.trans_lt (below.2.trans_lt floorHigh))
    exact Nat.lt_succ_iff.mp (by exact_mod_cast ordered)
  · by_contra far
    have apart : (root : ℚ) + 2 ≤ floor := by
      have whole : root + 2 ≤ floor := by omega
      exact_mod_cast whole
    have sixty : (floor : ℚ) ≤ 2 ^ 60 := by exact_mod_cast small.le
    -- Eight units of a square below 2 ^ 120 are at most its root, so two whole steps cannot be lost.
    have shortage : (floor : ℚ) ^ 2 * (8 * roundoff) ≤ floor := by
      unfold roundoff
      nlinarith
    have kept : (floor : ℚ) ^ 2 * (1 - 8 * roundoff) ≤ approx := by
      have room : (0 : ℚ) ≤ 1 - 8 * roundoff := by
        unfold roundoff
        norm_num
      refine (mul_le_mul_of_nonneg_right floorLow room).trans ?_
      exact_mod_cast below.1
    have squared : ((root : ℚ) + 1) ^ 2 ≤ ((floor : ℚ) - 1) ^ 2 :=
      pow_le_pow_left₀ (by positivity) (by linarith) 2
    have nonnegative : (0 : ℚ) ≤ root := Nat.cast_nonneg root
    linarith

theorem floor_root_bounds {exact : ℚ} (nonnegative : 0 ≤ exact) :
    ((⌊Real.sqrt exact⌋₊ : ℕ) : ℚ) ^ 2 ≤ exact ∧ exact < (((⌊Real.sqrt exact⌋₊ : ℕ) : ℚ) + 1) ^ 2 := by
  have cast : (0 : ℝ) ≤ exact := by exact_mod_cast nonnegative
  have low : ((⌊Real.sqrt exact⌋₊ : ℕ) : ℝ) ^ 2 ≤ exact := by
    rw [← Real.le_sqrt (by positivity) cast]
    exact Nat.floor_le (Real.sqrt_nonneg _)
  have high : (exact : ℝ) < (((⌊Real.sqrt exact⌋₊ : ℕ) : ℝ) + 1) ^ 2 := by
    rw [← Real.sqrt_lt' (by positivity)]
    exact Nat.lt_floor_add_one _
  exact ⟨by exact_mod_cast low, by exact_mod_cast high⟩

/-- The floored root of a ratio of words is within two of the floored exact root, as
long as that one is short enough. -/
theorem ratio_root_close {numerators denominators : List ℕ} (above : Words numerators)
    (below : Words denominators) (few : numerators.length ≤ 4) (two : denominators.length ≤ 2) :
    ∃ ratio, normalizedProductRatio numerators denominators = some ratio ∧ Normal ratio ∧
      -128 ≤ ratio.exponent ∧
      (Real.sqrt (exactRatio numerators denominators) < 2 ^ 60 → ∃ root, ratio.sqrtFloor = some root ∧
        ((root : ℤ) - ⌊Real.sqrt (exactRatio numerators denominators)⌋₊).natAbs ≤ 2) := by
  obtain ⟨ratio, formed, normal, low, -, near⟩ := product_ratio_ok above below few two
  refine ⟨ratio, formed, normal, low, fun short => ?_⟩
  have nonnegative : 0 ≤ exactRatio numerators denominators :=
    div_nonneg (product_nonnegative numerators) (product_nonnegative denominators)
  have limit : exactRatio numerators denominators < 2 ^ (120 : ℤ) := by
    rw [Real.sqrt_lt' (by positivity)] at short
    have squared : exactRatio numerators denominators < (2 ^ 60) ^ 2 := by exact_mod_cast short
    norm_num at squared ⊢
    exact squared
  -- A root below 2 ^ 60 keeps the ratio below 2 ^ 120, which leaves the shift of the root in range.
  have bounded : ratio.exponent < 120 := by
    rw [← zpow_lt_zpow_iff_right₀ (by norm_num : (1 : ℚ) < 2)]
    exact (value_bounds normal).1.trans_lt (near.2.trans_lt limit)
  obtain ⟨root, rooted⟩ := sqrt_floor_total normal low (by omega)
  obtain ⟨floorLow, floorHigh⟩ := floor_root_bounds nonnegative
  have small : ⌊Real.sqrt (exactRatio numerators denominators)⌋₊ < 2 ^ 60 := by
    rw [Nat.floor_lt (Real.sqrt_nonneg _)]
    exact_mod_cast short
  have close := root_close near (sqrt_floor_below normal rooted)
    (sqrt_floor_above normal (by omega) rooted) floorLow floorHigh small
  exact ⟨root, rooted, by omega⟩

end Root

section Operands
variable (market : MarketState) (segment : DlmmSegment)

/-- The numerators and denominators of the forward candidate. -/
def forwardOperands : Option (List ℕ × List ℕ) := do
  let totalFeeBps ← pumpTotalFeeBps market
  let effectiveQuoteReserve ← effectiveQuoteReserve market
  let feeFactor ← checkedAdd 128 pumpFeeDenominator totalFeeBps
  pure ([segment.outputCapacity, market.pumpBaseReserve.toNat, pumpFeeDenominator, effectiveQuoteReserve],
    [segment.inputCapacity, feeFactor])

/-- The numerators and denominators of the reverse candidate. -/
def reverseOperands : Option (List ℕ × List ℕ) := do
  let totalFeeBps ← pumpTotalFeeBps market
  if pumpFeeDenominator ≤ totalFeeBps then none
  else do
    let effectiveQuoteReserve ← effectiveQuoteReserve market
    let netFactor ← checkedSub pumpFeeDenominator totalFeeBps
    pure ([segment.outputCapacity, effectiveQuoteReserve, market.pumpBaseReserve.toNat, netFactor],
      [segment.inputCapacity, pumpFeeDenominator])

/-- A candidate comes from the root of the ratio of its operands. -/
def FromRoot (operands : Option (List ℕ × List ℕ)) : Prop :=
  ∃ numerators denominators ratio root, operands = some (numerators, denominators) ∧
    normalizedProductRatio numerators denominators = some ratio ∧ ratio.sqrtFloor = some root

theorem forward_from_root {segmentStart segmentEnd candidate : ℕ}
    (found : forwardInteriorCandidate market segment segmentStart segmentEnd = some candidate) :
    FromRoot (forwardOperands market segment) := by
  simp only [forwardInteriorCandidate, Option.bind_eq_bind, Option.bind_eq_some_iff] at found
  obtain ⟨totalFeeBps, fees, reserve, summed, feeFactor, added, ratio, formed, _, _, _, _, _, _, _, _, _, _,
    found⟩ := found
  split at found
  · cases found
  · obtain ⟨root, rooted, -⟩ := Option.bind_eq_some_iff.mp found
    refine ⟨_, _, ratio, root, ?_, formed, rooted⟩
    simp only [forwardOperands, Option.bind_eq_bind, fees, summed, added, Option.bind_some]
    rfl

theorem reverse_from_root {candidate : ℕ}
    (found : reverseInteriorCandidate market segment = some candidate) :
    FromRoot (reverseOperands market segment) := by
  unfold reverseInteriorCandidate at found
  obtain ⟨totalFeeBps, fees, found⟩ := Option.bind_eq_some_iff.mp found
  split at found
  · cases found
  next partly =>
    obtain ⟨reserve, summed, found⟩ := Option.bind_eq_some_iff.mp found
    obtain ⟨netFactor, net, found⟩ := Option.bind_eq_some_iff.mp found
    obtain ⟨ratio, formed, found⟩ := Option.bind_eq_some_iff.mp found
    obtain ⟨_, _, found⟩ := Option.bind_eq_some_iff.mp found
    obtain ⟨_, _, found⟩ := Option.bind_eq_some_iff.mp found
    split at found
    · cases found
    · obtain ⟨root, rooted, -⟩ := Option.bind_eq_some_iff.mp found
      refine ⟨_, _, ratio, root, ?_, formed, rooted⟩
      simp only [reverseOperands, Option.bind_eq_bind, fees, Option.bind_some, if_neg partly, summed, net]
      rfl

/-- Lists short enough for the losses, of operands that fit a word. -/
def Short (numerators denominators : List ℕ) : Prop :=
  (∀ operand ∈ numerators ++ denominators, operand < 2 ^ 64) ∧
    numerators.length ≤ 4 ∧ denominators.length ≤ 2

variable {market segment} {numerators denominators : List ℕ}

theorem total_fee_small {totalFeeBps : ℕ} (fees : pumpTotalFeeBps market = some totalFeeBps) :
    totalFeeBps < 2 ^ 18 := by
  simp only [pumpTotalFeeBps, Option.bind_eq_bind, Option.bind_eq_some_iff, checked_add_some] at fees
  obtain ⟨_, ⟨rfl, _⟩, rfl, _⟩ := fees
  have lp := market.pumpFees.lpFeeBps.toNat_lt
  have protocol := market.pumpFees.protocolFeeBps.toNat_lt
  have creator := market.pumpFees.creatorFeeBps.toNat_lt
  omega

theorem reserve_word {reserve : ℕ} (summed : effectiveQuoteReserve market = some reserve)
    (reserves : market.pumpQuoteReserve.toNat + market.pumpVirtualQuoteReserve.toNat ≤ wordMax 64) :
    reserve < 2 ^ 64 := by
  obtain ⟨rfl, _⟩ := (checked_add_some _ _ _ _).mp summed
  exact reserves.trans_lt (by decide)

theorem forward_short (inputFits : segment.inputEnd < 2 ^ 64) (outputFits : segment.outputEnd < 2 ^ 64)
    (reserves : market.pumpQuoteReserve.toNat + market.pumpVirtualQuoteReserve.toNat ≤ wordMax 64)
    (built : forwardOperands market segment = some (numerators, denominators)) :
    Short numerators denominators := by
  simp only [forwardOperands, Option.bind_eq_bind, Option.bind_eq_some_iff, checked_add_some] at built
  obtain ⟨totalFeeBps, fees, reserve, summed, _, ⟨rfl, _⟩, same⟩ := built
  cases same
  have fee := total_fee_small fees
  have quote := reserve_word summed reserves
  have base := market.pumpBaseReserve.toNat_lt
  have denominator : pumpFeeDenominator = 10000 := rfl
  refine ⟨?_, le_rfl, le_rfl⟩
  simp only [List.cons_append, List.nil_append, List.forall_mem_cons, DlmmSegment.outputCapacity,
    DlmmSegment.inputCapacity]
  exact ⟨by omega, base, by omega, quote, by omega, by omega, fun _ member => absurd member List.not_mem_nil⟩

theorem reverse_short (inputFits : segment.inputEnd < 2 ^ 64) (outputFits : segment.outputEnd < 2 ^ 64)
    (reserves : market.pumpQuoteReserve.toNat + market.pumpVirtualQuoteReserve.toNat ≤ wordMax 64)
    (built : reverseOperands market segment = some (numerators, denominators)) :
    Short numerators denominators := by
  unfold reverseOperands at built
  obtain ⟨totalFeeBps, fees, built⟩ := Option.bind_eq_some_iff.mp built
  split at built
  · cases built
  simp only [Option.bind_eq_bind, Option.bind_eq_some_iff, checked_sub_some] at built
  obtain ⟨reserve, summed, _, ⟨rfl, _⟩, same⟩ := built
  cases same
  have quote := reserve_word summed reserves
  have base := market.pumpBaseReserve.toNat_lt
  have denominator : pumpFeeDenominator = 10000 := rfl
  refine ⟨?_, le_rfl, le_rfl⟩
  simp only [List.cons_append, List.nil_append, List.forall_mem_cons, DlmmSegment.outputCapacity,
    DlmmSegment.inputCapacity]
  exact ⟨by omega, quote, base, by omega, by omega, by omega, fun _ member => absurd member List.not_mem_nil⟩

/-- Whichever candidate built the operands, their ratio is formed without overflow and
its root is within two of the exact one. -/
theorem interior_root_accurate (market : MarketState) (segment : DlmmSegment)
    (inputFits : segment.inputEnd < 2 ^ 64) (outputFits : segment.outputEnd < 2 ^ 64)
    (reserves : market.pumpQuoteReserve.toNat + market.pumpVirtualQuoteReserve.toNat ≤ wordMax 64)
    (numerators denominators : List ℕ)
    (built : forwardOperands market segment = some (numerators, denominators) ∨
      reverseOperands market segment = some (numerators, denominators))
    (nonzero : ∀ operand ∈ numerators ++ denominators, operand ≠ 0) :
    ∃ ratio, normalizedProductRatio numerators denominators = some ratio ∧ Normal ratio ∧
      -128 ≤ ratio.exponent ∧
      (Real.sqrt (exactRatio numerators denominators) < 2 ^ 60 → ∃ root, ratio.sqrtFloor = some root ∧
        ((root : ℤ) - ⌊Real.sqrt (exactRatio numerators denominators)⌋₊).natAbs ≤ 2) := by
  have short : Short numerators denominators :=
    built.elim (forward_short inputFits outputFits reserves) (reverse_short inputFits outputFits reserves)
  obtain ⟨fits, few, two⟩ := short
  refine ratio_root_close (fun operand member => ?_) (fun operand member => ?_) few two
  · have joined := List.mem_append_left denominators member
    exact ⟨nonzero operand joined, fits operand joined⟩
  · have joined := List.mem_append_right numerators member
    exact ⟨nonzero operand joined, fits operand joined⟩

/-- A segment that pays more than it takes, against a balanced pool. -/
theorem interior_root_accurate_sample :
    ∃ ratio, normalizedProductRatio [1100, 1000000, 10000, 1000000] [1000, 10075] = some ratio ∧ Normal ratio ∧
      -128 ≤ ratio.exponent ∧
      (Real.sqrt (exactRatio [1100, 1000000, 10000, 1000000] [1000, 10075]) < 2 ^ 60 →
        ∃ root, ratio.sqrtFloor = some root ∧
          ((root : ℤ) - ⌊Real.sqrt (exactRatio [1100, 1000000, 10000, 1000000] [1000, 10075])⌋₊).natAbs ≤ 2) :=
  interior_root_accurate PumpQuotes.roundingMarket sampleSegment (by decide) (by decide) (by decide)
    [1100, 1000000, 10000, 1000000] [1000, 10075] (.inl (by decide)) (by decide)

end Operands

end ArbExecutor.InteriorRoot
