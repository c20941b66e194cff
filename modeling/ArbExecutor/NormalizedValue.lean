import ArbExecutor.DynamicAmount

/-!
Normalized 64-bit mantissas as rationals. Every operation truncates, so each
value is a lower bound that is off by less than a unit in its last place, and
the integer root is taken on the truncated value.
-/

namespace ArbExecutor.NormalizedValue

open Checked DynamicAmount

section IntegerRoot

theorem integer_sqrt_iter (value steps estimate : Nat) (enough : estimate ≤ steps) :
    integerSqrtFrom steps value estimate = Nat.sqrt.iter value estimate := by
  induction steps generalizing estimate with
  | zero =>
      obtain rfl : estimate = 0 := Nat.le_zero.mp enough
      rw [Nat.sqrt.iter]
      simp [integerSqrtFrom]
  | succ steps ih =>
      rw [Nat.sqrt.iter]
      simp only [integerSqrtFrom]
      by_cases shrinks : (estimate + value / estimate) / 2 < estimate
      · rw [if_neg (by omega), dif_pos shrinks]
        exact ih _ (by omega)
      · rw [if_pos (by omega), dif_neg shrinks]

/-- Newton's iteration from a power of two at or above the root ends at the root. -/
theorem integer_sqrt_eq (value : Nat) : integerSqrt value = Nat.sqrt value := by
  unfold integerSqrt Nat.sqrt
  by_cases small : value < 2
  · rw [if_pos small, if_pos (by omega)]
  · rw [if_neg small, if_neg (by omega), Nat.one_shiftLeft,
      show (Nat.log2 value + 2) / 2 = Nat.log2 value / 2 + 1 by omega]
    exact integer_sqrt_iter _ _ _ le_rfl

end IntegerRoot

section Values

def Normal (number : Normalized) : Prop := 2 ^ 63 ≤ number.mantissa ∧ number.mantissa < 2 ^ 64

/-- A unit in the last place. -/
def lastPlace (number : Normalized) : ℚ := 2 ^ (number.exponent - 63)

def value (number : Normalized) : ℚ := number.mantissa * lastPlace number

theorem last_place_positive (number : Normalized) : 0 < lastPlace number := zpow_pos (by norm_num) _

theorem power_split (exponent : ℤ) (shift : ℕ) :
    (2 : ℚ) ^ exponent = 2 ^ shift * 2 ^ (exponent - shift) := by
  rw [← zpow_natCast, ← zpow_add₀ (by norm_num)]
  congr 1
  omega

theorem power_le {left right : ℤ} (ordered : left ≤ right) : (2 : ℚ) ^ left ≤ 2 ^ right :=
  zpow_le_zpow_right₀ (by norm_num) ordered

/-- Shifting right by some bits loses less than one unit of the result. -/
theorem truncated (number shift : ℕ) (exponent : ℤ) :
    ((number / 2 ^ shift : ℕ) : ℚ) * 2 ^ exponent ≤ number * 2 ^ (exponent - shift) ∧
      number * 2 ^ (exponent - shift) < ((number / 2 ^ shift : ℕ) : ℚ) * 2 ^ exponent + 2 ^ exponent := by
  have unit : (0 : ℚ) < 2 ^ (exponent - shift) := zpow_pos (by norm_num) _
  have below : ((number / 2 ^ shift * 2 ^ shift : ℕ) : ℚ) ≤ number :=
    Nat.cast_le.mpr (Nat.div_mul_le_self number (2 ^ shift))
  have above : (number : ℚ) < ((number / 2 ^ shift + 1) * 2 ^ shift : ℕ) := by
    refine Nat.cast_lt.mpr ?_
    have rest := Nat.lt_div_mul_add (a := number) (Nat.two_pow_pos shift)
    rw [Nat.add_mul, Nat.one_mul]
    exact rest
  rw [power_split exponent shift]
  push_cast at below above
  constructor
  · rw [← mul_assoc]
    exact mul_le_mul_of_nonneg_right below unit.le
  · rw [← mul_assoc, ← add_mul]
    refine mul_lt_mul_of_pos_right ?_ unit
    linarith

theorem value_bounds {number : Normalized} (normal : Normal number) :
    (2 : ℚ) ^ number.exponent ≤ value number ∧ value number < 2 ^ (number.exponent + 1) := by
  have low : ((2 ^ 63 : ℕ) : ℚ) ≤ number.mantissa := Nat.cast_le.mpr normal.1
  have high : (number.mantissa : ℚ) < ((2 ^ 64 : ℕ) : ℚ) := Nat.cast_lt.mpr normal.2
  have unit := last_place_positive number
  unfold value
  rw [power_split number.exponent 63, power_split (number.exponent + 1) 64,
    show number.exponent + 1 - (64 : ℕ) = number.exponent - 63 by omega]
  push_cast at low high ⊢
  exact ⟨mul_le_mul_of_nonneg_right low unit.le, mul_lt_mul_of_pos_right high unit⟩

/-- A normalized value is off by less than its last place, which is at most a
2^63rd of it. -/
theorem last_place_le {number : Normalized} (normal : Normal number) :
    lastPlace number * 2 ^ 63 ≤ value number := by
  have low := (value_bounds normal).1
  rw [power_split number.exponent 63] at low
  unfold lastPlace
  rw [mul_comm]
  exact_mod_cast low

/-- A number of at most 64 bits is shifted up to a mantissa without loss. -/
theorem short_exact {input : ℕ} (short : Nat.log2 input + 1 ≤ 64) :
    ((input * 2 ^ (64 - (Nat.log2 input + 1)) : ℕ) : ℚ) *
        2 ^ (((Nat.log2 input + 1 : ℕ) : ℤ) - 1 - 63) = input := by
  push_cast
  rw [mul_assoc, ← zpow_natCast, ← zpow_add₀ (by norm_num),
    show ((63 - Nat.log2 input : ℕ) : ℤ) + (((Nat.log2 input : ℤ) + 1) - 1 - 63) = 0 by omega]
  simp

theorem from_u128_some {input : ℕ} {number : Normalized} (read : Normalized.fromU128 input = some number) :
    Normal number ∧ number.exponent = Nat.log2 input ∧ value number ≤ input ∧
      input < value number + lastPlace number := by
  unfold Normalized.fromU128 at read
  split at read
  · cases read
  next nonzero =>
    cases read
    have least := Nat.log2_self_le nonzero
    have most := Nat.lt_log2_self (n := input)
    by_cases short : Nat.log2 input + 1 ≤ 64
    · have exact := short_exact short
      unfold Normal value lastPlace
      simp only [if_pos short]
      have scale : 2 ^ Nat.log2 input * 2 ^ (64 - (Nat.log2 input + 1)) = 2 ^ 63 := by
        rw [← pow_add]
        congr 1
        omega
      have whole : 2 ^ (Nat.log2 input + 1) * 2 ^ (64 - (Nat.log2 input + 1)) = 2 ^ 64 := by
        rw [← pow_add]
        congr 1
        omega
      have unit : (0 : ℚ) < 2 ^ (((Nat.log2 input + 1 : ℕ) : ℤ) - 1 - 63) := zpow_pos (by norm_num) _
      refine ⟨⟨?_, ?_⟩, by push_cast; ring, exact.le, by rw [exact]; linarith⟩
      · rw [← scale]
        exact Nat.mul_le_mul_right _ least
      · rw [← whole]
        exact Nat.mul_lt_mul_of_pos_right most (Nat.two_pow_pos _)
    · have bounds := truncated input (Nat.log2 input + 1 - 64) (((Nat.log2 input + 1 : ℕ) : ℤ) - 1 - 63)
      have level : ((Nat.log2 input + 1 : ℕ) : ℤ) - 1 - 63 - ((Nat.log2 input + 1 - 64 : ℕ) : ℤ) = 0 := by
        omega
      rw [level, zpow_zero, mul_one] at bounds
      unfold Normal value lastPlace
      simp only [if_neg short]
      refine ⟨⟨?_, ?_⟩, by push_cast; ring, bounds⟩
      · rw [Nat.le_div_iff_mul_le (Nat.two_pow_pos _), ← pow_add,
          show 63 + (Nat.log2 input + 1 - 64) = Nat.log2 input by omega]
        exact least
      · rw [Nat.div_lt_iff_lt_mul (Nat.two_pow_pos _), ← pow_add,
          show 64 + (Nat.log2 input + 1 - 64) = Nat.log2 input + 1 by omega]
        exact most

theorem multiply_some {left right product : Normalized} (leftNormal : Normal left)
    (rightNormal : Normal right) (multiplied : left.multiply right = some product) :
    Normal product ∧ product.exponent ≤ left.exponent + right.exponent + 1 ∧
      value product ≤ value left * value right ∧
      value left * value right < value product + lastPlace product := by
  have low : 2 ^ 63 * 2 ^ 63 ≤ left.mantissa * right.mantissa := Nat.mul_le_mul leftNormal.1 rightNormal.1
  have high : left.mantissa * right.mantissa < 2 ^ 64 * 2 ^ 64 := Nat.mul_lt_mul'' leftNormal.2 rightNormal.2
  have exact (shift : ℕ) (exponent : ℤ) (total : exponent - shift = left.exponent - 63 + (right.exponent - 63)) :
      ((left.mantissa * right.mantissa : ℕ) : ℚ) * 2 ^ (exponent - shift) = value left * value right := by
    unfold value lastPlace
    rw [total, zpow_add₀ (by norm_num)]
    push_cast
    ring
  unfold Normalized.multiply at multiplied
  simp only [Option.bind_eq_bind, Option.bind_eq_some_iff, checked_mul_some, checked_signed_some] at multiplied
  obtain ⟨_, ⟨rfl, _⟩, _, ⟨rfl, _⟩, multiplied⟩ := multiplied
  -- A carried product drops one more bit and raises the exponent by one.
  split at multiplied
  next carried =>
    simp only [Option.bind_eq_some_iff, checked_signed_some, narrow_some] at multiplied
    obtain ⟨_, ⟨rfl, _⟩, _, ⟨rfl, fits⟩, same⟩ := multiplied
    cases same
    have halved : left.mantissa * right.mantissa / 2 ^ 63 / 2 = left.mantissa * right.mantissa / 2 ^ 64 := by
      rw [Nat.div_div_eq_div_mul, ← pow_succ]
    have bounds := truncated (left.mantissa * right.mantissa) 64 (left.exponent + right.exponent + 1 - 63)
    rw [exact 64 _ (by omega)] at bounds
    refine ⟨⟨?_, fits⟩, le_rfl, ?_⟩
    · dsimp only
      omega
    · unfold value at bounds ⊢
      unfold lastPlace at bounds ⊢
      dsimp only at bounds ⊢
      rw [halved]
      exact bounds
  next kept =>
    simp only [Option.bind_eq_some_iff, narrow_some] at multiplied
    obtain ⟨_, ⟨rfl, fits⟩, same⟩ := multiplied
    cases same
    have bounds := truncated (left.mantissa * right.mantissa) 63 (left.exponent + right.exponent - 63)
    rw [exact 63 _ (by omega)] at bounds
    refine ⟨⟨?_, fits⟩, by dsimp only; omega, bounds⟩
    rw [Nat.le_div_iff_mul_le (Nat.two_pow_pos 63)]
    exact low

theorem divide_some {left right quotient : Normalized} (leftNormal : Normal left)
    (rightNormal : Normal right) (divided : left.divide right = some quotient) :
    Normal quotient ∧ quotient.exponent ≤ left.exponent - right.exponent := by
  have low : 2 ^ 62 * right.mantissa ≤ left.mantissa * 2 ^ 63 := by
    have wide := rightNormal.2
    have tall := leftNormal.1
    omega
  have floor : 2 ^ 62 ≤ left.mantissa * 2 ^ 63 / right.mantissa := by
    rw [Nat.le_div_iff_mul_le (by have some := rightNormal.1; omega)]
    exact low
  unfold Normalized.divide at divided
  simp only [Option.bind_eq_bind, Option.bind_eq_some_iff, checked_signed_some] at divided
  obtain ⟨_, ⟨rfl, _⟩, divided⟩ := divided
  split at divided
  next doubled =>
    simp only [Option.bind_eq_some_iff, checked_signed_some, narrow_some] at divided
    obtain ⟨_, ⟨rfl, _⟩, _, ⟨rfl, fits⟩, same⟩ := divided
    cases same
    exact ⟨⟨by dsimp only; omega, fits⟩, by dsimp only; omega⟩
  next kept =>
    simp only [Option.bind_eq_some_iff, narrow_some] at divided
    obtain ⟨_, ⟨rfl, fits⟩, same⟩ := divided
    cases same
    exact ⟨⟨by dsimp only; omega, fits⟩, le_rfl⟩

/-- A smaller exponent is a smaller value. -/
theorem value_lt_of_exponent {left right : Normalized} (leftNormal : Normal left)
    (rightNormal : Normal right) (smaller : left.exponent < right.exponent) : value left < value right :=
  calc value left < 2 ^ (left.exponent + 1) := (value_bounds leftNormal).2
    _ ≤ 2 ^ right.exponent := power_le (by omega)
    _ ≤ value right := (value_bounds rightNormal).1

/-- Comparing exponents and then mantissas compares the values. -/
theorem compare_value {left right : Normalized} (leftNormal : Normal left) (rightNormal : Normal right) :
    (left.compare right ≠ .gt → value left ≤ value right) ∧
      (left.compare right ≠ .lt → value right ≤ value left) := by
  unfold Normalized.compare
  rcases lt_trichotomy left.exponent right.exponent with smaller | same | larger
  · have below := value_lt_of_exponent leftNormal rightNormal smaller
    rw [compare_lt_iff_lt.mpr smaller]
    exact ⟨fun _ => below.le, fun different => absurd rfl different⟩
  · have unit : lastPlace left = lastPlace right := by
      unfold lastPlace
      rw [same]
    have positive := last_place_positive right
    rw [compare_eq_iff_eq.mpr same]
    unfold value
    rw [unit]
    rcases lt_trichotomy left.mantissa right.mantissa with fewer | equal | more
    · have cast : (left.mantissa : ℚ) ≤ right.mantissa := Nat.cast_le.mpr fewer.le
      rw [compare_lt_iff_lt.mpr fewer]
      exact ⟨fun _ => mul_le_mul_of_nonneg_right cast positive.le, fun different => absurd rfl different⟩
    · rw [equal]
      exact ⟨fun _ => le_rfl, fun _ => le_rfl⟩
    · have cast : (right.mantissa : ℚ) ≤ left.mantissa := Nat.cast_le.mpr more.le
      rw [compare_gt_iff_gt.mpr more]
      exact ⟨fun different => absurd rfl different, fun _ => mul_le_mul_of_nonneg_right cast positive.le⟩
  · have above := value_lt_of_exponent rightNormal leftNormal larger
    rw [compare_gt_iff_gt.mpr larger]
    exact ⟨fun different => absurd rfl different, fun _ => above.le⟩

end Values

section Root

theorem square_scaled (radicand : ℕ) (half : ℤ) :
    ((radicand * 2 ^ 63 : ℕ) : ℚ) * (2 ^ (half - 63)) ^ 2 = radicand * 2 ^ (2 * half - 63) := by
  have double : ((2 : ℚ) ^ (half - 63)) ^ 2 = 2 ^ (2 * half - 126) := by
    rw [← zpow_natCast, ← zpow_mul]
    congr 1
    push_cast
    ring
  rw [double, power_split (2 * half - 63) 63, show 2 * half - 63 - ((63 : ℕ) : ℤ) = 2 * half - 126 by omega]
  push_cast
  ring

/-- A root is the integer root of an evenly scaled radicand, shifted back. -/
theorem sqrt_floor_some {number : Normalized} (normal : Normal number) {root : ℕ}
    (rooted : number.sqrtFloor = some root) :
    ∃ (radicand : ℕ) (half : ℤ), 2 ^ 63 ≤ Nat.sqrt radicand ∧ Nat.sqrt radicand < 2 ^ 64 ∧
        2 * half ≤ number.exponent ∧
      value number = radicand * (2 ^ (half - 63)) ^ 2 ∧
      (63 ≤ half ∧ root = Nat.sqrt radicand * 2 ^ (half - 63).toNat % 2 ^ 128 ∨
        half < 63 ∧ root = Nat.sqrt radicand / 2 ^ (63 - half).toNat) := by
  -- Both parities end in the same shift; an odd exponent only doubles the mantissa before it.
  have shifted (mantissa : ℕ) (half : ℤ) (large : 2 ^ 63 ≤ mantissa) (small : mantissa < 2 ^ 65)
      (same : value number = mantissa * 2 ^ (2 * half - 63)) (near : 2 * half ≤ number.exponent)
      (ran : ((checkedSigned 32 ((2 * half).tdiv 2 - 63)).bind fun shift =>
        if 0 ≤ shift then
          if shift < 128 then some (integerSqrt (mantissa * 2 ^ 63) * 2 ^ shift.toNat % 2 ^ 128) else none
        else some (integerSqrt (mantissa * 2 ^ 63) / 2 ^ shift.natAbs)) = some root) :
      ∃ (radicand : ℕ) (half : ℤ), 2 ^ 63 ≤ Nat.sqrt radicand ∧ Nat.sqrt radicand < 2 ^ 64 ∧
        2 * half ≤ number.exponent ∧
        value number = radicand * (2 ^ (half - 63)) ^ 2 ∧
        (63 ≤ half ∧ root = Nat.sqrt radicand * 2 ^ (half - 63).toNat % 2 ^ 128 ∨
          half < 63 ∧ root = Nat.sqrt radicand / 2 ^ (63 - half).toNat) := by
    rw [integer_sqrt_eq, Int.mul_tdiv_cancel_left half (by decide)] at ran
    obtain ⟨_, range, ran⟩ := Option.bind_eq_some_iff.mp ran
    obtain ⟨rfl, _⟩ := (checked_signed_some _ _ _).mp range
    refine ⟨mantissa * 2 ^ 63, half, ?_, ?_, near, by rw [same, square_scaled], ?_⟩
    · rw [Nat.le_sqrt]
      exact Nat.mul_le_mul_right _ large
    · rw [Nat.sqrt_lt]
      omega
    · split at ran
      next left =>
        split at ran
        · cases ran
          exact .inl ⟨by omega, rfl⟩
        · cases ran
      next right =>
        cases ran
        exact .inr ⟨by omega, by rw [show (63 - half).toNat = (half - 63).natAbs by omega]⟩
  unfold Normalized.sqrtFloor at rooted
  simp only [Option.bind_eq_bind] at rooted
  by_cases odd : number.exponent % 2 ≠ 0
  · rw [if_pos odd] at rooted
    simp only [Option.bind_eq_some_iff, checked_mul_some, checked_signed_some, Option.pure_def,
      Option.some.injEq] at rooted
    obtain ⟨_, ⟨rfl, _⟩, _, ⟨rfl, _⟩, _, rfl, shift, range, rooted⟩ := rooted
    have whole : number.exponent - 1 = 2 * (number.exponent / 2) := by omega
    refine shifted (number.mantissa * 2) (number.exponent / 2) ?_ ?_ ?_ (by omega) ?_
    · exact normal.1.trans (Nat.le_mul_of_pos_right _ (by decide))
    · have bounded := normal.2
      omega
    · unfold value lastPlace
      rw [power_split (number.exponent - 63) 1, show number.exponent - 63 - ((1 : ℕ) : ℤ) =
        2 * (number.exponent / 2) - 63 by omega]
      push_cast
      ring
    · rw [← whole]
      exact Option.bind_eq_some_iff.mpr ⟨shift, (checked_signed_some _ _ _).mpr range, rooted⟩
  · rw [if_neg odd] at rooted
    have whole : number.exponent = 2 * (number.exponent / 2) := by omega
    refine shifted number.mantissa (number.exponent / 2) normal.1 ?_ ?_ (by omega) ?_
    · exact normal.2.trans (by decide)
    · unfold value lastPlace
      rw [← whole]
    · rw [← whole]
      exact rooted

/-- The root never exceeds the exact one. -/
theorem sqrt_floor_below {number : Normalized} (normal : Normal number) {root : ℕ}
    (rooted : number.sqrtFloor = some root) : (root : ℚ) ^ 2 ≤ value number := by
  obtain ⟨radicand, half, _, _, _, same, shifted⟩ := sqrt_floor_some normal rooted
  have positive : (0 : ℚ) < 2 ^ (half - 63) := zpow_pos (by norm_num) _
  have within : (root : ℚ) ≤ Nat.sqrt radicand * 2 ^ (half - 63) := by
    rcases shifted with ⟨above, rfl⟩ | ⟨below, rfl⟩
    · have kept : ((Nat.sqrt radicand * 2 ^ (half - 63).toNat % 2 ^ 128 : ℕ) : ℚ) ≤
          ((Nat.sqrt radicand * 2 ^ (half - 63).toNat : ℕ) : ℚ) := Nat.cast_le.mpr (Nat.mod_le _ _)
      refine kept.trans (le_of_eq ?_)
      push_cast
      rw [← zpow_natCast, Int.toNat_of_nonneg (by omega)]
    · have bounds := (truncated (Nat.sqrt radicand) (63 - half).toNat 0).1
      rwa [zpow_zero, mul_one, Int.toNat_of_nonneg (by omega), show (0 : ℤ) - (63 - half) = half - 63 by omega]
        at bounds
  have squared : ((Nat.sqrt radicand ^ 2 : ℕ) : ℚ) ≤ radicand := Nat.cast_le.mpr (Nat.sqrt_le' radicand)
  push_cast at squared
  calc (root : ℚ) ^ 2 ≤ (Nat.sqrt radicand * 2 ^ (half - 63)) ^ 2 :=
        pow_le_pow_left₀ (Nat.cast_nonneg root) within 2
    _ = (Nat.sqrt radicand : ℚ) ^ 2 * (2 ^ (half - 63)) ^ 2 := mul_pow _ _ 2
    _ ≤ radicand * (2 ^ (half - 63)) ^ 2 := mul_le_mul_of_nonneg_right squared (by positivity)
    _ = value number := same.symm

/-- The next integer after the root of a radicand is beyond the scaled radicand. -/
theorem radicand_next (radicand : ℕ) {scale : ℚ} (positive : 0 < scale) :
    (radicand : ℚ) * scale ^ 2 < ((Nat.sqrt radicand + 1 : ℕ) * scale) ^ 2 := by
  have next : (radicand : ℚ) < ((Nat.sqrt radicand + 1) ^ 2 : ℕ) :=
    Nat.cast_lt.mpr (Nat.lt_succ_sqrt' radicand)
  calc (radicand : ℚ) * scale ^ 2 < ((Nat.sqrt radicand + 1) ^ 2 : ℕ) * scale ^ 2 :=
        mul_lt_mul_of_pos_right next (by positivity)
    _ = ((Nat.sqrt radicand + 1 : ℕ) * scale) ^ 2 := by push_cast; ring

/-- Where the shift fits its word, the root is close to every smaller square. -/
theorem sqrt_floor_near {number : Normalized} (normal : Normal number) (bounded : number.exponent < 256)
    {root : ℕ} (rooted : number.sqrtFloor = some root) {target : ℕ} (small : target < 2 ^ 66)
    (squared : (target : ℚ) ^ 2 ≤ value number) : target ≤ root + 3 := by
  obtain ⟨radicand, half, large, word, near, same, shifted⟩ := sqrt_floor_some normal rooted
  have positive : (0 : ℚ) < 2 ^ (half - 63) := zpow_pos (by norm_num) _
  have above : (target : ℚ) < (Nat.sqrt radicand + 1 : ℕ) * 2 ^ (half - 63) := by
    refine lt_of_pow_lt_pow_left₀ 2 (by positivity) ?_
    calc (target : ℚ) ^ 2 ≤ radicand * (2 ^ (half - 63)) ^ 2 := squared.trans same.le
      _ < ((Nat.sqrt radicand + 1 : ℕ) * 2 ^ (half - 63)) ^ 2 := radicand_next radicand positive
  -- Shifted up by three or more the root passes every target; by less, or down, it misses by few.
  rcases shifted with ⟨up, rfl⟩ | ⟨down, rfl⟩
  · obtain ⟨shift, rfl⟩ : ∃ shift : ℕ, half = 63 + shift := ⟨(half - 63).toNat, by omega⟩
    have low : (63 + (shift : ℤ) - 63) = (shift : ℤ) := by omega
    rw [low, zpow_natCast] at above
    have reached : target < (Nat.sqrt radicand + 1) * 2 ^ shift := by exact_mod_cast above
    have fits : Nat.sqrt radicand * 2 ^ shift < 2 ^ 128 := by
      calc Nat.sqrt radicand * 2 ^ shift < 2 ^ 64 * 2 ^ shift :=
            Nat.mul_lt_mul_of_pos_right word (Nat.two_pow_pos shift)
        _ ≤ 2 ^ 64 * 2 ^ 64 := Nat.mul_le_mul_left _ (Nat.pow_le_pow_right (by decide) (by omega))
        _ = 2 ^ 128 := by rw [← pow_add]
    rw [low, Int.toNat_natCast, Nat.mod_eq_of_lt fits]
    rcases Nat.lt_or_ge shift 3 with few | many
    · have step : 2 ^ shift ≤ 2 ^ 2 := Nat.pow_le_pow_right (by decide) (by omega)
      rw [Nat.add_mul, Nat.one_mul] at reached
      omega
    · have step : 2 ^ 3 ≤ 2 ^ shift := Nat.pow_le_pow_right (by decide) many
      have scaled := Nat.mul_le_mul large step
      omega
  · obtain ⟨shift, rfl⟩ : ∃ shift : ℕ, half = 63 - shift := ⟨(63 - half).toNat, by omega⟩
    have low : (63 - (shift : ℤ) - 63) = -(shift : ℤ) := by omega
    rw [low, zpow_neg, zpow_natCast, ← div_eq_mul_inv, lt_div_iff₀ (by positivity)] at above
    have reached : target * 2 ^ shift < Nat.sqrt radicand + 1 := by exact_mod_cast above
    rw [show (63 - (63 - (shift : ℤ))).toNat = shift by omega]
    have floor := (Nat.le_div_iff_mul_le (Nat.two_pow_pos shift)).mpr (Nat.lt_succ_iff.mp reached)
    omega

/-- Where the shift goes down, the root is the floor of the exact one. -/
theorem sqrt_floor_above {number : Normalized} (normal : Normal number) (bounded : number.exponent < 126)
    {root : ℕ} (rooted : number.sqrtFloor = some root) : value number < ((root : ℚ) + 1) ^ 2 := by
  obtain ⟨radicand, half, _, _, near, same, shifted⟩ := sqrt_floor_some normal rooted
  obtain ⟨down, shift⟩ : half < 63 ∧ root = Nat.sqrt radicand / 2 ^ (63 - half).toNat :=
    shifted.resolve_left fun up => by omega
  have positive : (0 : ℚ) < 2 ^ (half - 63) := zpow_pos (by norm_num) _
  have covered : Nat.sqrt radicand + 1 ≤ (root + 1) * 2 ^ (63 - half).toNat := by
    rw [shift, Nat.add_mul, Nat.one_mul]
    exact Nat.lt_div_mul_add (Nat.two_pow_pos _)
  have unit : (2 : ℚ) ^ (63 - half).toNat * 2 ^ (half - 63) = 1 := by
    rw [← zpow_natCast, Int.toNat_of_nonneg (by omega), ← zpow_add₀ (by norm_num),
      show 63 - half + (half - 63) = 0 by omega, zpow_zero]
  have within : ((Nat.sqrt radicand + 1 : ℕ) : ℚ) * 2 ^ (half - 63) ≤ root + 1 := by
    calc ((Nat.sqrt radicand + 1 : ℕ) : ℚ) * 2 ^ (half - 63)
        ≤ (((root + 1) * 2 ^ (63 - half).toNat : ℕ) : ℚ) * 2 ^ (half - 63) :=
          mul_le_mul_of_nonneg_right (Nat.cast_le.mpr covered) positive.le
      _ = (root + 1) * (2 ^ (63 - half).toNat * 2 ^ (half - 63)) := by push_cast; ring
      _ = root + 1 := by rw [unit, mul_one]
  calc value number = radicand * (2 ^ (half - 63)) ^ 2 := same
    _ < (((Nat.sqrt radicand + 1 : ℕ) : ℚ) * 2 ^ (half - 63)) ^ 2 := radicand_next radicand positive
    _ ≤ ((root : ℚ) + 1) ^ 2 := pow_le_pow_left₀ (by positivity) within 2

theorem sqrt_floor_total {number : Normalized} (normal : Normal number) (low : -128 ≤ number.exponent)
    (bounded : number.exponent < 126) : ∃ root, number.sqrtFloor = some root := by
  have shifts (mantissa : ℕ) (exponent half : ℤ) (whole : exponent = 2 * half) (least : -64 ≤ half)
      (most : half < 63) :
      ∃ root, ((checkedSigned 32 (exponent.tdiv 2 - 63)).bind fun shift =>
        if 0 ≤ shift then
          if shift < 128 then some (integerSqrt (mantissa * 2 ^ 63) * 2 ^ shift.toNat % 2 ^ 128) else none
        else some (integerSqrt (mantissa * 2 ^ 63) / 2 ^ shift.natAbs)) = some root := by
    rw [whole, Int.mul_tdiv_cancel_left half (by decide),
      (checked_signed_some 32 _ _).mpr ⟨rfl, by omega, by omega⟩, Option.bind_some, if_neg (by omega)]
    exact ⟨_, rfl⟩
  have wide := normal.2
  unfold Normalized.sqrtFloor
  rw [Option.bind_eq_bind]
  by_cases odd : number.exponent % 2 ≠ 0
  · rw [if_pos odd, checked_mul_fits (by omega), Option.bind_eq_bind, Option.bind_some,
      (checked_signed_some 32 _ _).mpr ⟨rfl, by omega, by omega⟩]
    exact shifts (number.mantissa * 2) (number.exponent - 1) (number.exponent / 2) (by omega) (by omega)
      (by omega)
  · rw [if_neg odd]
    exact shifts number.mantissa number.exponent (number.exponent / 2) (by omega) (by omega) (by omega)

end Root

end ArbExecutor.NormalizedValue
