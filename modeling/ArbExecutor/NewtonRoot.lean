import ArbExecutor.NormalizedValue

/-!
The loop of integer_sqrt with everything that could go wrong in it: a sum that
overflows its word, a division by zero, a shift beyond the word, and a loop that
does not end. The estimate starts at or above the root, stays there, and shrinks
until it is the root.
-/

namespace ArbExecutor.NewtonRoot

open Checked DynamicAmount NormalizedValue

section Loop

/-- At most some turns of the loop; none when they run out or a turn fails. -/
def integerSqrtLoop : Nat → Nat → Nat → Option Nat
  | 0, _, _ => none
  | turns + 1, value, estimate =>
      if estimate = 0 then none
      else do
        let sum ← checkedAdd 128 estimate (value / estimate)
        let next := sum / 2
        if estimate ≤ next then some estimate else integerSqrtLoop turns value next

def integerSqrtChecked (turns value : Nat) : Option Nat :=
  if value < 2 then some value
  else
    let shift := (Nat.log2 value + 2) / 2
    if shift < 128 then integerSqrtLoop turns value (2 ^ shift) else none

end Loop

section Estimate
variable {value estimate : Nat}

/-- A step from at or above the root stays at or above it. -/
theorem step_above (value : Nat) (positive : 0 < estimate) :
    value < ((estimate + value / estimate) / 2 + 1) * ((estimate + value / estimate) / 2 + 1) := by
  have quotient : value < estimate * (value / estimate + 1) := Nat.lt_mul_div_succ value positive
  have half : estimate + (value / estimate + 1) ≤ 2 * ((estimate + value / estimate) / 2 + 1) := by omega
  -- The root of a product is at most the mean of its factors.
  have mean := four_mul_le_sq_add estimate (value / estimate + 1)
  have squared := Nat.pow_le_pow_left half 2
  nlinarith only [quotient, mean, squared]

/-- At or above the root a step cannot overflow. -/
theorem step_fits (positive : 0 < estimate) (above : value < (estimate + 1) * (estimate + 1))
    (small : estimate ≤ 2 ^ 64) : estimate + value / estimate < 2 ^ 128 := by
  have quotient : value / estimate ≤ estimate + 2 := Nat.div_le_of_le_mul (by nlinarith only [above])
  omega

/-- A step that does not shrink the estimate leaves it at the root. -/
theorem stops_below (positive : 0 < estimate) (stops : estimate ≤ (estimate + value / estimate) / 2) :
    estimate * estimate ≤ value :=
  (Nat.le_div_iff_mul_le positive).mp (by omega)

theorem step_positive (large : 2 ≤ value) (positive : 0 < estimate) :
    0 < (estimate + value / estimate) / 2 := by
  have above := step_above value positive
  by_contra nothing
  rw [Nat.le_zero.mp (Nat.not_lt.mp nothing)] at above
  omega

theorem loop_ends (turns : Nat) (large : 2 ≤ value) (positive : 0 < estimate)
    (above : value < (estimate + 1) * (estimate + 1)) (small : estimate ≤ 2 ^ 64)
    (enough : estimate < turns) : integerSqrtLoop turns value estimate = some (Nat.sqrt value) := by
  -- The estimate stays above the root and falls at every turn, so it bounds the turns left.
  induction turns generalizing estimate with
  | zero => cases enough
  | succ turns ih =>
      have fits := step_fits positive above small
      rw [integerSqrtLoop, if_neg positive.ne', checked_add_fits fits, Option.bind_eq_bind, Option.bind_some]
      by_cases stops : estimate ≤ (estimate + value / estimate) / 2
      · rw [if_pos stops, ← Nat.eq_sqrt.mpr ⟨stops_below positive stops, above⟩]
      · rw [if_neg stops]
        exact ih (step_positive large positive) (step_above value positive) (by omega) (by omega)

end Estimate

/-- The starting estimate is above the root and no more than half a word long. -/
theorem start_above {value : Nat} (fits : value < 2 ^ 128) (large : 2 ≤ value) :
    (Nat.log2 value + 2) / 2 ≤ 64 ∧
      value < (2 ^ ((Nat.log2 value + 2) / 2) + 1) * (2 ^ ((Nat.log2 value + 2) / 2) + 1) := by
  have bits : Nat.log2 value < 128 := (Nat.log2_lt (by omega)).mpr fits
  have most := Nat.lt_log2_self (n := value)
  refine ⟨by omega, ?_⟩
  calc value < 2 ^ (Nat.log2 value + 1) := most
    _ ≤ 2 ^ ((Nat.log2 value + 2) / 2 + (Nat.log2 value + 2) / 2) :=
      Nat.pow_le_pow_right (by decide) (by omega)
    _ = 2 ^ ((Nat.log2 value + 2) / 2) * 2 ^ ((Nat.log2 value + 2) / 2) := pow_add _ _ _
    _ ≤ _ := Nat.mul_le_mul (Nat.le_succ _) (Nat.le_succ _)

/-- On every word the loop ends without a failing step, at the floor of the root. -/
theorem integer_sqrt_ends (value : BitVec 128) :
    ∃ root, integerSqrt value.toNat = root ∧
      root * root ≤ value.toNat ∧ value.toNat < (root + 1) * (root + 1) ∧
      ∃ bound, ∀ turns ≥ bound, integerSqrtChecked turns value.toNat = some root := by
  refine ⟨Nat.sqrt value.toNat, integer_sqrt_eq _, Nat.sqrt_le _, Nat.lt_succ_sqrt _, ?_⟩
  unfold integerSqrtChecked
  by_cases small : value.toNat < 2
  · refine ⟨0, fun turns _ => ?_⟩
    rw [if_pos small, ← integer_sqrt_eq, integerSqrt, if_pos small]
  · obtain ⟨shift, above⟩ := start_above value.isLt (by omega)
    refine ⟨2 ^ ((Nat.log2 value.toNat + 2) / 2) + 1, fun turns enough => ?_⟩
    have half : 2 ^ ((Nat.log2 value.toNat + 2) / 2) ≤ 2 ^ 64 := Nat.pow_le_pow_right (by decide) shift
    rw [if_neg small]
    dsimp only
    rw [if_pos (by omega)]
    exact loop_ends turns (by omega) (Nat.two_pow_pos _) above half (by omega)

end ArbExecutor.NewtonRoot
