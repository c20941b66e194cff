import ArbExecutor.Checked

/-!
The rounded-down constant-product curve: what an input gets out of one reserve
against another. It never falls, it never empties its reserve, and the least
input that reaches a target is a rounded-up quotient.
-/

namespace ArbExecutor.ConstantProduct

open Checked

def curveOut (base reserve input : Nat) : Nat := base * input / (reserve + input)

/-- The least input that pays a target. -/
def curveIn (base reserve target : Nat) : Nat := ceilQuotient (target * reserve) (base - target)

variable {base reserve : Nat}

theorem curve_out_zero : curveOut base reserve 0 = 0 := by simp [curveOut]

theorem curve_out_le_base (input : Nat) : curveOut base reserve input ≤ base := by
  unfold curveOut
  exact Nat.div_le_of_le_mul (by rw [Nat.mul_comm]; exact Nat.mul_le_mul_right base (by omega))

theorem le_curve_out_iff {target input : Nat} (positive : 0 < reserve + input) :
    target ≤ curveOut base reserve input ↔ target * (reserve + input) ≤ base * input :=
  Nat.le_div_iff_mul_le positive

/-- A target below the base is reached from exactly one input on. -/
theorem reaches_iff {target input : Nat} (below : target < base) (positive : 0 < reserve + input) :
    target ≤ curveOut base reserve input ↔ curveIn base reserve target ≤ input := by
  unfold curveIn
  rw [le_curve_out_iff positive, ceil_quotient_le_iff (by omega), Nat.mul_sub, Nat.mul_add,
    Nat.mul_comm input base, Nat.mul_comm input target]
  have bounded := Nat.mul_le_mul_right input below.le
  omega

theorem curve_out_mono {left right : Nat} (ordered : left ≤ right) :
    curveOut base reserve left ≤ curveOut base reserve right := by
  rcases Nat.eq_zero_or_pos left with none | some
  · rw [none, curve_out_zero]
    exact Nat.zero_le _
  rw [le_curve_out_iff (by omega)]
  have paid : curveOut base reserve left * (reserve + left) ≤ base * left :=
    (le_curve_out_iff (by omega)).mp le_rfl
  have bounded : curveOut base reserve left ≤ base := curve_out_le_base left
  obtain ⟨more, rfl⟩ := Nat.le.dest ordered
  rw [← Nat.add_assoc, Nat.mul_add _ (reserve + left) more, Nat.mul_add base left more]
  exact Nat.add_le_add paid (Nat.mul_le_mul_right more bounded)

theorem curve_out_lt_base (positive : 0 < base) (some : 0 < reserve) (input : Nat) :
    curveOut base reserve input < base := by
  unfold curveOut
  rw [Nat.div_lt_iff_lt_mul (by omega)]
  exact Nat.mul_lt_mul_of_pos_left (by omega) positive

/-- The product of the two reserves never falls. -/
theorem curve_out_keeps_product (input : Nat) :
    base * reserve ≤ (base - curveOut base reserve input) * (reserve + input) := by
  have paid : curveOut base reserve input * (reserve + input) ≤ base * input :=
    Nat.div_mul_le_self _ _
  rw [Nat.sub_mul, Nat.mul_add base reserve input]
  omega

theorem curve_in_mono {left right : Nat} (ordered : left ≤ right) (below : right < base) :
    curveIn base reserve left ≤ curveIn base reserve right := by
  unfold curveIn
  rw [ceil_quotient_le_iff (by omega)]
  have whole := ceil_quotient_mul_ge (right * reserve) (by omega : 0 < base - right)
  calc left * reserve ≤ right * reserve := Nat.mul_le_mul_right reserve ordered
    _ ≤ ceilQuotient (right * reserve) (base - right) * (base - right) := whole
    _ ≤ ceilQuotient (right * reserve) (base - right) * (base - left) :=
        Nat.mul_le_mul_left _ (by omega)

end ArbExecutor.ConstantProduct
