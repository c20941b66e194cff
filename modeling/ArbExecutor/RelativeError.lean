import Mathlib.Tactic

/-!
Approximations from below whose loss is counted in units of the exact value. The
losses of steps taken one after another add up.
-/

namespace ArbExecutor.RelativeError

variable {Number : Type} [Field Number] [LinearOrder Number] [IsStrictOrderedRing Number]
  {unit exact between approx factor : Number} {loss more : ℕ}

def Below (unit : Number) (loss : ℕ) (exact approx : Number) : Prop :=
  exact * (1 - loss * unit) ≤ approx ∧ approx ≤ exact

theorem below_refl (unit exact : Number) : Below unit 0 exact exact := by
  simp [Below]

theorem below_trans (nonnegative : 0 ≤ exact) (positive : 0 ≤ unit) (small : more * unit ≤ 1)
    (first : Below unit loss exact between) (second : Below unit more between approx) :
    Below unit (loss + more) exact approx := by
  refine ⟨?_, second.2.trans first.2⟩
  have crossed : 0 ≤ exact * (loss * unit * (more * unit)) := by positivity
  have room : 0 ≤ 1 - more * unit := sub_nonneg.mpr small
  calc exact * (1 - (loss + more : ℕ) * unit)
      ≤ exact * (1 - loss * unit) * (1 - more * unit) := by push_cast; linarith
    _ ≤ between * (1 - more * unit) := mul_le_mul_of_nonneg_right first.1 room
    _ ≤ approx := second.1

theorem below_more (nonnegative : 0 ≤ exact) (positive : 0 ≤ unit) (ordered : loss ≤ more)
    (below : Below unit loss exact approx) : Below unit more exact approx := by
  refine ⟨le_trans ?_ below.1, below.2⟩
  gcongr

theorem below_mul (nonnegative : 0 ≤ factor) (below : Below unit loss exact approx) :
    Below unit loss (exact * factor) (approx * factor) := by
  refine ⟨?_, mul_le_mul_of_nonneg_right below.2 nonnegative⟩
  rw [mul_right_comm]
  exact mul_le_mul_of_nonneg_right below.1 nonnegative

theorem below_div (nonnegative : 0 ≤ factor) (below : Below unit loss exact approx) :
    Below unit loss (exact / factor) (approx / factor) := by
  simp only [div_eq_mul_inv]
  exact below_mul (inv_nonneg.mpr nonnegative) below

/-- A step that is short by less than some units of its own result. -/
theorem below_of_short (under : approx ≤ exact) (positive : 0 ≤ unit)
    (short : exact ≤ approx + loss * (unit * approx)) : Below unit loss exact approx := by
  refine ⟨?_, under⟩
  have scaled : loss * (unit * approx) ≤ loss * (unit * exact) := by gcongr
  linarith

end ArbExecutor.RelativeError
