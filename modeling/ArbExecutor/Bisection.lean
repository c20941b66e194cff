import Mathlib.Tactic

/-!
Two bounded bisections over a Boolean test on naturals. `firstTrue` keeps
`lower..upper` half open and moves `upper` to a passing midpoint; `lastTrue`
keeps it closed, rounds the midpoint up and moves `lower` to a passing midpoint.
The step budget is the width of the range, which every step shrinks.
-/

namespace ArbExecutor.Bisection

variable (test : Nat → Bool)

def firstTrueFrom : Nat → Nat → Nat → Nat
  | 0, lower, _ => lower
  | steps + 1, lower, upper =>
      if lower < upper then
        let midpoint := lower + (upper - lower) / 2
        if test midpoint then firstTrueFrom steps lower midpoint
        else firstTrueFrom steps (midpoint + 1) upper
      else lower

def firstTrue (lower upper : Nat) : Nat := firstTrueFrom test (upper - lower) lower upper

def lastTrueFrom : Nat → Nat → Nat → Nat
  | 0, lower, _ => lower
  | steps + 1, lower, upper =>
      if lower < upper then
        let midpoint := lower + (upper - lower + 1) / 2
        if test midpoint then lastTrueFrom steps midpoint upper
        else lastTrueFrom steps lower (midpoint - 1)
      else lower

def lastTrue (lower upper : Nat) : Nat := lastTrueFrom test (upper - lower) lower upper

/-- On a test that switches once, the first bisection returns the switch point. -/
theorem first_true_exact (steps lower upper switch : Nat) (enough : upper - lower ≤ steps)
    (above : lower ≤ switch) (below : switch ≤ upper)
    (fails : ∀ index, lower ≤ index → index < switch → test index = false)
    (passes : ∀ index, switch ≤ index → index < upper → test index = true) :
    firstTrueFrom test steps lower upper = switch := by
  induction steps generalizing lower upper with
  | zero => simp only [firstTrueFrom]; omega
  | succ steps ih =>
      simp only [firstTrueFrom]
      split
      next active =>
        by_cases early : lower + (upper - lower) / 2 < switch
        · rw [if_neg (by simp [fails _ (by omega) early])]
          exact ih _ _ (by omega) (by omega) below
            (fun index lowerBound inside => fails index (by omega) inside) passes
        · rw [if_pos (passes _ (by omega) (by omega))]
          exact ih _ _ (by omega) above (by omega) fails
            (fun index lowerBound inside => passes index lowerBound (by omega))
      next finished => omega

/-- The second bisection never leaves its range. -/
theorem last_true_bounds (steps lower upper : Nat) (ordered : lower ≤ upper) :
    lower ≤ lastTrueFrom test steps lower upper ∧ lastTrueFrom test steps lower upper ≤ upper := by
  induction steps generalizing lower upper with
  | zero => exact ⟨le_rfl, ordered⟩
  | succ steps ih =>
      simp only [lastTrueFrom]
      split
      next active =>
        split
        · have bounds := ih (lower + (upper - lower + 1) / 2) upper (by omega)
          omega
        · have bounds := ih lower (lower + (upper - lower + 1) / 2 - 1) (by omega)
          omega
      next finished => exact ⟨le_rfl, ordered⟩

/-- The midpoints of the second bisection on its way to a target. -/
def midpointsToward : Nat → Nat → Nat → Nat → List Nat
  | 0, _, _, _ => []
  | steps + 1, lower, upper, target =>
      if lower < upper then
        let midpoint := lower + (upper - lower + 1) / 2
        midpoint :: (if midpoint ≤ target then midpointsToward steps midpoint upper target
          else midpointsToward steps lower (midpoint - 1) target)
      else []

theorem midpoints_toward_bounds (steps lower upper target : Nat) :
    ∀ midpoint ∈ midpointsToward steps lower upper target, lower < midpoint ∧ midpoint ≤ upper := by
  induction steps generalizing lower upper with
  | zero => exact fun _ member => absurd member List.not_mem_nil
  | succ steps ih =>
      intro midpoint member
      simp only [midpointsToward] at member
      split at member
      next active =>
        rcases List.mem_cons.mp member with rfl | later
        · omega
        · split at later
          · have bounds := ih _ _ midpoint later
            omega
          · have bounds := ih _ _ midpoint later
            omega
      next finished => exact absurd member List.not_mem_nil

/-- The second bisection returns a target exactly when the test tells, at each
midpoint on the way there, on which side of the target it lies. -/
theorem last_true_exact_iff (steps lower upper target : Nat) (enough : upper - lower ≤ steps)
    (above : lower ≤ target) (below : target ≤ upper) :
    lastTrueFrom test steps lower upper = target ↔
      ∀ midpoint ∈ midpointsToward steps lower upper target,
        test midpoint = decide (midpoint ≤ target) := by
  induction steps generalizing lower upper with
  | zero =>
      obtain rfl : lower = target := by omega
      exact ⟨fun _ _ member => absurd member List.not_mem_nil, fun _ => rfl⟩
  | succ steps ih =>
      simp only [lastTrueFrom, midpointsToward]
      by_cases active : lower < upper
      · rw [if_pos active, if_pos active, List.forall_mem_cons]
        -- A midpoint on the wrong side of the target never comes back: the bounds exclude it from then on.
        by_cases early : lower + (upper - lower + 1) / 2 ≤ target
        · rw [if_pos early, decide_eq_true early]
          cases passed : test (lower + (upper - lower + 1) / 2) with
          | true =>
              rw [if_pos (Eq.refl true), ih _ _ (by omega) early below]
              exact (and_iff_right rfl).symm
          | false =>
              have bounds := last_true_bounds test steps lower (lower + (upper - lower + 1) / 2 - 1) (by omega)
              rw [if_neg (by simp)]
              exact ⟨fun same => by omega, fun both => nomatch both.1⟩
        · rw [if_neg early, decide_eq_false early]
          cases passed : test (lower + (upper - lower + 1) / 2) with
          | true =>
              have bounds := last_true_bounds test steps (lower + (upper - lower + 1) / 2) upper (by omega)
              rw [if_pos (Eq.refl true)]
              exact ⟨fun same => by omega, fun both => nomatch both.1⟩
          | false =>
              rw [if_neg (by simp), ih _ _ (by omega) above (by omega)]
              exact (and_iff_right rfl).symm
      · rw [if_neg active, if_neg active]
        obtain rfl : lower = target := by omega
        exact ⟨fun _ _ member => absurd member List.not_mem_nil, fun _ => rfl⟩

end ArbExecutor.Bisection
