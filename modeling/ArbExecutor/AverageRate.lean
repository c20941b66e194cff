import Mathlib.Tactic

/-!
Functions whose average rate falls: a larger input is never converted at a better
rate than a smaller one. The notion is closed under composition, and it holds of
a hyperbola and of a chain of steps whose own rates fall.
-/

namespace ArbExecutor.AverageRate

variable {Rate : Type} [Field Rate] [LinearOrder Rate] [IsStrictOrderedRing Rate]

def AverageFalls (convert : Rate → Rate) : Prop :=
  ∀ fewer more, 0 < fewer → fewer ≤ more → convert more * fewer ≤ convert fewer * more

/-- A conversion that gains nothing on one amount gains nothing on a larger one that
it converts no better. -/
theorem gains_nothing_above {convert : Rate → Rate} {fewer more : Rate}
    (paid : convert more * fewer ≤ convert fewer * more) (positive : 0 < fewer) (ordered : fewer ≤ more)
    (even : convert fewer ≤ fewer) : convert more ≤ more := by
  have bounded : convert fewer * more ≤ fewer * more :=
    mul_le_mul_of_nonneg_right even (positive.le.trans ordered)
  refine le_of_mul_le_mul_right ?_ positive
  calc convert more * fewer ≤ fewer * more := paid.trans bounded
    _ = more * fewer := mul_comm _ _

theorem average_falls_comp (outer inner : Rate → Rate) (outerFalls : AverageFalls outer)
    (innerFalls : AverageFalls inner)
    (innerMono : ∀ fewer more, 0 < fewer → fewer ≤ more → inner fewer ≤ inner more)
    (innerNonneg : ∀ input, 0 < input → 0 ≤ inner input)
    (outerNonneg : ∀ input, 0 ≤ input → 0 ≤ outer input) :
    AverageFalls fun input => outer (inner input) := by
  intro fewer more positive ordered
  have grown := innerMono fewer more positive ordered
  have slower := innerFalls fewer more positive ordered
  rcases (innerNonneg fewer positive).eq_or_lt with nothing | some
  · -- Nothing in the middle stays nothing.
    have still : inner more ≤ 0 := by
      rw [← nothing, zero_mul] at slower
      exact le_of_mul_le_mul_right (by rwa [zero_mul]) positive
    have same : inner more = inner fewer := le_antisymm (nothing ▸ still) grown
    have paid := outerNonneg (inner fewer) (innerNonneg fewer positive)
    change outer (inner more) * fewer ≤ outer (inner fewer) * more
    rw [same]
    exact mul_le_mul_of_nonneg_left ordered paid
  · have paid := outerFalls (inner fewer) (inner more) some grown
    have base := outerNonneg (inner fewer) some.le
    refine le_of_mul_le_mul_right ?_ some
    calc outer (inner more) * fewer * inner fewer = outer (inner more) * inner fewer * fewer := by ring
      _ ≤ outer (inner fewer) * inner more * fewer := mul_le_mul_of_nonneg_right paid positive.le
      _ = outer (inner fewer) * (inner more * fewer) := by ring
      _ ≤ outer (inner fewer) * (inner fewer * more) := mul_le_mul_of_nonneg_left slower base
      _ = outer (inner fewer) * more * inner fewer := by ring

theorem average_falls_scale {convert : Rate → Rate} (falls : AverageFalls convert) {factor : Rate}
    (nonneg : 0 ≤ factor) : AverageFalls fun input => factor * convert input := by
  intro fewer more positive ordered
  calc factor * convert more * fewer = factor * (convert more * fewer) := by ring
    _ ≤ factor * (convert fewer * more) :=
        mul_le_mul_of_nonneg_left (falls fewer more positive ordered) nonneg
    _ = factor * convert fewer * more := by ring

section Hyperbola

/-- The constant-product curve without rounding. -/
def hyperbola (base reserve input : Rate) : Rate := base * input / (reserve + input)

variable {base reserve : Rate}

theorem hyperbola_nonneg (baseNonneg : 0 ≤ base) (reserveNonneg : 0 ≤ reserve) (input : Rate)
    (nonneg : 0 ≤ input) : 0 ≤ hyperbola base reserve input :=
  div_nonneg (mul_nonneg baseNonneg nonneg) (add_nonneg reserveNonneg nonneg)

theorem hyperbola_mono (baseNonneg : 0 ≤ base) (reserveNonneg : 0 ≤ reserve) {fewer more : Rate}
    (nonneg : 0 ≤ fewer) (ordered : fewer ≤ more) :
    hyperbola base reserve fewer ≤ hyperbola base reserve more := by
  unfold hyperbola
  rcases (add_nonneg reserveNonneg nonneg).eq_or_lt with empty | some
  · rw [← empty, div_zero]
    exact div_nonneg (mul_nonneg baseNonneg (nonneg.trans ordered))
      (add_nonneg reserveNonneg (nonneg.trans ordered))
  rw [div_le_div_iff₀ some (by linarith)]
  have crossed : fewer * reserve ≤ more * reserve := mul_le_mul_of_nonneg_right ordered reserveNonneg
  calc base * fewer * (reserve + more) = base * (fewer * reserve + fewer * more) := by ring
    _ ≤ base * (more * reserve + fewer * more) := by
        refine mul_le_mul_of_nonneg_left ?_ baseNonneg
        linarith
    _ = base * more * (reserve + fewer) := by ring

theorem hyperbola_falls (baseNonneg : 0 ≤ base) (reserveNonneg : 0 ≤ reserve) :
    AverageFalls (hyperbola base reserve) := by
  intro fewer more positive ordered
  unfold hyperbola
  rw [div_mul_eq_mul_div, div_mul_eq_mul_div, div_le_div_iff₀ (by linarith) (by linarith)]
  have weight : 0 ≤ base * (more * fewer) := mul_nonneg baseNonneg (mul_nonneg (by linarith) positive.le)
  calc base * more * fewer * (reserve + fewer) = base * (more * fewer) * (reserve + fewer) := by ring
    _ ≤ base * (more * fewer) * (reserve + more) := mul_le_mul_of_nonneg_left (by linarith) weight
    _ = base * fewer * more * (reserve + more) := by ring

end Hyperbola

section Steps

/-- Steps with a capacity and a rate, filled in order. -/
def stepped : List (Rate × Rate) → Rate → Rate
  | [], _ => 0
  | (capacity, rate) :: rest, input =>
      if input ≤ capacity then rate * input
      else rate * capacity + stepped rest (input - capacity)

/-- Steps with no negative capacity or rate, whose rates do not rise. -/
def RatesFall (steps : List (Rate × Rate)) : Prop :=
  (∀ step ∈ steps, 0 ≤ step.1 ∧ 0 ≤ step.2) ∧ steps.Pairwise fun left right => right.2 ≤ left.2

variable {steps : List (Rate × Rate)}

omit [IsStrictOrderedRing Rate] in
theorem rates_fall_tail {step : Rate × Rate} {rest : List (Rate × Rate)}
    (falling : RatesFall (step :: rest)) : RatesFall rest :=
  ⟨fun other member => falling.1 other (List.mem_cons_of_mem _ member),
    (List.pairwise_cons.mp falling.2).2⟩

theorem stepped_nonneg (nonneg : ∀ step ∈ steps, 0 ≤ step.1 ∧ 0 ≤ step.2) (input : Rate)
    (positive : 0 ≤ input) : 0 ≤ stepped steps input := by
  induction steps generalizing input with
  | nil => exact le_rfl
  | cons step rest ih =>
      obtain ⟨capacity, rate⟩ := step
      obtain ⟨room, paying⟩ := nonneg (capacity, rate) List.mem_cons_self
      rw [stepped]
      split
      · exact mul_nonneg paying positive
      next beyond =>
        exact add_nonneg (mul_nonneg paying room)
          (ih (fun other member => nonneg other (List.mem_cons_of_mem _ member)) _ (by linarith))

theorem stepped_mono (nonneg : ∀ step ∈ steps, 0 ≤ step.1 ∧ 0 ≤ step.2) {fewer more : Rate}
    (ordered : fewer ≤ more) : stepped steps fewer ≤ stepped steps more := by
  induction steps generalizing fewer more with
  | nil => exact le_rfl
  | cons step rest ih =>
      obtain ⟨capacity, rate⟩ := step
      obtain ⟨room, paying⟩ := nonneg (capacity, rate) List.mem_cons_self
      have later := fun other member => nonneg other (List.mem_cons_of_mem (capacity, rate) member)
      rw [stepped, stepped]
      split
      next inside =>
        split
        · exact mul_le_mul_of_nonneg_left ordered paying
        next beyond =>
          have paid := mul_le_mul_of_nonneg_left inside paying
          have more := stepped_nonneg later (more - capacity) (by linarith)
          linarith
      next beyond =>
        rw [if_neg (by linarith)]
        have paid := ih later (show fewer - capacity ≤ more - capacity by linarith)
        linarith

/-- No amount is converted at more than a rate that bounds every step. -/
theorem stepped_le_rate {bound : Rate} (nonneg : ∀ step ∈ steps, 0 ≤ step.1 ∧ 0 ≤ step.2)
    (bounded : ∀ step ∈ steps, step.2 ≤ bound) (boundNonneg : 0 ≤ bound) {input : Rate}
    (positive : 0 ≤ input) : stepped steps input ≤ bound * input := by
  induction steps generalizing input with
  | nil => exact mul_nonneg boundNonneg positive
  | cons step rest ih =>
      obtain ⟨capacity, rate⟩ := step
      obtain ⟨room, paying⟩ := nonneg (capacity, rate) List.mem_cons_self
      have slower := bounded (capacity, rate) List.mem_cons_self
      rw [stepped]
      split
      · exact mul_le_mul_of_nonneg_right slower positive
      next beyond =>
        have paid := mul_le_mul_of_nonneg_right slower room
        have rest := ih (fun other member => nonneg other (List.mem_cons_of_mem _ member))
          (fun other member => bounded other (List.mem_cons_of_mem _ member))
          (show 0 ≤ input - capacity by linarith)
        linarith [mul_sub bound input capacity]

theorem stepped_falls (falling : RatesFall steps) : AverageFalls (stepped steps) := by
  intro fewer more positive ordered
  induction steps generalizing fewer more with
  | nil => simp [stepped]
  | cons step rest ih =>
      obtain ⟨capacity, rate⟩ := step
      obtain ⟨room, paying⟩ := falling.1 (capacity, rate) List.mem_cons_self
      have later := rates_fall_tail falling
      have slower := (List.pairwise_cons.mp falling.2).1
      have above (input : Rate) (nonneg : 0 ≤ input) : stepped rest input ≤ rate * input :=
        stepped_le_rate later.1 slower paying nonneg
      rw [stepped, stepped]
      by_cases inside : fewer ≤ capacity
      · rw [if_pos inside]
        split
        · exact le_of_eq (by ring)
        next beyond =>
          have paid := above (more - capacity) (by linarith)
          calc (rate * capacity + stepped rest (more - capacity)) * fewer ≤ rate * more * fewer :=
                mul_le_mul_of_nonneg_right (by linarith [mul_sub rate more capacity]) positive.le
            _ = rate * fewer * more := by ring
      · rw [if_neg inside, if_neg (by linarith)]
        have short : 0 < fewer - capacity := by linarith
        have paid := ih later (fewer - capacity) (more - capacity) short (by linarith)
        have bounded := above (fewer - capacity) short.le
        -- What the rest adds from `fewer` to `more` is added at no more than this step's rate.
        have added : stepped rest (more - capacity) - stepped rest (fewer - capacity) ≤
            rate * (more - fewer) := by
          refine le_of_mul_le_mul_right ?_ short
          calc (stepped rest (more - capacity) - stepped rest (fewer - capacity)) * (fewer - capacity)
              ≤ stepped rest (fewer - capacity) * (more - fewer) := by
                linarith [mul_sub (stepped rest (fewer - capacity)) (more - capacity) (fewer - capacity)]
            _ ≤ rate * (fewer - capacity) * (more - fewer) :=
                mul_le_mul_of_nonneg_right bounded (by linarith)
            _ = rate * (more - fewer) * (fewer - capacity) := by ring
        have weighted := mul_le_mul_of_nonneg_right added room
        linarith [mul_sub (stepped rest (more - capacity)) fewer capacity]

end Steps

end ArbExecutor.AverageRate
