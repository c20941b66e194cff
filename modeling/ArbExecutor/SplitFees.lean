import ArbExecutor.Checked

/-!
A gross amount that has to pay for a net amount and for several fees on it, each
rounded up on its own. The joint fee rounds their sum once; the split fees exceed
it by less than their number. The net amount is found by scaling the gross one
down and taking an over-spend back out, so it is not quite monotone: `NetDrops`
is the only place where more gross leaves less net. The same fees can be taken out
of a raw amount, and `SaleDrops` is the only place where more of it leaves less.
-/

namespace ArbExecutor.SplitFees

open Checked

variable (precision : Nat) (rates : List Nat)

def splitFee (net : Nat) : Nat := (rates.map fun rate => ceilQuotient (net * rate) precision).sum

def jointFee (net : Nat) : Nat := ceilQuotient (net * rates.sum) precision

/-- The largest net amount whose joint fee the gross amount still covers. -/
def scaled (gross : Nat) : Nat := gross * precision / (precision + rates.sum)

def netOf (gross : Nat) : Nat :=
  min (scaled precision rates gross) (gross - splitFee precision rates (scaled precision rates gross))

variable {precision}

theorem ceil_quotient_add_le (left right : Nat) (positive : 0 < precision) :
    ceilQuotient (left + right) precision ≤ ceilQuotient left precision + ceilQuotient right precision := by
  rw [ceil_quotient_le_iff positive, Nat.add_mul]
  exact Nat.add_le_add (ceil_quotient_mul_ge left positive) (ceil_quotient_mul_ge right positive)

theorem add_ceil_quotient_le (left right : Nat) (positive : 0 < precision) :
    ceilQuotient left precision + ceilQuotient right precision ≤
      ceilQuotient (left + right) precision + 1 := by
  by_contra exceeded
  have whole := ceil_quotient_mul_ge (left + right) positive
  have short (part : Nat) : (ceilQuotient part precision - 1) * precision ≤ part := by
    cases size : ceilQuotient part precision with
    | zero => simp
    | succ more =>
        rw [Nat.add_sub_cancel]
        exact ((lt_ceil_quotient_iff positive).mp (by omega)).le
  have strict (part : Nat) (some : 0 < ceilQuotient part precision) :
      (ceilQuotient part precision - 1) * precision < part :=
    (lt_ceil_quotient_iff positive).mp (by omega)
  rcases Nat.eq_zero_or_pos (ceilQuotient left precision) with none | some
  · have bounded : ceilQuotient right precision ≤ ceilQuotient (left + right) precision :=
      ceil_quotient_mono (Nat.le_add_left right left)
    omega
  · have below := strict left some
    have rest := short right
    have grown : (ceilQuotient (left + right) precision) * precision ≤
        (ceilQuotient left precision - 1 + (ceilQuotient right precision - 1)) * precision :=
      Nat.mul_le_mul_right precision (by omega)
    rw [Nat.add_mul] at grown
    omega

theorem joint_le_split (positive : 0 < precision) (net : Nat) :
    jointFee precision rates net ≤ splitFee precision rates net := by
  unfold jointFee splitFee
  induction rates with
  | nil => simp
  | cons rate rest ih =>
      rw [List.sum_cons, Nat.mul_add, List.map_cons, List.sum_cons]
      exact (ceil_quotient_add_le _ _ positive).trans (Nat.add_le_add_left ih _)

theorem split_le_joint (positive : 0 < precision) (net : Nat) :
    splitFee precision rates net ≤ jointFee precision rates net + (rates.length - 1) := by
  unfold jointFee splitFee
  induction rates with
  | nil => simp
  | cons rate rest ih =>
      rw [List.sum_cons, Nat.mul_add, List.map_cons, List.sum_cons, List.length_cons,
        Nat.add_sub_cancel]
      cases rest with
      | nil => simp
      | cons next more =>
          have joined := add_ceil_quotient_le (net * rate) (net * (next :: more).sum) positive
          rw [List.length_cons, Nat.add_sub_cancel] at ih
          rw [List.length_cons]
          omega

/-- Scaling down is adjoint to adding the joint fee. -/
theorem le_scaled_iff (positive : 0 < precision) (net gross : Nat) :
    net ≤ scaled precision rates gross ↔ net + jointFee precision rates net ≤ gross := by
  unfold scaled jointFee
  rw [Nat.le_div_iff_mul_le (by omega), Nat.mul_add]
  by_cases within : net ≤ gross
  · have covered : ceilQuotient (net * rates.sum) precision ≤ gross - net ↔
        net * rates.sum ≤ (gross - net) * precision := ceil_quotient_le_iff positive
    rw [Nat.sub_mul] at covered
    have scaledUp := Nat.mul_le_mul_right precision within
    constructor
    · intro fits
      have fee := covered.mpr (by omega)
      omega
    · intro fits
      have fee := covered.mp (by omega)
      omega
  · have beyond := Nat.mul_lt_mul_of_pos_right (Nat.lt_of_not_le within) positive
    constructor
    · intro fits
      omega
    · intro fits
      omega

theorem scaled_mono {left right : Nat} (ordered : left ≤ right) :
    scaled precision rates left ≤ scaled precision rates right :=
  Nat.div_le_div_right (Nat.mul_le_mul_right precision ordered)

theorem split_fee_mono {left right : Nat} (ordered : left ≤ right) :
    splitFee precision rates left ≤ splitFee precision rates right := by
  unfold splitFee
  exact List.sum_le_sum fun rate _ => ceil_quotient_mono (Nat.mul_le_mul_right rate ordered)

/-- Taking an over-spend out of a net amount leaves enough for the fees on the rest. -/
theorem corrected_covers {kept gross effective : Nat}
    (corrected : if gross < kept + splitFee precision rates kept then
      effective = kept - (kept + splitFee precision rates kept - gross) ∧
        kept + splitFee precision rates kept - gross ≤ kept
      else effective = kept) :
    effective ≤ kept ∧ effective + splitFee precision rates effective ≤ gross := by
  have smaller : effective ≤ kept := by
    split at corrected <;> omega
  have cheaper : splitFee precision rates effective ≤ splitFee precision rates kept :=
    split_fee_mono rates smaller
  refine ⟨smaller, ?_⟩
  split at corrected <;> omega

theorem net_le_scaled (gross : Nat) : netOf precision rates gross ≤ scaled precision rates gross :=
  min_le_left _ _

/-- The net amount falls short of the scaled one by less than the number of fees. -/
theorem scaled_le_net (positive : 0 < precision) (gross : Nat) :
    scaled precision rates gross ≤ netOf precision rates gross + (rates.length - 1) := by
  have covered := (le_scaled_iff rates positive _ gross).mp le_rfl
  have split := split_le_joint rates positive (scaled precision rates gross)
  unfold netOf
  omega

/-- The first gross amount whose scaled amount is one more, at which the split
fees exceed the joint one by two, after a gross amount that kept its whole scaled
amount. -/
def NetDrops (precision : Nat) (rates : List Nat) (left right : Nat) : Prop :=
  let next := scaled precision rates left + 1
  right = next + jointFee precision rates next ∧
    splitFee precision rates next = jointFee precision rates next + 2 ∧
    scaled precision rates left + splitFee precision rates (scaled precision rates left) ≤ left ∧
    0 < scaled precision rates left

instance (left right : Nat) : Decidable (NetDrops precision rates left right) := by
  unfold NetDrops
  infer_instance

/-- With at most three fees, more gross leaves less net exactly at a drop, and
then by one. -/
theorem net_drops_iff (positive : 0 < precision) (few : rates.length ≤ 3) {left right : Nat}
    (ordered : left ≤ right) :
    (netOf precision rates right < netOf precision rates left ↔ NetDrops precision rates left right) ∧
      (NetDrops precision rates left right →
        netOf precision rates left = scaled precision rates left ∧
          netOf precision rates right = scaled precision rates left - 1) := by
  have monotone : scaled precision rates left ≤ scaled precision rates right := scaled_mono rates ordered
  have bounded : netOf precision rates left ≤ scaled precision rates left := net_le_scaled rates left
  have close := scaled_le_net rates positive right
  have next := le_scaled_iff rates positive (scaled precision rates left + 1) right
  have above := joint_le_split rates positive (scaled precision rates left + 1)
  have below := split_le_joint rates positive (scaled precision rates left + 1)
  -- The scaled amount stays, moves by one, or moves further; only a move by one can lose to the fees.
  rcases Nat.lt_or_ge (scaled precision rates right) (scaled precision rates left + 1) with same | more
  · have level : scaled precision rates right = scaled precision rates left := by omega
    have early : ¬ NetDrops precision rates left right := by
      rintro ⟨reached, _⟩
      have climbed := next.mpr (by omega)
      omega
    refine ⟨⟨fun less => ?_, fun drops => absurd drops early⟩, fun drops => absurd drops early⟩
    unfold netOf at less
    rw [level] at less
    omega
  rcases Nat.lt_or_eq_of_le more with far | one
  · have late : ¬ NetDrops precision rates left right := by
      rintro ⟨reached, _⟩
      have second := (le_scaled_iff rates positive (scaled precision rates left + 2) right).mp (by omega)
      have grown : jointFee precision rates (scaled precision rates left + 1) ≤
          jointFee precision rates (scaled precision rates left + 2) :=
        ceil_quotient_mono (Nat.mul_le_mul_right _ (by omega))
      omega
    exact ⟨⟨fun less => by omega, fun drops => absurd drops late⟩, fun drops => absurd drops late⟩
  · have arrived := next.mp more
    unfold netOf NetDrops
    rw [← one]
    dsimp only
    constructor
    · constructor
      · intro less
        omega
      · rintro ⟨reached, surplus, kept, _⟩
        omega
    · rintro ⟨reached, surplus, kept, _⟩
      omega

/-- Fees taken out of two raw amounts, where the joint fee leaves as much of the larger
one and the split fees exceed it by more there, or leaves one more of it and they come
to exceed it by two. -/
def SaleDrops (precision : Nat) (rates : List Nat) (left right : Nat) : Prop :=
  let kept := fun raw => raw - jointFee precision rates raw
  let surplus := fun raw => splitFee precision rates raw - jointFee precision rates raw
  kept right = kept left ∧ surplus left < surplus right ∨
    kept right = kept left + 1 ∧ surplus left = 0 ∧ surplus right = 2

instance (left right : Nat) : Decidable (SaleDrops precision rates left right) := by
  unfold SaleDrops
  infer_instance

/-- Fees that some raw amount can pay grow no faster than the amount. -/
theorem joint_fee_grows (positive : 0 < precision) {left right : Nat} (ordered : left ≤ right)
    (covered : jointFee precision rates right ≤ right) :
    jointFee precision rates right ≤ jointFee precision rates left + (right - left) := by
  rcases Nat.eq_zero_or_pos right with none | some
  · rw [none] at covered ⊢
    omega
  -- A raw amount that covers its fees shows that they are at most the whole of it.
  have share : rates.sum ≤ precision := by
    have taxed := (ceil_quotient_le_iff positive).mp covered
    exact Nat.le_of_mul_le_mul_left taxed some
  have parts : right * rates.sum = left * rates.sum + (right - left) * rates.sum := by
    rw [← Nat.add_mul, Nat.add_sub_cancel' ordered]
  have rest : ceilQuotient ((right - left) * rates.sum) precision ≤ right - left :=
    (ceil_quotient_le_iff positive).mpr (Nat.mul_le_mul_left _ share)
  have joined := ceil_quotient_add_le (left * rates.sum) ((right - left) * rates.sum) positive
  unfold jointFee
  rw [parts]
  omega

/-- With at most three fees, more raw amount leaves less exactly at a drop. -/
theorem sale_drops_iff (positive : 0 < precision) (few : rates.length ≤ 3) {left right : Nat}
    (ordered : left ≤ right) (first : splitFee precision rates left ≤ left)
    (second : splitFee precision rates right ≤ right) :
    right - splitFee precision rates right < left - splitFee precision rates left ↔
      SaleDrops precision rates left right := by
  have above := joint_le_split rates positive right
  have below := split_le_joint rates positive right
  have least := joint_le_split rates positive left
  have most := split_le_joint rates positive left
  have grows := joint_fee_grows rates positive ordered (above.trans second)
  unfold SaleDrops
  dsimp only
  omega

end ArbExecutor.SplitFees
