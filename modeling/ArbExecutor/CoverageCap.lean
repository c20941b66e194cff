import ArbExecutor.EarlyStop

/-!
The forward coverage cap. The bisection behind it asks Pump at the halving points
of the range. It misses the greatest complete amount exactly where such a point
misleads it: one below that fees eat or whose output drops on the way up, or one
above that Pump sells for nothing.
-/

namespace ArbExecutor.CoverageCap

open Checked QuoteMath QuoteAccounts AccountValidation BestDirection DynamicAmount Bisection BinArrayLayout
  ConstantProduct MinimumProbe CurveShape CurveSoundness PumpQuotes

section Cap
variable (market : MarketState) (curve : DlmmCurve) (maxAmount : UInt64)

/-- The amounts up to a maximum that have a complete forward quote. -/
def CompleteAmounts : Set Nat :=
  { amountIn | 1 ≤ amountIn ∧ amountIn ≤ maxAmount.toNat ∧
    ∃ quote, evaluateForward market curve amountIn = .ok quote }

/-- The cap is the greatest complete amount, if there is one. -/
def CapExact : Prop :=
  (CompleteAmounts market curve maxAmount).Nonempty →
    IsGreatest (CompleteAmounts market curve maxAmount)
      (largestForwardCompleteAmount market curve maxAmount.toNat)

/-- The three rounded fees leave nothing of an amount. -/
def FeesEat (amountIn : Nat) : Prop := effectiveQuote market amountIn = 0

/-- A point below the greatest complete amount that fees eat, or that buys more than
that amount does and more than the curve covers. -/
def MisleadsBelow (covered greatest midpoint : Nat) : Prop :=
  midpoint < greatest ∧ (FeesEat market midpoint ∨
    BuyDrops market midpoint greatest ∧ covered < buyOut market (effectiveQuote market midpoint))

/-- A point above the greatest complete amount that keeps a net amount and buys
nothing, or the next to last word on a curve that covers a whole word. -/
def MisleadsAbove (covered greatest midpoint : Nat) : Prop :=
  greatest < midpoint ∧ ¬ FeesEat market midpoint ∧
    (buyOut market (effectiveQuote market midpoint) = 0 ∨
      covered = wordMax 64 ∧ buyOut market (effectiveQuote market midpoint) + 1 = wordMax 64)

instance (amountIn : Nat) : Decidable (FeesEat market amountIn) := inferInstanceAs (Decidable (_ = _))

instance (covered greatest midpoint : Nat) :
    Decidable (MisleadsBelow market covered greatest midpoint) := inferInstanceAs (Decidable (_ ∧ _))

instance (covered greatest midpoint : Nat) :
    Decidable (MisleadsAbove market covered greatest midpoint) := inferInstanceAs (Decidable (_ ∧ _))

variable {market} in
/-- Pump quotes a positive amount within a capacity exactly when fees leave some of it
and what that buys is within the capacity. -/
theorem coverable_iff {amountIn capacity : Nat} (base : market.pumpBaseReserve.toNat ≠ 0)
    (quote : market.pumpQuoteReserve.toNat ≠ 0) (positive : 0 < amountIn) (fits : amountIn < 2 ^ 64) :
    coverable market capacity amountIn = true ↔
      ¬ FeesEat market amountIn ∧ buyOut market (effectiveQuote market amountIn) ≤ capacity := by
  unfold coverable pumpBuyAmountOut FeesEat
  rw [Option.any_eq_true]
  constructor
  · rintro ⟨output, quoted, within⟩
    obtain ⟨bought, succeeded, rfl⟩ := Option.map_eq_some_iff.mp quoted
    obtain ⟨_, _, _, some, rfl⟩ :=
      (pump_buy_ok market amountIn fits bought).mp ((to_option_some _ _).mp succeeded)
    exact ⟨by omega, of_decide_eq_true within⟩
  · rintro ⟨some, within⟩
    have bought := (pump_buy_ok market amountIn fits _).mpr
      ⟨by omega, base, quote, by omega, Eq.refl _⟩
    exact ⟨_, by rw [bought]; rfl, decide_eq_true within⟩

variable {market curve maxAmount} in
/-- What makes an amount complete: Pump buys something with it, and the curve quotes that. -/
theorem complete_parts {amountIn : Nat} (member : amountIn ∈ CompleteAmounts market curve maxAmount) :
    market.pumpBaseReserve.toNat ≠ 0 ∧ market.pumpQuoteReserve.toNat ≠ 0 ∧ ¬ FeesEat market amountIn ∧
      0 < buyOut market (effectiveQuote market amountIn) ∧
      ∃ bought, pumpBuy market amountIn = .ok bought ∧
        bought.amountOut = buyOut market (effectiveQuote market amountIn) ∧
        ∃ quote, curve.quote bought.amountOut = .ok quote := by
  obtain ⟨_, within, quote, evaluated⟩ := member
  obtain ⟨bought, succeeded, quoted⟩ := (bind_ok_iff _ _ _).mp evaluated
  have fits := maxAmount.toNat_lt
  obtain ⟨_, base, reserve, some, same⟩ := (pump_buy_ok market amountIn (by omega) bought).mp succeeded
  have paid : bought.amountOut = buyOut market (effectiveQuote market amountIn) := by rw [same]
  refine ⟨base, reserve, Nat.ne_of_gt some, ?_, bought, succeeded, paid, quote, quoted⟩
  rw [← paid]
  by_contra nothing
  rw [show bought.amountOut = 0 by omega] at quoted
  cases quoted

theorem greatest_complete (some : (CompleteAmounts market curve maxAmount).Nonempty) :
    ∃ greatest, IsGreatest (CompleteAmounts market curve maxAmount) greatest := by
  have bounded : BddAbove (CompleteAmounts market curve maxAmount) :=
    ⟨maxAmount.toNat, fun _ member => member.2.1⟩
  exact ⟨_, Nat.sSup_mem some bounded, fun _ member => le_csSup bounded member⟩

variable {pair : LbPairState} {arrays : List AccountInfo} {bitmapExtension : Option Bytes}
  {swapForY : Bool} {timestamp : Int64} {inputLimit : Nat} {curve}
  (built : buildCurve pair arrays bitmapExtension swapForY timestamp inputLimit = .ok curve)

include built

/-- Where the maximum itself does not complete, the cap is what the bisection returns. -/
theorem cap_bisected {greatest : Nat} (greatestOf : IsGreatest (CompleteAmounts market curve maxAmount) greatest)
    (short : greatest ≠ maxAmount.toNat) :
    largestForwardCompleteAmount market curve maxAmount.toNat =
      lastTrue (coverable market curve.largestCompleteInput) 0 maxAmount.toNat := by
  obtain ⟨member, least⟩ := greatestOf
  obtain ⟨_, _, _, some, bought, _, paid, _, quoted⟩ := complete_parts member
  have covers := quote_within_largest built quoted
  have positive := member.1
  have within := member.2.1
  have unfinished : (evaluateForward market curve maxAmount.toNat).toOption.isSome ≠ true := by
    intro finished
    obtain ⟨quote, evaluated⟩ := Option.isSome_iff_exists.mp finished
    have above := least ⟨by omega, le_rfl, quote, (to_option_some _ _).mp evaluated⟩
    omega
  unfold largestForwardCompleteAmount
  rw [if_neg unfinished]
  dsimp only
  rw [if_neg (by omega)]

/-- A point that Pump sells for something the curve covers is complete, the next to
last word apart. -/
theorem coverable_complete {amountIn : Nat} (base : market.pumpBaseReserve.toNat ≠ 0)
    (reserve : market.pumpQuoteReserve.toNat ≠ 0) (positive : 0 < amountIn)
    (within : amountIn ≤ maxAmount.toNat) (kept : ¬ FeesEat market amountIn)
    (some : 0 < buyOut market (effectiveQuote market amountIn))
    (covered : buyOut market (effectiveQuote market amountIn) ≤ curve.largestCompleteInput)
    (inner : ¬ (curve.largestCompleteInput = wordMax 64 ∧
      buyOut market (effectiveQuote market amountIn) + 1 = wordMax 64)) :
    amountIn ∈ CompleteAmounts market curve maxAmount := by
  have fits := maxAmount.toNat_lt
  have word := market.pumpBaseReserve.toNat_lt
  have below : buyOut market (effectiveQuote market amountIn) < market.pumpBaseReserve.toNat :=
    curve_out_lt_base (by omega) (by unfold pumpQuoteSide; omega) _
  have bought := (pump_buy_ok market amountIn (by omega) _).mpr
    ⟨by omega, base, reserve, Nat.pos_of_ne_zero kept, Eq.refl _⟩
  obtain ⟨quote, quoted⟩ := covered_below_word built some covered (by unfold wordMax; omega) inner
  exact ⟨positive, within, quote, (bind_ok_iff _ _ _).mpr ⟨_, bought, quoted⟩⟩

/-- A point up to the greatest complete amount passes the test exactly if it does not
mislead it. -/
theorem passes_below {greatest midpoint : Nat} (member : greatest ∈ CompleteAmounts market curve maxAmount)
    (positive : 0 < midpoint) (below : midpoint ≤ greatest) :
    coverable market curve.largestCompleteInput midpoint = true ↔
      ¬ MisleadsBelow market curve.largestCompleteInput greatest midpoint := by
  obtain ⟨base, reserve, kept, some, bought, succeeded, paid, _, quoted⟩ := complete_parts member
  have covered := quote_within_largest built quoted
  have fits := maxAmount.toNat_lt
  have within := member.2.1
  rw [coverable_iff base reserve positive (by omega)]
  unfold MisleadsBelow
  constructor
  · rintro ⟨left, reached⟩ ⟨_, eaten | ⟨_, beyond⟩⟩
    · exact left eaten
    · omega
  · intro honest
    rcases Nat.lt_or_eq_of_le below with smaller | rfl
    · have left : ¬ FeesEat market midpoint := fun eaten => honest ⟨smaller, .inl eaten⟩
      refine ⟨left, ?_⟩
      by_contra beyond
      -- What the smaller point buys is out of order with what the greatest amount buys.
      have earlier := (pump_buy_ok market midpoint (by omega) _).mpr
        ⟨by omega, base, reserve, Nat.pos_of_ne_zero left, Eq.refl _⟩
      have order := buy_order_iff market below (by omega) earlier succeeded
      have drops : BuyDrops market midpoint greatest := by
        by_contra calm
        have kept := order.mpr calm
        dsimp only at kept
        omega
      exact honest ⟨smaller, .inr ⟨drops, Nat.lt_of_not_le beyond⟩⟩
    · exact ⟨kept, by omega⟩

/-- A point above the greatest complete amount fails the test exactly if it does not
mislead it. -/
theorem fails_above {greatest midpoint : Nat}
    (greatestOf : IsGreatest (CompleteAmounts market curve maxAmount) greatest)
    (above : greatest < midpoint) (within : midpoint ≤ maxAmount.toNat) :
    ¬ coverable market curve.largestCompleteInput midpoint = true ↔
      ¬ MisleadsAbove market curve.largestCompleteInput greatest midpoint := by
  obtain ⟨member, least⟩ := greatestOf
  obtain ⟨base, reserve, _⟩ := complete_parts member
  have positive : 0 < midpoint := by omega
  have fits := maxAmount.toNat_lt
  rw [coverable_iff base reserve positive (by omega)]
  unfold MisleadsAbove
  constructor
  · rintro refused ⟨_, left, nothing | ⟨whole, last⟩⟩
    · exact refused ⟨left, by omega⟩
    · exact refused ⟨left, by omega⟩
  · rintro honest ⟨left, reached⟩
    have other : ¬ (buyOut market (effectiveQuote market midpoint) = 0 ∨
        curve.largestCompleteInput = wordMax 64 ∧
          buyOut market (effectiveQuote market midpoint) + 1 = wordMax 64) :=
      fun misled => honest ⟨above, left, misled⟩
    rw [not_or] at other
    have complete := least (coverable_complete market maxAmount built base reserve positive within left
      (Nat.pos_of_ne_zero other.1) reached other.2)
    omega

/-- The midpoint test tells the side of the greatest complete amount exactly at the
points that do not mislead it. -/
theorem told_apart {greatest midpoint : Nat}
    (greatestOf : IsGreatest (CompleteAmounts market curve maxAmount) greatest)
    (positive : 0 < midpoint) (within : midpoint ≤ maxAmount.toNat) :
    coverable market curve.largestCompleteInput midpoint = decide (midpoint ≤ greatest) ↔
      ¬ MisleadsBelow market curve.largestCompleteInput greatest midpoint ∧
        ¬ MisleadsAbove market curve.largestCompleteInput greatest midpoint := by
  by_cases below : midpoint ≤ greatest
  · have other : ¬ MisleadsAbove market curve.largestCompleteInput greatest midpoint :=
      fun above => absurd above.1 (by omega)
    rw [decide_eq_true below, passes_below market maxAmount built greatestOf.1 positive below]
    exact (and_iff_left other).symm
  · have other : ¬ MisleadsBelow market curve.largestCompleteInput greatest midpoint :=
      fun smaller => absurd smaller.1 (by omega)
    rw [decide_eq_false below, Bool.eq_false_iff, ne_eq,
      fails_above market maxAmount built greatestOf (by omega) within]
    exact (and_iff_right other).symm

/-- The cap is exact exactly when no halving point on the way to the greatest complete
amount misleads the search. -/
theorem cap_exact_iff :
    CapExact market curve maxAmount ↔
      ∀ greatest, IsGreatest (CompleteAmounts market curve maxAmount) greatest →
        greatest = maxAmount.toNat ∨
          ∀ midpoint ∈ midpointsToward maxAmount.toNat 0 maxAmount.toNat greatest,
            ¬ MisleadsBelow market curve.largestCompleteInput greatest midpoint ∧
              ¬ MisleadsAbove market curve.largestCompleteInput greatest midpoint := by
  have halves {greatest : Nat} (greatestOf : IsGreatest (CompleteAmounts market curve maxAmount) greatest) :
      lastTrue (coverable market curve.largestCompleteInput) 0 maxAmount.toNat = greatest ↔
        ∀ midpoint ∈ midpointsToward maxAmount.toNat 0 maxAmount.toNat greatest,
          ¬ MisleadsBelow market curve.largestCompleteInput greatest midpoint ∧
            ¬ MisleadsAbove market curve.largestCompleteInput greatest midpoint := by
    rw [lastTrue, last_true_exact_iff _ _ 0 maxAmount.toNat greatest le_rfl (Nat.zero_le _)
      greatestOf.1.2.1]
    refine forall₂_congr fun midpoint member => ?_
    have bounds := midpoints_toward_bounds _ _ _ _ midpoint member
    exact told_apart market maxAmount built greatestOf bounds.1 bounds.2
  constructor
  · intro exact greatest greatestOf
    by_cases short : greatest = maxAmount.toNat
    · exact .inl short
    · have cap := exact ⟨greatest, greatestOf.1⟩
      rw [cap_bisected market maxAmount built greatestOf short] at cap
      exact .inr ((halves greatestOf).mp (cap.unique greatestOf))
  · intro condition some
    obtain ⟨greatest, greatestOf⟩ := greatest_complete market curve maxAmount some
    by_cases short : greatest = maxAmount.toNat
    · obtain ⟨_, _, quote, evaluated⟩ := greatestOf.1
      have whole : largestForwardCompleteAmount market curve maxAmount.toNat = greatest := by
        unfold largestForwardCompleteAmount
        rw [← short, evaluated]
        exact if_pos rfl
      rw [whole]
      exact greatestOf
    · have met := (condition greatest greatestOf).resolve_left short
      rw [cap_bisected market maxAmount built greatestOf short, (halves greatestOf).mpr met]
      exact greatestOf

end Cap

/-! Three fees of 25 bps eat an input of three whole, and three is the first
halving point below six, the first amount that outgrows the bin. Seven is halved at
four, six and five instead. -/
section Unquotable

def smallBinArray : AccountInfo :=
  binArrayAccount meteoraDlmmProgramId meteoraDlmmProgramId 0 [payingBin 1, payingBin 4000]

theorem small_bin_cap :
    ((buildCurve steepMarket.pair [smallBinArray] none true 0 4000).toOption.map fun curve =>
      (curve.largestCompleteInput,
        [5, 6, 7].map fun amount => (evaluateForward steepMarket curve amount).toOption.isSome,
        largestForwardCompleteAmount steepMarket curve 6)) =
      some (4000, [true, false, false], 0) := by
  decide +kernel

theorem small_bin_curve :
    ∃ curve, buildCurve steepMarket.pair [smallBinArray] none true 0 4000 = .ok curve ∧
      curve.largestCompleteInput = 4000 ∧
      (∃ quote, evaluateForward steepMarket curve 5 = .ok quote) ∧
      (∀ quote, evaluateForward steepMarket curve 6 ≠ .ok quote) ∧
      (∀ quote, evaluateForward steepMarket curve 7 ≠ .ok quote) ∧
      largestForwardCompleteAmount steepMarket curve 6 = 0 := by
  obtain ⟨curve, built, same⟩ := Option.map_eq_some_iff.mp small_bin_cap
  simp only [List.map_cons, List.map_nil, Prod.mk.injEq, List.cons.injEq, and_true] at same
  obtain ⟨largest, ⟨five, six, seven⟩, missed⟩ := same
  obtain ⟨quote, evaluated⟩ := Option.isSome_iff_exists.mp five
  refine ⟨curve, (to_option_some _ _).mp built, largest, ⟨quote, (to_option_some _ _).mp evaluated⟩,
    fun other found => ?_, fun other found => ?_, missed⟩
  · rw [found] at six
    cases six
  · rw [found] at seven
    cases seven

theorem steep_market_cap :
    ∃ curve, buildCurve steepMarket.pair [smallBinArray] none true 0 4000 = .ok curve ∧
      ¬ CapExact steepMarket curve 6 := by
  obtain ⟨curve, built, _, ⟨quote, evaluated⟩, _, _, missed⟩ := small_bin_curve
  refine ⟨curve, built, fun exact => ?_⟩
  have five : 5 ∈ CompleteAmounts steepMarket curve 6 := ⟨by decide, by decide, quote, evaluated⟩
  have cap : 1 ≤ largestForwardCompleteAmount steepMarket curve 6 := (exact ⟨5, five⟩).1.1
  omega

theorem cap_exact_seven :
    ∃ curve, buildCurve steepMarket.pair [smallBinArray] none true 0 4000 = .ok curve ∧
      CapExact steepMarket curve 7 ∧ 5 ∈ CompleteAmounts steepMarket curve 7 ∧
      7 ∉ CompleteAmounts steepMarket curve 7 := by
  obtain ⟨curve, built, largest, ⟨quote, evaluated⟩, six, seven, _⟩ := small_bin_curve
  have five : 5 ∈ CompleteAmounts steepMarket curve 7 := ⟨by decide, by decide, quote, evaluated⟩
  refine ⟨curve, built, (cap_exact_iff steepMarket 7 built).mpr fun greatest greatestOf => .inr ?_, five,
    fun member => seven _ member.2.2.choose_spec⟩
  have least : 5 ≤ greatest := greatestOf.2 five
  have most : greatest ≤ 7 := greatestOf.1.2.1
  obtain ⟨other, completed⟩ := greatestOf.1.2.2
  obtain rfl : greatest = 5 := by
    have notSix : greatest ≠ 6 := fun same => six other (same ▸ completed)
    have notSeven : greatest ≠ 7 := fun same => seven other (same ▸ completed)
    omega
  rw [show midpointsToward (7 : UInt64).toNat 0 (7 : UInt64).toNat 5 = [4, 6, 5] by decide]
  rw [largest]
  decide

end Unquotable

end ArbExecutor.CoverageCap
