import ArbExecutor.CurveMeasure

/-!
When a curve can be built and how building it fails. Up to the input limit all
bins of the walk have to be readable and the measured totals have to fit their
words; the first of the two to break decides the error.
-/

namespace ArbExecutor.CurveBuilding

open Checked QuoteMath QuoteAccounts AccountValidation BestDirection DynamicAmount BinPricing
  StagedFill BinWalk CurveMeasure

section Measuring

def TotalsFit (totalIn totalOut : Nat) (bin : PricedBin) : Prop :=
  totalIn + bin.pricing.capacity.amountIn < 2 ^ 64 ∧ totalOut + bin.pricing.capacity.amountOut < 2 ^ 64

instance (totalIn totalOut : Nat) (bin : PricedBin) : Decidable (TotalsFit totalIn totalOut bin) :=
  inferInstanceAs (Decidable (_ ∧ _))

/-- A walk that can be measured up to a limit. -/
def Buildable (limit : Nat) (readable : Bool) : Nat → Nat → List PricedBin → Prop
  | _, _, [] => readable = true
  | totalIn, totalOut, bin :: rest =>
      if (stage bin.pricing).Usable then
        TotalsFit totalIn totalOut bin ∧
          (totalIn + bin.pricing.capacity.amountIn < limit →
            Buildable limit readable (totalIn + bin.pricing.capacity.amountIn)
              (totalOut + bin.pricing.capacity.amountOut) rest)
      else Buildable limit readable totalIn totalOut rest

/-- A walk whose totals leave their words before the limit is reached. -/
def Overflows (limit : Nat) : Nat → Nat → List PricedBin → Prop
  | _, _, [] => False
  | totalIn, totalOut, bin :: rest =>
      if (stage bin.pricing).Usable then
        TotalsFit totalIn totalOut bin →
          totalIn + bin.pricing.capacity.amountIn < limit ∧
            Overflows limit (totalIn + bin.pricing.capacity.amountIn)
              (totalOut + bin.pricing.capacity.amountOut) rest
      else Overflows limit totalIn totalOut rest

variable (limit : Nat) (readable : Bool)

/-- The three ways a measurement ends. -/
theorem measure_cases (totalIn totalOut : Nat) (bins : List PricedBin) :
    (Buildable limit readable totalIn totalOut bins ∧ ¬ Overflows limit totalIn totalOut bins ∧
        ∃ segments, measure limit readable totalIn totalOut bins = .ok segments) ∨
      (¬ Buildable limit readable totalIn totalOut bins ∧ Overflows limit totalIn totalOut bins ∧
        measure limit readable totalIn totalOut bins = .error .arithmeticOverflow) ∨
      (¬ Buildable limit readable totalIn totalOut bins ∧ ¬ Overflows limit totalIn totalOut bins ∧
        measure limit readable totalIn totalOut bins = .error .bestDirectionQuoteIncomplete) := by
  -- The three outcomes are told apart bin by bin, so one induction gives all of them.
  induction bins generalizing totalIn totalOut with
  | nil =>
      unfold Buildable Overflows CurveMeasure.measure
      cases readable with
      | true => exact .inl ⟨rfl, not_false, [], rfl⟩
      | false => exact .inr (.inr ⟨Bool.false_ne_true, not_false, rfl⟩)
  | cons bin rest ih =>
      unfold Buildable Overflows CurveMeasure.measure
      by_cases usable : (stage bin.pricing).Usable
      · rw [if_pos usable, if_pos usable, if_pos usable]
        by_cases fits : TotalsFit totalIn totalOut bin
        · have next := ih (totalIn + bin.pricing.capacity.amountIn)
            (totalOut + bin.pricing.capacity.amountOut)
          unfold TotalsFit at fits ⊢
          rw [if_pos fits]
          by_cases reached : limit ≤ totalIn + bin.pricing.capacity.amountIn
          · rw [if_pos reached]
            exact .inl ⟨⟨fits, fun short => absurd short (by omega)⟩,
              fun overflows => absurd (overflows fits).1 (by omega), _, rfl⟩
          · rw [if_neg reached]
            have short : totalIn + bin.pricing.capacity.amountIn < limit := by omega
            rcases next with ⟨builds, calm, segments, measured⟩ | ⟨fails, overflows, measured⟩ |
              ⟨fails, calm, measured⟩
            · exact .inl ⟨⟨fits, fun _ => builds⟩, fun overflows => calm (overflows fits).2, _,
                by rw [measured]; rfl⟩
            · exact .inr (.inl ⟨fun builds => fails (builds.2 short), fun _ => ⟨short, overflows⟩,
                by rw [measured]; rfl⟩)
            · exact .inr (.inr ⟨fun builds => fails (builds.2 short),
                fun overflows => calm (overflows fits).2, by rw [measured]; rfl⟩)
        · refine .inr (.inl ⟨fun builds => fits builds.1, fun claimed => absurd claimed fits, ?_⟩)
          unfold TotalsFit at fits
          rw [if_neg fits]
      · rw [if_neg usable, if_neg usable, if_neg usable]
        exact ih totalIn totalOut

end Measuring

theorem map_error {Result Next : Type} {outcome : Except ArbError Result} {convert : Result → Next}
    {error : ArbError} (mapped : outcome.map convert = .error error) : outcome = .error error := by
  cases outcome with
  | error other => cases mapped; rfl
  | ok result => cases mapped

section Direction
variable (pair : LbPairState) (arrays : List AccountInfo) (bitmapExtension : Option Bytes)
  (swapForY : Bool) (timestamp : Int64) (inputLimit : Nat)

/-- The pair's modes are known and its walk can be measured up to the limit. -/
def CurveBuilds : Prop :=
  ∃ result, directionWalk pair arrays bitmapExtension swapForY timestamp = .ok result ∧
    Buildable inputLimit result.readable 0 0 result.bins

/-- The pair's modes are known and the measured totals leave their words. -/
def CurveOverflows : Prop :=
  ∃ result, directionWalk pair arrays bitmapExtension swapForY timestamp = .ok result ∧
    Overflows inputLimit 0 0 result.bins

theorem build_curve_cases :
    (CurveBuilds pair arrays bitmapExtension swapForY timestamp inputLimit ∧
        ¬ CurveOverflows pair arrays bitmapExtension swapForY timestamp inputLimit ∧
        ∃ curve, buildCurve pair arrays bitmapExtension swapForY timestamp inputLimit = .ok curve) ∨
      (¬ CurveBuilds pair arrays bitmapExtension swapForY timestamp inputLimit ∧
        CurveOverflows pair arrays bitmapExtension swapForY timestamp inputLimit ∧
        buildCurve pair arrays bitmapExtension swapForY timestamp inputLimit =
          .error .arithmeticOverflow) ∨
      (¬ CurveBuilds pair arrays bitmapExtension swapForY timestamp inputLimit ∧
        ¬ CurveOverflows pair arrays bitmapExtension swapForY timestamp inputLimit ∧
        buildCurve pair arrays bitmapExtension swapForY timestamp inputLimit =
          .error .bestDirectionQuoteIncomplete) := by
  have segments := build_curve_segments pair arrays bitmapExtension swapForY timestamp inputLimit
  unfold CurveBuilds CurveOverflows
  cases walked : directionWalk pair arrays bitmapExtension swapForY timestamp with
  | error error =>
      rw [walked] at segments
      refine .inr (.inr ⟨?_, ?_, map_error segments⟩)
      · rintro ⟨_, same, _⟩
        cases same
      · rintro ⟨_, same, _⟩
        cases same
  | ok result =>
      rw [walked] at segments
      change _ = measure inputLimit result.readable 0 0 result.bins at segments
      -- The walk is the one that ran, so both descriptions are about its bins.
      have only {property : Walk → Prop} :
          (∃ other, (Except.ok result : Except QuoteError Walk) = .ok other ∧ property other) ↔
            property result := by simp
      rw [only, only]
      rcases measure_cases inputLimit result.readable 0 0 result.bins with
        ⟨builds, calm, more, measured⟩ | ⟨fails, overflows, measured⟩ | ⟨fails, calm, measured⟩
      · refine .inl ⟨builds, calm, ?_⟩
        rw [measured] at segments
        cases built : buildCurve pair arrays bitmapExtension swapForY timestamp inputLimit with
        | error error => rw [built] at segments; cases segments
        | ok curve => exact ⟨curve, rfl⟩
      · exact .inr (.inl ⟨fails, overflows, map_error (segments.trans measured)⟩)
      · exact .inr (.inr ⟨fails, calm, map_error (segments.trans measured)⟩)

theorem curve_builds_iff :
    CurveBuilds pair arrays bitmapExtension swapForY timestamp inputLimit ↔
      ∃ curve, buildCurve pair arrays bitmapExtension swapForY timestamp inputLimit = .ok curve := by
  rcases build_curve_cases pair arrays bitmapExtension swapForY timestamp inputLimit with
    ⟨builds, _, built⟩ | ⟨fails, _, failed⟩ | ⟨fails, _, failed⟩
  · exact ⟨fun _ => built, fun _ => builds⟩
  · exact ⟨fun builds => absurd builds fails, fun ⟨_, built⟩ => nomatch failed.symm.trans built⟩
  · exact ⟨fun builds => absurd builds fails, fun ⟨_, built⟩ => nomatch failed.symm.trans built⟩

theorem curve_overflows_iff :
    CurveOverflows pair arrays bitmapExtension swapForY timestamp inputLimit ↔
      buildCurve pair arrays bitmapExtension swapForY timestamp inputLimit =
        .error .arithmeticOverflow := by
  rcases build_curve_cases pair arrays bitmapExtension swapForY timestamp inputLimit with
    ⟨_, calm, _, built⟩ | ⟨_, overflows, failed⟩ | ⟨_, calm, failed⟩
  · exact ⟨fun overflows => absurd overflows calm, fun failed => nomatch built.symm.trans failed⟩
  · exact ⟨fun _ => failed, fun _ => overflows⟩
  · exact ⟨fun overflows => absurd overflows calm, fun other => nomatch failed.symm.trans other⟩

theorem build_curve_error {error : ArbError}
    (failed : buildCurve pair arrays bitmapExtension swapForY timestamp inputLimit = .error error) :
    error = .arithmeticOverflow ∨ error = .bestDirectionQuoteIncomplete := by
  rcases build_curve_cases pair arrays bitmapExtension swapForY timestamp inputLimit with
    ⟨_, _, _, built⟩ | ⟨_, _, other⟩ | ⟨_, _, other⟩
  · cases built.symm.trans failed
  · exact .inl (Except.error.inj (failed.symm.trans other))
  · exact .inr (Except.error.inj (failed.symm.trans other))

end Direction

end ArbExecutor.CurveBuilding
