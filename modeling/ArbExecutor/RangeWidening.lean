import ArbExecutor.FailureClass

/-!
A selection over one amount against the selection over a wider range. The wide
run probes the same minimum and then replaces the probe's outcome by that of a
full search on a curve of its own, so the narrow choice survives only there.
-/

namespace ArbExecutor.RangeWidening

open Checked QuoteMath QuoteAccounts AccountValidation BestDirection DynamicAmount CurveBuilding StagedFill
  BinWalk CurveMeasure DirectionOutcome MinimumProbe ExactSelection CandidateCoverage EarlyStop FailureClass

variable {binArrayAccounts : List AccountInfo} {bitmapExtension : Option Bytes}
  {timestamp : Int64} {market : MarketState} {cashbackSellIsReady : Bool}

section TwoCurves
variable {pair : LbPairState} {arrays : List AccountInfo} {swapForY : Bool} {lower upper : Nat}
  {left right : DlmmCurve}

/-- Two curves of one direction never quote an input differently: the shorter one
is a prefix of the longer one. -/
theorem quotes_agree_below (ordered : lower ≤ upper)
    (builtLeft : buildCurve pair arrays bitmapExtension swapForY timestamp lower = .ok left)
    (builtRight : buildCurve pair arrays bitmapExtension swapForY timestamp upper = .ok right)
    {amountIn : Nat} {less more : CurveQuote} (first : left.quote amountIn = .ok less)
    (second : right.quote amountIn = .ok more) : less = more := by
  have same := quotes_within_coverage builtLeft builtRight amountIn ordered
    (quote_within_largest builtLeft first)
  rw [first, second] at same
  exact Option.some.inj same

theorem quotes_agree
    (builtLeft : buildCurve pair arrays bitmapExtension swapForY timestamp lower = .ok left)
    (builtRight : buildCurve pair arrays bitmapExtension swapForY timestamp upper = .ok right)
    {amountIn : Nat} {less more : CurveQuote} (first : left.quote amountIn = .ok less)
    (second : right.quote amountIn = .ok more) : less = more := by
  rcases Nat.le_total lower upper with ordered | ordered
  · exact quotes_agree_below ordered builtLeft builtRight first second
  · exact (quotes_agree_below ordered builtRight builtLeft second first).symm

theorem evaluations_agree {direction : SelectedDirection} {fewer more amountIn : Nat}
    (builtLeft : directionCurve arrays bitmapExtension timestamp market direction fewer = .ok left)
    (builtRight : directionCurve arrays bitmapExtension timestamp market direction more = .ok right)
    {first second : CurveQuote} (evaluated : evaluateIn market direction left amountIn = .ok first)
    (again : evaluateIn market direction right amountIn = .ok second) : first = second := by
  cases direction with
  | pumpToMeteora =>
      obtain ⟨bought, quoted, inner⟩ := (bind_ok_iff _ _ _).mp evaluated
      obtain ⟨other, same, outer⟩ := (bind_ok_iff _ _ _).mp again
      cases quoted.symm.trans same
      exact quotes_agree builtLeft builtRight inner outer
  | meteoraToPump =>
      obtain ⟨paid, quoted, inner⟩ := (bind_ok_iff _ _ _).mp evaluated
      obtain ⟨other, requoted, outer⟩ := (bind_ok_iff _ _ _).mp again
      cases quotes_agree builtLeft builtRight quoted requoted
      exact Except.ok.inj (inner.symm.trans outer)

/-- A reverse minimum stays complete on every wider curve. -/
theorem reverse_keeps_minimum {bounds : DynamicSearchBounds} (ordered : bounds.minAmount ≤ bounds.maxAmount)
    {quote : CurveQuote}
    (complete : MinimumQuote binArrayAccounts bitmapExtension timestamp market cashbackSellIsReady
      .meteoraToPump bounds.minAmount quote) :
    KeepsMinimum binArrayAccounts bitmapExtension timestamp market .meteoraToPump bounds := by
  obtain ⟨_, narrow, builtNarrow, evaluated⟩ := complete
  intro wide builtWide
  have evaluated : evaluateReverse market narrow bounds.minAmount = .ok quote := evaluated
  unfold evaluateReverse at evaluated
  obtain ⟨paid, quoted, sold⟩ := (bind_ok_iff _ _ _).mp evaluated
  have alike := quotes_within_limit builtNarrow builtWide bounds.minAmount le_rfl ordered
  have quoted : wide.quote bounds.minAmount = .ok paid := by
    rw [← to_option_some, ← alike, to_option_some]
    exact quoted
  refine ⟨le_min ordered (quote_within_largest builtWide quoted), quote, ?_⟩
  change evaluateReverse market wide bounds.minAmount = .ok quote
  unfold evaluateReverse
  rw [quoted, ok_bind]
  exact sold

end TwoCurves

section Outcomes
variable (bounds : DynamicSearchBounds)

/-- Over a single amount a direction's outcome is its probe. -/
theorem narrow_outcome (direction : SelectedDirection) :
    directionAlone binArrayAccounts bitmapExtension timestamp market cashbackSellIsReady direction
        (minimumBounds bounds) =
      probeAlone binArrayAccounts bitmapExtension timestamp market cashbackSellIsReady direction bounds := by
  have idle (minimum : DirectionSearch) : expands minimum (minimumBounds bounds) = false := by
    simp [expands, minimumBounds]
  unfold directionAlone expandAlone
  simp only [idle, Bool.false_eq_true, if_false]
  exact bind_pure _

/-- A probe's choice is the minimum quote, with its whole spread. -/
theorem probe_choice {direction : SelectedDirection} {minimum : DirectionSearch} {choice : DirectionChoice}
    (probed : probeAlone binArrayAccounts bitmapExtension timestamp market cashbackSellIsReady direction
      bounds = .ok minimum) (chosen : minimum.best = some choice) :
    ∃ quote, MinimumQuote binArrayAccounts bitmapExtension timestamp market cashbackSellIsReady direction
        bounds.minAmount quote ∧
      choice.profit = quote.amountOut - bounds.minAmount ∧ bounds.minProfit ≤ choice.profit := by
  by_cases complete : MinimumComplete binArrayAccounts bitmapExtension timestamp market
      cashbackSellIsReady direction bounds.minAmount
  · obtain ⟨quote, complete⟩ := complete
    rw [(probe_complete _ _ _ _ _ probed complete).2.2] at chosen
    split at chosen
    next enough =>
      cases chosen
      exact ⟨quote, complete, rfl, enough⟩
    next => cases chosen
  · rw [(probe_incomplete _ _ _ _ _ probed complete).2] at chosen
    cases chosen

variable (binArrayAccounts bitmapExtension timestamp market cashbackSellIsReady)

/-- A full search of a direction evaluates a candidate that earns at least a profit. -/
def Earns (direction : SelectedDirection) (profit : Nat) : Prop :=
  Worth binArrayAccounts bitmapExtension timestamp market cashbackSellIsReady direction bounds ∧
    ∃ curve amountIn quote,
      directionCurve binArrayAccounts bitmapExtension timestamp market direction bounds.maxAmount =
          .ok curve ∧
        (searchedRun market direction curve bounds).Evaluates amountIn ∧
        evaluateIn market direction curve amountIn = .ok quote ∧ amountIn + profit ≤ quote.amountOut

variable {binArrayAccounts bitmapExtension timestamp market cashbackSellIsReady}

theorem search_earns_iff (direction : SelectedDirection) (curve : DlmmCurve) {profit : Nat}
    (enough : bounds.minProfit ≤ profit) :
    (∃ choice, (searchIn market direction curve bounds).best = some choice ∧ profit ≤ choice.profit) ↔
      ∃ amountIn quote, (searchedRun market direction curve bounds).Evaluates amountIn ∧
        evaluateIn market direction curve amountIn = .ok quote ∧ amountIn + profit ≤ quote.amountOut := by
  have required : (searchedRun market direction curve bounds).context.minProfit = bounds.minProfit := rfl
  rw [← searched_outcome]
  constructor
  · rintro ⟨choice, chosen, more⟩
    obtain ⟨evaluates, quoted, exact, _⟩ := run_best market direction _ choice chosen
    exact ⟨choice.amountIn, _, evaluates, quoted, by dsimp only; omega⟩
  · rintro ⟨amountIn, quote, evaluates, quoted, earned⟩
    obtain ⟨choice, chosen, unbeaten⟩ := run_best_unbeaten market direction _
      { amountIn, amountOut := quote.amountOut, profit := quote.amountOut - amountIn
        usedIndices := quote.usedIndices } evaluates quoted (by dsimp only; omega) (by dsimp only; omega)
    have above := (not_better_choice _ _ unbeaten).1
    dsimp only at above
    exact ⟨choice, chosen, by omega⟩

/-- A full search that keeps the minimum earns what the probe earned. -/
theorem kept_minimum_earns {direction : SelectedDirection} {quote : CurveQuote} {profit : Nat}
    (worth : Worth binArrayAccounts bitmapExtension timestamp market cashbackSellIsReady direction bounds)
    (builds : DirectionBuilds binArrayAccounts bitmapExtension timestamp market direction bounds.maxAmount)
    (keeps : KeepsMinimum binArrayAccounts bitmapExtension timestamp market direction bounds)
    (complete : MinimumQuote binArrayAccounts bitmapExtension timestamp market cashbackSellIsReady direction
      bounds.minAmount quote) (earned : bounds.minAmount + profit ≤ quote.amountOut) :
    Earns binArrayAccounts bitmapExtension timestamp market cashbackSellIsReady bounds direction profit := by
  obtain ⟨curve, built⟩ := (direction_builds_iff _ _ _ _ _ _).mp builds
  obtain ⟨covered, again, evaluated⟩ := keeps curve built
  obtain ⟨_, narrow, builtNarrow, first⟩ := complete
  cases evaluations_agree builtNarrow built first evaluated
  refine ⟨worth, curve, bounds.minAmount, quote, built, ⟨?_, le_rfl, covered⟩, evaluated, earned⟩
  change bounds.minAmount ∈ (if _ then noCandidates else _ : CandidateState).candidates
  rw [if_neg (by omega)]
  exact minimum_is_candidate market direction curve (evaluates_positive market evaluated) _

end Outcomes

section Widening
variable (bounds : DynamicSearchBounds)

/-- The wide outcome of a direction: its search where it is worth one, else its probe. -/
theorem wide_outcome {direction : SelectedDirection} {search : DirectionSearch} {choice : DirectionChoice}
    (profitable : 0 < bounds.minProfit)
    (ran : directionAlone binArrayAccounts bitmapExtension timestamp market cashbackSellIsReady direction
      bounds = .ok search) (chosen : search.best = some choice) {profit : Nat}
    (enough : bounds.minProfit ≤ profit) (more : profit ≤ choice.profit) :
    bounds.maxAmount = bounds.minAmount ∨
      Earns binArrayAccounts bitmapExtension timestamp market cashbackSellIsReady bounds direction
        profit := by
  obtain ⟨minimum, probed, expanded⟩ := (bind_ok_iff _ _ _).mp ran
  have worth_iff := expands_iff_worth _ _ _ _ _ probed
  unfold expandAlone at expanded
  split at expanded
  next grows =>
    obtain ⟨curve, built, searched⟩ := (bind_ok_iff _ _ _).mp expanded
    cases searched
    obtain ⟨amountIn, quote, evaluates, quoted, earned⟩ :=
      (search_earns_iff bounds direction curve enough).mp ⟨choice, chosen, more⟩
    exact .inr ⟨worth_iff.mp grows, curve, amountIn, quote, built, evaluates, quoted, earned⟩
  next stays =>
    cases expanded
    obtain ⟨quote, complete, spread, _⟩ := probe_choice bounds probed chosen
    by_contra neither
    rw [not_or] at neither
    exact stays (worth_iff.mpr ⟨neither.1, quote, complete, by omega⟩)

/-- The selection over the whole range earns at least what the one over the minimum did. -/
def WideningKeeps (binArrayAccounts : List AccountInfo) (bitmapExtension : Option Bytes) (timestamp : Int64)
    (market : MarketState) (cashbackSellIsReady : Bool) (bounds : DynamicSearchBounds) (profit : Nat) : Prop :=
  ∃ wide, selectDynamic binArrayAccounts bitmapExtension timestamp market cashbackSellIsReady
      bounds.minAmount bounds.maxAmount bounds.minProfit = .ok wide ∧ profit ≤ wide.choice.profit

/-- The narrow selection is the probe of its direction, and every probe has a curve. -/
theorem narrow_parts (narrow : DynamicSelection)
    (selected : selectDynamic binArrayAccounts bitmapExtension timestamp market cashbackSellIsReady
      bounds.minAmount bounds.minAmount bounds.minProfit = .ok narrow) :
    (∃ quote, MinimumQuote binArrayAccounts bitmapExtension timestamp market cashbackSellIsReady
        narrow.direction bounds.minAmount quote ∧
      narrow.choice.profit = quote.amountOut - bounds.minAmount ∧ bounds.minProfit ≤ narrow.choice.profit) ∧
    ∀ direction, directionReady cashbackSellIsReady direction = true →
      DirectionBuilds binArrayAccounts bitmapExtension timestamp market direction bounds.minAmount := by
  obtain ⟨outcome, ran, chosen⟩ := (select_dynamic_iff (minimumBounds bounds) narrow).mp selected
  have probed (direction : SelectedDirection) := (narrow_outcome bounds direction).symm.trans (ran direction)
  exact ⟨probe_choice bounds (probed _) (selection_best chosen).1,
    fun direction => (probe_ok_iff _ _ _ _ _ direction bounds).mp ⟨_, probed direction⟩⟩

/-- A search that earns the profit gives it to the wide selection. -/
theorem earns_widening {direction : SelectedDirection} {profit : Nat} (enough : bounds.minProfit ≤ profit)
    (probes : ∀ direction, directionReady cashbackSellIsReady direction = true →
      DirectionBuilds binArrayAccounts bitmapExtension timestamp market direction bounds.minAmount)
    (builds : ∀ direction, Worth binArrayAccounts bitmapExtension timestamp market cashbackSellIsReady
        direction bounds →
      DirectionBuilds binArrayAccounts bitmapExtension timestamp market direction bounds.maxAmount)
    (earns : Earns binArrayAccounts bitmapExtension timestamp market cashbackSellIsReady bounds direction
      profit) :
    WideningKeeps binArrayAccounts bitmapExtension timestamp market cashbackSellIsReady bounds profit := by
  have outcomes (direction : SelectedDirection) : ∃ search, directionAlone binArrayAccounts bitmapExtension
      timestamp market cashbackSellIsReady direction bounds = .ok search :=
    (alone_ok_iff _ _ _ _ _ _ _).mpr ⟨probes direction, builds direction⟩
  choose outcome ran using outcomes
  obtain ⟨worth, curve, amountIn, found, built, evaluates, quoted, earned⟩ := earns
  obtain ⟨choice, searchBest, more⟩ := (search_earns_iff bounds direction curve enough).mpr
    ⟨amountIn, found, evaluates, quoted, earned⟩
  have searched : directionAlone binArrayAccounts bitmapExtension timestamp market cashbackSellIsReady
      direction bounds = .ok (searchIn market direction curve bounds) := by
    obtain ⟨minimum, minimumProbed⟩ := (probe_ok_iff _ _ _ _ _ direction bounds).mpr (probes direction)
    have grows := (expands_iff_worth _ _ _ _ _ minimumProbed).mpr worth
    unfold directionAlone expandAlone searchDirection
    rw [minimumProbed, ok_bind, if_pos grows, built, ok_bind, pure_ok]
  have same := Except.ok.inj ((ran direction).symm.trans searched)
  obtain ⟨wide, chosen, atLeast⟩ := selection_at_least outcome direction choice (same ▸ searchBest)
  exact ⟨wide, (select_dynamic_iff bounds wide).mpr ⟨outcome, ran, chosen⟩, more.trans atLeast⟩

/-- Which full searches decide the wide selection: each one asked for must have a curve,
and one of them earns the narrow profit, as the narrow winner's does when it keeps the
minimum. -/
theorem wide_selection_iff (ordered : bounds.minAmount ≤ bounds.maxAmount)
    (profitable : 0 < bounds.minProfit) (narrow : DynamicSelection)
    (selected : selectDynamic binArrayAccounts bitmapExtension timestamp market cashbackSellIsReady
      bounds.minAmount bounds.minAmount bounds.minProfit = .ok narrow) :
    WideningKeeps binArrayAccounts bitmapExtension timestamp market cashbackSellIsReady bounds
        narrow.choice.profit ↔
      (∀ direction, Worth binArrayAccounts bitmapExtension timestamp market cashbackSellIsReady direction
          bounds →
        DirectionBuilds binArrayAccounts bitmapExtension timestamp market direction bounds.maxAmount) ∧
        ((narrow.direction = .pumpToMeteora →
            KeepsMinimum binArrayAccounts bitmapExtension timestamp market .pumpToMeteora bounds) ∨
          ∃ direction, Earns binArrayAccounts bitmapExtension timestamp market cashbackSellIsReady bounds
            direction narrow.choice.profit) := by
  obtain ⟨⟨quote, complete, spread, enough⟩, probes⟩ := narrow_parts bounds narrow selected
  constructor
  · rintro ⟨wide, wideSelected, more⟩
    obtain ⟨wideOutcome, ran, wideChosen⟩ := (select_dynamic_iff bounds wide).mp wideSelected
    refine ⟨fun direction => ((alone_ok_iff _ _ _ _ _ _ _).mp ⟨_, ran direction⟩).2, ?_⟩
    have wideBest := (selection_best wideChosen).1
    -- The wide winner is the narrow one again over a single amount; else it earns by the full search.
    rcases wide_outcome bounds profitable (ran wide.direction) wideBest enough more with single | earns
    · refine .inl fun isForward curve built => ?_
      rw [isForward] at complete
      obtain ⟨_, narrowCurve, builtNarrow, evaluated⟩ := complete
      rw [single, builtNarrow] at built
      cases built
      rw [single, evaluated_covered binArrayAccounts bitmapExtension timestamp market builtNarrow evaluated]
      exact ⟨le_rfl, quote, evaluated⟩
    · exact .inr ⟨_, earns⟩
  · rintro ⟨builds, keeps | ⟨direction, earns⟩⟩
    · by_cases single : bounds.maxAmount = bounds.minAmount
      · unfold WideningKeeps
        rw [single]
        exact ⟨narrow, selected, le_rfl⟩
      have worth : Worth binArrayAccounts bitmapExtension timestamp market cashbackSellIsReady
          narrow.direction bounds := ⟨single, quote, complete, by omega⟩
      refine earns_widening bounds enough probes builds
        (kept_minimum_earns bounds worth (builds _ worth) ?_ complete (by omega))
      -- A forward winner needs its minimum kept by the longer curve; a reverse one keeps it in any range.
      cases winner : narrow.direction with
      | pumpToMeteora => exact keeps winner
      | meteoraToPump => exact reverse_keeps_minimum ordered (winner ▸ complete)
    · exact earns_widening bounds enough probes builds earns

/-- Widening the range keeps the narrow profit only if every full search that is asked
for has a curve, and then whenever a forward winner keeps the minimum: a reverse winner
always does. -/
theorem widening_keeps (ordered : bounds.minAmount ≤ bounds.maxAmount)
    (profitable : 0 < bounds.minProfit) (narrow : DynamicSelection)
    (selected : selectDynamic binArrayAccounts bitmapExtension timestamp market cashbackSellIsReady
      bounds.minAmount bounds.minAmount bounds.minProfit = .ok narrow) :
    (WideningKeeps binArrayAccounts bitmapExtension timestamp market cashbackSellIsReady bounds
        narrow.choice.profit →
      ∀ direction, Worth binArrayAccounts bitmapExtension timestamp market cashbackSellIsReady direction
          bounds →
        DirectionBuilds binArrayAccounts bitmapExtension timestamp market direction bounds.maxAmount) ∧
    ((∀ direction, Worth binArrayAccounts bitmapExtension timestamp market cashbackSellIsReady direction
          bounds →
        DirectionBuilds binArrayAccounts bitmapExtension timestamp market direction bounds.maxAmount) ∧
      (narrow.direction = .pumpToMeteora →
        KeepsMinimum binArrayAccounts bitmapExtension timestamp market .pumpToMeteora bounds) →
      WideningKeeps binArrayAccounts bitmapExtension timestamp market cashbackSellIsReady bounds
        narrow.choice.profit) := by
  have decided := wide_selection_iff bounds ordered profitable narrow selected
  exact ⟨fun kept => (decided.mp kept).1, fun kept => decided.mpr ⟨kept.1, .inl kept.2⟩⟩

end Widening

section Unreached

theorem unreached_loses_choice :
    ∃ narrow, selectDynamic [unreachedArray] none 0 profitableMarket true 100 100 1 = .ok narrow ∧
      ¬ ∃ wide, selectDynamic [unreachedArray] none 0 profitableMarket true 100 600 1 = .ok wide ∧
        narrow.choice.profit ≤ wide.choice.profit := by
  obtain ⟨selects, fails, _⟩ := unreached_selections
  obtain ⟨narrow, selected⟩ := Option.isSome_iff_exists.mp selects
  refine ⟨narrow, (to_option_some _ _).mp selected, ?_⟩
  rintro ⟨wide, ran, _⟩
  rw [ran] at fails
  cases fails

/-! It is the forward curve that is lost, though only for the wide range. -/
example : [100, 600].map (fun limit =>
    (directionCurve [unreachedArray] none 0 profitableMarket .pumpToMeteora limit).toOption.isSome) =
      [true, false] := by decide +kernel

/-- Up to 400 the profitable market has both its curves, and its forward search keeps
the minimum. -/
theorem profitable_widens :
    (∀ direction, DirectionBuilds [profitableArray] none 0 profitableMarket direction
        profitableBounds.maxAmount) ∧
      KeepsMinimum [profitableArray] none 0 profitableMarket .pumpToMeteora profitableBounds := by
  have covered : (directionCurve [profitableArray] none 0 profitableMarket .pumpToMeteora
      profitableBounds.maxAmount).toOption.all (fun curve =>
        decide (profitableBounds.minAmount ≤
          coverage profitableMarket .pumpToMeteora curve profitableBounds.maxAmount) &&
        (evaluateIn profitableMarket .pumpToMeteora curve profitableBounds.minAmount).toOption.isSome) =
      true := by decide +kernel
  refine ⟨fun direction => (direction_builds_iff _ _ _ _ _ _).mpr
    (profitable_curves direction _ (by decide)), fun curve built => ?_⟩
  rw [(to_option_some _ _).mpr built] at covered
  obtain ⟨within, evaluates⟩ := (Bool.and_eq_true _ _).mp covered
  obtain ⟨quote, evaluated⟩ := Option.isSome_iff_exists.mp evaluates
  exact ⟨of_decide_eq_true within, quote, (to_option_some _ _).mp evaluated⟩

theorem widening_keeps_profitable :
    WideningKeeps [profitableArray] none 0 profitableMarket true profitableBounds 89 := by
  obtain ⟨_, narrowRuns, _⟩ := profitable_selections
  obtain ⟨narrow, selected, earned⟩ := Option.map_eq_some_iff.mp narrowRuns
  rw [Prod.mk.injEq] at earned
  have profit : narrow.choice.profit = 89 := by rw [earned.2]
  rw [← profit]
  exact (widening_keeps profitableBounds (by decide) (by decide) narrow
    ((to_option_some _ _).mp selected)).2
      ⟨fun direction _ => profitable_widens.1 direction, fun _ => profitable_widens.2⟩

end Unreached

end ArbExecutor.RangeWidening
