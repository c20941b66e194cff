import ArbExecutor.MinimumProbe
import ArbExecutor.ExactSelection

/-!
What one direction can do to the other. A direction that has a choice of its
own always leads to a selection at least as good, as long as the curves the
other direction asks for can be built; a curve that cannot be built takes the
whole selection down with it.
-/

namespace ArbExecutor.DirectionIsolation

open Checked QuoteMath QuoteAccounts AccountValidation BestDirection DynamicAmount BinPricing
  StagedFill BinWalk CurveMeasure CurveBuilding DirectionOutcome MinimumProbe

def opposite : SelectedDirection → SelectedDirection
  | .pumpToMeteora => .meteoraToPump
  | .meteoraToPump => .pumpToMeteora

theorem opposite_cases (direction other : SelectedDirection) :
    other = direction ∨ other = opposite direction := by
  cases direction <;> cases other <;> simp [opposite]

section Isolation
variable (binArrayAccounts : List AccountInfo) (bitmapExtension : Option Bytes)
  (timestamp : Int64) (market : MarketState) (cashbackSellIsReady : Bool)

/-- A choice of one direction alone is matched by the selection over both. -/
def Isolated (direction : SelectedDirection) (bounds : DynamicSearchBounds) : Prop :=
  ∀ search choice,
    directionAlone binArrayAccounts bitmapExtension timestamp market cashbackSellIsReady direction
      bounds = .ok search →
    search.best = some choice → bounds.minProfit ≤ choice.profit →
    ∃ selection, selectDynamic binArrayAccounts bitmapExtension timestamp market cashbackSellIsReady
        bounds.minAmount bounds.maxAmount bounds.minProfit = .ok selection ∧
      choice.profit ≤ selection.choice.profit

/-- The curves a direction asks for can be built: that of its probe, if it is
ready, and that of its full search, if its minimum quote is worth one. -/
def CurvesBuild (direction : SelectedDirection) (bounds : DynamicSearchBounds) : Prop :=
  (directionReady cashbackSellIsReady direction = true →
    DirectionBuilds binArrayAccounts bitmapExtension timestamp market direction bounds.minAmount) ∧
  (Worth binArrayAccounts bitmapExtension timestamp market cashbackSellIsReady direction bounds →
    DirectionBuilds binArrayAccounts bitmapExtension timestamp market direction bounds.maxAmount)

def HasChoice (direction : SelectedDirection) (bounds : DynamicSearchBounds) : Prop :=
  ∃ search choice, directionAlone binArrayAccounts bitmapExtension timestamp market
      cashbackSellIsReady direction bounds = .ok search ∧
    search.best = some choice ∧ bounds.minProfit ≤ choice.profit

/-- The selection exists only if both directions have an outcome. -/
theorem selected_both (direction : SelectedDirection) (bounds : DynamicSearchBounds)
    (selection : DynamicSelection)
    (selected : selectDynamic binArrayAccounts bitmapExtension timestamp market cashbackSellIsReady
      bounds.minAmount bounds.maxAmount bounds.minProfit = .ok selection) :
    ∃ search, directionAlone binArrayAccounts bitmapExtension timestamp market cashbackSellIsReady
      direction bounds = .ok search := by
  obtain ⟨outcome, ran, _⟩ := (select_dynamic_iff bounds selection).mp selected
  exact ⟨outcome direction, ran direction⟩

/-- Two outcomes, one of them with a choice, give a selection that matches it. -/
theorem selects_from_both (direction : SelectedDirection) (bounds : DynamicSearchBounds)
    (search opposed : DirectionSearch) (choice : DirectionChoice)
    (ran : directionAlone binArrayAccounts bitmapExtension timestamp market cashbackSellIsReady
      direction bounds = .ok search)
    (opposedRan : directionAlone binArrayAccounts bitmapExtension timestamp market cashbackSellIsReady
      (opposite direction) bounds = .ok opposed)
    (best : search.best = some choice) :
    ∃ selection, selectDynamic binArrayAccounts bitmapExtension timestamp market cashbackSellIsReady
        bounds.minAmount bounds.maxAmount bounds.minProfit = .ok selection ∧
      choice.profit ≤ selection.choice.profit := by
  have both (asked : SelectedDirection) : ∃ outcome, directionAlone binArrayAccounts bitmapExtension
      timestamp market cashbackSellIsReady asked bounds = .ok outcome := by
    rcases opposite_cases direction asked with rfl | rfl
    · exact ⟨search, ran⟩
    · exact ⟨opposed, opposedRan⟩
  choose outcome outcomes using both
  cases ran.symm.trans (outcomes direction)
  obtain ⟨selection, chosen, atLeast⟩ := selection_at_least outcome direction choice best
  exact ⟨selection, (select_dynamic_iff bounds selection).mpr ⟨outcome, outcomes, chosen⟩, atLeast⟩

/-- A direction is isolated exactly when it has nothing to lose or the curves of
the other direction can be built. -/
theorem isolated_iff (direction : SelectedDirection) (bounds : DynamicSearchBounds) :
    Isolated binArrayAccounts bitmapExtension timestamp market cashbackSellIsReady direction bounds ↔
      (HasChoice binArrayAccounts bitmapExtension timestamp market cashbackSellIsReady direction bounds →
        CurvesBuild binArrayAccounts bitmapExtension timestamp market cashbackSellIsReady
          (opposite direction) bounds) := by
  constructor
  · rintro isolated ⟨search, choice, ran, best, enough⟩
    obtain ⟨selection, selected, _⟩ := isolated search choice ran best enough
    exact (alone_ok_iff _ _ _ _ _ _ bounds).mp (selected_both _ _ _ _ _ _ bounds selection selected)
  · intro builds search choice ran best enough
    obtain ⟨opposed, opposedRan⟩ :=
      (alone_ok_iff _ _ _ _ _ _ bounds).mpr (builds ⟨search, choice, ran, best, enough⟩)
    exact selects_from_both _ _ _ _ _ direction bounds search opposed choice ran opposedRan best

end Isolation

/-! The forward direction of the profitable market, with one bin above the active
one whose price makes its input leave its word. Only the reverse direction
would ever visit that bin. -/
section Unreadable
open ExactSelection CurveSoundness BinArrayLayout

def unreadableBin : Bin := { emptyBin with priceQ64 := 2 ^ 127, amountX := 2 }

def unreadableArray : AccountInfo :=
  binArrayAccount meteoraDlmmProgramId meteoraDlmmProgramId 0
    [payingBin 1000, { payingBin 1000 with priceQ64 := 2 ^ 65 }, unreadableBin]

theorem forward_not_isolated :
    ¬ Isolated [unreadableArray] none 0 profitableMarket true .pumpToMeteora profitableBounds := by
  intro isolated
  have alone : ((directionAlone [unreadableArray] none 0 profitableMarket true .pumpToMeteora
      profitableBounds).toOption.bind (·.best)).map (·.profit) = some 389 := by decide +kernel
  have fails : (selectDynamic [unreadableArray] none 0 profitableMarket true profitableBounds.minAmount
      profitableBounds.maxAmount profitableBounds.minProfit).toOption.isSome = false := by
    decide +kernel
  obtain ⟨choice, best, earned⟩ := Option.map_eq_some_iff.mp alone
  obtain ⟨search, ran, best⟩ := Option.bind_eq_some_iff.mp best
  obtain ⟨selection, selected, _⟩ :=
    isolated search choice ((to_option_some _ _).mp ran) best (by rw [earned]; decide)
  rw [selected] at fails
  cases fails

end Unreadable

end ArbExecutor.DirectionIsolation
