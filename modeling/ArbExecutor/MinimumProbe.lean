import ArbExecutor.CurveBuilding
import ArbExecutor.DirectionOutcome

/-!
The minimum probe of a direction: when its quote is complete, when it asks for
a full search, and which curves have to be built for the direction to have an
outcome at all.
-/

namespace ArbExecutor.MinimumProbe

open Checked QuoteMath QuoteAccounts AccountValidation BestDirection DynamicAmount BinPricing
  StagedFill BinWalk CurveMeasure CurveBuilding DirectionOutcome

section Largest

/-- The last ends of measured segments are the totals of the measured stages. -/
theorem measure_totals (limit : Nat) (readable : Bool) (totalIn totalOut : Nat)
    (bins : List PricedBin) (segments : List DlmmSegment)
    (complete : CurveMeasure.measure limit readable totalIn totalOut bins = .ok segments) :
    (segments.getLast?.map (·.inputEnd)).getD totalIn =
        totalIn + totalCapacity (measured limit totalIn (stages bins)) ∧
      (segments.getLast?.map (·.outputEnd)).getD totalOut =
        totalOut + totalReward (measured limit totalIn (stages bins)) := by
  induction bins generalizing totalIn totalOut segments with
  | nil =>
      unfold CurveMeasure.measure at complete
      split at complete
      · cases complete; exact ⟨rfl, rfl⟩
      · cases complete
  | cons bin rest ih =>
      rw [measured_cons]
      rcases (measure_cons_ok _ _ _ _ _ _ _).mp complete with
        ⟨usable, _, _, ⟨reached, rfl⟩ | ⟨short, more, later, rfl⟩⟩ | ⟨unusable, later⟩
      · rw [if_pos usable, if_pos reached]
        simp only [totalCapacity, totalReward, if_pos usable, Nat.add_zero]
        exact ⟨rfl, rfl⟩
      · obtain ⟨input, output⟩ := ih _ _ _ later
        rw [if_pos usable, if_neg (by omega)]
        simp only [totalCapacity, totalReward, if_pos usable]
        -- With no segment after this one the totals are its own ends.
        rw [List.getLast?_cons]
        refine ⟨?_, ?_⟩
        · rw [← Nat.add_assoc]
          refine Eq.trans ?_ input
          cases more.getLast? <;> rfl
        · rw [← Nat.add_assoc]
          refine Eq.trans ?_ output
          cases more.getLast? <;> rfl
      · rw [if_neg unusable]
        simp only [totalCapacity, totalReward, if_neg unusable]
        exact ih _ _ _ later

theorem largest_input (pair : LbPairState) (arrays : List AccountInfo)
    (bitmapExtension : Option Bytes) (swapForY : Bool) (timestamp : Int64) (inputLimit : Nat)
    (curve : DlmmCurve) (result : Walk)
    (built : buildCurve pair arrays bitmapExtension swapForY timestamp inputLimit = .ok curve)
    (walked : directionWalk pair arrays bitmapExtension swapForY timestamp = .ok result) :
    curve.largestCompleteInput = totalCapacity (measured inputLimit 0 (stages result.bins)) := by
  obtain ⟨other, same, complete⟩ := build_curve_ok _ _ _ _ _ built
  rw [walked] at same
  cases same
  have totals := (measure_totals _ _ _ _ _ _ complete).1
  rwa [Nat.zero_add] at totals

/-- Whatever a built curve quotes lies within its largest complete input. -/
theorem quote_within_largest {pair : LbPairState} {arrays : List AccountInfo}
    {bitmapExtension : Option Bytes} {swapForY : Bool} {timestamp : Int64} {inputLimit : Nat}
    {curve : DlmmCurve}
    (built : buildCurve pair arrays bitmapExtension swapForY timestamp inputLimit = .ok curve)
    {amountIn : Nat} {quote : CurveQuote} (quoted : curve.quote amountIn = .ok quote) :
    amountIn ≤ curve.largestCompleteInput := by
  obtain ⟨result, walked, _⟩ := build_curve_ok _ _ _ _ _ built
  rw [largest_input pair arrays bitmapExtension swapForY timestamp inputLimit curve result built walked]
  by_cases zero : amountIn = 0
  · rw [zero]; exact Nat.zero_le _
  obtain ⟨found, _⟩ := (curve_quote_ok pair arrays bitmapExtension swapForY timestamp inputLimit curve
    result built walked amountIn (by omega) quote).mp quoted
  exact lookup_within _ _ (by rw [found]; rfl)

end Largest

section Probe
variable (binArrayAccounts : List AccountInfo) (bitmapExtension : Option Bytes)
  (timestamp : Int64) (market : MarketState) (cashbackSellIsReady : Bool)

def DirectionBuilds (direction : SelectedDirection) (amount : Nat) : Prop :=
  CurveBuilds market.pair binArrayAccounts bitmapExtension (directionSwapForY market direction)
    timestamp (directionInputLimit market direction amount)

def DirectionOverflows (direction : SelectedDirection) (amount : Nat) : Prop :=
  CurveOverflows market.pair binArrayAccounts bitmapExtension (directionSwapForY market direction)
    timestamp (directionInputLimit market direction amount)

theorem direction_builds_iff (direction : SelectedDirection) (amount : Nat) :
    DirectionBuilds binArrayAccounts bitmapExtension timestamp market direction amount ↔
      ∃ curve, directionCurve binArrayAccounts bitmapExtension timestamp market direction amount =
        .ok curve := curve_builds_iff _ _ _ _ _ _

/-- A direction's exact quote at an amount: its curve is built and evaluates it. -/
def MinimumQuote (direction : SelectedDirection) (amount : Nat) (quote : CurveQuote) : Prop :=
  directionReady cashbackSellIsReady direction = true ∧
    ∃ curve, directionCurve binArrayAccounts bitmapExtension timestamp market direction amount =
        .ok curve ∧
      evaluateIn market direction curve amount = .ok quote

def MinimumComplete (direction : SelectedDirection) (amount : Nat) : Prop :=
  ∃ quote, MinimumQuote binArrayAccounts bitmapExtension timestamp market cashbackSellIsReady direction
    amount quote

/-- A direction whose minimum quote has a positive gross spread, with room to grow. -/
def Worth (direction : SelectedDirection) (bounds : DynamicSearchBounds) : Prop :=
  bounds.maxAmount ≠ bounds.minAmount ∧
    ∃ quote, MinimumQuote binArrayAccounts bitmapExtension timestamp market cashbackSellIsReady
        direction bounds.minAmount quote ∧ bounds.minAmount < quote.amountOut

/-- An amount that evaluates is within the coverage of its own curve. -/
theorem evaluated_covered {direction : SelectedDirection} {limit amount : Nat} {curve : DlmmCurve}
    (built : directionCurve binArrayAccounts bitmapExtension timestamp market direction limit =
      .ok curve) {quote : CurveQuote}
    (quoted : evaluateIn market direction curve amount = .ok quote) :
    coverage market direction curve amount = amount := by
  cases direction with
  | pumpToMeteora =>
      have quoted : evaluateForward market curve amount = .ok quote := quoted
      change largestForwardCompleteAmount market curve amount = amount
      unfold largestForwardCompleteAmount
      rw [quoted]
      exact if_pos rfl
  | meteoraToPump =>
      have quoted : evaluateReverse market curve amount = .ok quote := quoted
      unfold evaluateReverse at quoted
      obtain ⟨dlmm, covered, _⟩ := (bind_ok_iff _ _ _).mp quoted
      exact min_eq_left (quote_within_largest built covered)

theorem probe_alone_ready (direction : SelectedDirection) (bounds : DynamicSearchBounds)
    (ready : directionReady cashbackSellIsReady direction = true) (minimum : DirectionSearch) :
    probeAlone binArrayAccounts bitmapExtension timestamp market cashbackSellIsReady direction bounds =
        .ok minimum ↔
      ∃ curve, directionCurve binArrayAccounts bitmapExtension timestamp market direction
          bounds.minAmount = .ok curve ∧
        minimum = probeMinimum curve (minimumBounds bounds)
          (coverage market direction curve bounds.minAmount)
          (evaluateIn market direction curve bounds.minAmount) := by
  unfold probeAlone probeDirection
  rw [if_pos ready, bind_ok_iff]
  simp only [pure_ok, Except.ok.injEq]
  exact exists_congr fun curve => and_congr_right fun _ => ⟨Eq.symm, Eq.symm⟩

theorem probe_alone_unready (direction : SelectedDirection) (bounds : DynamicSearchBounds)
    (unready : directionReady cashbackSellIsReady direction ≠ true) :
    probeAlone binArrayAccounts bitmapExtension timestamp market cashbackSellIsReady direction bounds =
      .ok unreadyDirection := by
  unfold probeAlone
  rw [if_neg unready]
  rfl

/-- What a complete minimum quote makes of the probe. -/
theorem probe_complete {direction : SelectedDirection} {bounds : DynamicSearchBounds}
    {minimum : DirectionSearch} {quote : CurveQuote}
    (probed : probeAlone binArrayAccounts bitmapExtension timestamp market cashbackSellIsReady direction
      bounds = .ok minimum)
    (complete : MinimumQuote binArrayAccounts bitmapExtension timestamp market cashbackSellIsReady
      direction bounds.minAmount quote) :
    minimum.minimumQuoteComplete = true ∧ minimum.minimumAmountOut = quote.amountOut ∧
      minimum.best =
        if bounds.minProfit ≤ quote.amountOut - bounds.minAmount then
          some { amountIn := bounds.minAmount, amountOut := quote.amountOut
                 profit := quote.amountOut - bounds.minAmount, usedIndices := quote.usedIndices }
        else none := by
  obtain ⟨ready, curve, built, quoted⟩ := complete
  obtain ⟨other, same, rfl⟩ :=
    (probe_alone_ready _ _ _ _ _ _ _ ready _).mp probed
  cases built.symm.trans same
  have covered := evaluated_covered binArrayAccounts bitmapExtension timestamp market built quoted
  unfold probeMinimum
  rw [if_neg (by change ¬ coverage _ _ _ _ < bounds.minAmount; omega), quoted]
  exact ⟨rfl, rfl, rfl⟩

/-- Without a complete minimum quote the probe has nothing to offer. -/
theorem probe_incomplete {direction : SelectedDirection} {bounds : DynamicSearchBounds}
    {minimum : DirectionSearch}
    (probed : probeAlone binArrayAccounts bitmapExtension timestamp market cashbackSellIsReady direction
      bounds = .ok minimum)
    (absent : ¬ MinimumComplete binArrayAccounts bitmapExtension timestamp market cashbackSellIsReady
      direction bounds.minAmount) :
    minimum.minimumQuoteComplete = false ∧ minimum.best = none := by
  by_cases ready : directionReady cashbackSellIsReady direction = true
  · obtain ⟨curve, built, rfl⟩ := (probe_alone_ready _ _ _ _ _ _ _ ready _).mp probed
    unfold probeMinimum
    split
    · exact ⟨rfl, rfl⟩
    · cases quoted : evaluateIn market direction curve bounds.minAmount with
      | error error => exact ⟨rfl, rfl⟩
      | ok quote => exact absurd ⟨quote, ready, curve, built, quoted⟩ absent
  · cases (probe_alone_unready binArrayAccounts bitmapExtension timestamp market _ _ bounds
      ready).symm.trans probed
    exact ⟨rfl, rfl⟩

theorem probe_complete_iff {direction : SelectedDirection} {bounds : DynamicSearchBounds}
    {minimum : DirectionSearch}
    (probed : probeAlone binArrayAccounts bitmapExtension timestamp market cashbackSellIsReady direction
      bounds = .ok minimum) :
    minimum.minimumQuoteComplete = true ↔
      MinimumComplete binArrayAccounts bitmapExtension timestamp market cashbackSellIsReady direction
        bounds.minAmount := by
  constructor
  · intro complete
    by_contra absent
    rw [(probe_incomplete _ _ _ _ _ probed absent).1] at complete
    cases complete
  · rintro ⟨quote, complete⟩
    exact (probe_complete _ _ _ _ _ probed complete).1

theorem expands_iff_worth {direction : SelectedDirection} {bounds : DynamicSearchBounds}
    {minimum : DirectionSearch}
    (probed : probeAlone binArrayAccounts bitmapExtension timestamp market cashbackSellIsReady direction
      bounds = .ok minimum) :
    expands minimum bounds = true ↔
      Worth binArrayAccounts bitmapExtension timestamp market cashbackSellIsReady direction bounds := by
  unfold expands expandsAt Worth
  rw [Bool.and_eq_true, Bool.and_eq_true, decide_eq_true_eq, decide_eq_true_eq,
    probe_complete_iff _ _ _ _ _ probed]
  constructor
  · rintro ⟨room, ⟨quote, complete⟩, spread⟩
    rw [(probe_complete _ _ _ _ _ probed complete).2.1] at spread
    exact ⟨room, quote, complete, spread⟩
  · rintro ⟨room, quote, complete, spread⟩
    exact ⟨room, ⟨quote, complete⟩, by rwa [(probe_complete _ _ _ _ _ probed complete).2.1]⟩

theorem probe_ok_iff (direction : SelectedDirection) (bounds : DynamicSearchBounds) :
    (∃ minimum, probeAlone binArrayAccounts bitmapExtension timestamp market cashbackSellIsReady
        direction bounds = .ok minimum) ↔
      (directionReady cashbackSellIsReady direction = true →
        DirectionBuilds binArrayAccounts bitmapExtension timestamp market direction bounds.minAmount) := by
  rw [direction_builds_iff]
  by_cases ready : directionReady cashbackSellIsReady direction = true
  · simp only [probe_alone_ready _ _ _ _ _ _ _ ready, ready, true_implies]
    constructor
    · rintro ⟨_, curve, built, _⟩
      exact ⟨curve, built⟩
    · rintro ⟨curve, built⟩
      exact ⟨_, curve, built, rfl⟩
  · exact ⟨fun _ claimed => absurd claimed ready,
      fun _ => ⟨_, probe_alone_unready _ _ _ _ _ _ _ ready⟩⟩

theorem expand_ok_iff (direction : SelectedDirection) (bounds : DynamicSearchBounds)
    (minimum : DirectionSearch) :
    (∃ search, expandAlone binArrayAccounts bitmapExtension timestamp market direction bounds minimum =
        .ok search) ↔
      (expands minimum bounds = true →
        DirectionBuilds binArrayAccounts bitmapExtension timestamp market direction bounds.maxAmount) := by
  rw [direction_builds_iff]
  unfold expandAlone
  by_cases grows : expands minimum bounds = true
  · rw [if_pos grows]
    unfold searchDirection
    simp only [bind_ok_iff, grows, true_implies]
    constructor
    · rintro ⟨_, curve, built, _⟩
      exact ⟨curve, built⟩
    · rintro ⟨curve, built⟩
      exact ⟨_, curve, built, rfl⟩
  · rw [if_neg grows]
    exact ⟨fun _ claimed => absurd claimed grows, fun _ => ⟨minimum, rfl⟩⟩

/-- A direction has an outcome exactly when the curves it asks for are built. -/
theorem alone_ok_iff (direction : SelectedDirection) (bounds : DynamicSearchBounds) :
    (∃ search, directionAlone binArrayAccounts bitmapExtension timestamp market cashbackSellIsReady
        direction bounds = .ok search) ↔
      (directionReady cashbackSellIsReady direction = true →
        DirectionBuilds binArrayAccounts bitmapExtension timestamp market direction bounds.minAmount) ∧
      (Worth binArrayAccounts bitmapExtension timestamp market cashbackSellIsReady direction bounds →
        DirectionBuilds binArrayAccounts bitmapExtension timestamp market direction bounds.maxAmount) := by
  unfold directionAlone
  simp only [bind_ok_iff]
  constructor
  · rintro ⟨search, minimum, probed, expanded⟩
    refine ⟨(probe_ok_iff _ _ _ _ _ _ _).mp ⟨minimum, probed⟩, fun worth => ?_⟩
    exact (expand_ok_iff _ _ _ _ _ _ minimum).mp ⟨search, expanded⟩
      ((expands_iff_worth _ _ _ _ _ probed).mpr worth)
  · rintro ⟨least, most⟩
    obtain ⟨minimum, probed⟩ := (probe_ok_iff _ _ _ _ _ _ _).mpr least
    obtain ⟨search, expanded⟩ := (expand_ok_iff binArrayAccounts bitmapExtension timestamp market
      direction bounds minimum).mpr fun grows => most ((expands_iff_worth _ _ _ _ _ probed).mp grows)
    exact ⟨search, minimum, probed, expanded⟩

end Probe

end ArbExecutor.MinimumProbe
