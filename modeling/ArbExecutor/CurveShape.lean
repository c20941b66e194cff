import ArbExecutor.CurveSoundness
import ArbExecutor.MinimumProbe

/-!
The shape of a built curve and what its lookup returns. Below a whole word of
input the compact form of a bin pays exactly what the bin itself pays, so the
segments are contiguous and strictly rising, every amount they cover is quoted
and the quotes rise with the amounts.
-/

namespace ArbExecutor.CurveShape

open Checked QuoteMath QuoteAccounts AccountValidation BestDirection DynamicAmount BinPricing
  StagedFill BinWalk CurveMeasure CurveSoundness BinArrayLayout MinimumProbe Bisection

section CompactBin

theorem compact_exact {pricing : Pricing} (usable : (stage pricing).Usable)
    (unclamped : pricing.capacity.amountIn < wordMax 64) {input : Nat} (positive : 0 < input)
    (within : input ≤ pricing.capacity.amountIn) :
    dlmmBinOutputWithinCapacity input pricing.capacity.amountIn pricing.capacity.amountOut
        pricing.price pricing.swapForY pricing.feeOnInput pricing.feeRate =
      .ok (pricing.fill input).amountOut := by
  have offered : pricing.available ≠ 0 := fun empty => usable.2 (by
    change (pricing.fill _).amountOut = 0
    rw [fill_empty pricing empty])
  rcases Nat.lt_or_eq_of_le within with below | full
  · rcases interior_below positive usable.2 below with exact | ⟨clamped, _⟩
    · exact exact
    · have whole := (clamped_whole_word pricing clamped offered below).1
      omega
  · rw [full, fill_at_capacity]
    unfold dlmmBinOutputWithinCapacity
    rw [if_neg (by
      rintro (zero | zero | zero | zero)
      exacts [usable.1 zero, absurd zero (lt_irrefl _), usable.1 zero, usable.2 zero]), if_pos (Eq.refl _)]

theorem stage_total {pricing : Pricing} (usable : (stage pricing).Usable)
    (unclamped : pricing.capacity.amountIn < wordMax 64) : (stage pricing).Total := by
  intro input positive within
  have fits : input < 2 ^ 64 := by
    have bounded : input ≤ pricing.capacity.amountIn := within
    unfold wordMax at unclamped
    omega
  refine (to_option_some _ _).mpr ?_
  rw [(fill_fits_word fits).2]
  exact compact_exact usable unclamped positive within

/-- A stage of a walk whose capacity is below a whole word interpolates what it pays. -/
theorem walked_total {bins : List PricedBin} {limit total : Nat} {entry : Stage × List Int}
    (member : entry ∈ measured limit total (stages bins)) (usable : entry.1.Usable)
    (small : entry.1.capacity < wordMax 64) : entry.1.Total := by
  obtain ⟨more, split⟩ := measured_split limit total (stages bins)
  have inside : entry ∈ stages bins := by rw [split]; exact List.mem_append_left _ member
  obtain ⟨bin, _, rfl⟩ := List.mem_map.mp inside
  exact stage_total usable small

/-- Within a measured capacity below a whole word the compact segment quote and
the one-bin quote succeed together, with the same output and all of the input. -/
theorem compact_segment_exact (bin : Bin) (swapForY feeOnInput : Bool)
    (parameters : DlmmFeeParameters) (feeRate : Nat) (rated : dlmmTotalFeeRate parameters = .ok feeRate)
    (capacity : QuoteResult)
    (measured : dlmmBinQuoteCapacity bin swapForY feeOnInput parameters = .ok capacity)
    (unclamped : capacity.amountIn < wordMax 64) (amountIn : Nat) (positive : 1 ≤ amountIn)
    (within : amountIn ≤ capacity.amountIn) :
    ∃ quote, dlmmQuoteExactInPartial amountIn [bin] swapForY feeOnInput parameters = .ok quote ∧
      quote.amountIn = amountIn ∧
      dlmmBinOutputWithinCapacity amountIn capacity.amountIn capacity.amountOut bin.priceQ64.toNat
        swapForY feeOnInput feeRate = .ok quote.amountOut := by
  cases priced : pricingOf bin swapForY feeOnInput parameters with
  | none =>
      obtain ⟨error, _, failed⟩ := capacity_unpriced priced
      cases failed.symm.trans measured
  | some pricing =>
      rw [capacity_ok priced] at measured
      split at measured
      · cases measured
      next some =>
        cases measured
        rw [not_or] at some
        obtain ⟨rfl, rfl, rate, price, _, _⟩ := pricing_of_some priced
        cases rated.symm.trans rate
        have fits : amountIn < 2 ^ 64 := by unfold wordMax at unclamped; omega
        refine ⟨_, partial_priced priced positive fits, fill_within pricing within, ?_⟩
        rw [← price]
        exact compact_exact ⟨some.1, some.2⟩ unclamped positive within

def payingParameters : DlmmFeeParameters where
  binStep := 10
  baseFactor := 10000
  baseFeePowerFactor := 0
  variableFeeControl := 0
  volatilityAccumulator := 0

theorem compact_segment_exact_paying :
    ∃ quote, dlmmQuoteExactInPartial 500 [payingBin 1000] true true payingParameters = .ok quote ∧
      quote.amountIn = 500 := by
  have rated : (dlmmTotalFeeRate payingParameters).toOption = some 1000000 := by decide
  have measured : (dlmmBinQuoteCapacity (payingBin 1000) true true payingParameters).toOption =
      some { amountIn := 1002, amountOut := 1000, fee := 2 } := by decide +kernel
  obtain ⟨quote, filled, whole, _⟩ := compact_segment_exact (payingBin 1000) true true payingParameters
    1000000 ((to_option_some _ _).mp rated) _ ((to_option_some _ _).mp measured) (by decide) 500
    (by decide) (by decide)
  exact ⟨quote, filled, whole⟩

end CompactBin

section Segments

/-- Segments that continue each other from two totals on and rise in both. -/
def Contiguous : Nat → Nat → List DlmmSegment → Prop
  | _, _, [] => True
  | totalIn, totalOut, segment :: rest =>
      segment.inputStart = totalIn ∧ segment.outputStart = totalOut ∧ totalIn < segment.inputEnd ∧
        totalOut < segment.outputEnd ∧ Contiguous segment.inputEnd segment.outputEnd rest

theorem measure_contiguous (limit : Nat) (readable : Bool) (totalIn totalOut : Nat)
    (bins : List PricedBin) (segments : List DlmmSegment)
    (complete : CurveMeasure.measure limit readable totalIn totalOut bins = .ok segments) :
    Contiguous totalIn totalOut segments := by
  induction bins generalizing totalIn totalOut segments with
  | nil =>
      unfold CurveMeasure.measure at complete
      split at complete
      · cases complete; trivial
      · cases complete
  | cons bin rest ih =>
      have rises (usable : (stage bin.pricing).Usable) :
          totalIn < totalIn + bin.pricing.capacity.amountIn ∧
            totalOut < totalOut + bin.pricing.capacity.amountOut := by
        have input : bin.pricing.capacity.amountIn ≠ 0 := usable.1
        have output : bin.pricing.capacity.amountOut ≠ 0 := usable.2
        omega
      rcases (measure_cons_ok _ _ _ _ _ _ _).mp complete with
        ⟨usable, _, _, ⟨_, rfl⟩ | ⟨_, more, later, rfl⟩⟩ | ⟨_, later⟩
      · exact ⟨rfl, rfl, (rises usable).1, (rises usable).2, trivial⟩
      · exact ⟨rfl, rfl, (rises usable).1, (rises usable).2, ih _ _ _ later⟩
      · exact ih _ _ _ later

theorem measure_used (limit : Nat) (readable : Bool) (totalIn totalOut : Nat)
    (bins : List PricedBin) (segments : List DlmmSegment)
    (complete : CurveMeasure.measure limit readable totalIn totalOut bins = .ok segments) :
    (segments.map (·.usedIndices)).Sublist (bins.map (·.usedIndices)) := by
  induction bins generalizing totalIn totalOut segments with
  | nil =>
      unfold CurveMeasure.measure at complete
      split at complete
      · cases complete; exact List.Sublist.refl _
      · cases complete
  | cons bin rest ih =>
      rcases (measure_cons_ok _ _ _ _ _ _ _).mp complete with
        ⟨_, _, _, ⟨_, rfl⟩ | ⟨_, more, later, rfl⟩⟩ | ⟨_, later⟩
      · exact (List.nil_sublist _).cons_cons _
      · exact (ih _ _ _ later).cons_cons _
      · exact (ih _ _ _ later).cons _

/-- One or two arrays, none of them twice. -/
def ArraysUsed (used : List Int) : Prop := used ≠ [] ∧ used.length ≤ 2 ∧ used.Nodup

theorem enter_array_used {used next : List Int} {arrayIndex : Int} (short : used.length ≤ 2)
    (distinct : used.Nodup) (entered : enterArray used arrayIndex = some next) : ArraysUsed next := by
  unfold enterArray at entered
  split at entered
  next last =>
    cases entered
    exact ⟨fun empty => (by rw [empty] at last; cases last), short, distinct⟩
  next fresh =>
    split at entered
    · cases entered
    next room =>
      cases entered
      unfold maxQuoteBinArraysPerDirection at room
      refine ⟨by simp, by rw [List.length_append, List.length_singleton]; omega, ?_⟩
      match used with
      | [] => exact List.nodup_singleton _
      | [only] =>
          have different : only ≠ arrayIndex := fun same => fresh (by rw [same]; rfl)
          simp [different]
      | [_, _] => exact absurd rfl room

theorem walk_used (pair : LbPairState) (arrays : List AccountInfo) (bitmapExtension : Option Bytes)
    (swapForY feeOnInput supportsLimitOrders : Bool) (reference : DlmmVariableParameters)
    (visits : Nat) (binId : Int) (used : List Int) (short : used.length ≤ 2) (distinct : used.Nodup) :
    ∀ bin ∈ (walk pair arrays bitmapExtension swapForY feeOnInput supportsLimitOrders reference visits
      binId used).bins, ArraysUsed bin.usedIndices := by
  induction visits generalizing binId used with
  | zero => exact fun _ member => absurd member List.not_mem_nil
  | succ visits ih =>
      unfold walk
      split
      · exact fun _ member => absurd member List.not_mem_nil
      · exact ih _ used short distinct
      · split
        · exact fun _ member => absurd member List.not_mem_nil
        · split
          · exact fun _ member => absurd member List.not_mem_nil
          next next entered =>
            split
            · exact fun _ member => absurd member List.not_mem_nil
            next pricing read =>
              have arrived := enter_array_used short distinct entered
              intro bin member
              rcases List.mem_cons.mp member with rfl | later
              · exact arrived
              · exact ih _ next arrived.2.1 arrived.2.2 bin later

end Segments

section Stopping
variable (pair : LbPairState) (arrays : List AccountInfo) (bitmapExtension : Option Bytes)
  (swapForY feeOnInput supportsLimitOrders : Bool)

/-- The input limit is reached by the last segment and by none before it. -/
def LimitReached (limit : Nat) (segments : List DlmmSegment) : Prop :=
  ∃ earlier last, segments = earlier ++ [last] ∧ limit ≤ last.inputEnd ∧
    ∀ segment ∈ earlier, segment.inputEnd < limit

/-- What the building loop keeps: a segment at most for every visit, and the stop
reason that says whether the limit was reached. -/
def Stops (limit : Nat) (state : CurveTraversal) : Prop :=
  state.segments.length ≤ state.visitedBins ∧
    state.visitedBins ≤ maxQuoteVisitedBinsPerDirection ∧
    (state.stopReason = .inputLimitReached ↔ LimitReached limit state.segments)

theorem not_reached_yet {limit : Nat} {segments : List DlmmSegment}
    (short : ∀ segment ∈ segments, segment.inputEnd < limit) : ¬ LimitReached limit segments := by
  rintro ⟨earlier, last, rfl, reached, _⟩
  have below := short last (List.mem_append_right _ List.mem_cons_self)
  omega

theorem build_bins_stops (limit visits : Nat) (state final : CurveTraversal)
    (ran : buildCurveBins pair arrays bitmapExtension swapForY feeOnInput supportsLimitOrders limit
      visits state = .ok final)
    (short : ∀ segment ∈ state.segments, segment.inputEnd < limit)
    (open_ : state.stopReason ≠ .inputLimitReached)
    (counted : state.segments.length ≤ state.visitedBins)
    (room : state.visitedBins + visits ≤ maxQuoteVisitedBinsPerDirection) : Stops limit final := by
  have pending {segments : List DlmmSegment} {reason : CurveStopReason}
      (below : ∀ segment ∈ segments, segment.inputEnd < limit) (other : reason ≠ .inputLimitReached) :
      reason = .inputLimitReached ↔ LimitReached limit segments :=
    ⟨fun same => absurd same other, fun reached => absurd reached (not_reached_yet below)⟩
  -- No segment reaches the limit before the last one: the loop leaves as soon as one does.
  induction visits generalizing state with
  | zero =>
      cases ran
      exact ⟨counted, by omega, pending short open_⟩
  | succ visits ih =>
      have visited : saturatingAdd 8 state.visitedBins 1 = state.visitedBins + 1 := by
        unfold maxQuoteVisitedBinsPerDirection at room
        unfold saturatingAdd
        omega
      unfold buildCurveBins at ran
      simp only [bind_ok_iff, visited] at ran
      obtain ⟨present, _, ran⟩ := ran
      cases present with
      | false => exact ih _ ran short open_ (by dsimp only; omega) (by dsimp only; omega)
      | true =>
      simp only [Bool.not_true, Bool.false_eq_true, if_false] at ran
      split at ran
      · cases ran
        exact ⟨by dsimp only; omega, by dsimp only; omega, pending short (by simp)⟩
      split at ran
      · cases ran
        exact ⟨by dsimp only; omega, by dsimp only; omega, pending short (by simp)⟩
      simp only [bind_ok_iff] at ran
      obtain ⟨bin, _, rate, _, feeRate, _, ran⟩ := ran
      split at ran
      next capacity measured =>
        simp only [bind_ok_iff] at ran
        obtain ⟨inputEnd, _, outputEnd, _, _, _, ran⟩ := ran
        split at ran
        next reached =>
          cases ran
          refine ⟨by simp only [List.length_append, List.length_singleton]; omega, by dsimp only; omega, ?_⟩
          exact ⟨fun _ => ⟨state.segments, _, rfl, reached, short⟩, fun _ => rfl⟩
        next unreached =>
          refine ih _ ran ?_ open_ ?_ (by dsimp only; omega)
          · intro segment member
            rcases List.mem_append.mp member with earlier | last
            · exact short segment earlier
            · rw [List.mem_singleton.mp last]
              exact Nat.lt_of_not_le unreached
          · simp only [List.length_append, List.length_singleton]
            omega
      next => exact ih _ ran short open_ (by dsimp only; omega) (by dsimp only; omega)
      next => cases ran

end Stopping

section Lookup

theorem measure_fits (limit : Nat) (readable : Bool) (totalIn totalOut : Nat)
    (bins : List PricedBin) (segments : List DlmmSegment)
    (complete : CurveMeasure.measure limit readable totalIn totalOut bins = .ok segments) :
    ∀ segment ∈ segments, segment.inputEnd < 2 ^ 64 ∧ segment.outputEnd < 2 ^ 64 := by
  induction bins generalizing totalIn totalOut segments with
  | nil =>
      unfold CurveMeasure.measure at complete
      split at complete
      · cases complete; exact fun _ member => absurd member List.not_mem_nil
      · cases complete
  | cons bin rest ih =>
      rcases (measure_cons_ok _ _ _ _ _ _ _).mp complete with
        ⟨_, inFits, outFits, ⟨_, rfl⟩ | ⟨_, more, later, rfl⟩⟩ | ⟨_, later⟩
      · intro segment member
        rw [List.mem_singleton.mp member]
        exact ⟨inFits, outFits⟩
      · intro segment member
        rcases List.mem_cons.mp member with rfl | deeper
        · exact ⟨inFits, outFits⟩
        · exact ih _ _ _ later segment deeper
      · exact ih _ _ _ later

theorem contiguous_above {totalIn totalOut : Nat} {segments : List DlmmSegment}
    (contiguous : Contiguous totalIn totalOut segments) :
    ∀ segment ∈ segments, totalIn < segment.inputEnd := by
  induction segments generalizing totalIn totalOut with
  | nil => exact fun _ member => absurd member List.not_mem_nil
  | cons head rest ih =>
      obtain ⟨_, _, rises, _, later⟩ := contiguous
      intro segment member
      rcases List.mem_cons.mp member with rfl | deeper
      · exact rises
      · exact rises.trans (ih later segment deeper)

theorem reaching_own_end {totalIn totalOut : Nat} {segments : List DlmmSegment}
    (contiguous : Contiguous totalIn totalOut segments) :
    ∀ segment ∈ segments, reachingSegment segments segment.inputEnd = .ok segment ∧
      segment.inputStart < segment.inputEnd ∧ segment.outputStart < segment.outputEnd := by
  induction segments generalizing totalIn totalOut with
  | nil => exact fun _ member => absurd member List.not_mem_nil
  | cons head rest ih =>
      obtain ⟨startIn, startOut, risesIn, risesOut, later⟩ := contiguous
      intro segment member
      rcases List.mem_cons.mp member with rfl | deeper
      · exact ⟨reaching_head _ _ le_rfl, by omega, by omega⟩
      · rw [reaching_tail _ _ (contiguous_above later segment deeper)]
        exact ih later segment deeper

/-- At its own end a segment quotes its own output end. -/
theorem quote_segment_end (segment : DlmmSegment) (risesIn : segment.inputStart < segment.inputEnd)
    (risesOut : segment.outputStart < segment.outputEnd) (fits : segment.outputEnd < 2 ^ 64) :
    quoteSegment segment.inputEnd segment =
      .ok { amountOut := segment.outputEnd, usedIndices := segment.usedIndices } := by
  have width : segment.inputEnd - segment.inputStart ≠ 0 := by omega
  have height : segment.outputEnd - segment.outputStart ≠ 0 := by omega
  have whole : segment.outputStart + (segment.outputEnd - segment.outputStart) = segment.outputEnd := by
    omega
  unfold quoteSegment DlmmSegment.inputCapacity DlmmSegment.outputCapacity dlmmBinOutputWithinCapacity
  rw [checked_sub_fits risesIn.le, ok_or_some, ok_bind, if_neg width, if_neg (by
    rintro (zero | zero | zero | zero)
    exacts [width zero, absurd zero (lt_irrefl _), width zero, height zero]), if_pos (Eq.refl _), ok_bind,
    checked_add_fits (by omega), ok_or_some, ok_bind, whole]
  rfl

/-- The shape of a curve built up to an input limit. -/
structure Shaped (limit : Nat) (curve : DlmmCurve) : Prop where
  contiguous : Contiguous 0 0 curve.segments
  counted : curve.segments.length ≤ curve.visitedBins ∧
    curve.visitedBins ≤ maxQuoteVisitedBinsPerDirection
  arrays : ∀ segment ∈ curve.segments, ArraysUsed segment.usedIndices
  growing : curve.segments.Pairwise fun left right => left.usedIndices <+: right.usedIndices
  stopped : curve.stopReason = .inputLimitReached ↔ LimitReached limit curve.segments

/-- What a curve quotes: everything it covers, exactly at its segment ends and
monotonically in between, by the segment a scan would find. -/
structure Quotes (curve : DlmmCurve) : Prop where
  covered : ∀ amountIn, (∃ quote, curve.quote amountIn = .ok quote) ↔
    1 ≤ amountIn ∧ amountIn ≤ curve.largestCompleteInput
  bounded : ∀ amountIn, curve.quote amountIn ≠ .error .mathOverflow
  monotone : ∀ fewer amountIn less more, fewer ≤ amountIn → curve.quote fewer = .ok less →
    curve.quote amountIn = .ok more → less.amountOut ≤ more.amountOut
  atEnds : ∀ segment ∈ curve.segments, curve.quote segment.inputEnd =
    .ok { amountOut := segment.outputEnd, usedIndices := segment.usedIndices }
  scanned : ∀ amountIn,
    curve.segments[firstTrue (reaches curve.segments amountIn) 0 curve.segments.length]? =
      curve.segments.find? fun segment => amountIn ≤ segment.inputEnd

variable {pair : LbPairState} {arrays : List AccountInfo} {bitmapExtension : Option Bytes}
  {swapForY : Bool} {timestamp : Int64} {inputLimit : Nat} {curve : DlmmCurve}
  (built : buildCurve pair arrays bitmapExtension swapForY timestamp inputLimit = .ok curve)

include built

theorem built_shaped : Shaped inputLimit curve := by
  obtain ⟨result, walked, complete⟩ := build_curve_ok _ _ _ _ _ built
  obtain ⟨onInput, supports, _, _, rfl⟩ := (direction_walk_ok _ _ _ _ _ _).mp walked
  have ordered := (walk_ordered pair arrays bitmapExtension swapForY onInput supports
    (updateReference pair.activeId pair.variableParameters pair.staticParameters timestamp)
    maxQuoteVisitedBinsPerDirection pair.activeId.toInt []).2
  have used := walk_used pair arrays bitmapExtension swapForY onInput supports
    (updateReference pair.activeId pair.variableParameters pair.staticParameters timestamp)
    maxQuoteVisitedBinsPerDirection pair.activeId.toInt [] (by simp) List.nodup_nil
  have kept := measure_used _ _ _ _ _ _ complete
  have stops : Stops inputLimit
      { variableParameters :=
          updateReference pair.activeId pair.variableParameters pair.staticParameters timestamp
        activeId := pair.activeId.toInt, totalIn := 0, totalOut := 0, usedIndices := []
        visitedBins := curve.visitedBins, segments := curve.segments, stopReason := curve.stopReason } := by
    unfold buildCurve at built
    simp only [bind_ok_iff] at built
    obtain ⟨_, _, _, _, final, ran, same⟩ := built
    cases same
    obtain ⟨counted, visited, stopped⟩ := build_bins_stops _ _ _ _ _ _ _ _ _ final ran
      (fun _ member => absurd member List.not_mem_nil) (by simp) (by simp) (by simp)
    -- After the loop the source renames the reason only when no segment was made.
    refine ⟨counted, visited, ?_⟩
    dsimp only
    split
    next none =>
      rw [← stopped, none.2]
      simp
    next => exact stopped
  obtain ⟨counted, visited, stopped⟩ := stops
  refine ⟨measure_contiguous _ _ _ _ _ _ complete, ⟨counted, visited⟩, ?_, ?_, stopped⟩
  · intro segment member
    obtain ⟨bin, inside, same⟩ := List.mem_map.mp (kept.subset (List.mem_map_of_mem member))
    rw [← same]
    exact used bin inside
  · exact List.pairwise_map.mp ((List.pairwise_map.mpr ordered).sublist kept)

theorem largest_fits : curve.largestCompleteInput < 2 ^ 64 := by
  obtain ⟨_, _, complete⟩ := build_curve_ok _ _ _ _ _ built
  unfold DlmmCurve.largestCompleteInput
  cases last : curve.segments.getLast? with
  | none => exact Nat.two_pow_pos 64
  | some segment => exact (measure_fits _ _ _ _ _ _ complete segment (List.mem_of_getLast? last)).1

/-- Where no measured stage refuses its own interpolation, a curve quotes what it covers. -/
theorem covered_quotes {result : Walk} {amountIn : Nat}
    (walked : directionWalk pair arrays bitmapExtension swapForY timestamp = .ok result)
    (total : ∀ entry ∈ measured inputLimit 0 (stages result.bins), entry.1.Usable →
      entry.1.TotalUpTo amountIn)
    (positive : 1 ≤ amountIn) (within : amountIn ≤ curve.largestCompleteInput) :
    ∃ quote, curve.quote amountIn = .ok quote := by
  obtain ⟨other, same, complete⟩ := build_curve_ok _ _ _ _ _ built
  cases walked.symm.trans same
  have largest := largest_input pair arrays bitmapExtension swapForY timestamp inputLimit curve result
    built walked
  have output : totalReward (measured inputLimit 0 (stages result.bins)) < 2 ^ 64 := by
    have totals := (measure_totals _ _ _ _ _ _ complete).2
    rw [Nat.zero_add] at totals
    rw [← totals]
    cases last : curve.segments.getLast? with
    | none => exact Nat.two_pow_pos 64
    | some segment => exact (measure_fits _ _ _ _ _ _ complete segment (List.mem_of_getLast? last)).2
  obtain ⟨value, label, found, bounded⟩ := lookup_total _ amountIn total positive (by rwa [← largest])
  exact ⟨{ amountOut := value, usedIndices := label }, (curve_quote_ok pair arrays bitmapExtension swapForY
    timestamp inputLimit curve result built walked amountIn positive _).mpr
      ⟨found, lt_of_le_of_lt bounded output⟩⟩

/-- Below a whole word of capacity a built curve quotes exactly what it covers. -/
theorem built_quotes (short : curve.largestCompleteInput < wordMax 64) : Quotes curve := by
  obtain ⟨result, walked, complete⟩ := build_curve_ok _ _ _ _ _ built
  have largest := largest_input pair arrays bitmapExtension swapForY timestamp inputLimit curve result
    built walked
  have contiguous := measure_contiguous _ _ _ _ _ _ complete
  have rising := measure_rising _ _ _ _ _ _ complete
  have fits := measure_fits _ _ _ _ _ _ complete
  have quoted (amountIn : Nat) (positive : 0 < amountIn) (quote : CurveQuote) := curve_quote_ok pair arrays
    bitmapExtension swapForY timestamp inputLimit curve result built walked amountIn positive quote
  -- A bin answers every amount it can hold as long as its capacity is below the largest word.
  have total : ∀ entry ∈ measured inputLimit 0 (stages result.bins), entry.1.Usable → entry.1.Total := by
    intro entry member usable
    have bounded := capacity_le_total _ entry member usable
    exact walked_total member usable (lt_of_le_of_lt (by rw [largest]; exact bounded) short)
  have covers (amountIn : Nat) (positive : 1 ≤ amountIn)
      (within : amountIn ≤ curve.largestCompleteInput) : ∃ quote, curve.quote amountIn = .ok quote :=
    covered_quotes built walked (fun entry member usable => (total entry member usable).up_to _)
      positive within
  have some_positive {amountIn : Nat} {quote : CurveQuote} (found : curve.quote amountIn = .ok quote) :
      0 < amountIn := by
    rcases Nat.eq_zero_or_pos amountIn with zero | positive
    · unfold DlmmCurve.quote at found
      rw [if_pos zero] at found
      cases found
    · exact positive
  have atEnds : ∀ segment ∈ curve.segments, curve.quote segment.inputEnd =
      .ok { amountOut := segment.outputEnd, usedIndices := segment.usedIndices } := by
    intro segment member
    obtain ⟨found, risesIn, risesOut⟩ := reaching_own_end contiguous segment member
    rw [curve_quote_eq curve rising _ (by omega), found]
    exact quote_segment_end segment risesIn risesOut (fits segment member).2
  refine ⟨fun amountIn => ⟨?_, fun within => covers amountIn within.1 within.2⟩, ?_, ?_, atEnds,
    bisected_segment _ rising⟩
  · rintro ⟨quote, found⟩
    exact ⟨some_positive found, quote_within_largest built found⟩
  · intro amountIn failed
    rcases Nat.eq_zero_or_pos amountIn with zero | positive
    · unfold DlmmCurve.quote at failed
      rw [if_pos zero] at failed
      cases failed
    have scanned := failed
    rw [curve_quote_eq curve rising amountIn positive] at scanned
    unfold reachingSegment at scanned
    cases found : curve.segments.find? (fun segment => amountIn ≤ segment.inputEnd) with
    | none => rw [found] at scanned; cases scanned
    | some segment =>
        have within : amountIn ≤ segment.inputEnd := by simpa using List.find?_some found
        have ended := quote_within_largest built (atEnds segment (List.mem_of_find?_eq_some found))
        obtain ⟨quote, completed⟩ := covers amountIn positive (within.trans ended)
        rw [completed] at failed
        cases failed
  · intro fewer amountIn less more ordered first second
    have positive := some_positive first
    exact lookup_mono _ total positive ordered ((quoted fewer positive less).mp first).1
      ((quoted amountIn (by omega) more).mp second).1

/-- Only one unit below a whole word can a built curve fail to quote what it covers. -/
theorem covered_below_word {amountIn : Nat} (positive : 1 ≤ amountIn)
    (within : amountIn ≤ curve.largestCompleteInput) (below : amountIn < wordMax 64)
    (inner : ¬ (curve.largestCompleteInput = wordMax 64 ∧ amountIn + 1 = wordMax 64)) :
    ∃ quote, curve.quote amountIn = .ok quote := by
  by_cases short : curve.largestCompleteInput < wordMax 64
  · exact ((built_quotes built short).covered amountIn).mpr ⟨positive, within⟩
  have fits := largest_fits built
  have whole : curve.largestCompleteInput = wordMax 64 := by unfold wordMax at short ⊢; omega
  obtain ⟨result, walked, _⟩ := build_curve_ok _ _ _ _ _ built
  refine covered_quotes built walked (fun entry member usable => ?_) positive within
  obtain ⟨more, split⟩ := measured_split inputLimit 0 (stages result.bins)
  have inside : entry ∈ stages result.bins := by rw [split]; exact List.mem_append_left _ member
  obtain ⟨bin, _, rfl⟩ := List.mem_map.mp inside
  intro input some smaller contained
  exact BinDefects.interior_paid usable some contained fun misread => inner ⟨whole, by omega⟩

/-- A built curve that ends below a whole word has the shape its lookup relies on,
and quotes every amount it covers. -/
theorem built_curve_shape (short : curve.largestCompleteInput < wordMax 64) :
    Shaped inputLimit curve ∧ Quotes curve :=
  ⟨built_shaped built, built_quotes built short⟩

end Lookup

/-- An active bin with two units in front of one that fills the limit. -/
def tinyBinArray : AccountInfo :=
  binArrayAccount meteoraDlmmProgramId meteoraDlmmProgramId 0 [payingBin 300000, payingBin 2]

theorem two_bin_curve :
    ((buildCurve dustPair [tinyBinArray] none true 0 1000).toOption.map fun curve =>
      (curve.segments.length, curve.largestCompleteInput)) = some (2, 300002) := by
  decide +kernel

theorem built_curve_shape_two_bins :
    ∃ curve, buildCurve dustPair [tinyBinArray] none true 0 1000 = .ok curve ∧
      curve.segments.length = 2 ∧ Shaped 1000 curve ∧ Quotes curve := by
  obtain ⟨curve, built, measured⟩ := Option.map_eq_some_iff.mp two_bin_curve
  rw [Prod.mk.injEq] at measured
  have built := (to_option_some _ _).mp built
  have shape := built_curve_shape built (by rw [measured.2]; decide)
  exact ⟨curve, built, measured.1, shape⟩

end ArbExecutor.CurveShape
