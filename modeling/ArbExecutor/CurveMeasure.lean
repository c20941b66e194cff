import ArbExecutor.BinWalk

/-!
The compact curve as a measurement of the walk. Building it adds up the
capacities of the bins it meets until the input limit is reached, and quoting
from it looks the input up in the measured stages.
-/

namespace ArbExecutor.CurveMeasure

open Checked QuoteMath QuoteAccounts AccountValidation BestDirection DynamicAmount BinPricing
  StagedFill BinWalk Bisection

def PricedBin.segment (bin : PricedBin) (totalIn totalOut : Nat) : DlmmSegment where
  inputStart := totalIn
  inputEnd := totalIn + bin.pricing.capacity.amountIn
  outputStart := totalOut
  outputEnd := totalOut + bin.pricing.capacity.amountOut
  priceQ64 := bin.pricing.price
  feeRate := bin.pricing.feeRate
  swapForY := bin.pricing.swapForY
  feeOnInput := bin.pricing.feeOnInput
  usedIndices := bin.usedIndices

/-- The segments of a walk up to an input limit, with the two ways to fail. -/
def measure (limit : Nat) (readable : Bool) :
    Nat → Nat → List PricedBin → Except ArbError (List DlmmSegment)
  | _, _, [] => if readable then .ok [] else .error .bestDirectionQuoteIncomplete
  | totalIn, totalOut, bin :: rest =>
      if (stage bin.pricing).Usable then
        if totalIn + bin.pricing.capacity.amountIn < 2 ^ 64 ∧
            totalOut + bin.pricing.capacity.amountOut < 2 ^ 64 then
          if limit ≤ totalIn + bin.pricing.capacity.amountIn then
            .ok [PricedBin.segment bin totalIn totalOut]
          else
            (measure limit readable (totalIn + bin.pricing.capacity.amountIn)
              (totalOut + bin.pricing.capacity.amountOut) rest).map
              (PricedBin.segment bin totalIn totalOut :: ·)
        else .error .arithmeticOverflow
      else measure limit readable totalIn totalOut rest

/-- A measurement succeeds on a walk in three ways: an unusable bin is passed
over, a usable one ends it at the limit or is followed by more segments. -/
theorem measure_cons_ok (limit : Nat) (readable : Bool) (totalIn totalOut : Nat) (bin : PricedBin)
    (rest : List PricedBin) (segments : List DlmmSegment) :
    measure limit readable totalIn totalOut (bin :: rest) = .ok segments ↔
      ((stage bin.pricing).Usable ∧
        totalIn + bin.pricing.capacity.amountIn < 2 ^ 64 ∧
        totalOut + bin.pricing.capacity.amountOut < 2 ^ 64 ∧
        (limit ≤ totalIn + bin.pricing.capacity.amountIn ∧
            segments = [PricedBin.segment bin totalIn totalOut] ∨
          totalIn + bin.pricing.capacity.amountIn < limit ∧
            ∃ more, measure limit readable (totalIn + bin.pricing.capacity.amountIn)
              (totalOut + bin.pricing.capacity.amountOut) rest = .ok more ∧
            segments = PricedBin.segment bin totalIn totalOut :: more)) ∨
      ¬ (stage bin.pricing).Usable ∧ measure limit readable totalIn totalOut rest = .ok segments := by
  rw [measure]
  by_cases usable : (stage bin.pricing).Usable
  · rw [if_pos usable]
    -- The totals are checked before the limit, so a bin that overflows refuses even where it would be the last.
    by_cases fits : totalIn + bin.pricing.capacity.amountIn < 2 ^ 64 ∧
        totalOut + bin.pricing.capacity.amountOut < 2 ^ 64
    · rw [if_pos fits]
      by_cases reached : limit ≤ totalIn + bin.pricing.capacity.amountIn
      · rw [if_pos reached]
        constructor
        · rintro same
          cases same
          exact .inl ⟨usable, fits.1, fits.2, .inl ⟨reached, rfl⟩⟩
        · rintro (⟨_, _, _, ⟨_, rfl⟩ | ⟨short, _⟩⟩ | ⟨unusable, _⟩)
          · rfl
          · omega
          · exact absurd usable unusable
      · rw [if_neg reached]
        constructor
        · intro measured
          cases later : measure limit readable (totalIn + bin.pricing.capacity.amountIn)
              (totalOut + bin.pricing.capacity.amountOut) rest with
          | error error => rw [later] at measured; cases measured
          | ok more =>
              rw [later] at measured
              cases measured
              exact .inl ⟨usable, fits.1, fits.2, .inr ⟨by omega, more, rfl, rfl⟩⟩
        · rintro (⟨_, _, _, ⟨early, _⟩ | ⟨_, more, later, rfl⟩⟩ | ⟨unusable, _⟩)
          · omega
          · rw [later]; rfl
          · exact absurd usable unusable
    · rw [if_neg fits]
      refine ⟨fun failed => (nomatch failed), ?_⟩
      rintro (⟨_, inFits, outFits, _⟩ | ⟨unusable, _⟩)
      · exact absurd ⟨inFits, outFits⟩ fits
      · exact absurd usable unusable
  · simp [usable]

section Building
variable (pair : LbPairState) (arrays : List AccountInfo) (bitmapExtension : Option Bytes)
  (swapForY feeOnInput supportsLimitOrders : Bool) (reference : DlmmVariableParameters)

theorem capacity_reading {bin : Bin} {parameters : DlmmFeeParameters} {pricing : Pricing}
    (priced : pricingOf bin swapForY feeOnInput parameters = some pricing) :
    dlmmBinQuoteCapacity bin swapForY feeOnInput parameters =
      if (stage pricing).Usable then .ok pricing.capacity else .error .insufficientLiquidity := by
  rw [capacity_ok priced]
  by_cases usable : (stage pricing).Usable
  · rw [if_pos usable, if_neg (by rintro (zero | zero); exacts [usable.1 zero, usable.2 zero])]
  · rw [if_neg usable, if_pos]
    by_contra neither
    rw [not_or] at neither
    exact usable neither

theorem rate_fits {parameters : DlmmFeeParameters} {feeRate : Nat}
    (rate : dlmmTotalFeeRate parameters = .ok feeRate) : narrow 64 feeRate = some feeRate := by
  have capped := fee_rate_capped rate
  unfold maxFeeRate at capped
  exact (narrow_some _ _ _).mpr ⟨rfl, by omega⟩

theorem map_append_singleton {Error Item : Type} (front : List Item) (item : Item)
    (outcome : Except Error (List Item)) :
    (outcome.map (item :: ·)).map (front ++ ·) = outcome.map ((front ++ [item]) ++ ·) := by
  cases outcome with
  | error error => rfl
  | ok rest => simp [Except.map]

theorem map_self {Error Item : Type} (outcome : Except Error Item) :
    (outcome.map fun value => value) = outcome := by
  cases outcome <;> rfl

theorem totals_overflow {Result : Type} {totalIn amountIn totalOut amountOut : Nat}
    (overflow : ¬ (totalIn + amountIn < 2 ^ 64 ∧ totalOut + amountOut < 2 ^ 64))
    (next : Nat → Nat → Except ArbError Result) :
    (do
      let inputEnd ← okOr (checkedAdd 64 totalIn amountIn) ArbError.arithmeticOverflow
      let outputEnd ← okOr (checkedAdd 64 totalOut amountOut) ArbError.arithmeticOverflow
      next inputEnd outputEnd) = .error .arithmeticOverflow := by
  by_cases inFits : totalIn + amountIn < 2 ^ 64
  · have outOver : ¬ totalOut + amountOut < 2 ^ 64 := fun outFits => overflow ⟨inFits, outFits⟩
    rw [checked_add_fits inFits, ok_or_some, ok_bind]
    unfold checkedAdd
    rw [if_neg outOver]
    rfl
  · unfold checkedAdd
    rw [if_neg inFits]
    rfl

/-- The curve builder measures the walk. -/
theorem build_bins_measure (limit visits : Nat) (state : CurveTraversal)
    (referenced : ∀ binId, updateVolatilityAccumulator binId state.variableParameters
      pair.staticParameters = updateVolatilityAccumulator binId reference pair.staticParameters)
    (room : state.segments.length + visits ≤ maxQuoteVisitedBinsPerDirection) :
    (buildCurveBins pair arrays bitmapExtension swapForY feeOnInput supportsLimitOrders limit visits
      state).map (·.segments) =
    (measure limit (walk pair arrays bitmapExtension swapForY feeOnInput supportsLimitOrders reference
        visits state.activeId state.usedIndices).readable state.totalIn state.totalOut
      (walk pair arrays bitmapExtension swapForY feeOnInput supportsLimitOrders reference
        visits state.activeId state.usedIndices).bins).map (state.segments ++ ·) := by
  induction visits generalizing state with
  | zero => simp [buildCurveBins, walk, measure, Except.map]
  | succ visits ih =>
      unfold buildCurveBins walk
      dsimp only
      cases initialized : arrayInitialized pair bitmapExtension (binArrayIndex state.activeId) with
      | error error => rfl
      | ok present =>
      cases present with
      | false =>
          simp only [incomplete, map_error_ok, ok_bind, Bool.not_false, if_true]
          exact ih { state with activeId := nextBin state.activeId swapForY
                                visitedBins := saturatingAdd 8 state.visitedBins 1 }
            referenced (by change state.segments.length + visits ≤ _; omega)
      | true =>
      simp only [incomplete, map_error_ok, ok_bind, Bool.not_true, Bool.false_eq_true, if_false]
      cases located : findBinArray arrays (binArrayIndex state.activeId) with
      | none => simp [measure, Except.map]
      | some account =>
      cases entered : enterArray state.usedIndices (binArrayIndex state.activeId) with
      | none => simp [measure, Except.map]
      | some nextUsed =>
      simp only [readBin]
      cases parsed : parseBinForId account.data state.activeId (binArrayIndex state.activeId) with
      | error error => rfl
      | ok bin =>
      rw [referenced state.activeId]
      simp only [map_error_ok, ok_bind, Except.toOption, Option.bind_some]
      cases priced : pricingOf (quotedBin supportsLimitOrders bin) swapForY feeOnInput
          (parametersAt pair reference state.activeId) with
      | none =>
          -- No pricing: the fee rate or the capacity fails, never for want of liquidity.
          have unpriced := priced
          unfold parametersAt at unpriced
          cases rate : dlmmTotalFeeRate (dlmmFeeParameters pair
              (updateVolatilityAccumulator state.activeId reference pair.staticParameters)) with
          | error error => rfl
          | ok feeRate =>
              obtain ⟨error, different, failed⟩ := capacity_unpriced unpriced
              rw [map_error_ok, ok_bind, rate_fits rate, ok_or_some, ok_bind, failed]
              cases error with
              | insufficientLiquidity => exact absurd rfl different
              | invalidInput => rfl
              | mathOverflow => rfl
      | some pricing =>
          have reading := capacity_reading swapForY feeOnInput priced
          obtain ⟨rfl, rfl, rate, price, _, _⟩ := pricing_of_some priced
          unfold parametersAt at reading rate
          rw [rate, map_error_ok, ok_bind, rate_fits rate, ok_or_some, ok_bind, reading]
          unfold measure
          by_cases usable : (stage pricing).Usable
          · rw [if_pos usable, if_pos usable]
            dsimp only
            by_cases fits : state.totalIn + pricing.capacity.amountIn < 2 ^ 64 ∧
                state.totalOut + pricing.capacity.amountOut < 2 ^ 64
            · have roomy : (decide (state.segments.length < maxQuoteVisitedBinsPerDirection)) = true :=
                decide_eq_true (by omega)
              rw [checked_add_fits fits.1, ok_or_some, ok_bind, checked_add_fits fits.2, ok_or_some,
                ok_bind, roomy, if_pos fits]
              simp only [require, if_true, ok_bind, ← price]
              split
              next reached => rfl
              next short =>
                have next := ih
                  { state with
                    variableParameters := updateVolatilityAccumulator state.activeId reference
                      pair.staticParameters
                    activeId := nextBin state.activeId pricing.swapForY
                    totalIn := state.totalIn + pricing.capacity.amountIn
                    totalOut := state.totalOut + pricing.capacity.amountOut
                    usedIndices := nextUsed
                    visitedBins := saturatingAdd 8 state.visitedBins 1
                    segments := state.segments ++
                      [PricedBin.segment ⟨pricing, nextUsed⟩ state.totalIn state.totalOut] }
                  (fun binId => rfl) (by
                    simp only [List.length_append, List.length_singleton]
                    omega)
                rw [map_append_singleton]
                exact next
            · rw [totals_overflow fits, if_neg fits]
              rfl
          · rw [if_neg usable, if_neg usable]
            exact ih { state with activeId := nextBin state.activeId pricing.swapForY
                                  usedIndices := nextUsed
                                  variableParameters := updateVolatilityAccumulator state.activeId
                                    reference pair.staticParameters
                                  visitedBins := saturatingAdd 8 state.visitedBins 1 }
              (fun binId => rfl) (by change state.segments.length + visits ≤ _; omega)

end Building

section Direction
variable (pair : LbPairState) (arrays : List AccountInfo) (bitmapExtension : Option Bytes)
  (swapForY : Bool) (timestamp : Int64)

/-- Building a curve is measuring its direction's walk up to the input limit. -/
theorem build_curve_segments (inputLimit : Nat) :
    (buildCurve pair arrays bitmapExtension swapForY timestamp inputLimit).map (·.segments) =
      (incomplete (directionWalk pair arrays bitmapExtension swapForY timestamp)).bind
        fun result => measure inputLimit result.readable 0 0 result.bins := by
  unfold buildCurve directionWalk
  cases side : feeOnInput pair swapForY with
  | error error => rfl
  | ok onInput =>
  cases kind : supportsLimitOrders pair with
  | error error => rfl
  | ok supports =>
    have measured := build_bins_measure pair arrays bitmapExtension swapForY onInput supports
      (updateReference pair.activeId pair.variableParameters pair.staticParameters timestamp)
      inputLimit maxQuoteVisitedBinsPerDirection
      { variableParameters :=
          updateReference pair.activeId pair.variableParameters pair.staticParameters timestamp
        activeId := pair.activeId.toInt, totalIn := 0, totalOut := 0, usedIndices := []
        visitedBins := 0, segments := [], stopReason := .visitedBinLimitReached }
      (fun _ => rfl) (by simp)
    simp only [incomplete, map_error_ok, ok_bind, pure_ok, List.nil_append] at measured ⊢
    rw [map_self] at measured
    refine Eq.trans ?_ measured
    cases buildCurveBins pair arrays bitmapExtension swapForY onInput supports inputLimit
        maxQuoteVisitedBinsPerDirection _ with
    | error error => rfl
    | ok state => rfl

theorem build_curve_ok {inputLimit : Nat} {curve : DlmmCurve}
    (built : buildCurve pair arrays bitmapExtension swapForY timestamp inputLimit = .ok curve) :
    ∃ result, directionWalk pair arrays bitmapExtension swapForY timestamp = .ok result ∧
      measure inputLimit result.readable 0 0 result.bins = .ok curve.segments := by
  have segments := build_curve_segments pair arrays bitmapExtension swapForY timestamp inputLimit
  rw [built] at segments
  obtain ⟨result, walked, measured⟩ := (bind_ok_iff _ _ _).mp segments.symm
  exact ⟨result, (incomplete_ok _ _).mp walked, measured⟩

end Direction

/-! Quoting from measured segments. -/
section Quoting

/-- The part of a curve quote that follows the choice of a segment. -/
def quoteSegment (amountIn : Nat) (segment : DlmmSegment) : Except QuoteError CurveQuote := do
  let remaining ← okOr (checkedSub amountIn segment.inputStart) .mathOverflow
  let amountOut ←
    if remaining = 0 then pure segment.outputStart
    else do
      let output ← dlmmBinOutputWithinCapacity remaining segment.inputCapacity
        segment.outputCapacity segment.priceQ64 segment.swapForY segment.feeOnInput segment.feeRate
      okOr (checkedAdd 64 segment.outputStart output) .mathOverflow
  pure { amountOut, usedIndices := segment.usedIndices }

/-- Segments whose ends never fall, starting at a total. -/
def Rising : Nat → List DlmmSegment → Prop
  | _, [] => True
  | total, segment :: rest => total ≤ segment.inputEnd ∧ Rising segment.inputEnd rest

theorem rising_above (total : Nat) (segments : List DlmmSegment) (rising : Rising total segments) :
    ∀ segment ∈ segments, total ≤ segment.inputEnd := by
  induction segments generalizing total with
  | nil => simp
  | cons head rest ih =>
      intro segment member
      rcases List.mem_cons.mp member with rfl | later
      · exact rising.1
      · exact rising.1.trans (ih _ rising.2 segment later)

/-- On rising ends, reaching an input is settled from the first segment that does. -/
theorem reaches_after (total : Nat) (segments : List DlmmSegment) (rising : Rising total segments)
    (amountIn first index : Nat) (reached : reaches segments amountIn first = true)
    (later : first ≤ index) : reaches segments amountIn index = true := by
  induction segments generalizing total first index with
  | nil => rfl
  | cons head rest ih =>
      cases index with
      | zero =>
          obtain rfl : first = 0 := Nat.le_zero.mp later
          exact reached
      | succ index =>
          cases first with
          | zero =>
              have above := rising_above _ _ rising.2
              have met : amountIn ≤ head.inputEnd := by simpa [reaches] using reached
              unfold reaches
              cases found : (head :: rest)[index + 1]? with
              | none => rfl
              | some segment =>
                  have member : segment ∈ rest := List.mem_of_getElem? (by simpa using found)
                  exact decide_eq_true (met.trans (above segment member))
          | succ first => exact ih _ rising.2 first index reached (by omega)

def reachingSegment (segments : List DlmmSegment) (amountIn : Nat) : Except QuoteError DlmmSegment :=
  okOr (segments.find? fun segment => amountIn ≤ segment.inputEnd) .insufficientLiquidity

theorem reaching_head (segment : DlmmSegment) (more : List DlmmSegment) {amountIn : Nat}
    (within : amountIn ≤ segment.inputEnd) :
    reachingSegment (segment :: more) amountIn = .ok segment := by
  unfold reachingSegment
  rw [List.find?_cons, decide_eq_true within]
  rfl

theorem reaching_tail (segment : DlmmSegment) (more : List DlmmSegment) {amountIn : Nat}
    (beyond : segment.inputEnd < amountIn) :
    reachingSegment (segment :: more) amountIn = reachingSegment more amountIn := by
  unfold reachingSegment
  rw [List.find?_cons, decide_eq_false (by omega)]

/-- The bisection over a rising curve finds the first segment that reaches the input. -/
theorem bisected_segment (segments : List DlmmSegment) (rising : Rising 0 segments) (amountIn : Nat) :
    segments[firstTrue (reaches segments amountIn) 0 segments.length]? =
      segments.find? fun segment => amountIn ≤ segment.inputEnd := by
  have switch : firstTrue (reaches segments amountIn) 0 segments.length =
      segments.findIdx fun segment => decide (amountIn ≤ segment.inputEnd) := by
    refine first_true_exact _ _ _ _ _ le_rfl (Nat.zero_le _) List.findIdx_le_length ?_ ?_
    · intro index _ early
      have inside : index < segments.length := lt_of_lt_of_le early List.findIdx_le_length
      have misses := List.not_of_lt_findIdx early
      unfold reaches
      rw [List.getElem?_eq_getElem inside]
      simpa using misses
    · intro index late inside
      refine reaches_after 0 segments rising amountIn _ index ?_ late
      have found := List.findIdx_getElem (w := lt_of_le_of_lt late inside)
      unfold reaches
      rw [List.getElem?_eq_getElem (lt_of_le_of_lt late inside)]
      exact found
  rw [switch, List.find?_eq_getElem?_findIdx]

theorem curve_quote_eq (curve : DlmmCurve) (rising : Rising 0 curve.segments) (amountIn : Nat)
    (positive : 0 < amountIn) :
    curve.quote amountIn = (reachingSegment curve.segments amountIn).bind (quoteSegment amountIn) := by
  unfold DlmmCurve.quote
  rw [if_neg (by omega)]
  dsimp only
  rw [bisected_segment _ rising]
  rfl

theorem measure_rising (limit : Nat) (readable : Bool) (totalIn totalOut : Nat)
    (bins : List PricedBin) (segments : List DlmmSegment)
    (measured : measure limit readable totalIn totalOut bins = .ok segments) :
    Rising totalIn segments := by
  induction bins generalizing totalIn totalOut segments with
  | nil =>
      unfold measure at measured
      split at measured
      · cases measured; trivial
      · cases measured
  | cons bin rest ih =>
      rw [measure_cons_ok] at measured
      rcases measured with ⟨_, _, _, ⟨_, rfl⟩ | ⟨_, more, later, rfl⟩⟩ | ⟨_, later⟩
      · exact ⟨Nat.le_add_right _ _, trivial⟩
      · exact ⟨Nat.le_add_right _ _, ih _ _ _ later⟩
      · exact ih _ _ _ later

theorem quote_segment_ok (bin : PricedBin) (totalIn totalOut amountIn : Nat)
    (above : totalIn < amountIn) (quote : CurveQuote) :
    quoteSegment amountIn (PricedBin.segment bin totalIn totalOut) = .ok quote ↔
      ∃ value, (stage bin.pricing).interior (amountIn - totalIn) = some value ∧
        quote.usedIndices = bin.usedIndices ∧ quote.amountOut = totalOut + value ∧
        totalOut + value < 2 ^ 64 := by
  have width : totalIn + bin.pricing.capacity.amountIn - totalIn = bin.pricing.capacity.amountIn := by omega
  have height : totalOut + bin.pricing.capacity.amountOut - totalOut =
      bin.pricing.capacity.amountOut := by omega
  have remaining : amountIn - totalIn ≠ 0 := by omega
  unfold quoteSegment
  simp only [PricedBin.segment, DlmmSegment.inputCapacity, DlmmSegment.outputCapacity, width, height]
  rw [checked_sub_fits above.le, ok_or_some, ok_bind, if_neg remaining]
  simp only [bind_ok_iff, ok_or_eq_ok, checked_add_some, pure_ok, Except.ok.injEq]
  constructor
  · rintro ⟨value, read, _, ⟨rfl, fits⟩, rfl⟩
    exact ⟨value, (to_option_some _ _).mpr read, rfl, rfl, fits⟩
  · rintro ⟨value, read, used, paid, fits⟩
    refine ⟨value, (to_option_some _ _).mp read, _, ⟨rfl, fits⟩, ?_⟩
    rw [← used, ← paid]

theorem measured_cons (limit totalIn : Nat) (bin : PricedBin) (rest : List PricedBin) :
    measured limit totalIn (stages (bin :: rest)) =
      if (stage bin.pricing).Usable then
        if limit ≤ totalIn + bin.pricing.capacity.amountIn then
          [(stage bin.pricing, bin.usedIndices)]
        else (stage bin.pricing, bin.usedIndices) ::
          measured limit (totalIn + bin.pricing.capacity.amountIn) (stages rest)
      else (stage bin.pricing, bin.usedIndices) :: measured limit totalIn (stages rest) := rfl

/-- What a measured segment and its stage agree on for one input. -/
def QuotesAs (segments : List DlmmSegment) (measuredStages : List (Stage × List Int))
    (totalIn totalOut amountIn : Nat) (quote : CurveQuote) : Prop :=
  (reachingSegment segments amountIn).bind (quoteSegment amountIn) = .ok quote ↔
    ∃ value, lookup measuredStages (amountIn - totalIn) = some (value, quote.usedIndices) ∧
      quote.amountOut = totalOut + value ∧ totalOut + value < 2 ^ 64

theorem quotes_nothing (totalIn totalOut amountIn : Nat) (quote : CurveQuote) :
    QuotesAs [] [] totalIn totalOut amountIn quote := by
  refine iff_of_false (fun failed => ?_) ?_
  · cases failed
  · rintro ⟨_, found, _⟩
    cases found

theorem quotes_inside {bin : PricedBin} {totalIn amountIn : Nat} (totalOut : Nat)
    (more : List DlmmSegment) (others : List (Stage × List Int)) (usable : (stage bin.pricing).Usable)
    (above : totalIn < amountIn) (within : amountIn ≤ totalIn + bin.pricing.capacity.amountIn)
    (quote : CurveQuote) :
    QuotesAs (PricedBin.segment bin totalIn totalOut :: more) ((stage bin.pricing, bin.usedIndices) :: others)
      totalIn totalOut amountIn quote := by
  unfold QuotesAs
  rw [reaching_head _ more (show amountIn ≤ (PricedBin.segment bin totalIn totalOut).inputEnd from within)]
  refine (quote_segment_ok bin totalIn totalOut amountIn above quote).trans ?_
  rw [lookup_inside _ _ _ usable (by change amountIn - totalIn ≤ bin.pricing.capacity.amountIn; omega)]
  refine exists_congr fun value => ?_
  rw [Option.map_eq_some_iff]
  constructor
  · rintro ⟨read, used, paid, fits⟩
    exact ⟨⟨value, read, by rw [used]⟩, paid, fits⟩
  · rintro ⟨⟨_, read, same⟩, paid, fits⟩
    rw [Prod.mk.injEq] at same
    obtain ⟨rfl, used⟩ := same
    exact ⟨read, used.symm, paid, fits⟩

/-- Past the first segment both sides go on with what is left of the input. -/
theorem quotes_beyond {bin : PricedBin} {totalIn totalOut amountIn : Nat} {more : List DlmmSegment}
    {others : List (Stage × List Int)} (usable : (stage bin.pricing).Usable)
    (beyond : totalIn + bin.pricing.capacity.amountIn < amountIn) {quote : CurveQuote}
    (later : QuotesAs more others (totalIn + bin.pricing.capacity.amountIn)
      (totalOut + bin.pricing.capacity.amountOut) amountIn quote) :
    QuotesAs (PricedBin.segment bin totalIn totalOut :: more) ((stage bin.pricing, bin.usedIndices) :: others)
      totalIn totalOut amountIn quote := by
  have left : amountIn - totalIn - (stage bin.pricing).capacity =
      amountIn - (totalIn + bin.pricing.capacity.amountIn) := Nat.sub_sub _ _ _
  unfold QuotesAs
  rw [reaching_tail _ _ (show (PricedBin.segment bin totalIn totalOut).inputEnd < amountIn from beyond),
    lookup_outside _ _ _ usable (by change bin.pricing.capacity.amountIn < _; omega), left]
  refine Iff.trans later ?_
  constructor
  · rintro ⟨value, found, paid, fits⟩
    refine ⟨bin.pricing.capacity.amountOut + value, ?_, by omega, by omega⟩
    rw [found]
    rfl
  · rintro ⟨value, found, paid, fits⟩
    obtain ⟨⟨inner, label⟩, found, same⟩ := Option.map_eq_some_iff.mp found
    rw [Prod.mk.injEq] at same
    obtain ⟨total, rfl⟩ := same
    change bin.pricing.capacity.amountOut + inner = value at total
    exact ⟨inner, found, by omega, by omega⟩

/-- Quoting from measured segments is a lookup in the measured stages. -/
theorem quote_measured (limit : Nat) (readable : Bool) (totalIn totalOut : Nat)
    (bins : List PricedBin) (segments : List DlmmSegment)
    (complete : measure limit readable totalIn totalOut bins = .ok segments) (amountIn : Nat)
    (above : totalIn < amountIn) (quote : CurveQuote) :
    QuotesAs segments (measured limit totalIn (stages bins)) totalIn totalOut amountIn quote := by
  induction bins generalizing totalIn totalOut segments with
  | nil =>
      unfold measure at complete
      split at complete
      · cases complete
        exact quotes_nothing totalIn totalOut amountIn quote
      · cases complete
  | cons bin rest ih =>
      rw [measured_cons]
      rw [measure_cons_ok] at complete
      rcases complete with ⟨usable, inFits, outFits, ⟨reached, rfl⟩ | ⟨short, more, later, rfl⟩⟩ |
        ⟨unusable, later⟩
      · -- The limit is reached: this segment is the last one.
        rw [if_pos usable, if_pos reached]
        by_cases within : amountIn ≤ totalIn + bin.pricing.capacity.amountIn
        · exact quotes_inside totalOut [] [] usable above within quote
        · exact quotes_beyond usable (by omega) (quotes_nothing _ _ amountIn quote)
      · rw [if_pos usable, if_neg (by omega)]
        by_cases within : amountIn ≤ totalIn + bin.pricing.capacity.amountIn
        · exact quotes_inside totalOut more _ usable above within quote
        · exact quotes_beyond usable (by omega) (ih _ _ _ later (by omega))
      · rw [if_neg unusable]
        unfold QuotesAs
        rw [lookup_skip _ _ _ unusable]
        exact ih _ _ _ later above

/-- A built curve quotes an amount exactly when its direction's measured stages do. -/
theorem curve_quote_ok (pair : LbPairState) (arrays : List AccountInfo)
    (bitmapExtension : Option Bytes) (swapForY : Bool) (timestamp : Int64) (inputLimit : Nat)
    (curve : DlmmCurve) (result : Walk)
    (built : buildCurve pair arrays bitmapExtension swapForY timestamp inputLimit = .ok curve)
    (walked : directionWalk pair arrays bitmapExtension swapForY timestamp = .ok result)
    (amountIn : Nat) (positive : 0 < amountIn) (quote : CurveQuote) :
    curve.quote amountIn = .ok quote ↔
      lookup (measured inputLimit 0 (stages result.bins)) amountIn =
          some (quote.amountOut, quote.usedIndices) ∧ quote.amountOut < 2 ^ 64 := by
  obtain ⟨other, same, complete⟩ := build_curve_ok _ _ _ _ _ built
  rw [walked] at same
  cases same
  have quoted := quote_measured _ _ _ _ _ _ complete amountIn positive quote
  rw [curve_quote_eq curve (measure_rising _ _ _ _ _ _ complete) amountIn positive]
  refine Iff.trans quoted ?_
  simp only [Nat.sub_zero, Nat.zero_add]
  constructor
  · rintro ⟨value, found, rfl, fits⟩
    exact ⟨found, fits⟩
  · rintro ⟨found, fits⟩
    exact ⟨_, found, rfl, fits⟩

end Quoting

end ArbExecutor.CurveMeasure
