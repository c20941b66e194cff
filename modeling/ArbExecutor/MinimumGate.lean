import ArbExecutor.AverageRate
import ArbExecutor.RangeWidening

/-!
The gate at the minimum. A direction whose minimum quote gains nothing is not
searched any further; that loses nothing as long as the route without its rounding
gains no whole lamport at a larger amount either. So it is where the net rates do
not rise along the walk and the unrounded route gains nothing at the minimum.
-/

namespace ArbExecutor.MinimumGate

open Checked QuoteMath QuoteAccounts AccountValidation BestDirection DynamicAmount BinPricing StagedFill
  BinWalk CurveMeasure DirectionOutcome MinimumProbe SplitFees ConstantProduct PumpQuotes AverageRate
  ExactSelection

section Rates

/-- Output for one unit of input at a price, before fees and rounding. -/
def priceRate (swapForY : Bool) (price : Nat) : ℚ :=
  if swapForY then price / 2 ^ 64 else 2 ^ 64 / price

/-- The share that a fee rate leaves. -/
def keptShare (feeRate : Nat) : ℚ := (feePrecision - feeRate : Nat) / feePrecision

def netRate (swapForY : Bool) (price feeRate : Nat) : ℚ := priceRate swapForY price * keptShare feeRate

theorem price_rate_nonneg (swapForY : Bool) (price : Nat) : 0 ≤ priceRate swapForY price := by
  unfold priceRate
  split <;> positivity

theorem kept_share_nonneg (feeRate : Nat) : 0 ≤ keptShare feeRate := by
  unfold keptShare
  positivity

theorem net_rate_nonneg (swapForY : Bool) (price feeRate : Nat) : 0 ≤ netRate swapForY price feeRate :=
  mul_nonneg (price_rate_nonneg _ _) (kept_share_nonneg _)

theorem give_le_rate (swapForY : Bool) (price input : Nat) :
    (give swapForY price input : ℚ) ≤ priceRate swapForY price * input := by
  unfold give priceRate
  split
  · refine Nat.cast_div_le.trans (le_of_eq ?_)
    push_cast
    ring
  · refine Nat.cast_div_le.trans (le_of_eq ?_)
    push_cast
    ring

theorem net_le_share {feeRate : Nat} (capped : feeRate ≤ maxFeeRate) (amount : Nat) :
    (net feeRate amount : ℚ) ≤ keptShare feeRate * amount := by
  have reached := (le_net_iff capped amount (net feeRate amount)).mp le_rfl
  have whole : (0 : ℚ) < feePrecision := by norm_num [feePrecision]
  have scaled : (net feeRate amount : ℚ) * feePrecision ≤ amount * (feePrecision - feeRate : Nat) := by
    exact_mod_cast reached
  unfold keptShare
  rw [div_mul_eq_mul_div, le_div_iff₀ whole, mul_comm ((feePrecision - feeRate : Nat) : ℚ)]
  exact scaled

theorem payout_le_rate (pricing : Pricing) (paying : pricing.available ≠ 0) (input : Nat) :
    (pricing.payout input : ℚ) ≤ priceRate pricing.swapForY pricing.price * input := by
  unfold Pricing.payout
  split
  next full =>
    have enough : pricing.available ≤ give pricing.swapForY pricing.price input := by
      rw [← need_le_iff pricing.swapForY (pricing.payable paying).1, full]
      exact le_rfl
    exact (Nat.cast_le.mpr enough).trans (give_le_rate _ _ _)
  next short => exact give_le_rate _ _ _

/-- A bin never pays more than its net rate. -/
theorem fill_le_rate (pricing : Pricing) (input : Nat) :
    ((pricing.fill input).amountOut : ℚ) ≤
      netRate pricing.swapForY pricing.price pricing.feeRate * input := by
  have price := price_rate_nonneg pricing.swapForY pricing.price
  have share := kept_share_nonneg pricing.feeRate
  have taxed := net_le_share pricing.capped input
  -- Where the fee is on the input, the payout prices at most the net input.
  have onNet (some : pricing.available ≠ 0) (amount : Nat)
      (within : amount ≤ net pricing.feeRate input) :
      (pricing.payout amount : ℚ) ≤
        netRate pricing.swapForY pricing.price pricing.feeRate * input := by
    calc (pricing.payout amount : ℚ) ≤ priceRate pricing.swapForY pricing.price * amount :=
          payout_le_rate pricing some amount
      _ ≤ priceRate pricing.swapForY pricing.price * (keptShare pricing.feeRate * input) :=
          mul_le_mul_of_nonneg_left ((Nat.cast_le.mpr within).trans taxed) price
      _ = priceRate pricing.swapForY pricing.price * keptShare pricing.feeRate * input := by ring
  rcases fill_cases pricing input with
    empty | ⟨some, onInput, absorbed⟩ | ⟨some, onInput, beyond⟩ | ⟨some, onOutput⟩
  · rw [fill_empty pricing empty]
    simpa [netRate] using mul_nonneg (mul_nonneg price share) (Nat.cast_nonneg input)
  · rw [fill_absorbed pricing some onInput absorbed]
    exact onNet some _ le_rfl
  · rw [fill_overfull pricing some onInput beyond, ← payout_full pricing]
    exact onNet some _ (by omega)
  · rw [fill_on_output pricing some onOutput]
    have paid := payout_le_rate pricing some (min input pricing.fullNeed)
    have used : ((min input pricing.fullNeed : Nat) : ℚ) ≤ input := Nat.cast_le.mpr (min_le_left _ _)
    calc (net pricing.feeRate (pricing.payout (min input pricing.fullNeed)) : ℚ)
        ≤ keptShare pricing.feeRate * pricing.payout (min input pricing.fullNeed) :=
          net_le_share pricing.capped _
      _ ≤ keptShare pricing.feeRate * (priceRate pricing.swapForY pricing.price * input) :=
          mul_le_mul_of_nonneg_left (paid.trans (mul_le_mul_of_nonneg_left used price)) share
      _ = priceRate pricing.swapForY pricing.price * keptShare pricing.feeRate * input := by ring

/-- Neither does its interpolation, even where it overstates the bin. -/
theorem interior_le_rate {pricing : Pricing} {input value : Nat} (usable : (stage pricing).Usable)
    (positive : 0 < input) (within : input ≤ pricing.capacity.amountIn)
    (read : (stage pricing).interior input = some value) :
    (value : ℚ) ≤ netRate pricing.swapForY pricing.price pricing.feeRate * input := by
  rcases Nat.lt_or_eq_of_le within with below | full
  · have quoted := (to_option_some _ _).mp read
    rcases interior_below positive usable.2 below with exact | ⟨clamped, interpolated⟩
    · rw [exact] at quoted
      cases quoted
      exact fill_le_rate pricing input
    · rw [interpolated] at quoted
      rw [amount_out_given quoted, ← clamped.2]
      calc (give pricing.swapForY pricing.price (net pricing.feeRate input) : ℚ)
          ≤ priceRate pricing.swapForY pricing.price * net pricing.feeRate input := give_le_rate _ _ _
        _ ≤ priceRate pricing.swapForY pricing.price * (keptShare pricing.feeRate * input) :=
            mul_le_mul_of_nonneg_left (net_le_share pricing.capped input) (price_rate_nonneg _ _)
        _ = netRate pricing.swapForY pricing.price pricing.feeRate * input := by unfold netRate; ring
  · rw [full, show pricing.capacity.amountIn = (stage pricing).capacity from rfl,
      (stage pricing).interior_full usable.1 usable.2] at read
    cases read
    rw [show (stage pricing).reward = pricing.capacity.amountOut from rfl, ← fill_at_capacity, full]
    exact fill_le_rate pricing _

end Rates

section Steps

/-- A segment as a step: its capacity and its net rate. -/
def segmentStep (segment : DlmmSegment) : ℚ × ℚ :=
  (segment.inputCapacity, netRate segment.swapForY segment.priceQ64 segment.feeRate)

def curveSteps (curve : DlmmCurve) : List (ℚ × ℚ) := curve.segments.map segmentStep

theorem steps_nonneg (segments : List DlmmSegment) :
    ∀ step ∈ segments.map segmentStep, 0 ≤ step.1 ∧ 0 ≤ step.2 := by
  intro step member
  obtain ⟨segment, _, rfl⟩ := List.mem_map.mp member
  exact ⟨Nat.cast_nonneg _, net_rate_nonneg _ _ _⟩

/-- What measured stages quote stays below the chain of their net rates. -/
theorem lookup_le_steps (limit : Nat) (readable : Bool) (totalIn totalOut : Nat)
    (bins : List PricedBin) (segments : List DlmmSegment)
    (complete : CurveMeasure.measure limit readable totalIn totalOut bins = .ok segments)
    (input value : Nat) (label : List Int) (positive : 0 < input)
    (found : lookup (measured limit totalIn (stages bins)) input = some (value, label)) :
    (value : ℚ) ≤ stepped (segments.map segmentStep) input := by
  induction bins generalizing totalIn totalOut segments input value with
  | nil => cases found
  | cons bin rest ih =>
      have width : (PricedBin.segment bin totalIn totalOut).inputCapacity = bin.pricing.capacity.amountIn :=
        Nat.add_sub_cancel_left _ _
      have step : segmentStep (PricedBin.segment bin totalIn totalOut) =
          ((bin.pricing.capacity.amountIn : ℚ),
            netRate bin.pricing.swapForY bin.pricing.price bin.pricing.feeRate) := by
        unfold segmentStep
        rw [width]
        rfl
      -- The bin that holds the input pays at most its own net rate, whether or not the curve goes on after it.
      have inside (more : List DlmmSegment) (others : List (Stage × List Int))
          (usable : (stage bin.pricing).Usable) (within : input ≤ bin.pricing.capacity.amountIn)
          (found : lookup ((stage bin.pricing, bin.usedIndices) :: others) input = some (value, label)) :
          (value : ℚ) ≤ stepped ((PricedBin.segment bin totalIn totalOut :: more).map segmentStep) input := by
        rw [lookup_inside _ _ _ usable within] at found
        obtain ⟨_, read, same⟩ := Option.map_eq_some_iff.mp found
        cases same
        rw [List.map_cons, step, stepped, if_pos (Nat.cast_le.mpr within)]
        exact interior_le_rate usable positive within read
      rw [measure_cons_ok] at complete
      rw [measured_cons] at found
      rcases complete with ⟨usable, _, _, ⟨reached, rfl⟩ | ⟨short, more, later, rfl⟩⟩ | ⟨unusable, later⟩
      · rw [if_pos usable, if_pos reached] at found
        by_cases within : input ≤ bin.pricing.capacity.amountIn
        · exact inside [] [] usable within found
        · rw [lookup_outside _ _ _ usable (Nat.lt_of_not_le within)] at found
          cases found
      · rw [if_pos usable, if_neg (by omega)] at found
        by_cases within : input ≤ bin.pricing.capacity.amountIn
        · exact inside more _ usable within found
        · rw [lookup_outside _ _ _ usable (Nat.lt_of_not_le within)] at found
          obtain ⟨⟨inner, _⟩, deeper, same⟩ := Option.map_eq_some_iff.mp found
          cases same
          have beyond := Nat.lt_of_not_le within
          have rest := ih _ _ more later (input - bin.pricing.capacity.amountIn) inner (by omega) deeper
          have full : ((stage bin.pricing).reward : ℚ) ≤
              netRate bin.pricing.swapForY bin.pricing.price bin.pricing.feeRate *
                bin.pricing.capacity.amountIn := by
            rw [show (stage bin.pricing).reward = bin.pricing.capacity.amountOut from rfl,
              ← fill_at_capacity]
            exact fill_le_rate bin.pricing _
          rw [List.map_cons, step, stepped, if_neg (by exact_mod_cast within)]
          rw [Nat.cast_sub beyond.le] at rest
          push_cast
          exact add_le_add full rest
      · rw [if_neg unusable, lookup_skip _ _ _ unusable] at found
        exact ih _ _ _ later input value positive found

/-- A built curve quotes no more than its steps would without rounding. -/
theorem curve_quote_le_steps {pair : LbPairState} {arrays : List AccountInfo}
    {bitmapExtension : Option Bytes} {swapForY : Bool} {timestamp : Int64} {inputLimit input : Nat}
    {curve : DlmmCurve} {quote : CurveQuote}
    (built : buildCurve pair arrays bitmapExtension swapForY timestamp inputLimit = .ok curve)
    (quoted : curve.quote input = .ok quote) : (quote.amountOut : ℚ) ≤ stepped (curveSteps curve) input := by
  have positive : 0 < input := by
    rcases Nat.eq_zero_or_pos input with rfl | more
    · cases quoted
    · exact more
  obtain ⟨result, walked, complete⟩ := build_curve_ok _ _ _ _ _ built
  obtain ⟨found, _⟩ := (curve_quote_ok _ _ _ _ _ _ curve result built walked input positive quote).mp quoted
  exact lookup_le_steps _ _ _ _ _ _ complete input _ _ positive found

end Steps

section Route
variable (market : MarketState)

/-- The share of a buy that its fees leave, without rounding. -/
def boughtShare : ℚ := bpsPrecision / (bpsPrecision + (pumpRates market).sum)

/-- The share of a sale that its fees leave, without rounding. -/
def soldShare : ℚ := (bpsPrecision - (pumpRates market).sum : Nat) / bpsPrecision

def unroundedBuy (amountIn : ℚ) : ℚ :=
  hyperbola (market.pumpBaseReserve.toNat : ℚ) (pumpQuoteSide market) (boughtShare market * amountIn)

def unroundedSell (baseIn : ℚ) : ℚ :=
  soldShare market * hyperbola (pumpQuoteSide market : ℚ) market.pumpBaseReserve.toNat baseIn

/-- The route over a curve, without rounding. -/
def unroundedRoute : SelectedDirection → DlmmCurve → ℚ → ℚ
  | .pumpToMeteora, curve, amountIn => stepped (curveSteps curve) (unroundedBuy market amountIn)
  | .meteoraToPump, curve, amountIn => unroundedSell market (stepped (curveSteps curve) amountIn)

theorem bought_share_nonneg : 0 ≤ boughtShare market := by
  unfold boughtShare
  positivity

theorem sold_share_nonneg : 0 ≤ soldShare market := by
  unfold soldShare
  positivity

theorem curve_out_le_hyperbola (base reserve input : Nat) :
    (curveOut base reserve input : ℚ) ≤ hyperbola (base : ℚ) reserve input := by
  unfold curveOut hyperbola
  refine Nat.cast_div_le.trans (le_of_eq ?_)
  push_cast
  rfl

theorem unrounded_buy_nonneg (amountIn : ℚ) (nonneg : 0 ≤ amountIn) : 0 ≤ unroundedBuy market amountIn :=
  hyperbola_nonneg (Nat.cast_nonneg _) (Nat.cast_nonneg _) _
    (mul_nonneg (bought_share_nonneg market) nonneg)

theorem unrounded_buy_mono {fewer more : ℚ} (nonneg : 0 ≤ fewer) (ordered : fewer ≤ more) :
    unroundedBuy market fewer ≤ unroundedBuy market more :=
  hyperbola_mono (Nat.cast_nonneg _) (Nat.cast_nonneg _) (mul_nonneg (bought_share_nonneg market) nonneg)
    (mul_le_mul_of_nonneg_left ordered (bought_share_nonneg market))

theorem unrounded_sell_mono {fewer more : ℚ} (nonneg : 0 ≤ fewer) (ordered : fewer ≤ more) :
    unroundedSell market fewer ≤ unroundedSell market more :=
  mul_le_mul_of_nonneg_left
    (hyperbola_mono (Nat.cast_nonneg _) (Nat.cast_nonneg _) nonneg ordered) (sold_share_nonneg market)

/-- A buy pays no more than the curve would without rounding. -/
theorem buy_le_unrounded {amountIn : Nat} (fits : amountIn < 2 ^ 64) {bought : QuoteResult}
    (buys : pumpBuy market amountIn = .ok bought) : (bought.amountOut : ℚ) ≤ unroundedBuy market amountIn := by
  obtain ⟨_, _, _, _, rfl⟩ := (pump_buy_ok market amountIn fits bought).mp buys
  have kept : ((scaled bpsPrecision (pumpRates market) amountIn : Nat) : ℚ) ≤
      boughtShare market * amountIn := by
    unfold scaled boughtShare
    refine Nat.cast_div_le.trans (le_of_eq ?_)
    push_cast
    ring
  have net : ((effectiveQuote market amountIn - 1 : Nat) : ℚ) ≤ boughtShare market * amountIn :=
    (Nat.cast_le.mpr ((Nat.sub_le _ _).trans (net_le_scaled _ _))).trans kept
  exact (curve_out_le_hyperbola _ _ _).trans
    (hyperbola_mono (Nat.cast_nonneg _) (Nat.cast_nonneg _) (Nat.cast_nonneg _) net)

/-- Neither does a sale. -/
theorem sell_le_unrounded {baseIn : Nat} {sold : QuoteResult} (sells : pumpSell market baseIn = .ok sold) :
    (sold.amountOut : ℚ) ≤ unroundedSell market baseIn := by
  obtain ⟨_, paid⟩ := pump_sell_some market sells
  have joint := joint_le_split (pumpRates market) (by decide : 0 < bpsPrecision) (soldRaw market baseIn)
  have taxed := ceil_quotient_mul_ge (soldRaw market baseIn * (pumpRates market).sum)
    (by decide : 0 < bpsPrecision)
  have charged := Nat.mul_le_mul_right bpsPrecision joint
  have left : sold.amountOut * bpsPrecision ≤
      soldRaw market baseIn * (bpsPrecision - (pumpRates market).sum) := by
    rw [paid, Nat.sub_mul, Nat.mul_sub]
    unfold jointFee at charged
    omega
  have whole : (0 : ℚ) < bpsPrecision := by norm_num [bpsPrecision]
  calc (sold.amountOut : ℚ) ≤ soldShare market * soldRaw market baseIn := by
        unfold soldShare
        rw [div_mul_eq_mul_div, le_div_iff₀ whole, mul_comm ((bpsPrecision - _ : Nat) : ℚ)]
        exact_mod_cast left
    _ ≤ unroundedSell market baseIn :=
        mul_le_mul_of_nonneg_left (curve_out_le_hyperbola _ _ _) (sold_share_nonneg market)

/-- The unrounded route converts at a falling average rate if its steps do. -/
theorem route_falls (direction : SelectedDirection) (curve : DlmmCurve)
    (falling : (curveSteps curve).Pairwise fun left right => right.2 ≤ left.2) :
    AverageFalls (unroundedRoute market direction curve) := by
  have nonneg := steps_nonneg curve.segments
  have steps : AverageFalls (stepped (curveSteps curve)) := stepped_falls ⟨nonneg, falling⟩
  cases direction with
  | pumpToMeteora =>
      have scales : AverageFalls fun amountIn => boughtShare market * amountIn :=
        average_falls_scale (fun fewer more _ _ => le_of_eq (mul_comm more fewer))
          (bought_share_nonneg market)
      have buys : AverageFalls (unroundedBuy market) :=
        average_falls_comp (hyperbola (market.pumpBaseReserve.toNat : ℚ) (pumpQuoteSide market))
          (fun amountIn => boughtShare market * amountIn)
          (hyperbola_falls (Nat.cast_nonneg _) (Nat.cast_nonneg _)) scales
          (fun _ _ _ ordered => mul_le_mul_of_nonneg_left ordered (bought_share_nonneg market))
          (fun _ positive => mul_nonneg (bought_share_nonneg market) positive.le)
          (hyperbola_nonneg (Nat.cast_nonneg _) (Nat.cast_nonneg _))
      exact average_falls_comp (stepped (curveSteps curve)) (unroundedBuy market) steps buys
        (fun _ _ positive ordered => unrounded_buy_mono market positive.le ordered)
        (fun input positive => unrounded_buy_nonneg market input positive.le)
        (fun input positive => stepped_nonneg nonneg input positive)
  | meteoraToPump =>
      have sells : AverageFalls (unroundedSell market) :=
        average_falls_scale (hyperbola_falls (Nat.cast_nonneg _) (Nat.cast_nonneg _))
          (sold_share_nonneg market)
      exact average_falls_comp (unroundedSell market) (stepped (curveSteps curve)) sells steps
        (fun _ _ _ ordered => stepped_mono nonneg ordered)
        (fun input positive => stepped_nonneg nonneg input positive.le)
        (fun input positive => mul_nonneg (sold_share_nonneg market)
          (hyperbola_nonneg (Nat.cast_nonneg _) (Nat.cast_nonneg _) input positive))

end Route

section Gate
variable {binArrayAccounts : List AccountInfo} {bitmapExtension : Option Bytes}
  {timestamp : Int64} {market : MarketState} {cashbackSellIsReady : Bool}

/-- What a built curve evaluates stays below its unrounded route. -/
theorem evaluate_le_unrounded {direction : SelectedDirection} {limit amountIn : Nat} {curve : DlmmCurve}
    {quote : CurveQuote} (fits : amountIn < 2 ^ 64)
    (built : directionCurve binArrayAccounts bitmapExtension timestamp market direction limit = .ok curve)
    (evaluated : evaluateIn market direction curve amountIn = .ok quote) :
    (quote.amountOut : ℚ) ≤ unroundedRoute market direction curve amountIn := by
  have nonneg := steps_nonneg curve.segments
  cases direction with
  | pumpToMeteora =>
      obtain ⟨bought, buys, quoted⟩ := (bind_ok_iff _ _ _).mp evaluated
      exact (curve_quote_le_steps built quoted).trans
        (stepped_mono nonneg (buy_le_unrounded market fits buys))
  | meteoraToPump =>
      obtain ⟨paid, quoted, selling⟩ := (bind_ok_iff _ _ _).mp evaluated
      obtain ⟨sold, sells, same⟩ := (bind_ok_iff _ _ _).mp selling
      cases same
      exact (sell_le_unrounded market sells).trans
        (unrounded_sell_mono market (Nat.cast_nonneg _) (curve_quote_le_steps built quoted))

variable (binArrayAccounts bitmapExtension timestamp market cashbackSellIsReady)

/-- A direction whose minimum quote gains nothing gains nothing on its full curve. -/
def GateLossless (direction : SelectedDirection) (bounds : DynamicSearchBounds) : Prop :=
  ∀ quote, MinimumQuote binArrayAccounts bitmapExtension timestamp market cashbackSellIsReady direction
      bounds.minAmount quote → quote.amountOut ≤ bounds.minAmount →
    ∀ curve, directionCurve binArrayAccounts bitmapExtension timestamp market direction bounds.maxAmount =
        .ok curve →
      ∀ amountIn, bounds.minAmount ≤ amountIn → amountIn ≤ bounds.maxAmount →
        ∀ exact, evaluateIn market direction curve amountIn = .ok exact → exact.amountOut ≤ amountIn

/-- Without rounding the route gains nothing at the minimum, and no larger amount
that completes is executed at a better average rate. -/
def ExecutionWorsens (direction : SelectedDirection) (bounds : DynamicSearchBounds) : Prop :=
  ∀ curve, directionCurve binArrayAccounts bitmapExtension timestamp market direction bounds.maxAmount =
      .ok curve →
    unroundedRoute market direction curve bounds.minAmount ≤ bounds.minAmount ∧
      ∀ amountIn : Nat, bounds.minAmount ≤ amountIn → amountIn ≤ bounds.maxAmount →
        (∃ exact, evaluateIn market direction curve amountIn = .ok exact) →
        unroundedRoute market direction curve amountIn * bounds.minAmount ≤
          unroundedRoute market direction curve bounds.minAmount * amountIn

/-- The minimum quote completes and gains nothing, so that the gate discards the direction. -/
def MinimumFails (direction : SelectedDirection) (bounds : DynamicSearchBounds) : Prop :=
  ∃ quote, MinimumQuote binArrayAccounts bitmapExtension timestamp market cashbackSellIsReady direction
    bounds.minAmount quote ∧ quote.amountOut ≤ bounds.minAmount

/-- Without rounding no legal amount that completes gains a whole lamport. -/
def NoWholeGain (direction : SelectedDirection) (bounds : DynamicSearchBounds) : Prop :=
  ∀ curve, directionCurve binArrayAccounts bitmapExtension timestamp market direction bounds.maxAmount =
      .ok curve →
    ∀ amountIn : Nat, bounds.minAmount ≤ amountIn → amountIn ≤ bounds.maxAmount →
      (∃ exact, evaluateIn market direction curve amountIn = .ok exact) →
      unroundedRoute market direction curve amountIn < amountIn + 1

def expanded (flags : Bool × Bool) : SelectedDirection → Bool
  | .pumpToMeteora => flags.1
  | .meteoraToPump => flags.2

/-- A direction with a complete minimum quote that the gate discards has no legal
amount that gains. -/
def DiscardsNoGain (direction : SelectedDirection) (bounds : DynamicSearchBounds) : Prop :=
  ∀ forward reverse,
    (∀ asked, probeAlone binArrayAccounts bitmapExtension timestamp market cashbackSellIsReady asked
      bounds = .ok (outcomeOf forward reverse asked)) →
    (outcomeOf forward reverse direction).minimumQuoteComplete = true →
    bounds.maxAmount ≠ bounds.minAmount →
    expanded (directionsToExpand forward reverse bounds.minAmount bounds.maxAmount) direction = false →
    ∀ curve, directionCurve binArrayAccounts bitmapExtension timestamp market direction bounds.maxAmount =
        .ok curve →
      ∀ amountIn, bounds.minAmount ≤ amountIn → amountIn ≤ bounds.maxAmount →
        ∀ exact, evaluateIn market direction curve amountIn = .ok exact → exact.amountOut ≤ amountIn

variable {binArrayAccounts bitmapExtension timestamp market cashbackSellIsReady}

theorem lossless_discards_no_gain {direction : SelectedDirection} {bounds : DynamicSearchBounds}
    (lossless : GateLossless binArrayAccounts bitmapExtension timestamp market cashbackSellIsReady direction
      bounds) :
    DiscardsNoGain binArrayAccounts bitmapExtension timestamp market cashbackSellIsReady direction
      bounds := by
  intro forward reverse probed complete room discarded
  obtain ⟨quote, minimum⟩ := (probe_complete_iff _ _ _ _ _ (probed direction)).mp complete
  refine lossless quote minimum ?_
  by_contra gains
  have worth : Worth binArrayAccounts bitmapExtension timestamp market cashbackSellIsReady direction bounds :=
    ⟨room, quote, minimum, by omega⟩
  have grows := (expands_iff_worth _ _ _ _ _ (probed direction)).mpr worth
  rw [directions_to_expand_eq] at discarded
  cases direction with
  | pumpToMeteora => exact Bool.false_ne_true (discarded.symm.trans grows)
  | meteoraToPump => exact Bool.false_ne_true (discarded.symm.trans grows)

/-- Execution worsens wherever the net rates of the full curve do not rise. -/
theorem falling_rates_worsen {direction : SelectedDirection} {bounds : DynamicSearchBounds}
    (positive : 0 < bounds.minAmount)
    (falling : ∀ curve, directionCurve binArrayAccounts bitmapExtension timestamp market direction
        bounds.maxAmount = .ok curve →
      ((curveSteps curve).Pairwise fun left right => right.2 ≤ left.2) ∧
        unroundedRoute market direction curve bounds.minAmount ≤ bounds.minAmount) :
    ExecutionWorsens binArrayAccounts bitmapExtension timestamp market direction bounds := by
  intro curve built
  obtain ⟨rates, even⟩ := falling curve built
  exact ⟨even, fun amountIn above _ _ => route_falls market direction curve rates _ _
    (Nat.cast_pos.mpr positive) (Nat.cast_le.mpr above)⟩

/-- Where execution only worsens, no amount gains. -/
theorem worsening_gains_nothing {direction : SelectedDirection} {bounds : DynamicSearchBounds}
    (positive : 0 < bounds.minAmount)
    (worsens : ExecutionWorsens binArrayAccounts bitmapExtension timestamp market direction bounds) :
    NoWholeGain binArrayAccounts bitmapExtension timestamp market direction bounds := by
  intro curve built amountIn above below completes
  obtain ⟨even, slower⟩ := worsens curve built
  have gains := gains_nothing_above (slower amountIn above below completes) (Nat.cast_pos.mpr positive)
    (Nat.cast_le.mpr above) even
  exact lt_of_le_of_lt gains (lt_add_one _)

end Gate

/-! A pair whose volatility reference lies one bin further along, so that its
first bin pays a variable fee and the next one does not. -/
section Cooling
open CurveSoundness BinArrayLayout

def coolingPair : LbPairState :=
  { dustPair with
    staticParameters := { dustPair.staticParameters with variableFeeControl := 900000000 }
    variableParameters := { dustPair.variableParameters with indexReference := 0 } }

def coolingMarket : MarketState :=
  { profitableMarket with
    pumpBaseReserve := 1000000000000, pumpQuoteReserve := 1000000000000, pair := coolingPair }

def coolingArray : AccountInfo :=
  binArrayAccount meteoraDlmmProgramId meteoraDlmmProgramId 0
    [{ payingBin 1000000 with priceQ64 := 2 ^ 64 + 2 ^ 59 },
      { payingBin 1000 with priceQ64 := 2 ^ 64 + 2 ^ 60 }]

def quotedOn (array : AccountInfo) (market : MarketState) (limit amountIn : Nat) : Option Nat :=
  (directionCurve [array] none 0 market .pumpToMeteora limit).toOption.bind fun curve =>
    (evaluateIn market .pumpToMeteora curve amountIn).toOption.map (·.amountOut)

/-- A minimum that gains nothing and a larger amount that gains refute the gate. -/
theorem gate_loses {array : AccountInfo} {market : MarketState} {bounds : DynamicSearchBounds}
    {amountIn least most : Nat} (minimum : quotedOn array market bounds.minAmount bounds.minAmount = some least)
    (even : least ≤ bounds.minAmount) (quoted : quotedOn array market bounds.maxAmount amountIn = some most)
    (within : bounds.minAmount ≤ amountIn ∧ amountIn ≤ bounds.maxAmount) (gains : amountIn < most) :
    ¬ GateLossless [array] none 0 market true .pumpToMeteora bounds := by
  intro lossless
  obtain ⟨narrow, builtNarrow, evaluated⟩ := Option.bind_eq_some_iff.mp minimum
  obtain ⟨quote, complete, rfl⟩ := Option.map_eq_some_iff.mp evaluated
  obtain ⟨curve, built, evaluated⟩ := Option.bind_eq_some_iff.mp quoted
  obtain ⟨exact, found, rfl⟩ := Option.map_eq_some_iff.mp evaluated
  have bounded := lossless quote
    ⟨rfl, narrow, (to_option_some _ _).mp builtNarrow, (to_option_some _ _).mp complete⟩ even curve
    ((to_option_some _ _).mp built) amountIn within.1 within.2 exact ((to_option_some _ _).mp found)
  omega

/-- At 100 the variable fee leaves 90, at 20000 the route gains, and within the
first bin the rates fall. -/
theorem cooling_quotes :
    quotedOn coolingArray coolingMarket 100 100 = some 90 ∧
    quotedOn coolingArray coolingMarket 20000 20000 = some 20478 ∧
    (directionCurve [coolingArray] none 0 coolingMarket .pumpToMeteora 900).toOption.all
      (fun curve => decide ((curveSteps curve).Pairwise fun left right => right.2 ≤ left.2) &&
        decide (unroundedRoute coolingMarket .pumpToMeteora curve (100 : Nat) ≤ (100 : Nat))) = true := by
  decide +kernel

/-! At 6 rounding leaves 1 of a route that doubles its input. -/
example : ¬ GateLossless [profitableArray] none 0 profitableMarket true .pumpToMeteora
    { minAmount := 6, maxAmount := 400, minProfit := 1 } :=
  have minimum : quotedOn profitableArray profitableMarket 6 6 = some 1 := by decide +kernel
  have larger : quotedOn profitableArray profitableMarket 400 100 = some 189 := by decide +kernel
  gate_loses minimum (by decide) larger (by decide) (by decide)

end Cooling

end ArbExecutor.MinimumGate
