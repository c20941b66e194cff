import ArbExecutor.RangeWidening

/-!
The fixed-amount selection against the dynamic selection over that one amount.
Both quote the same routes; the fixed one replays the bins and drops a direction
that fails, the dynamic one reads them off a curve and needs both curves.
-/

namespace ArbExecutor.FixedParity

open Checked QuoteMath QuoteAccounts AccountValidation BestDirection DynamicAmount BinPricing CurveBuilding
  StagedFill BinWalk CurveMeasure BinDefects CurveSoundness DirectionOutcome MinimumProbe ExactSelection RangeWidening
  DirectionIsolation PumpQuotes ConstantProduct

section Routes
variable (binArrayAccounts : List AccountInfo) (bitmapExtension : Option Bytes)
  (timestamp : Int64) (market : MarketState) (cashbackSellIsReady : Bool)

/-- What a route of the fixed selection returns: the final WSOL and the arrays it uses. -/
def routeQuote (amountIn : Nat) : SelectedDirection → Option (Nat × List Int)
  | .pumpToMeteora =>
      (forwardQuote market binArrayAccounts bitmapExtension amountIn timestamp).map fun quote =>
        (quote.amountOut, quote.usedIndices)
  | .meteoraToPump =>
      (reverseQuote market cashbackSellIsReady binArrayAccounts bitmapExtension amountIn timestamp).map
        fun quote => (quote.1, quote.2.usedIndices)

/-- What reaches the DLMM pool. -/
def dlmmInput (amountIn : Nat) : SelectedDirection → Option Nat
  | .pumpToMeteora => pumpBuyAmountOut market amountIn
  | .meteoraToPump => some amountIn

/-- The final WSOL behind an output of the DLMM pool. -/
def payout : SelectedDirection → Nat → Option Nat
  | .pumpToMeteora, dlmmOut => some dlmmOut
  | .meteoraToPump, dlmmOut => (pumpSell market dlmmOut).toOption.map (·.amountOut)

theorem pump_buy_input (amountIn input : Nat) :
    pumpBuyAmountOut market amountIn = some input ↔
      ∃ bought, pumpBuy market amountIn = .ok bought ∧ bought.amountOut = input := by
  unfold pumpBuyAmountOut
  rw [Option.map_eq_some_iff]
  simp only [to_option_some]

theorem payout_reverse (dlmmOut out : Nat) :
    payout market .meteoraToPump dlmmOut = some out ↔
      ∃ sold, pumpSell market dlmmOut = .ok sold ∧ sold.amountOut = out := by
  unfold payout
  rw [Option.map_eq_some_iff]
  simp only [to_option_some]

theorem input_limit {direction : SelectedDirection} {amountIn input : Nat}
    (reached : dlmmInput market amountIn direction = some input) :
    directionInputLimit market direction amountIn = input := by
  cases direction with
  | pumpToMeteora =>
      have bought : pumpBuyAmountOut market amountIn = some input := reached
      change (pumpBuyAmountOut market amountIn).getD _ = input
      rw [bought]
      rfl
  | meteoraToPump => exact Option.some.inj reached

/-- A fixed route is a direct DLMM quote between the two Pump quotes. -/
theorem route_quote_some (amountIn out : Nat) (used : List Int) (direction : SelectedDirection) :
    routeQuote binArrayAccounts bitmapExtension timestamp market cashbackSellIsReady amountIn direction =
        some (out, used) ↔
      directionReady cashbackSellIsReady direction = true ∧
        ∃ input dlmm, dlmmInput market amountIn direction = some input ∧
          quoteDlmmFromAccounts input market.pair binArrayAccounts bitmapExtension
            (directionSwapForY market direction) timestamp = .ok dlmm ∧
          payout market direction dlmm.amountOut = some out ∧ dlmm.usedIndices = used := by
  cases direction with
  | pumpToMeteora =>
      unfold routeQuote forwardQuote dlmmInput payout
      simp only [Option.map_eq_some_iff, Option.bind_eq_some_iff, to_option_some, pump_buy_input,
        Prod.mk.injEq, Option.some.injEq]
      constructor
      · rintro ⟨dlmm, ⟨bought, buys, quoted⟩, rfl, rfl⟩
        exact ⟨rfl, _, dlmm, ⟨bought, buys, rfl⟩, quoted, rfl, rfl⟩
      · rintro ⟨_, _, dlmm, ⟨bought, buys, rfl⟩, quoted, rfl, rfl⟩
        exact ⟨dlmm, ⟨bought, buys, quoted⟩, rfl, rfl⟩
  | meteoraToPump =>
      unfold routeQuote reverseQuote dlmmInput
      simp only [payout_reverse, Option.some.injEq]
      constructor
      · intro routed
        obtain ⟨⟨_, _⟩, found, same⟩ := Option.map_eq_some_iff.mp routed
        split at found
        next ready =>
          obtain ⟨dlmm, quoted, finishes⟩ := Option.bind_eq_some_iff.mp found
          obtain ⟨sold, sells, kept⟩ := Option.map_eq_some_iff.mp finishes
          rw [Prod.mk.injEq] at kept same
          obtain ⟨rfl, rfl⟩ := kept
          obtain ⟨rfl, rfl⟩ := same
          exact ⟨ready, _, dlmm, rfl, (to_option_some _ _).mp quoted,
            ⟨sold, (to_option_some _ _).mp sells, rfl⟩, rfl⟩
        next => cases found
      · rintro ⟨ready, _, dlmm, rfl, quoted, ⟨sold, sells, rfl⟩, rfl⟩
        have ready : cashbackSellIsReady = true := ready
        change quoteDlmmFromAccounts amountIn market.pair binArrayAccounts bitmapExtension
          (!market.targetIsX) timestamp = .ok dlmm at quoted
        rw [if_pos ready, quoted]
        change Option.map _ ((pumpSell market dlmm.amountOut).toOption.map _) = _
        rw [sells]
        rfl

/-- A minimum quote is a curve's DLMM quote between the two Pump quotes. -/
theorem minimum_quote_some (amountIn : Nat) (direction : SelectedDirection) (quote : CurveQuote) :
    MinimumQuote binArrayAccounts bitmapExtension timestamp market cashbackSellIsReady direction amountIn
        quote ↔
      directionReady cashbackSellIsReady direction = true ∧
        ∃ input dlmm, dlmmInput market amountIn direction = some input ∧
          (∃ curve, directionCurve binArrayAccounts bitmapExtension timestamp market direction amountIn =
            .ok curve ∧ curve.quote input = .ok dlmm) ∧
          payout market direction dlmm.amountOut = some quote.amountOut ∧
          dlmm.usedIndices = quote.usedIndices := by
  unfold MinimumQuote
  refine and_congr_right fun _ => ?_
  cases direction with
  | pumpToMeteora =>
      unfold evaluateIn evaluateForward dlmmInput payout
      simp only [bind_ok_iff, pump_buy_input, Option.some.injEq]
      constructor
      · rintro ⟨curve, built, bought, buys, quoted⟩
        exact ⟨_, quote, ⟨bought, buys, rfl⟩, ⟨curve, built, quoted⟩, rfl, rfl⟩
      · rintro ⟨_, dlmm, ⟨bought, buys, rfl⟩, ⟨curve, built, quoted⟩, paid, used⟩
        obtain rfl : dlmm = quote := by
          cases dlmm
          cases quote
          cases paid
          cases used
          rfl
        exact ⟨curve, built, bought, buys, quoted⟩
  | meteoraToPump =>
      unfold evaluateIn evaluateReverse dlmmInput
      simp only [bind_ok_iff, payout_reverse, pure_ok, Except.ok.injEq, Option.some.injEq]
      constructor
      · rintro ⟨curve, built, dlmm, quoted, sold, sells, rfl⟩
        exact ⟨_, dlmm, rfl, ⟨curve, built, quoted⟩, ⟨sold, sells, rfl⟩, rfl⟩
      · rintro ⟨_, dlmm, rfl, ⟨curve, built, quoted⟩, ⟨sold, sells, paid⟩, used⟩
        refine ⟨curve, built, dlmm, quoted, sold, sells, ?_⟩
        rw [paid, used]

/-- The Pump output is a word, so what reaches the DLMM pool fits one. -/
theorem input_fits {direction : SelectedDirection} {amountIn input : Nat} (fits : amountIn < 2 ^ 64)
    (reached : dlmmInput market amountIn direction = some input) : input < 2 ^ 64 := by
  cases direction with
  | pumpToMeteora =>
      obtain ⟨bought, buys, rfl⟩ := (pump_buy_input market amountIn input).mp reached
      obtain ⟨_, _, _, _, rfl⟩ := (pump_buy_ok market amountIn fits bought).mp buys
      exact lt_of_le_of_lt (curve_out_le_base _) market.pumpBaseReserve.toNat_lt
  | meteoraToPump => exact Option.some.inj reached ▸ fits

/-- A property of both directions, each on its own. -/
theorem every_direction {Holds : SelectedDirection → Prop} :
    (∀ direction, Holds direction) ↔ Holds .pumpToMeteora ∧ Holds .meteoraToPump := by
  constructor
  · exact fun all => ⟨all _, all _⟩
  · rintro ⟨forward, reverse⟩ (_ | _)
    · exact forward
    · exact reverse

/-- The choice pays enough and pays most among the routes quoted, the forward one
where both pay the same; there is no other choice. -/
theorem choose_direction_iff (outs : SelectedDirection → Option Nat) (requiredOut : Nat)
    (direction : SelectedDirection) :
    chooseDirection (outs .pumpToMeteora) (outs .meteoraToPump) requiredOut = .ok direction ↔
      ∃ out, outs direction = some out ∧ requiredOut ≤ out ∧
        ∀ rival rivalOut, outs rival = some rivalOut → rivalOut ≤ out ∧
          (rival = .pumpToMeteora → rivalOut = out → direction = .pumpToMeteora) := by
  unfold chooseDirection
  simp only [bind_ok_iff, require_ok, pure_ok, Except.ok.injEq, every_direction]
  have filtered (paid : Nat) : (some paid).filter (fun amountOut => decide (requiredOut ≤ amountOut)) =
      if requiredOut ≤ paid then some paid else none := by
    simp only [Option.filter_some, decide_eq_true_eq]
  -- Which routes are quoted and which of those pay enough decides the choice.
  cases forward : outs .pumpToMeteora with
  | none =>
      cases reverse : outs .meteoraToPump with
      | none => cases direction <;> simp [forward, reverse]
      | some paid =>
          by_cases covers : requiredOut ≤ paid <;> cases direction <;>
            simp [forward, reverse, filtered, covers]
  | some paid =>
      cases reverse : outs .meteoraToPump with
      | none =>
          by_cases covers : requiredOut ≤ paid <;> cases direction <;>
            simp [forward, reverse, filtered, covers]
      | some back =>
          by_cases covers : requiredOut ≤ paid <;> by_cases returns : requiredOut ≤ back <;>
            cases direction <;> simp [forward, reverse, filtered, covers, returns] <;> omega

/-- A fixed selection quotes the route it selects, which pays enough and most. -/
theorem select_direction_iff (amountIn minProfit : Nat) (direction : SelectedDirection) (used : List Int) :
    selectDirection market cashbackSellIsReady binArrayAccounts bitmapExtension amountIn minProfit
        timestamp = .ok (direction, used) ↔
      ∃ out, routeQuote binArrayAccounts bitmapExtension timestamp market cashbackSellIsReady amountIn
          direction = some (out, used) ∧
        amountIn + minProfit < 2 ^ 64 ∧ amountIn + minProfit ≤ out ∧
        ∀ rival rivalOut, (routeQuote binArrayAccounts bitmapExtension timestamp market cashbackSellIsReady
            amountIn rival).map Prod.fst = some rivalOut → rivalOut ≤ out ∧
          (rival = .pumpToMeteora → rivalOut = out → direction = .pumpToMeteora) := by
  have chosen := choose_direction_iff
    (fun way => (routeQuote binArrayAccounts bitmapExtension timestamp market cashbackSellIsReady amountIn
      way).map Prod.fst) (amountIn + minProfit) direction
  simp only [routeQuote, Option.map_map] at chosen
  unfold selectDirection
  simp only [bind_ok_iff, ok_or_eq_ok, checked_add_some]
  constructor
  · rintro ⟨_, ⟨rfl, fits⟩, picked, made, finished⟩
    obtain rfl : direction = picked := by
      cases picked <;>
        simp only [bind_ok_iff, pure_ok, Except.ok.injEq, Prod.mk.injEq] at finished <;>
        exact finished.choose_spec.2.1.symm
    obtain ⟨out, own, enough, best⟩ := chosen.mp made
    refine ⟨out, ?_, fits, enough, ?_⟩
    · cases direction with
      | pumpToMeteora =>
          simp only [bind_ok_iff, ok_or_eq_ok, pure_ok, Except.ok.injEq, Prod.mk.injEq] at finished
          obtain ⟨forward, found, _, rfl⟩ := finished
          rw [found] at own
          cases own
          exact Option.map_eq_some_iff.mpr ⟨forward, found, rfl⟩
      | meteoraToPump =>
          simp only [bind_ok_iff, ok_or_eq_ok, pure_ok, Except.ok.injEq, Prod.mk.injEq] at finished
          obtain ⟨reverse, found, _, rfl⟩ := finished
          rw [found] at own
          cases own
          exact Option.map_eq_some_iff.mpr ⟨reverse, found, rfl⟩
    · intro rival rivalOut rivalQuoted
      refine best rival rivalOut ?_
      cases rival <;> simpa only [routeQuote, Option.map_map] using rivalQuoted
  · rintro ⟨out, quoted, fits, enough, best⟩
    refine ⟨_, ⟨rfl, fits⟩, direction, chosen.mpr ⟨out, ?_, enough, fun rival rivalOut rivalQuoted =>
      best rival rivalOut ?_⟩, ?_⟩
    · have paid := congrArg (Option.map Prod.fst) quoted
      cases direction <;> simpa only [routeQuote, Option.map_map, Option.map_some] using paid
    · cases rival <;> simpa only [routeQuote, Option.map_map] using rivalQuoted
    · cases direction with
      | pumpToMeteora =>
          obtain ⟨forward, found, same⟩ := Option.map_eq_some_iff.mp quoted
          cases same
          simp only [bind_ok_iff, ok_or_eq_ok]
          exact ⟨forward, found, rfl⟩
      | meteoraToPump =>
          obtain ⟨reverse, found, same⟩ := Option.map_eq_some_iff.mp quoted
          cases same
          simp only [bind_ok_iff, ok_or_eq_ok]
          exact ⟨reverse, found, rfl⟩

/-- What reaches the pool passes no bin that swallows some of it or misreads it. -/
def UnitsKept (amountIn : Nat) (direction : SelectedDirection) : Prop :=
  ∀ input, dlmmInput market amountIn direction = some input →
    Clean (directionBins market.pair binArrayAccounts bitmapExtension
      (directionSwapForY market direction) timestamp) input

variable {binArrayAccounts bitmapExtension timestamp market cashbackSellIsReady}

/-- A curve and a clean input, as one evaluation shows them. -/
theorem kept_of_clean {amountIn input : Nat} {direction : SelectedDirection} {curve : DlmmCurve}
    (built : directionCurve binArrayAccounts bitmapExtension timestamp market direction amountIn =
      .ok curve)
    (reaches : dlmmInput market amountIn direction = some input)
    (clean : decide (Clean (directionBins market.pair binArrayAccounts bitmapExtension
      (directionSwapForY market direction) timestamp) input) = true) :
    DirectionBuilds binArrayAccounts bitmapExtension timestamp market direction amountIn ∧
      UnitsKept binArrayAccounts bitmapExtension timestamp market amountIn direction := by
  refine ⟨(direction_builds_iff _ _ _ _ _ _).mpr ⟨curve, built⟩, fun other reached => ?_⟩
  obtain rfl : input = other := Option.some.inj (reaches.symm.trans reached)
  exact of_decide_eq_true clean

/-- On a built curve a clean input is quoted as the direct traversal quotes it. -/
theorem clean_on_curve {pair : LbPairState} {swapForY : Bool} {input : Nat} {curve : DlmmCurve}
    (positive : 0 < input) (fits : input < 2 ^ 64)
    (built : buildCurve pair binArrayAccounts bitmapExtension swapForY timestamp input = .ok curve)
    (clean : Clean (directionBins pair binArrayAccounts bitmapExtension swapForY timestamp) input)
    (amountOut : Nat) (used : List Int) :
    curve.quote input = .ok ⟨amountOut, used⟩ ↔
      quoteDlmmFromAccounts input pair binArrayAccounts bitmapExtension swapForY timestamp =
        .ok ⟨amountOut, used⟩ := by
  obtain ⟨result, walked, _⟩ := build_curve_ok _ _ _ _ _ built
  rw [direction_bins_walked _ _ _ _ _ walked] at clean
  rw [curve_quote_ok _ _ _ _ _ _ curve result built walked input positive, direct_quote_ok _ _ _ _ _ _ fits,
    lookup_measured input 0 _ input (by omega),
    faithful_agrees (stages result.bins) input [] positive (clean_faithful result.bins clean)]
  constructor
  · exact fun found => ⟨result, walked, found⟩
  · rintro ⟨other, again, found⟩
    cases walked.symm.trans again
    exact found

/-- Where its curve is built and it keeps its units, a direction's minimum quote is its
fixed route. -/
theorem kept_route {amountIn out : Nat} {direction : SelectedDirection} {used : List Int}
    (fits : amountIn < 2 ^ 64) (positive : 0 < amountIn) (paying : 0 < out)
    (builds : DirectionBuilds binArrayAccounts bitmapExtension timestamp market direction amountIn)
    (kept : UnitsKept binArrayAccounts bitmapExtension timestamp market amountIn direction) :
    MinimumQuote binArrayAccounts bitmapExtension timestamp market cashbackSellIsReady direction amountIn
        ⟨out, used⟩ ↔
      routeQuote binArrayAccounts bitmapExtension timestamp market cashbackSellIsReady amountIn direction =
        some (out, used) := by
  obtain ⟨curve, built⟩ := (direction_builds_iff _ _ _ _ _ _).mp builds
  rw [minimum_quote_some, route_quote_some]
  refine and_congr_right fun _ => exists_congr fun input => ?_
  -- With nothing arriving at the pair the route would pay nothing.
  have agrees (reached : dlmmInput market amountIn direction = some input) (reaches : 0 < input)
      (amountOut : Nat) := by
    have built := built
    unfold directionCurve at built
    rw [input_limit market reached] at built
    exact clean_on_curve reaches (input_fits market fits reached) built (kept input reached) amountOut used
  have same : directionCurve binArrayAccounts bitmapExtension timestamp market direction amountIn = .ok curve :=
    built
  constructor
  · rintro ⟨⟨dlmmOut, _⟩, reached, ⟨other, again, found⟩, paid, rfl⟩
    cases same.symm.trans again
    have reaches : 0 < input := by
      rcases Nat.eq_zero_or_pos input with rfl | more
      · cases found
      · exact more
    exact ⟨⟨dlmmOut, _⟩, reached, (agrees reached reaches dlmmOut).mp found, paid, rfl⟩
  · rintro ⟨⟨dlmmOut, _⟩, reached, direct, paid, rfl⟩
    have reaches : 0 < input := by
      rcases Nat.eq_zero_or_pos input with rfl | more
      · cases direction with
        | pumpToMeteora =>
            obtain ⟨_, _, ran, _⟩ := (direct_quote_ok _ _ _ _ _ _ (by decide) _).mp direct
            rw [replay_finished, Option.some.injEq, Prod.mk.injEq] at ran
            have same : dlmmOut = out := Option.some.inj paid
            have nothing : 0 = dlmmOut := ran.1
            omega
        | meteoraToPump => cases reached; exact positive
      · exact more
    exact ⟨⟨dlmmOut, _⟩, reached, ⟨curve, same, (agrees reached reaches dlmmOut).mpr direct⟩, paid, rfl⟩

end Routes

section Parity
variable {binArrayAccounts : List AccountInfo} {bitmapExtension : Option Bytes}
  {timestamp : Int64} {market : MarketState} {cashbackSellIsReady : Bool}

/-- A rival that the selection prefers: more WSOL, or as much in the forward direction. -/
def Outbids (rival : SelectedDirection) (rivalOut out : Nat) : Prop :=
  out < rivalOut ∨ rival = .pumpToMeteora ∧ rivalOut = out

/-- Over one amount the dynamic selection chooses a direction exactly when both
probes have an outcome, its minimum quote earns enough and the other's does not outbid it. -/
theorem single_selection_iff {amountIn minProfit out : Nat} {direction : SelectedDirection}
    {used : List Int} (profitable : 0 < minProfit) (enough : amountIn + minProfit ≤ out) :
    (∃ selection, selectDynamic binArrayAccounts bitmapExtension timestamp market cashbackSellIsReady
        amountIn amountIn minProfit = .ok selection ∧ selection.direction = direction ∧
      selection.choice.amountIn = amountIn ∧ selection.choice.amountOut = out ∧
      selection.choice.usedIndices = used) ↔
      (∀ asked, directionReady cashbackSellIsReady asked = true →
        DirectionBuilds binArrayAccounts bitmapExtension timestamp market asked amountIn) ∧
      MinimumQuote binArrayAccounts bitmapExtension timestamp market cashbackSellIsReady direction amountIn
        { amountOut := out, usedIndices := used } ∧
      ∀ rival, MinimumQuote binArrayAccounts bitmapExtension timestamp market cashbackSellIsReady
          (opposite direction) amountIn rival →
        ¬ Outbids (opposite direction) rival.amountOut out := by
  let bounds : DynamicSearchBounds := { minAmount := amountIn, maxAmount := amountIn, minProfit }
  have alone (asked : SelectedDirection) :
      directionAlone binArrayAccounts bitmapExtension timestamp market cashbackSellIsReady asked bounds =
        probeAlone binArrayAccounts bitmapExtension timestamp market cashbackSellIsReady asked bounds :=
    narrow_outcome bounds asked
  have offer {asked : SelectedDirection} {search : DirectionSearch} {quote : CurveQuote}
      (complete : MinimumQuote binArrayAccounts bitmapExtension timestamp market cashbackSellIsReady asked
        amountIn quote)
      (probed : probeAlone binArrayAccounts bitmapExtension timestamp market cashbackSellIsReady asked
        bounds = .ok search) (earned : minProfit ≤ quote.amountOut - amountIn) :
      search.best = some { amountIn, amountOut := quote.amountOut
                           profit := quote.amountOut - amountIn, usedIndices := quote.usedIndices } :=
    (probe_complete _ _ _ _ _ probed complete).2.2.trans (if_pos earned)
  -- Over a single amount a direction alone is its probe, which offers the minimum quote and nothing else.
  constructor
  · rintro ⟨selection, selected, rfl, asked, paid, arrived⟩
    obtain ⟨outcome, ran, chosen⟩ := (select_dynamic_iff bounds selection).mp selected
    have probed (asked : SelectedDirection) := (alone asked).symm.trans (ran asked)
    obtain ⟨best, unbeaten⟩ := selection_best chosen
    obtain ⟨quote, complete, spread, earned⟩ := probe_choice bounds (probed _) best
    have offered := offer complete (probed _) (spread ▸ earned)
    rw [best, Option.some.injEq] at offered
    rw [offered] at paid arrived
    refine ⟨fun asked => (probe_ok_iff _ _ _ _ _ asked bounds).mp ⟨_, probed asked⟩, ?_, ?_⟩
    · rw [← paid, ← arrived]
      exact complete
    · intro rival rivalComplete outbid
      have rivalEarned : minProfit ≤ rival.amountOut - amountIn := by
        unfold Outbids at outbid
        omega
      refine unbeaten _ _ (offer rivalComplete (probed _) rivalEarned) ?_
      rw [offered]
      unfold Outranks
      have paid : quote.amountOut = out := paid
      rcases outbid with more | ⟨rivalForward, even⟩
      · exact .inl (by dsimp only; omega)
      · refine .inr ⟨by rw [even, paid], .inr ⟨rfl, rivalForward, ?_⟩⟩
        cases atDirection : selection.direction with
        | pumpToMeteora => rw [atDirection] at rivalForward; cases rivalForward
        | meteoraToPump => rfl
  · rintro ⟨builds, quoted, unbeaten⟩
    have probes (asked : SelectedDirection) := (probe_ok_iff _ _ _ _ _ asked bounds).mpr (builds asked)
    choose outcome probed using probes
    have best := offer quoted (probed direction) (by dsimp only; omega)
    obtain ⟨selection, selected, _⟩ := selection_at_least outcome direction _ best
    obtain ⟨wonBest, wonUnbeaten⟩ := selection_best selected
    have ran : selectDynamic binArrayAccounts bitmapExtension timestamp market cashbackSellIsReady
        amountIn amountIn minProfit = .ok selection :=
      (select_dynamic_iff bounds selection).mpr
        ⟨outcome, fun asked => (alone asked).trans (probed asked), selected⟩
    rcases opposite_cases direction selection.direction with same | other
    · rw [same, best, Option.some.injEq] at wonBest
      exact ⟨selection, ran, same, by rw [← wonBest], by rw [← wonBest], by rw [← wonBest]⟩
    · rw [other] at wonBest wonUnbeaten
      obtain ⟨rival, complete, spread, earned⟩ := probe_choice bounds (probed _) wonBest
      have earned : minProfit ≤ rival.amountOut - amountIn := spread ▸ earned
      have lost := unbeaten rival complete
      have held := wonUnbeaten direction _ best
      rw [offer complete (probed _) earned, Option.some.injEq] at wonBest
      rw [← wonBest] at held
      unfold Outbids at lost
      unfold Outranks at held
      cases direction <;> simp [opposite] at lost held <;> omega

/-- The dynamic selection over one amount selects what the fixed one selected. -/
def SelectedAlike (binArrayAccounts : List AccountInfo) (bitmapExtension : Option Bytes) (timestamp : Int64)
    (market : MarketState) (cashbackSellIsReady : Bool) (amountIn minProfit : Nat)
    (direction : SelectedDirection) (out : Nat) (used : List Int) : Prop :=
  ∃ selection, selectDynamic binArrayAccounts bitmapExtension timestamp market cashbackSellIsReady
      amountIn amountIn minProfit = .ok selection ∧ selection.direction = direction ∧
    selection.choice.amountIn = amountIn ∧ selection.choice.amountOut = out ∧
    selection.choice.usedIndices = used

/-- What the fixed selection selects, the dynamic one selects over that one amount only
if every direction it asks has a probe curve, and then whenever each of them keeps
every unit of the amount. -/
theorem fixed_parity (amountIn minProfit : UInt64) (positive : 1 ≤ amountIn) (profitable : 1 ≤ minProfit)
    (direction : SelectedDirection) (used : List Int) (out : Nat)
    (selected : selectDirection market cashbackSellIsReady binArrayAccounts bitmapExtension
      amountIn.toNat minProfit.toNat timestamp = .ok (direction, used))
    (quoted : routeQuote binArrayAccounts bitmapExtension timestamp market cashbackSellIsReady
      amountIn.toNat direction = some (out, used)) :
    (SelectedAlike binArrayAccounts bitmapExtension timestamp market cashbackSellIsReady amountIn.toNat
        minProfit.toNat direction out used →
      ∀ asked, directionReady cashbackSellIsReady asked = true →
        DirectionBuilds binArrayAccounts bitmapExtension timestamp market asked amountIn.toNat) ∧
    ((∀ asked, directionReady cashbackSellIsReady asked = true →
        DirectionBuilds binArrayAccounts bitmapExtension timestamp market asked amountIn.toNat ∧
          UnitsKept binArrayAccounts bitmapExtension timestamp market amountIn.toNat asked) →
      SelectedAlike binArrayAccounts bitmapExtension timestamp market cashbackSellIsReady amountIn.toNat
        minProfit.toNat direction out used) := by
  have spent : 0 < amountIn.toNat := UInt64.le_iff_toNat_le.mp positive
  have profit : 0 < minProfit.toNat := UInt64.le_iff_toNat_le.mp profitable
  obtain ⟨_, again, _, enough, best⟩ := (select_direction_iff _ _ _ _ _ _ _ _ _).mp selected
  cases quoted.symm.trans again
  have ready := ((route_quote_some _ _ _ _ _ _ _ _ _).mp quoted).1
  unfold SelectedAlike
  rw [single_selection_iff profit enough]
  refine ⟨And.left, fun kept => ⟨fun asked allowed => (kept asked allowed).1, ?_, ?_⟩⟩
  · obtain ⟨builds, units⟩ := kept direction ready
    exact (kept_route amountIn.toNat_lt spent (by omega) builds units).mpr quoted
  · rintro ⟨rivalOut, rivalUsed⟩ complete outbid
    have paying : 0 < rivalOut := by
      unfold Outbids at outbid
      dsimp only at outbid
      omega
    obtain ⟨builds, units⟩ := kept (opposite direction) complete.1
    have rivalQuoted := (kept_route amountIn.toNat_lt spent paying builds units).mp complete
    obtain ⟨less, even⟩ := best (opposite direction) rivalOut (by rw [rivalQuoted]; rfl)
    rcases outbid with more | ⟨rivalForward, same⟩
    · exact absurd less (Nat.not_le.mpr more)
    · have taken := even rivalForward same
      rw [taken] at rivalForward
      cases rivalForward

end Parity

section Unreadable

/-- The fixed selection passes over the direction that fails, the dynamic one fails with it. -/
theorem fixed_choice_lost :
    selectDirection profitableMarket true [unreadableArray] none 100 1 0 = .ok (.pumpToMeteora, [0]) ∧
      ¬ ∃ selection, selectDynamic [unreadableArray] none 0 profitableMarket true 100 100 1 =
        .ok selection := by
  have picks : (selectDirection profitableMarket true [unreadableArray] none 100 1 0).toOption =
      some (.pumpToMeteora, [0]) := by decide +kernel
  have fails : (selectDynamic [unreadableArray] none 0 profitableMarket true 100 100 1).toOption.isSome =
      false := by decide +kernel
  refine ⟨(to_option_some _ _).mp picks, ?_⟩
  rintro ⟨selection, selected⟩
  rw [selected] at fails
  cases fails

/-- Both directions of the profitable market have a curve and keep every unit. -/
theorem profitable_kept (asked : SelectedDirection) :
    DirectionBuilds [profitableArray] none 0 profitableMarket asked 100 ∧
      UnitsKept [profitableArray] none 0 profitableMarket 100 asked := by
  obtain ⟨_, _, _, both⟩ := profitable_selections
  simp only [List.all_cons, List.all_nil, Bool.and_true, Bool.and_eq_true] at both
  obtain ⟨⟨_, forward⟩, _, reverse⟩ := both
  obtain ⟨curve, built⟩ := profitable_curves asked 100 (by decide)
  cases asked with
  | pumpToMeteora =>
      have bought : dlmmInput profitableMarket 100 .pumpToMeteora = some 95 := by decide +kernel
      exact kept_of_clean built bought forward
  | meteoraToPump => exact kept_of_clean built rfl reverse

theorem fixed_parity_profitable :
    SelectedAlike [profitableArray] none 0 profitableMarket true 100 1 .pumpToMeteora 189 [0] := by
  have routed : routeQuote [profitableArray] none 0 profitableMarket true 100 .pumpToMeteora =
      some (189, [0]) := by decide +kernel
  exact (fixed_parity 100 1 (by decide) (by decide) .pumpToMeteora [0] 189
    ((to_option_some _ _).mp profitable_selections.1) routed).2 fun asked _ => profitable_kept asked

end Unreadable

end ArbExecutor.FixedParity
