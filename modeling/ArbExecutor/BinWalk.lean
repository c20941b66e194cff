import ArbExecutor.BinPricing
import ArbExecutor.StagedFill
import ArbExecutor.DynamicAmount

/-!
The bins a capped traversal meets, as one list. Which bins those are depends on
the pair, the accounts and the direction, never on the amounts: the raw account
traversal replays this list and the curve builder measures it. Both facts are
proved here, so that everything about the two quotes is about stages.
-/

namespace ArbExecutor.BinWalk

open Checked QuoteMath QuoteAccounts AccountValidation BestDirection DynamicAmount BinPricing StagedFill

section Stages

theorem clipped {input : Nat} (fits : input < 2 ^ 64) : min input (wordMax 64) = input := by
  unfold wordMax
  omega

theorem available_of_reward {pricing : Pricing} (usable : pricing.capacity.amountOut ≠ 0) :
    pricing.available ≠ 0 := by
  intro empty
  apply usable
  unfold Pricing.capacity
  rw [fill_empty pricing empty]

theorem interior_at_capacity {pricing : Pricing} (positive : 0 < pricing.capacity.amountIn)
    (usable : pricing.capacity.amountOut ≠ 0) :
    dlmmBinOutputWithinCapacity pricing.capacity.amountIn pricing.capacity.amountIn
      pricing.capacity.amountOut pricing.price pricing.swapForY pricing.feeOnInput pricing.feeRate =
      .ok pricing.capacity.amountOut := by
  unfold dlmmBinOutputWithinCapacity
  rw [if_neg (by omega), if_pos (Eq.refl pricing.capacity.amountIn)]

theorem interior_below {pricing : Pricing} {input : Nat} (positive : 0 < input)
    (usable : pricing.capacity.amountOut ≠ 0) (below : input < pricing.capacity.amountIn) :
    (dlmmBinOutputWithinCapacity input pricing.capacity.amountIn pricing.capacity.amountOut
        pricing.price pricing.swapForY pricing.feeOnInput pricing.feeRate =
      .ok (pricing.fill input).amountOut) ∨
    pricing.Clamped input ∧
    dlmmBinOutputWithinCapacity input pricing.capacity.amountIn pricing.capacity.amountOut
        pricing.price pricing.swapForY pricing.feeOnInput pricing.feeRate =
      amountOutForIn pricing.fullNeed pricing.price pricing.swapForY := by
  have bounded := capacity_bounded pricing
  have fits : input < 2 ^ 64 := by unfold wordMax at bounded; omega
  have some := available_of_reward usable
  by_cases clamped : pricing.Clamped input
  · refine .inr ⟨clamped, ?_⟩
    unfold dlmmBinOutputWithinCapacity
    rw [if_neg (by omega), if_neg (by omega), if_pos clamped.1, excluded_fee_ok pricing.capped fits,
      ok_bind]
    change amountOutForIn (net pricing.feeRate input) _ _ = _
    rw [clamped.2]
  · exact .inl (output_within_capacity pricing positive below some usable fits clamped)

/-- A full net need met one unit early is paid at least what the bin has. -/
theorem clamped_above {pricing : Pricing} {input value : Nat} (clamped : pricing.Clamped input)
    (some : pricing.available ≠ 0)
    (paid : amountOutForIn pricing.fullNeed pricing.price pricing.swapForY = .ok value) :
    (pricing.fill input).amountOut ≤ value := by
  have positive := (pricing.payable some).1
  have enough := (need_le_iff pricing.swapForY positive pricing.available pricing.fullNeed).mp le_rfl
  rw [amount_out_given paid]
  rw [fill_absorbed pricing some clamped.1 clamped.2.le, clamped.2, payout_full]
  exact enough

theorem clamped_refused {pricing : Pricing} {input : Nat} {error : QuoteError}
    (clamped : pricing.Clamped input) (some : pricing.available ≠ 0)
    (below : input < pricing.capacity.amountIn)
    (failed : amountOutForIn pricing.fullNeed pricing.price pricing.swapForY = .error error) :
    0 < (pricing.fill (input - 1)).amountOut := by
  obtain ⟨_, last⟩ := clamped_whole_word pricing clamped some below
  have onInput := clamped.1
  have large : 2 ≤ pricing.fullNeed := by
    rw [← clamped.2, le_net_iff pricing.capped]
    have rate := pricing.capped
    unfold wordMax at last
    unfold maxFeeRate at rate
    unfold feePrecision
    have share : input * 1 ≤ input * (1000000000 - pricing.feeRate) :=
      Nat.mul_le_mul_left input (by omega)
    omega
  have paid := amount_out_error (pricing.payable some).1 large failed
  have step := net_step pricing.capped (input - 1)
  have grown := net_mono pricing.capped (show input - 1 ≤ input by omega)
  have back : input - 1 + 1 = input := by unfold wordMax at last; omega
  rw [back, clamped.2] at step
  rw [clamped.2] at grown
  have rest : give pricing.swapForY pricing.price (pricing.fullNeed - 1) ≤
      give pricing.swapForY pricing.price (net pricing.feeRate (input - 1)) :=
    give_mono _ _ (by omega)
  rw [fill_absorbed pricing some onInput grown]
  unfold Pricing.payout
  split
  · exact Nat.pos_of_ne_zero some
  · exact lt_of_lt_of_le paid rest

/-- Within its capacity a bin pays no more than its interpolation reads. -/
theorem interior_overstates {pricing : Pricing} {input value : Nat} (usable : pricing.capacity.amountOut ≠ 0)
    (positive : 0 < input) (within : input ≤ pricing.capacity.amountIn)
    (read : dlmmBinOutputWithinCapacity input pricing.capacity.amountIn pricing.capacity.amountOut
      pricing.price pricing.swapForY pricing.feeOnInput pricing.feeRate = .ok value) :
    (pricing.fill input).amountOut ≤ value := by
  rcases Nat.lt_or_eq_of_le within with below | rfl
  · rcases interior_below positive usable below with exact | ⟨clamped, interpolated⟩
    · rw [exact] at read
      cases read
      exact le_rfl
    · rw [interpolated] at read
      exact clamped_above clamped (available_of_reward usable) read
  · rw [interior_at_capacity positive usable] at read
    cases read
    rw [fill_at_capacity]

/-- Where the interpolation fails, one unit less already pays. -/
theorem interior_fails {pricing : Pricing} {input : Nat} {error : QuoteError}
    (usable : pricing.capacity.amountOut ≠ 0) (positive : 0 < input)
    (within : input ≤ pricing.capacity.amountIn)
    (failed : dlmmBinOutputWithinCapacity input pricing.capacity.amountIn pricing.capacity.amountOut
      pricing.price pricing.swapForY pricing.feeOnInput pricing.feeRate = .error error) :
    0 < (pricing.fill (input - 1)).amountOut := by
  rcases Nat.lt_or_eq_of_le within with below | rfl
  · rcases interior_below positive usable below with exact | ⟨clamped, interpolated⟩
    · rw [exact] at failed
      cases failed
    · rw [interpolated] at failed
      exact clamped_refused clamped (available_of_reward usable) below failed
  · rw [interior_at_capacity positive usable] at failed
    cases failed

/-- A priced bin as a stage; inputs beyond a word are clipped to it. -/
def stage (pricing : Pricing) : Stage where
  capacity := pricing.capacity.amountIn
  reward := pricing.capacity.amountOut
  take := fun input => (pricing.fill (min input (wordMax 64))).amountIn
  pay := fun input => (pricing.fill (min input (wordMax 64))).amountOut
  -- The compact formula of the curve, which need not agree with the fill that `pay` stands for.
  interior := fun input => (dlmmBinOutputWithinCapacity input pricing.capacity.amountIn
    pricing.capacity.amountOut pricing.price pricing.swapForY pricing.feeOnInput
    pricing.feeRate).toOption
  take_empty := by
    intro input zero
    by_cases empty : pricing.available = 0
    · rw [fill_empty pricing empty]
    · have positive := capacity_positive pricing empty
      omega
  take_within := by
    intro input within
    have bounded := capacity_bounded pricing
    rw [min_eq_left (within.trans bounded)]
    exact fill_within pricing within
  take_beyond := by
    intro input beyond
    by_cases fits : input < 2 ^ 64
    · rw [clipped fits]
      exact (fill_beyond pricing fits beyond).2
    · rw [min_eq_right (by unfold wordMax; omega)]
      exact .inl rfl
  pay_zero := by rw [Nat.zero_min]; exact fill_zero pricing
  pay_mono := fun left right ordered => fill_output_mono pricing (min_le_min_right _ ordered)
  pay_beyond := by
    intro input beyond
    have bounded := capacity_bounded pricing
    have whole := fill_output_mono pricing (min_le_right input (wordMax 64))
    have least := fill_output_mono pricing (le_min beyond bounded)
    rw [fill_at_capacity] at least
    exact le_antisymm whole least
  interior_full := by
    intro some usable
    rw [interior_at_capacity (Nat.pos_of_ne_zero some) usable]
    rfl
  interior_above := by
    intro input value usable positive within read
    have bounded := capacity_bounded pricing
    rw [min_eq_left (within.trans bounded)]
    exact interior_overstates usable positive within ((to_option_some _ _).mp read)
  interior_refuses := by
    intro input usable positive within read
    have bounded := capacity_bounded pricing
    rw [min_eq_left (by omega)]
    cases outcome : dlmmBinOutputWithinCapacity input pricing.capacity.amountIn
        pricing.capacity.amountOut pricing.price pricing.swapForY pricing.feeOnInput pricing.feeRate with
    | error error => exact interior_fails usable positive within outcome
    | ok value => rw [outcome] at read; cases read

end Stages

structure PricedBin where
  pricing : Pricing
  usedIndices : List Int

/-- The bins met before the traversal runs out of visits, accounts or arrays;
`readable` is false when it ends at data that cannot be read instead. -/
structure Walk where
  bins : List PricedBin
  readable : Bool

section Walk
variable (pair : LbPairState) (arrays : List AccountInfo) (bitmapExtension : Option Bytes)
  (swapForY feeOnInput supportsLimitOrders : Bool) (reference : DlmmVariableParameters)

def parametersAt (binId : Int) : DlmmFeeParameters :=
  dlmmFeeParameters pair (updateVolatilityAccumulator binId reference pair.staticParameters)

def readBin (account : AccountInfo) (binId : Int) : Option Pricing :=
  (parseBinForId account.data binId (binArrayIndex binId)).toOption.bind fun bin =>
    pricingOf (quotedBin supportsLimitOrders bin) swapForY feeOnInput (parametersAt pair reference binId)

def walk : Nat → Int → List Int → Walk
  | 0, _, _ => { bins := [], readable := true }
  | visits + 1, binId, used =>
      match arrayInitialized pair bitmapExtension (binArrayIndex binId) with
      | .error _ => { bins := [], readable := false }
      | .ok false => walk visits (nextBin binId swapForY) used
      | .ok true =>
        match findBinArray arrays (binArrayIndex binId) with
        | none => { bins := [], readable := true }
        | some account =>
          match enterArray used (binArrayIndex binId) with
          | none => { bins := [], readable := true }
          | some used =>
            match readBin pair swapForY feeOnInput supportsLimitOrders reference account binId with
            | none => { bins := [], readable := false }
            | some pricing =>
                let rest := walk visits (nextBin binId swapForY) used
                { rest with bins := { pricing, usedIndices := used } :: rest.bins }

def stages (bins : List PricedBin) : List (Stage × List Int) :=
  bins.map fun bin => (stage bin.pricing, bin.usedIndices)

/-- A traversal that ends with nothing left, and what it ends with. -/
def Finishes (outcome : Except ArbError AccountTraversal) (amountOut : Nat) (used : List Int) : Prop :=
  ∃ final, outcome = .ok final ∧ final.remaining = 0 ∧ final.amountOut = amountOut ∧
    final.usedIndices = used

theorem finishes_ok (state : AccountTraversal) (empty : state.remaining = 0) (amountOut : Nat)
    (used : List Int) :
    Finishes (.ok state) amountOut used ↔ amountOut = state.amountOut ∧ used = state.usedIndices := by
  constructor
  · rintro ⟨final, same, _, paid, arrived⟩
    cases same
    exact ⟨paid.symm, arrived.symm⟩
  · rintro ⟨rfl, rfl⟩
    exact ⟨state, rfl, empty, rfl, rfl⟩

theorem not_finishes_error (error : ArbError) (amountOut : Nat) (used : List Int) :
    ¬ Finishes (.error error) amountOut used := by
  rintro ⟨_, failed, _⟩
  cases failed

theorem not_finishes_left (state : AccountTraversal) (left : state.remaining ≠ 0) (amountOut : Nat)
    (used : List Int) : ¬ Finishes (.ok state) amountOut used := by
  rintro ⟨final, same, finished, _⟩
  cases same
  exact left finished

theorem quote_bins_finished (visits : Nat) (state : AccountTraversal) (empty : state.remaining = 0) :
    quoteAccountBins pair arrays bitmapExtension swapForY feeOnInput supportsLimitOrders visits state =
      .ok state := by
  cases visits with
  | zero => rfl
  | succ visits => unfold quoteAccountBins; rw [if_pos empty]

theorem fill_fits_word {pricing : Pricing} {input : Nat} (fits : input < 2 ^ 64) :
    (stage pricing).take input = (pricing.fill input).amountIn ∧
      (stage pricing).pay input = (pricing.fill input).amountOut := by
  change (pricing.fill (min input _)).amountIn = _ ∧ (pricing.fill (min input _)).amountOut = _
  rw [clipped fits]
  exact ⟨rfl, rfl⟩

theorem quote_bins_replay_finished (visits : Nat) (state : AccountTraversal)
    (bins : List (Stage × List Int)) (empty : state.remaining = 0)
    (small : state.amountOut < 2 ^ 64) (amountOut : Nat) (used : List Int) :
    Finishes (quoteAccountBins pair arrays bitmapExtension swapForY feeOnInput supportsLimitOrders
        visits state) amountOut used ↔
      state.amountOut ≤ amountOut ∧ amountOut < 2 ^ 64 ∧
      replay bins state.remaining state.usedIndices = some (amountOut - state.amountOut, used) := by
  rw [quote_bins_finished _ _ _ _ _ _ _ _ empty, finishes_ok state empty, empty, replay_finished,
    Option.some.injEq, Prod.mk.injEq]
  constructor
  · rintro ⟨rfl, rfl⟩
    exact ⟨le_rfl, small, (Nat.sub_self _).symm, rfl⟩
  · rintro ⟨above, _, same, rfl⟩
    exact ⟨by omega, rfl⟩

/-- Moving a stage's pay between the total so far and the rest of a replay. -/
theorem paid_before (base paid total : Nat) (used : List Int) (rest : Option (Nat × List Int)) :
    (base + paid ≤ total ∧ total < 2 ^ 64 ∧ rest = some (total - (base + paid), used)) ↔
      base ≤ total ∧ total < 2 ^ 64 ∧
        (rest.map fun result => (paid + result.1, result.2)) = some (total - base, used) := by
  constructor
  · rintro ⟨above, small, rfl⟩
    refine ⟨by omega, small, ?_⟩
    rw [Option.map_some, show paid + (total - (base + paid)) = total - base by omega]
  · rintro ⟨above, small, found⟩
    obtain ⟨inner, rfl, same⟩ := Option.map_eq_some_iff.mp found
    obtain ⟨value, label⟩ := inner
    rw [Prod.mk.injEq] at same
    obtain ⟨sum, rfl⟩ := same
    exact ⟨by omega, small, by rw [show value = total - (base + paid) by omega]⟩

/-- A stage that pays out of the word ends the replay out of it as well. -/
theorem paid_beyond (base paid total : Nat) (used : List Int) (rest : Option (Nat × List Int))
    (overflow : ¬ base + paid < 2 ^ 64) :
    ¬ (base ≤ total ∧ total < 2 ^ 64 ∧
      (rest.map fun result => (paid + result.1, result.2)) = some (total - base, used)) := by
  rintro ⟨above, bounded, found⟩
  obtain ⟨inner, _, same⟩ := Option.map_eq_some_iff.mp found
  have sum : paid + inner.1 = total - base := congrArg Prod.fst same
  omega

/-- The raw account traversal replays the walk. The induction is on the visits
left; the volatility state is pinned by `referenced` to the one the walk uses. -/
theorem quote_bins_replay (visits : Nat) (state : AccountTraversal)
    (referenced : ∀ binId, updateVolatilityAccumulator binId state.variableParameters
      pair.staticParameters = updateVolatilityAccumulator binId reference pair.staticParameters)
    (fits : state.remaining < 2 ^ 64) (small : state.amountOut < 2 ^ 64) (amountOut : Nat)
    (used : List Int) :
    Finishes (quoteAccountBins pair arrays bitmapExtension swapForY feeOnInput supportsLimitOrders
        visits state) amountOut used ↔
      state.amountOut ≤ amountOut ∧ amountOut < 2 ^ 64 ∧
      replay (stages (walk pair arrays bitmapExtension swapForY feeOnInput supportsLimitOrders
        reference visits state.activeId state.usedIndices).bins) state.remaining state.usedIndices =
        some (amountOut - state.amountOut, used) := by
  induction visits generalizing state with
  | zero =>
      by_cases empty : state.remaining = 0
      · exact quote_bins_replay_finished _ _ _ _ _ _ _ _ _ empty small _ _
      · have stuck : replay (stages []) state.remaining state.usedIndices = none := if_neg empty
        simp only [quoteAccountBins, walk, stuck]
        refine iff_of_false (not_finishes_left state empty _ _) ?_
        rintro ⟨_, _, found⟩
        cases found
  | succ visits ih =>
      by_cases empty : state.remaining = 0
      · exact quote_bins_replay_finished _ _ _ _ _ _ _ _ _ empty small _ _
      have failing (error : ArbError) (right : Prop) (never : ¬ right) :
          Finishes (.error error) amountOut used ↔ right :=
        iff_of_false (not_finishes_error _ _ _) never
      have unreached : ¬ (state.amountOut ≤ amountOut ∧ amountOut < 2 ^ 64 ∧
          replay (stages []) state.remaining state.usedIndices =
            some (amountOut - state.amountOut, used)) := by
        rintro ⟨_, _, found⟩
        cases (if_neg empty : replay (stages []) _ _ = none).symm.trans found
      -- Where the walk ends, the traversal fails with input left over.
      unfold quoteAccountBins walk
      rw [if_neg empty]
      dsimp only
      cases initialized : arrayInitialized pair bitmapExtension (binArrayIndex state.activeId) with
      | error error => exact failing _ _ unreached
      | ok present =>
      cases present with
      | false =>
          simp only [incomplete, map_error_ok, ok_bind, Bool.not_false, if_true]
          exact ih { state with activeId := nextBin state.activeId swapForY } referenced fits small
      | true =>
      simp only [incomplete, map_error_ok, ok_bind, Bool.not_true, Bool.false_eq_true, if_false]
      cases located : findBinArray arrays (binArrayIndex state.activeId) with
      | none => exact failing _ _ unreached
      | some account =>
      cases entered : enterArray state.usedIndices (binArrayIndex state.activeId) with
      | none => exact failing _ _ unreached
      | some nextUsed =>
      simp only [ok_or_some, ok_bind, readBin]
      cases parsed : parseBinForId account.data state.activeId (binArrayIndex state.activeId) with
      | error error => exact failing _ _ unreached
      | ok bin =>
      have positive : 0 < state.remaining := by omega
      rw [referenced state.activeId]
      simp only [map_error_ok, ok_bind, Except.toOption, Option.bind_some]
      cases priced : pricingOf (quotedBin supportsLimitOrders bin) swapForY feeOnInput
          (parametersAt pair reference state.activeId) with
      | none =>
          obtain ⟨error, _, failed⟩ := partial_unpriced _ priced positive fits
          unfold parametersAt at failed
          rw [failed]
          exact failing _ _ unreached
      | some pricing =>
          have filled := partial_priced priced positive fits
          have taken := fill_input_le pricing state.remaining
          unfold parametersAt at filled
          rw [filled, map_error_ok, ok_bind, checked_sub_fits taken, ok_or_some, ok_bind]
          simp only [stages, List.map_cons]
          rw [replay_step _ _ _ _ empty, (fill_fits_word fits).1, (fill_fits_word fits).2]
          by_cases overflow : state.amountOut + (pricing.fill state.remaining).amountOut < 2 ^ 64
          · rw [checked_add_fits overflow, ok_or_some, ok_bind]
            have next := ih
              { variableParameters := updateVolatilityAccumulator state.activeId reference
                  pair.staticParameters
                remaining := state.remaining - (pricing.fill state.remaining).amountIn
                amountOut := state.amountOut + (pricing.fill state.remaining).amountOut
                usedIndices := nextUsed
                activeId :=
                  if state.remaining - (pricing.fill state.remaining).amountIn ≠ 0 then
                    nextBin state.activeId swapForY
                  else state.activeId }
              (fun binId => rfl) (lt_of_le_of_lt (Nat.sub_le _ _) fits) overflow
            refine next.trans (Iff.trans ?_ (paid_before _ _ _ _ _))
            by_cases finished : state.remaining - (pricing.fill state.remaining).amountIn = 0
            · simp only [finished, replay_finished]
            · simp only [if_pos finished, stages]
          · have refused : checkedAdd 64 state.amountOut (pricing.fill state.remaining).amountOut = none :=
              if_neg overflow
            rw [refused]
            exact failing _ _ (paid_beyond _ _ _ _ _ overflow)

end Walk

section Direction
variable (pair : LbPairState) (arrays : List AccountInfo) (bitmapExtension : Option Bytes)
  (swapForY : Bool) (timestamp : Int64)

/-- The walk of one direction at one time, from the active bin. -/
def directionWalk : Except QuoteError Walk := do
  let feeOnInput ← feeOnInput pair swapForY
  let supportsLimitOrders ← supportsLimitOrders pair
  pure (walk pair arrays bitmapExtension swapForY feeOnInput supportsLimitOrders
    (updateReference pair.activeId pair.variableParameters pair.staticParameters timestamp)
    maxQuoteVisitedBinsPerDirection pair.activeId.toInt [])

theorem direction_walk_ok (result : Walk) :
    directionWalk pair arrays bitmapExtension swapForY timestamp = .ok result ↔
      ∃ onInput supports, feeOnInput pair swapForY = .ok onInput ∧
        supportsLimitOrders pair = .ok supports ∧
        result = walk pair arrays bitmapExtension swapForY onInput supports
          (updateReference pair.activeId pair.variableParameters pair.staticParameters timestamp)
          maxQuoteVisitedBinsPerDirection pair.activeId.toInt [] := by
  unfold directionWalk
  simp only [bind_ok_iff, pure_ok, Except.ok.injEq]
  constructor
  · rintro ⟨onInput, first, supports, second, rfl⟩
    exact ⟨onInput, supports, first, second, rfl⟩
  · rintro ⟨onInput, supports, first, second, rfl⟩
    exact ⟨onInput, first, supports, second, rfl⟩

theorem incomplete_ok {Result : Type} (outcome : Except QuoteError Result) (value : Result) :
    incomplete outcome = .ok value ↔ outcome = .ok value := map_error_ok_iff _ _ _

/-- The direct quote of an amount is the replay of its direction's walk. -/
theorem direct_quote_ok (amountIn : Nat) (fits : amountIn < 2 ^ 64) (quote : AccountDataQuote) :
    quoteDlmmFromAccounts amountIn pair arrays bitmapExtension swapForY timestamp = .ok quote ↔
      ∃ result, directionWalk pair arrays bitmapExtension swapForY timestamp = .ok result ∧
        replay (stages result.bins) amountIn [] = some (quote.amountOut, quote.usedIndices) ∧
        quote.amountOut < 2 ^ 64 := by
  have replayed (onInput supports : Bool) := quote_bins_replay pair arrays bitmapExtension swapForY
    onInput supports (updateReference pair.activeId pair.variableParameters pair.staticParameters
      timestamp) maxQuoteVisitedBinsPerDirection
    { variableParameters :=
        updateReference pair.activeId pair.variableParameters pair.staticParameters timestamp
      activeId := pair.activeId.toInt, remaining := amountIn, amountOut := 0, usedIndices := [] }
    (fun _ => rfl) fits (Nat.two_pow_pos 64) quote.amountOut quote.usedIndices
  unfold quoteDlmmFromAccounts
  simp only [direction_walk_ok, bind_ok_iff, incomplete_ok, require_ok, pure_ok, Except.ok.injEq,
    decide_eq_true_eq]
  constructor
  · rintro ⟨onInput, first, supports, second, final, ran, _, finished, rfl⟩
    obtain ⟨_, small, found⟩ := (replayed onInput supports).mp ⟨final, ran, finished, rfl, rfl⟩
    exact ⟨_, ⟨onInput, supports, first, second, rfl⟩, found, small⟩
  · rintro ⟨_, ⟨onInput, supports, first, second, rfl⟩, found, small⟩
    obtain ⟨final, ran, finished, paid, arrived⟩ :=
      (replayed onInput supports).mpr ⟨Nat.zero_le _, small, found⟩
    refine ⟨onInput, first, supports, second, final, ran, (), finished, ?_⟩
    rw [paid, arrived]

end Direction

end ArbExecutor.BinWalk
