import ArbExecutor.DynamicAmount

/-!
One direction taken alone: its minimum probe and, where that asks for it, its
full search. The dynamic selection is a decision between the two outcomes, and
it returns a selection only when both of them exist.
-/

namespace ArbExecutor.DirectionOutcome

open Checked QuoteMath QuoteAccounts AccountValidation BestDirection DynamicAmount Bisection

section Directions
variable (market : MarketState)

def directionSwapForY : SelectedDirection → Bool
  | .pumpToMeteora => market.targetIsX
  | .meteoraToPump => !market.targetIsX

def directionInputLimit : SelectedDirection → Nat → Nat
  | .pumpToMeteora, amount => forwardInputLimit market amount
  | .meteoraToPump, amount => amount

def evaluateIn : SelectedDirection → DlmmCurve → Nat → Except QuoteError CurveQuote
  | .pumpToMeteora => evaluateForward market
  | .meteoraToPump => evaluateReverse market

def coverage : SelectedDirection → DlmmCurve → Nat → Nat
  | .pumpToMeteora, curve, maxAmount => largestForwardCompleteAmount market curve maxAmount
  | .meteoraToPump, curve, maxAmount => min maxAmount curve.largestCompleteInput

def candidatesIn : SelectedDirection → DlmmCurve → Nat → Nat → CandidateState
  | .pumpToMeteora => forwardCandidates market
  | .meteoraToPump => reverseCandidates market

def searchIn (direction : SelectedDirection) (curve : DlmmCurve) (bounds : DynamicSearchBounds) :
    DirectionSearch :=
  let largestCompleteAmount := coverage market direction curve bounds.maxAmount
  if largestCompleteAmount < bounds.minAmount then incompleteDirection curve largestCompleteAmount
  else
    let state := candidatesIn market direction curve bounds.minAmount largestCompleteAmount
    evaluateCandidates state.candidates
      (candidateContext curve state bounds.minAmount bounds.minProfit largestCompleteAmount)
      (evaluateIn market direction curve)

theorem coverage_le (direction : SelectedDirection) (curve : DlmmCurve) (maxAmount : Nat) :
    coverage market direction curve maxAmount ≤ maxAmount := by
  cases direction with
  | pumpToMeteora =>
      change largestForwardCompleteAmount market curve maxAmount ≤ maxAmount
      unfold largestForwardCompleteAmount
      split
      · exact le_rfl
      · dsimp only
        split
        · exact Nat.zero_le _
        · exact (last_true_bounds _ _ 0 maxAmount (Nat.zero_le _)).2
  | meteoraToPump => exact min_le_left _ _

end Directions

/-- Whether the full search of a probed direction is worth running. -/
def expands (minimum : DirectionSearch) (bounds : DynamicSearchBounds) : Bool :=
  decide (bounds.maxAmount ≠ bounds.minAmount) && expandsAt minimum bounds.minAmount

def minimumBounds (bounds : DynamicSearchBounds) : DynamicSearchBounds :=
  { bounds with maxAmount := bounds.minAmount }

theorem directions_to_expand_eq (forward reverse : DirectionSearch) (bounds : DynamicSearchBounds) :
    directionsToExpand forward reverse bounds.minAmount bounds.maxAmount =
      (expands forward bounds, expands reverse bounds) := by
  unfold directionsToExpand expands
  by_cases same : bounds.maxAmount = bounds.minAmount <;> simp [same]

section Outcomes
variable (binArrayAccounts : List AccountInfo) (bitmapExtension : Option Bytes)
  (timestamp : Int64) (market : MarketState)

/-- The curve of a direction for a largest WSOL amount. -/
def directionCurve (direction : SelectedDirection) (amount : Nat) : Except ArbError DlmmCurve :=
  buildCurve market.pair binArrayAccounts bitmapExtension (directionSwapForY market direction)
    timestamp (directionInputLimit market direction amount)

def probeDirection (direction : SelectedDirection) (bounds : DynamicSearchBounds) :
    Except ArbError DirectionSearch := do
  let curve ← directionCurve binArrayAccounts bitmapExtension timestamp market direction bounds.minAmount
  pure (probeMinimum curve bounds (coverage market direction curve bounds.minAmount)
    (evaluateIn market direction curve bounds.minAmount))

def searchDirection (direction : SelectedDirection) (bounds : DynamicSearchBounds) :
    Except ArbError DirectionSearch := do
  let curve ← directionCurve binArrayAccounts bitmapExtension timestamp market direction bounds.maxAmount
  pure (searchIn market direction curve bounds)

variable (cashbackSellIsReady : Bool)

def directionReady : SelectedDirection → Bool
  | .pumpToMeteora => true
  | .meteoraToPump => cashbackSellIsReady

/-- The minimum probe of a direction, or its placeholder while it is not ready. -/
def probeAlone (direction : SelectedDirection) (bounds : DynamicSearchBounds) :
    Except ArbError DirectionSearch :=
  if directionReady cashbackSellIsReady direction then
    probeDirection binArrayAccounts bitmapExtension timestamp market direction (minimumBounds bounds)
  else pure unreadyDirection

def expandAlone (direction : SelectedDirection) (bounds : DynamicSearchBounds)
    (minimum : DirectionSearch) : Except ArbError DirectionSearch :=
  if expands minimum bounds then
    searchDirection binArrayAccounts bitmapExtension timestamp market direction bounds
  else pure minimum

/-- One direction without the other. -/
def directionAlone (direction : SelectedDirection) (bounds : DynamicSearchBounds) :
    Except ArbError DirectionSearch := do
  let minimum ← probeAlone binArrayAccounts bitmapExtension timestamp market cashbackSellIsReady
    direction bounds
  expandAlone binArrayAccounts bitmapExtension timestamp market direction bounds minimum

/-- The selection made from two outcomes. -/
def selectionOf (forward reverse : DirectionSearch) : Except ArbError DynamicSelection :=
  match decideDynamicSearch forward reverse with
  | .selected direction choice =>
      let stats := match direction with
        | .pumpToMeteora => forward
        | .meteoraToPump => reverse
      pure { direction, choice
             largestCompleteAmount := stats.largestCompleteAmount
             boundaryCandidates := stats.boundaryCandidates
             interiorCandidates := stats.interiorCandidates
             visitedBins := stats.visitedBins }
  | .quoteIncomplete => .error .bestDirectionQuoteIncomplete
  | .noProfitableDirection => .error .noProfitableDirection

/-- Both probes come first, then the searches they ask for, then the decision. -/
theorem select_dynamic_eq (bounds : DynamicSearchBounds) :
    selectDynamic binArrayAccounts bitmapExtension timestamp market cashbackSellIsReady bounds.minAmount
        bounds.maxAmount bounds.minProfit =
      (do
        let forwardMinimum ← probeAlone binArrayAccounts bitmapExtension timestamp market
          cashbackSellIsReady .pumpToMeteora bounds
        let reverseMinimum ← probeAlone binArrayAccounts bitmapExtension timestamp market
          cashbackSellIsReady .meteoraToPump bounds
        let forward ← expandAlone binArrayAccounts bitmapExtension timestamp market .pumpToMeteora bounds
          forwardMinimum
        let reverse ← expandAlone binArrayAccounts bitmapExtension timestamp market .meteoraToPump bounds
          reverseMinimum
        selectionOf forward reverse) := by
  unfold selectDynamic
  simp only [directions_to_expand_eq _ _ bounds, if_bind]
  rfl

theorem select_dynamic_ok (bounds : DynamicSearchBounds) (selection : DynamicSelection) :
    selectDynamic binArrayAccounts bitmapExtension timestamp market cashbackSellIsReady bounds.minAmount
        bounds.maxAmount bounds.minProfit = .ok selection ↔
      ∃ forward reverse,
        directionAlone binArrayAccounts bitmapExtension timestamp market cashbackSellIsReady
          .pumpToMeteora bounds = .ok forward ∧
        directionAlone binArrayAccounts bitmapExtension timestamp market cashbackSellIsReady
          .meteoraToPump bounds = .ok reverse ∧
        selectionOf forward reverse = .ok selection := by
  rw [select_dynamic_eq]
  unfold directionAlone
  simp only [bind_ok_iff]
  constructor
  · rintro ⟨forwardMinimum, probed, reverseMinimum, reverseProbed, forward, expanded, reverse,
      reverseExpanded, chosen⟩
    exact ⟨forward, reverse, ⟨forwardMinimum, probed, expanded⟩,
      ⟨reverseMinimum, reverseProbed, reverseExpanded⟩, chosen⟩
  · rintro ⟨forward, reverse, ⟨forwardMinimum, probed, expanded⟩,
      ⟨reverseMinimum, reverseProbed, reverseExpanded⟩, chosen⟩
    exact ⟨forwardMinimum, probed, reverseMinimum, reverseProbed, forward, expanded, reverse,
      reverseExpanded, chosen⟩

end Outcomes

section Decision

/-- The order of the decision: more profit, then a smaller input, then forward. -/
def Outranks (left : SelectedDirection × DirectionChoice) (right : SelectedDirection × DirectionChoice) :
    Prop :=
  right.2.profit < left.2.profit ∨
    left.2.profit = right.2.profit ∧
      (left.2.amountIn < right.2.amountIn ∨
        left.2.amountIn = right.2.amountIn ∧ left.1 = .pumpToMeteora ∧ right.1 = .meteoraToPump)

def outcomeOf (forward reverse : DirectionSearch) : SelectedDirection → DirectionSearch
  | .pumpToMeteora => forward
  | .meteoraToPump => reverse

theorem outcome_of_self (outcome : SelectedDirection → DirectionSearch) :
    outcomeOf (outcome .pumpToMeteora) (outcome .meteoraToPump) = outcome := by
  funext direction
  cases direction with
  | pumpToMeteora => rfl
  | meteoraToPump => rfl

theorem better_choice_iff (candidate current : DirectionChoice) :
    betterChoice candidate current = true ↔ current.profit < candidate.profit ∨
      candidate.profit = current.profit ∧ candidate.amountIn < current.amountIn := by
  simp [betterChoice]

theorem not_better_choice (candidate current : DirectionChoice)
    (unbeaten : betterChoice candidate current = false) :
    candidate.profit ≤ current.profit ∧
      (candidate.profit = current.profit → current.amountIn ≤ candidate.amountIn) := by
  have refuted := mt (better_choice_iff candidate current).mpr (by rw [unbeaten]; exact Bool.false_ne_true)
  omega

/-- Within one direction a choice that no rival beats takes over what the rival outranks. -/
theorem outranks_of_unbeaten {direction : SelectedDirection} {rival top : DirectionChoice}
    {winner : SelectedDirection × DirectionChoice} (unbeaten : betterChoice rival top = false)
    (outranks : Outranks (direction, rival) winner) : Outranks (direction, top) winner := by
  obtain ⟨above, earlier⟩ := not_better_choice _ _ unbeaten
  rcases Nat.lt_or_eq_of_le above with more | equal
  · unfold Outranks at outranks ⊢
    dsimp only at outranks ⊢
    exact .inl (by omega)
  have smaller := earlier equal
  rcases outranks with more | ⟨same, less | ⟨level, first, last⟩⟩
  · exact .inl (equal ▸ more)
  · exact .inr ⟨equal ▸ same, .inl (lt_of_le_of_lt smaller less)⟩
  · rcases Nat.lt_or_eq_of_le smaller with less | tied
    · exact .inr ⟨equal ▸ same, .inl (level ▸ less)⟩
    · exact .inr ⟨equal ▸ same, .inr ⟨tied.trans level, first, last⟩⟩

/-- A decision is for the best of one direction, and the other's does not outrank it. -/
theorem decided_best {forward reverse : DirectionSearch} {direction : SelectedDirection}
    {choice : DirectionChoice}
    (decided : decideDynamicSearch forward reverse = .selected direction choice) :
    (outcomeOf forward reverse direction).best = some choice ∧
      ∀ other rival, (outcomeOf forward reverse other).best = some rival →
        ¬ Outranks (other, rival) (direction, choice) := by
  unfold decideDynamicSearch at decided
  unfold Outranks
  -- The source matches on both options at once, and only two present choices are compared.
  cases atForward : forward.best with
  | none =>
      cases atReverse : reverse.best with
      | none =>
          simp only [atForward, atReverse] at decided
          split at decided <;> cases decided
      | some reverseChoice =>
          simp only [atForward, atReverse] at decided
          cases decided
          refine ⟨atReverse, fun other rival found => ?_⟩
          cases other with
          | pumpToMeteora => exact absurd (atForward.symm.trans found) (by simp)
          | meteoraToPump =>
              cases atReverse.symm.trans found
              simp
  | some forwardChoice =>
      cases atReverse : reverse.best with
      | none =>
          simp only [atForward, atReverse] at decided
          cases decided
          refine ⟨atForward, fun other rival found => ?_⟩
          cases other with
          | pumpToMeteora =>
              cases atForward.symm.trans found
              simp
          | meteoraToPump => exact absurd (atReverse.symm.trans found) (by simp)
      | some reverseChoice =>
          simp only [atForward, atReverse] at decided
          split at decided
          next beaten =>
            cases decided
            refine ⟨atReverse, fun other rival found => ?_⟩
            cases other with
            | pumpToMeteora =>
                cases atForward.symm.trans found
                have wins := (better_choice_iff _ _).mp beaten
                dsimp only
                omega
            | meteoraToPump =>
                cases atReverse.symm.trans found
                simp
          next unbeaten =>
            cases decided
            refine ⟨atForward, fun other rival found => ?_⟩
            cases other with
            | pumpToMeteora =>
                cases atForward.symm.trans found
                simp
            | meteoraToPump =>
                cases atReverse.symm.trans found
                have loses := not_better_choice _ _ (by simpa using unbeaten)
                simp only [reduceCtorEq, and_false, or_false]
                omega

/-- A decision is for a choice as soon as one direction has one. -/
theorem decides_for (forward reverse : DirectionSearch) (direction : SelectedDirection)
    (choice : DirectionChoice) (found : (outcomeOf forward reverse direction).best = some choice) :
    ∃ winner best, decideDynamicSearch forward reverse = .selected winner best := by
  unfold decideDynamicSearch
  cases atForward : forward.best with
  | none =>
      cases atReverse : reverse.best with
      | none => cases direction <;> simp_all [outcomeOf]
      | some reverseChoice => exact ⟨_, _, rfl⟩
  | some forwardChoice =>
      cases atReverse : reverse.best with
      | none => exact ⟨_, _, rfl⟩
      | some reverseChoice =>
          dsimp only
          split
          · exact ⟨_, _, rfl⟩
          · exact ⟨_, _, rfl⟩

theorem selection_of_ok (forward reverse : DirectionSearch) (selection : DynamicSelection)
    (chosen : selectionOf forward reverse = .ok selection) :
    decideDynamicSearch forward reverse = .selected selection.direction selection.choice := by
  unfold selectionOf at chosen
  split at chosen
  next direction choice decided => cases chosen; exact decided
  next => cases chosen
  next => cases chosen

theorem selection_of_selected {forward reverse : DirectionSearch} {direction : SelectedDirection}
    {choice : DirectionChoice}
    (decided : decideDynamicSearch forward reverse = .selected direction choice) :
    ∃ selection, selectionOf forward reverse = .ok selection ∧ selection.direction = direction ∧
      selection.choice = choice := by
  unfold selectionOf
  rw [decided]
  exact ⟨_, rfl, rfl, rfl⟩

/-- A selection is the best choice of its direction, and the other's does not outrank it. -/
theorem selection_best {outcome : SelectedDirection → DirectionSearch} {selection : DynamicSelection}
    (chosen : selectionOf (outcome .pumpToMeteora) (outcome .meteoraToPump) = .ok selection) :
    (outcome selection.direction).best = some selection.choice ∧
      ∀ other rival, (outcome other).best = some rival →
        ¬ Outranks (other, rival) (selection.direction, selection.choice) := by
  have decided := decided_best (selection_of_ok _ _ _ chosen)
  rw [outcome_of_self] at decided
  exact decided

/-- Two outcomes of which one has a choice give a selection no worse than it. -/
theorem selection_at_least (outcome : SelectedDirection → DirectionSearch) (direction : SelectedDirection)
    (choice : DirectionChoice) (found : (outcome direction).best = some choice) :
    ∃ selection, selectionOf (outcome .pumpToMeteora) (outcome .meteoraToPump) = .ok selection ∧
      choice.profit ≤ selection.choice.profit := by
  obtain ⟨winner, best, decided⟩ := decides_for (outcome .pumpToMeteora) (outcome .meteoraToPump) direction
    choice (by rw [outcome_of_self]; exact found)
  obtain ⟨selection, selected, rfl, rfl⟩ := selection_of_selected decided
  refine ⟨selection, selected, ?_⟩
  have unbeaten := (selection_best selected).2 direction choice found
  unfold Outranks at unbeaten
  dsimp only at unbeaten
  omega

end Decision

section Selected
variable {binArrayAccounts : List AccountInfo} {bitmapExtension : Option Bytes}
  {timestamp : Int64} {market : MarketState} {cashbackSellIsReady : Bool}

/-- A selection is an outcome of each direction and the decision between the two. -/
theorem select_dynamic_iff (bounds : DynamicSearchBounds) (selection : DynamicSelection) :
    selectDynamic binArrayAccounts bitmapExtension timestamp market cashbackSellIsReady bounds.minAmount
        bounds.maxAmount bounds.minProfit = .ok selection ↔
      ∃ outcome : SelectedDirection → DirectionSearch,
        (∀ direction, directionAlone binArrayAccounts bitmapExtension timestamp market cashbackSellIsReady
          direction bounds = .ok (outcome direction)) ∧
        selectionOf (outcome .pumpToMeteora) (outcome .meteoraToPump) = .ok selection := by
  rw [select_dynamic_ok]
  constructor
  · rintro ⟨forward, reverse, forwardRan, reverseRan, chosen⟩
    refine ⟨outcomeOf forward reverse, fun direction => ?_, chosen⟩
    cases direction with
    | pumpToMeteora => exact forwardRan
    | meteoraToPump => exact reverseRan
  · rintro ⟨outcome, ran, chosen⟩
    exact ⟨_, _, ran .pumpToMeteora, ran .meteoraToPump, chosen⟩

end Selected

end ArbExecutor.DirectionOutcome
