import ArbExecutor.DirectionOutcome
import ArbExecutor.CurveSoundness
import ArbExecutor.ListChoice

/-!
The selected amount as an exact maximum. Evaluating candidates keeps the best
of the choices their own quotes give, so the outcome of a direction does not
depend on the order of its candidates, and the decision between two outcomes
picks a choice that no evaluated candidate outranks.
-/

namespace ArbExecutor.ExactSelection

open Checked QuoteMath QuoteAccounts AccountValidation BestDirection DynamicAmount DirectionOutcome
  ListChoice CurveSoundness BinArrayLayout BinDefects

section Evaluation
variable (context : CandidateEvaluationContext) (evaluate : Nat → Except QuoteError CurveQuote)

/-- The choice one amount gives on its own. -/
def choiceAt (amountIn : Nat) : Option DirectionChoice :=
  match evaluate amountIn with
  | .error _ => none
  | .ok quote =>
    match checkedSub quote.amountOut amountIn with
    | none => none
    | some profit =>
      if profit < context.minProfit then none
      else some { amountIn, amountOut := quote.amountOut, profit, usedIndices := quote.usedIndices }

def completes (amountIn : Nat) : Bool := (evaluate amountIn).toOption.isSome

theorem choice_at_some (amountIn : Nat) (choice : DirectionChoice) :
    choiceAt context evaluate amountIn = some choice ↔
      evaluate amountIn = .ok { amountOut := choice.amountOut, usedIndices := choice.usedIndices } ∧
        choice.amountIn = amountIn ∧ choice.amountOut = choice.amountIn + choice.profit ∧
        context.minProfit ≤ choice.profit := by
  unfold choiceAt
  cases evaluated : evaluate amountIn with
  | error error => simp
  | ok quote =>
      dsimp only
      cases left : checkedSub quote.amountOut amountIn with
      | none =>
          have short : quote.amountOut < amountIn := by
            unfold checkedSub at left
            split at left
            · cases left
            · omega
          refine ⟨fun failed => (nomatch failed), ?_⟩
          rintro ⟨same, rfl, paid, _⟩
          cases same
          dsimp only at short
          omega
      | some profit =>
          obtain ⟨rfl, above⟩ := (checked_sub_some _ _ _).mp left
          dsimp only
          split
          next small =>
            refine ⟨fun failed => (nomatch failed), ?_⟩
            rintro ⟨same, rfl, paid, enough⟩
            cases same
            dsimp only at small
            omega
          next enough =>
            constructor
            · rintro same
              cases same
              exact ⟨rfl, rfl, by dsimp only; omega, by dsimp only; omega⟩
            · rintro ⟨same, rfl, paid, _⟩
              cases same
              cases choice
              simp_all

theorem candidate_best (state : EvaluationState) (amountIn : Nat) :
    (evaluateCandidate context evaluate state amountIn).best =
      match choiceAt context evaluate amountIn with
      | none => state.best
      | some choice => keepBest betterChoice state.best choice := by
  unfold evaluateCandidate choiceAt keepBest
  cases evaluate amountIn with
  | error error => rfl
  | ok quote =>
      dsimp only
      cases checkedSub quote.amountOut amountIn with
      | none => dsimp only; split <;> rfl
      | some profit =>
          dsimp only
          by_cases small : profit < context.minProfit
          · rw [if_pos small, if_pos small]
            split <;> rfl
          · rw [if_neg small, if_neg small]
            by_cases least : amountIn = context.minAmount
            · rw [if_pos least]
              exact apply_ite EvaluationState.best _ _ _
            · rw [if_neg least]
              exact apply_ite EvaluationState.best _ _ _

theorem candidate_flags (state : EvaluationState) (amountIn : Nat) :
    (evaluateCandidate context evaluate state amountIn).completeSeen =
        (state.completeSeen || completes evaluate amountIn) ∧
      (evaluateCandidate context evaluate state amountIn).minimumQuoteComplete =
        (state.minimumQuoteComplete ||
          (completes evaluate amountIn && decide (amountIn = context.minAmount))) ∧
      (evaluateCandidate context evaluate state amountIn).minimumAmountOut =
        if amountIn = context.minAmount then
          ((evaluate amountIn).toOption.map (·.amountOut)).getD state.minimumAmountOut
        else state.minimumAmountOut := by
  unfold evaluateCandidate completes
  cases evaluate amountIn with
  | error error => simp [Except.toOption]
  | ok quote =>
      dsimp only
      by_cases least : amountIn = context.minAmount
      · cases checkedSub quote.amountOut amountIn with
        | none => simp [least, Except.toOption]
        | some profit =>
            dsimp only
            split
            · simp [least, Except.toOption]
            · split <;> simp [least, Except.toOption]
      · cases checkedSub quote.amountOut amountIn with
        | none => simp [least, Except.toOption]
        | some profit =>
            dsimp only
            split
            · simp [least, Except.toOption]
            · split <;> simp [least, Except.toOption]

/-- The state a run of candidates leaves behind, in closed form. -/
theorem run_closed (amounts : List Nat) (state : EvaluationState) :
    amounts.foldl (evaluateCandidate context evaluate) state =
      { best := (amounts.filterMap (choiceAt context evaluate)).foldl (keepBest betterChoice) state.best
        completeSeen := state.completeSeen || amounts.any (completes evaluate)
        minimumQuoteComplete := state.minimumQuoteComplete ||
          amounts.any fun amount => completes evaluate amount && decide (amount = context.minAmount)
        minimumAmountOut :=
          if context.minAmount ∈ amounts then
            ((evaluate context.minAmount).toOption.map (·.amountOut)).getD state.minimumAmountOut
          else state.minimumAmountOut } := by
  induction amounts generalizing state with
  | nil => cases state; simp
  | cons amount rest ih =>
      have best := candidate_best context evaluate state amount
      obtain ⟨seen, complete, paid⟩ := candidate_flags context evaluate state amount
      rw [List.foldl_cons, ih, best, seen, complete, paid]
      refine EvaluationState.mk.injEq .. |>.mpr ⟨?_, ?_, ?_, ?_⟩
      · cases chosen : choiceAt context evaluate amount with
        | none => rw [List.filterMap_cons_none chosen]
        | some choice => rw [List.filterMap_cons_some chosen, List.foldl_cons]
      · rw [List.any_cons, Bool.or_assoc]
      · rw [List.any_cons, Bool.or_assoc]
      · by_cases least : amount = context.minAmount
        · rw [if_pos least, least, if_pos List.mem_cons_self]
          cases evaluate context.minAmount with
          | error error => simp [Except.toOption]
          | ok quote => simp [Except.toOption]
        · rw [if_neg least]
          simp only [List.mem_cons, Ne.symm least, false_or]

theorem better_choice_preference : Preference betterChoice where
  irreflexive choice := by simp [betterChoice]
  transitive first second third := by
    rw [better_choice_iff, better_choice_iff, better_choice_iff]
    omega

def evaluated (candidates : List Nat) : List Nat :=
  candidates.filter fun amount =>
    context.minAmount ≤ amount ∧ amount ≤ context.largestCompleteAmount

theorem search_best (candidates : List Nat) :
    (evaluateCandidates candidates context evaluate).best =
      bestOf betterChoice ((evaluated context candidates).filterMap (choiceAt context evaluate)) := by
  unfold evaluateCandidates
  rw [run_closed]
  rfl

theorem search_minimum_complete (candidates : List Nat) :
    (evaluateCandidates candidates context evaluate).minimumQuoteComplete = true ↔
      context.minAmount ∈ candidates ∧ context.minAmount ≤ context.largestCompleteAmount ∧
        completes evaluate context.minAmount = true := by
  unfold evaluateCandidates
  rw [run_closed]
  simp only [Bool.false_or, List.any_eq_true, List.mem_filter, Bool.and_eq_true, decide_eq_true_eq]
  constructor
  · rintro ⟨amount, ⟨listed, _, covered⟩, complete, rfl⟩
    exact ⟨listed, covered, complete⟩
  · rintro ⟨listed, covered, complete⟩
    exact ⟨_, ⟨listed, le_rfl, covered⟩, complete, rfl⟩

/-- A choice is determined by its amount, so ties are between equals. -/
theorem choices_separated (amounts : List Nat) :
    ∀ first ∈ amounts.filterMap (choiceAt context evaluate),
      ∀ second ∈ amounts.filterMap (choiceAt context evaluate), betterChoice first second = false →
        betterChoice second first = false → first = second := by
  intro first inFirst second inSecond unbeaten undefeated
  obtain ⟨left, _, given⟩ := List.mem_filterMap.mp inFirst
  obtain ⟨right, _, taken⟩ := List.mem_filterMap.mp inSecond
  have below := not_better_choice _ _ unbeaten
  have above := not_better_choice _ _ undefeated
  have leftAmount := ((choice_at_some _ _ _ _).mp given).2.1
  have rightAmount := ((choice_at_some _ _ _ _).mp taken).2.1
  have same : left = right := by omega
  rw [same, taken] at given
  exact (Option.some.inj given).symm

/-- The outcome of a search does not depend on the order of its candidates. -/
theorem evaluate_candidates_perm {left right : List Nat} (perm : left.Perm right) :
    evaluateCandidates left context evaluate = evaluateCandidates right context evaluate := by
  have kept := perm.filter fun amount =>
    decide (context.minAmount ≤ amount ∧ amount ≤ context.largestCompleteAmount)
  have best := best_of_same_members better_choice_preference
    (fun choice => (kept.filterMap (choiceAt context evaluate)).mem_iff)
    (choices_separated context evaluate _)
  unfold evaluateCandidates
  unfold bestOf at best
  rw [run_closed, run_closed, best]
  simp only [kept.any_eq, kept.mem_iff]

end Evaluation

theorem map_ok {Error Result Next : Type} {outcome : Except Error Result} {convert : Result → Next}
    {value : Next} (mapped : outcome.map convert = .ok value) :
    ∃ result, outcome = .ok result ∧ value = convert result := by
  cases outcome with
  | error error => cases mapped
  | ok result => cases mapped; exact ⟨result, rfl, rfl⟩

section Runs
variable (market : MarketState)

/-- What one direction evaluates: its candidates, on its curve, in its context. -/
structure SearchRun where
  curve : DlmmCurve
  candidates : List Nat
  context : CandidateEvaluationContext

def SearchRun.outcome (direction : SelectedDirection) (run : SearchRun) (candidates : List Nat) :
    DirectionSearch :=
  evaluateCandidates candidates run.context (evaluateIn market direction run.curve)

def SearchRun.Evaluates (run : SearchRun) (amountIn : Nat) : Prop :=
  amountIn ∈ run.candidates ∧ run.context.minAmount ≤ amountIn ∧
    amountIn ≤ run.context.largestCompleteAmount

def noCandidates : CandidateState where
  candidates := []
  boundaryCandidates := 0
  interiorCandidates := 0
  previousSegmentEndInput := none

def runFrom (curve : DlmmCurve) (bounds : DynamicSearchBounds) (state : CandidateState)
    (largestCompleteAmount : Nat) : SearchRun where
  curve := curve
  candidates := state.candidates
  context := candidateContext curve state bounds.minAmount bounds.minProfit largestCompleteAmount

def probedRun (direction : SelectedDirection) (curve : DlmmCurve) (bounds : DynamicSearchBounds) :
    SearchRun :=
  runFrom curve bounds { noCandidates with candidates := [bounds.minAmount] }
    (coverage market direction curve bounds.minAmount)

def searchedRun (direction : SelectedDirection) (curve : DlmmCurve) (bounds : DynamicSearchBounds) :
    SearchRun :=
  let largestCompleteAmount := coverage market direction curve bounds.maxAmount
  runFrom curve bounds
    (if largestCompleteAmount < bounds.minAmount then noCandidates
      else candidatesIn market direction curve bounds.minAmount largestCompleteAmount)
    largestCompleteAmount

def unreadyRun (bounds : DynamicSearchBounds) : SearchRun :=
  runFrom { segments := [], visitedBins := 0, stopReason := .noUsableLiquidity } bounds noCandidates 0

/-- With a positive required profit the probe is the evaluation of one candidate:
its saturating subtraction never reaches the requirement. -/
theorem probed_outcome (direction : SelectedDirection) (curve : DlmmCurve)
    (bounds : DynamicSearchBounds) (profitable : 0 < bounds.minProfit) :
    (probedRun market direction curve bounds).outcome market direction [bounds.minAmount] =
      probeMinimum curve (minimumBounds bounds) (coverage market direction curve bounds.minAmount)
        (evaluateIn market direction curve bounds.minAmount) := by
  unfold SearchRun.outcome evaluateCandidates probeMinimum probedRun runFrom candidateContext
    minimumBounds
  rw [run_closed]
  dsimp only
  by_cases covered : coverage market direction curve bounds.minAmount < bounds.minAmount
  · rw [if_pos covered, List.filter_cons_of_neg (by simpa using covered)]
    rfl
  · rw [if_neg covered, List.filter_cons_of_pos (by simpa using covered)]
    cases quoted : evaluateIn market direction curve bounds.minAmount with
    | error error =>
        simp [choiceAt, completes, quoted, incompleteDirection, noCandidates, Except.toOption]
    | ok quote =>
        have complete : completes (evaluateIn market direction curve) bounds.minAmount = true := by
          unfold completes
          rw [quoted]
          rfl
        simp only [List.filter_nil, List.filterMap_cons, List.filterMap_nil, choiceAt, quoted,
          List.any_cons, complete, List.mem_singleton, if_true, noCandidates]
        unfold checkedSub
        by_cases above : bounds.minAmount ≤ quote.amountOut
        · rw [if_pos above]
          by_cases enough : bounds.minProfit ≤ quote.amountOut - bounds.minAmount
          · simp [enough, Nat.not_lt.mpr enough, keepBest, Except.toOption]
          · simp [enough, Nat.lt_of_not_le enough, Except.toOption]
        · have short : ¬ bounds.minProfit ≤ quote.amountOut - bounds.minAmount := by omega
          simp [above, short, Except.toOption]

theorem searched_outcome (direction : SelectedDirection) (curve : DlmmCurve)
    (bounds : DynamicSearchBounds) :
    (searchedRun market direction curve bounds).outcome market direction
        (searchedRun market direction curve bounds).candidates =
      searchIn market direction curve bounds := by
  unfold searchedRun searchIn
  by_cases covered : coverage market direction curve bounds.maxAmount < bounds.minAmount
  · simp only [if_pos covered]
    rfl
  · simp only [if_neg covered]
    rfl

variable (binArrayAccounts : List AccountInfo) (bitmapExtension : Option Bytes)
  (timestamp : Int64) (cashbackSellIsReady : Bool)

/-- The run behind one direction taken alone. -/
def directionRun (direction : SelectedDirection) (bounds : DynamicSearchBounds) :
    Except ArbError SearchRun :=
  if directionReady cashbackSellIsReady direction then do
    let curve ← directionCurve binArrayAccounts bitmapExtension timestamp market direction
      bounds.minAmount
    let minimum := probedRun market direction curve bounds
    if expands (minimum.outcome market direction minimum.candidates) bounds then do
      let curve ← directionCurve binArrayAccounts bitmapExtension timestamp market direction
        bounds.maxAmount
      pure (searchedRun market direction curve bounds)
    else pure minimum
  else pure (unreadyRun bounds)

theorem direction_alone_run (direction : SelectedDirection) (bounds : DynamicSearchBounds)
    (profitable : 0 < bounds.minProfit) :
    directionAlone binArrayAccounts bitmapExtension timestamp market cashbackSellIsReady direction
        bounds =
      (directionRun market binArrayAccounts bitmapExtension timestamp cashbackSellIsReady direction
        bounds).map fun run => run.outcome market direction run.candidates := by
  unfold directionAlone directionRun probeAlone expandAlone
  by_cases ready : directionReady cashbackSellIsReady direction = true
  · rw [if_pos ready, if_pos ready]
    unfold probeDirection searchDirection minimumBounds
    dsimp only
    cases directionCurve binArrayAccounts bitmapExtension timestamp market direction
        bounds.minAmount with
    | error error => rfl
    | ok curve =>
        have probed := probed_outcome market direction curve bounds profitable
        have listed : (probedRun market direction curve bounds).candidates = [bounds.minAmount] := rfl
        unfold minimumBounds at probed
        simp only [ok_bind, pure_ok, listed, probed]
        split
        next worth =>
          cases directionCurve binArrayAccounts bitmapExtension timestamp market direction
              bounds.maxAmount with
          | error error => rfl
          | ok wide =>
              simp only [ok_bind, Except.map]
              rw [searched_outcome]
        next =>
          simp only [Except.map, listed, probed]
  · rw [if_neg ready, if_neg ready, pure_ok, ok_bind]
    have idle : expands unreadyDirection bounds = false := by simp [expands, expandsAt, unreadyDirection]
    rw [if_neg (by rw [idle]; exact Bool.false_ne_true)]
    rfl

theorem direction_run_context (direction : SelectedDirection) (bounds : DynamicSearchBounds)
    (ordered : bounds.minAmount ≤ bounds.maxAmount) (run : SearchRun)
    (ran : directionRun market binArrayAccounts bitmapExtension timestamp cashbackSellIsReady direction
      bounds = .ok run) :
    run.context.minAmount = bounds.minAmount ∧ run.context.minProfit = bounds.minProfit ∧
      run.context.largestCompleteAmount ≤ bounds.maxAmount := by
  have least (curve : DlmmCurve) := coverage_le market direction curve bounds.minAmount
  have most (curve : DlmmCurve) := coverage_le market direction curve bounds.maxAmount
  unfold directionRun at ran
  split at ran
  · obtain ⟨curve, _, ran⟩ := (bind_ok_iff _ _ _).mp ran
    dsimp only at ran
    split at ran
    · obtain ⟨wide, _, ran⟩ := (bind_ok_iff _ _ _).mp ran
      cases ran
      exact ⟨rfl, rfl, most wide⟩
    · cases ran
      exact ⟨rfl, rfl, (least curve).trans ordered⟩
  · cases ran
    exact ⟨rfl, rfl, Nat.zero_le _⟩

theorem run_best (direction : SelectedDirection) (run : SearchRun) (choice : DirectionChoice)
    (chosen : (run.outcome market direction run.candidates).best = some choice) :
    run.Evaluates choice.amountIn ∧
      evaluateIn market direction run.curve choice.amountIn =
        .ok { amountOut := choice.amountOut, usedIndices := choice.usedIndices } ∧
      choice.amountOut = choice.amountIn + choice.profit ∧ run.context.minProfit ≤ choice.profit := by
  unfold SearchRun.outcome at chosen
  rw [search_best] at chosen
  obtain ⟨amount, member, given⟩ :=
    List.mem_filterMap.mp (best_of_some better_choice_preference chosen).1
  obtain ⟨quoted, same, exact, enough⟩ := (choice_at_some _ _ _ _).mp given
  obtain ⟨listed, inside⟩ := List.mem_filter.mp member
  rw [same]
  exact ⟨⟨listed, of_decide_eq_true inside⟩, quoted, by omega, enough⟩

/-- Every evaluated candidate that earns enough is beaten or matched by the best. -/
theorem run_best_unbeaten (direction : SelectedDirection) (run : SearchRun) (rival : DirectionChoice)
    (member : run.Evaluates rival.amountIn)
    (quoted : evaluateIn market direction run.curve rival.amountIn =
      .ok { amountOut := rival.amountOut, usedIndices := rival.usedIndices })
    (exact : rival.amountOut = rival.amountIn + rival.profit)
    (enough : run.context.minProfit ≤ rival.profit) :
    ∃ choice, (run.outcome market direction run.candidates).best = some choice ∧
      betterChoice rival choice = false := by
  have given : choiceAt run.context (evaluateIn market direction run.curve) rival.amountIn = some rival :=
    (choice_at_some _ _ _ _).mpr ⟨quoted, rfl, exact, enough⟩
  have inside : rival.amountIn ∈ evaluated run.context run.candidates :=
    List.mem_filter.mpr ⟨member.1, decide_eq_true member.2⟩
  have listed := List.mem_filterMap.mpr ⟨rival.amountIn, inside, given⟩
  have best := search_best run.context (evaluateIn market direction run.curve) run.candidates
  cases chosen : (run.outcome market direction run.candidates).best with
  | none =>
      have empty := (best_of_none better_choice_preference).mp (best.symm.trans chosen)
      rw [empty] at listed
      cases listed
  | some choice =>
      exact ⟨choice, rfl, (best_of_some better_choice_preference (best.symm.trans chosen)).2 rival listed⟩

/-- The selection is a legal exact maximum over everything both directions
evaluated, and neither direction's candidate order matters. -/
theorem selected_choice_exact (bounds : DynamicSearchBounds)
    (ordered : bounds.minAmount ≤ bounds.maxAmount) (profitable : 0 < bounds.minProfit)
    (selection : DynamicSelection)
    (selected : selectDynamic binArrayAccounts bitmapExtension timestamp market cashbackSellIsReady
      bounds.minAmount bounds.maxAmount bounds.minProfit = .ok selection) :
    ∃ runs : SelectedDirection → SearchRun,
      (∀ direction, directionRun market binArrayAccounts bitmapExtension timestamp cashbackSellIsReady
          direction bounds = .ok (runs direction) ∧
        directionAlone binArrayAccounts bitmapExtension timestamp market cashbackSellIsReady direction
          bounds = .ok ((runs direction).outcome market direction (runs direction).candidates)) ∧
      (bounds.minAmount ≤ selection.choice.amountIn ∧
        selection.choice.amountIn ≤ bounds.maxAmount) ∧
      (runs selection.direction).Evaluates selection.choice.amountIn ∧
      evaluateIn market selection.direction (runs selection.direction).curve
          selection.choice.amountIn =
        .ok { amountOut := selection.choice.amountOut, usedIndices := selection.choice.usedIndices } ∧
      (selection.choice.amountOut = selection.choice.amountIn + selection.choice.profit ∧
        bounds.minProfit ≤ selection.choice.profit) ∧
      (∀ direction rival, (runs direction).Evaluates rival.amountIn →
        evaluateIn market direction (runs direction).curve rival.amountIn =
          .ok { amountOut := rival.amountOut, usedIndices := rival.usedIndices } →
        rival.amountOut = rival.amountIn + rival.profit →
        ¬ Outranks (direction, rival) (selection.direction, selection.choice)) ∧
      ∀ order : SelectedDirection → List Nat,
        (∀ direction, (order direction).Perm (runs direction).candidates) →
        decideDynamicSearch
            ((runs .pumpToMeteora).outcome market .pumpToMeteora (order .pumpToMeteora))
            ((runs .meteoraToPump).outcome market .meteoraToPump (order .meteoraToPump)) =
          .selected selection.direction selection.choice := by
  obtain ⟨outcome, alone, chosen⟩ := (select_dynamic_iff bounds selection).mp selected
  have runsOf (direction : SelectedDirection) : ∃ run, directionRun market binArrayAccounts bitmapExtension
      timestamp cashbackSellIsReady direction bounds = .ok run ∧
        outcome direction = run.outcome market direction run.candidates :=
    map_ok ((direction_alone_run _ _ _ _ _ _ _ profitable).symm.trans (alone direction))
  choose runs ran same using runsOf
  obtain ⟨best, unbeaten⟩ := selection_best chosen
  obtain rfl : outcome = fun direction =>
      (runs direction).outcome market direction (runs direction).candidates := funext same
  have bounded (direction : SelectedDirection) := direction_run_context market binArrayAccounts
    bitmapExtension timestamp cashbackSellIsReady direction bounds ordered _ (ran direction)
  obtain ⟨evaluates, quoted, exact, enough⟩ := run_best market _ _ _ best
  obtain ⟨least, required, most⟩ := bounded selection.direction
  refine ⟨runs, fun direction => ⟨ran direction, alone direction⟩, ⟨?_, ?_⟩, evaluates, quoted, ⟨exact, ?_⟩,
    ?_, ?_⟩
  · exact least ▸ evaluates.2.1
  · exact evaluates.2.2.trans most
  · exact required ▸ enough
  · intro direction rival member rivalQuoted rivalExact outranks
    -- A rival below the required profit is never offered; any other loses within its own direction first.
    by_cases earning : (runs direction).context.minProfit ≤ rival.profit
    · obtain ⟨top, topBest, unbeatenBy⟩ :=
        run_best_unbeaten market direction (runs direction) rival member rivalQuoted rivalExact earning
      exact unbeaten direction top topBest (outranks_of_unbeaten unbeatenBy outranks)
    · have short := (bounded direction).2.1
      unfold Outranks at outranks
      dsimp only at outranks
      omega
  · intro order permuted
    have reordered (direction : SelectedDirection) :
        (runs direction).outcome market direction (order direction) =
          (runs direction).outcome market direction (runs direction).candidates :=
      evaluate_candidates_perm _ _ (permuted direction)
    rw [reordered, reordered]
    exact selection_of_ok _ _ _ chosen

end Runs

section Profitable

/-- Pump prices the target at one, the pair's active bin buys it back at two. -/
def profitableMarket : MarketState where
  pumpBaseReserve := 1000000
  pumpQuoteReserve := 1000000
  pumpVirtualQuoteReserve := 0
  pumpFees := { lpFeeBps := 20, protocolFeeBps := 5, creatorFeeBps := 5 }
  pair := dustPair
  targetIsX := true

def profitableArray : AccountInfo :=
  binArrayAccount meteoraDlmmProgramId meteoraDlmmProgramId 0
    [payingBin 1000, { payingBin 1000 with priceQ64 := 2 ^ 65 }]

def profitableBounds : DynamicSearchBounds where
  minAmount := 100
  maxAmount := 400
  minProfit := 1

/-- The two selections and the fixed one on the profitable market, and in each direction
the curves up to both ends of the range and the bins on the way of the smaller amount,
evaluated together. -/
theorem profitable_selections :
    (selectDirection profitableMarket true [profitableArray] none 100 1 0).toOption =
      some (.pumpToMeteora, [0]) ∧
    (selectDynamic [profitableArray] none 0 profitableMarket true 100 100 1).toOption.map
      (fun selection => (selection.direction, selection.choice)) =
      some (.pumpToMeteora, { amountIn := 100, amountOut := 189, profit := 89, usedIndices := [0] }) ∧
    (selectDynamic [profitableArray] none 0 profitableMarket true 100 400 1).toOption.map
      (fun selection => (selection.direction, selection.choice)) =
      some (.pumpToMeteora, { amountIn := 400, amountOut := 789, profit := 389, usedIndices := [0] }) ∧
    [(SelectedDirection.pumpToMeteora, 95), (.meteoraToPump, 100)].all (fun asked =>
      [100, 400].all (fun amount =>
        (directionCurve [profitableArray] none 0 profitableMarket asked.1 amount).toOption.isSome) &&
      decide (Clean (directionBins profitableMarket.pair [profitableArray] none
        (directionSwapForY profitableMarket asked.1) 0) asked.2)) = true := by
  decide +kernel

theorem profitable_curves (direction : SelectedDirection) (amount : Nat) (either : amount ∈ [100, 400]) :
    ∃ curve, directionCurve [profitableArray] none 0 profitableMarket direction amount = .ok curve := by
  obtain ⟨_, _, _, both⟩ := profitable_selections
  simp only [List.all_cons, List.all_nil, Bool.and_true, Bool.and_eq_true] at both
  obtain ⟨⟨⟨forwardLess, forwardMore⟩, _⟩, ⟨reverseLess, reverseMore⟩, _⟩ := both
  refine (Option.isSome_iff_exists.mp ?_).imp fun curve built => (to_option_some _ _).mp built
  simp only [List.mem_cons, List.not_mem_nil, or_false] at either
  cases direction with
  | pumpToMeteora =>
      obtain rfl | rfl := either
      · exact forwardLess
      · exact forwardMore
  | meteoraToPump =>
      obtain rfl | rfl := either
      · exact reverseLess
      · exact reverseMore

theorem selected_choice_exact_profitable :
    ∃ selection, selectDynamic [profitableArray] none 0 profitableMarket true profitableBounds.minAmount
        profitableBounds.maxAmount profitableBounds.minProfit = .ok selection ∧
      100 ≤ selection.choice.amountIn ∧ selection.choice.amountIn ≤ 400 := by
  obtain ⟨selection, selected, _⟩ := Option.map_eq_some_iff.mp profitable_selections.2.2.1
  have selected : selectDynamic [profitableArray] none 0 profitableMarket true profitableBounds.minAmount
    profitableBounds.maxAmount profitableBounds.minProfit = .ok selection := (to_option_some _ _).mp selected
  obtain ⟨_, _, within, _⟩ := selected_choice_exact profitableMarket [profitableArray] none 0 true
    profitableBounds (by decide) (by decide) selection selected
  exact ⟨selection, selected, within⟩

/-! The 89 that the amount earns are one lamport short of a least profit of 90. -/
example : (selectDynamic [profitableArray] none 0 profitableMarket false 100 100 90).toOption.isSome =
    false := by decide +kernel

end Profitable

end ArbExecutor.ExactSelection
