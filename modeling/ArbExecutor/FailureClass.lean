import ArbExecutor.CandidateCoverage
import ArbExecutor.DirectionIsolation

/-!
Which error a failed selection returns. An error is either that of the first
curve that could not be built, or the decision's own, which goes by whether both
minimum quotes were still complete after the full searches.
-/

namespace ArbExecutor.FailureClass

open Checked QuoteMath QuoteAccounts AccountValidation BestDirection DynamicAmount CurveBuilding
  DirectionOutcome MinimumProbe ExactSelection CandidateCoverage

variable (binArrayAccounts : List AccountInfo) (bitmapExtension : Option Bytes)
  (timestamp : Int64) (market : MarketState) (cashbackSellIsReady : Bool)

section Kept

/-- The full search of a direction still evaluates the minimum. -/
def KeepsMinimum (direction : SelectedDirection) (bounds : DynamicSearchBounds) : Prop :=
  ∀ curve, directionCurve binArrayAccounts bitmapExtension timestamp market direction bounds.maxAmount =
      .ok curve →
    bounds.minAmount ≤ coverage market direction curve bounds.maxAmount ∧
      ∃ quote, evaluateIn market direction curve bounds.minAmount = .ok quote

theorem evaluates_positive {direction : SelectedDirection} {curve : DlmmCurve} {amountIn : Nat}
    {quote : CurveQuote} (evaluated : evaluateIn market direction curve amountIn = .ok quote) :
    0 < amountIn := by
  rcases Nat.eq_zero_or_pos amountIn with rfl | positive
  · cases direction with
    | pumpToMeteora => cases evaluated
    | meteoraToPump => cases evaluated
  · exact positive

theorem minimum_is_candidate (direction : SelectedDirection) (curve : DlmmCurve) {least : Nat}
    (positive : 0 < least) (greatest : Nat) :
    least ∈ (candidatesIn market direction curve least greatest).candidates := by
  rw [candidates_eq, List.foldl_cons]
  have kept (amounts candidates : List Nat) (present : least ∈ candidates) :
      least ∈ amounts.foldl pushUnique candidates := by
    induction amounts generalizing candidates with
    | nil => exact present
    | cons first rest ih =>
        refine ih _ ?_
        unfold pushUnique
        split
        · exact present
        split
        · exact List.mem_append_left _ present
        · exact present
  refine kept _ _ ?_
  unfold pushUnique
  rw [if_neg (by simp; omega), if_pos (by decide)]
  exact List.mem_append_right _ (List.mem_singleton_self least)

/-- A full search completes the minimum exactly when its cap and its curve allow it. -/
theorem searched_complete_iff (direction : SelectedDirection) (curve : DlmmCurve)
    (bounds : DynamicSearchBounds) :
    (searchIn market direction curve bounds).minimumQuoteComplete = true ↔
      bounds.minAmount ≤ coverage market direction curve bounds.maxAmount ∧
        ∃ quote, evaluateIn market direction curve bounds.minAmount = .ok quote := by
  unfold searchIn
  dsimp only
  split
  next short =>
    exact ⟨fun complete => (nomatch complete), fun both => absurd both.1 (Nat.not_le.mpr short)⟩
  next covered =>
    rw [search_minimum_complete]
    unfold candidateContext completes
    dsimp only
    constructor
    · rintro ⟨_, within, complete⟩
      obtain ⟨quote, evaluated⟩ := Option.isSome_iff_exists.mp complete
      exact ⟨within, quote, (to_option_some _ _).mp evaluated⟩
    · rintro ⟨within, quote, evaluated⟩
      exact ⟨minimum_is_candidate market direction curve (evaluates_positive market evaluated) _, within,
        by rw [evaluated]; rfl⟩

variable {binArrayAccounts bitmapExtension timestamp market cashbackSellIsReady}

/-- The flag of a direction's outcome: its probe set it, and its full search, if
there was one, did not lose it. -/
theorem alone_complete_iff {direction : SelectedDirection} {bounds : DynamicSearchBounds}
    {search : DirectionSearch}
    (ran : directionAlone binArrayAccounts bitmapExtension timestamp market cashbackSellIsReady direction
      bounds = .ok search) :
    search.minimumQuoteComplete = true ↔
      MinimumComplete binArrayAccounts bitmapExtension timestamp market cashbackSellIsReady direction
          bounds.minAmount ∧
        (Worth binArrayAccounts bitmapExtension timestamp market cashbackSellIsReady direction bounds →
          KeepsMinimum binArrayAccounts bitmapExtension timestamp market direction bounds) := by
  unfold directionAlone at ran
  obtain ⟨minimum, probed, ran⟩ := (bind_ok_iff _ _ _).mp ran
  have worth_iff := expands_iff_worth _ _ _ _ _ probed
  have complete_iff := probe_complete_iff _ _ _ _ _ probed
  unfold expandAlone at ran
  split at ran
  next expanded =>
    have worth := worth_iff.mp expanded
    obtain ⟨_, quote, complete, _⟩ := id worth
    obtain ⟨curve, built, searched⟩ := (bind_ok_iff _ _ _).mp ran
    cases searched
    rw [searched_complete_iff]
    constructor
    · rintro kept
      refine ⟨⟨quote, complete⟩, fun _ other same => ?_⟩
      cases built.symm.trans same
      exact kept
    · rintro ⟨_, keeps⟩
      exact keeps worth curve built
  next unexpanded =>
    cases ran
    rw [complete_iff]
    exact ⟨fun complete => ⟨complete, fun worth => absurd (worth_iff.mpr worth) unexpanded⟩,
      fun both => both.1⟩

end Kept

section Stages
variable (bounds : DynamicSearchBounds)

/-- Both probes have a curve. -/
def Probed : Prop :=
  DirectionBuilds binArrayAccounts bitmapExtension timestamp market .pumpToMeteora bounds.minAmount ∧
    (cashbackSellIsReady = true →
      DirectionBuilds binArrayAccounts bitmapExtension timestamp market .meteoraToPump bounds.minAmount)

/-- A curve is the first one that was asked for and could not be built. -/
def FailsFirst (fails : SelectedDirection → Nat → Prop) : Prop :=
  fails .pumpToMeteora bounds.minAmount ∨
    (DirectionBuilds binArrayAccounts bitmapExtension timestamp market .pumpToMeteora bounds.minAmount ∧
      cashbackSellIsReady = true ∧ fails .meteoraToPump bounds.minAmount) ∨
    (Probed binArrayAccounts bitmapExtension timestamp market cashbackSellIsReady bounds ∧
      Worth binArrayAccounts bitmapExtension timestamp market cashbackSellIsReady .pumpToMeteora bounds ∧
      fails .pumpToMeteora bounds.maxAmount) ∨
    Probed binArrayAccounts bitmapExtension timestamp market cashbackSellIsReady bounds ∧
      (Worth binArrayAccounts bitmapExtension timestamp market cashbackSellIsReady .pumpToMeteora bounds →
        DirectionBuilds binArrayAccounts bitmapExtension timestamp market .pumpToMeteora
          bounds.maxAmount) ∧
      Worth binArrayAccounts bitmapExtension timestamp market cashbackSellIsReady .meteoraToPump bounds ∧
      fails .meteoraToPump bounds.maxAmount

/-- The first curve that cannot be built fails by leaving a machine word. -/
def OverflowsFirst : Prop :=
  FailsFirst binArrayAccounts bitmapExtension timestamp market cashbackSellIsReady bounds
    (DirectionOverflows binArrayAccounts bitmapExtension timestamp market)

/-- The error the decision is documented to return. -/
def Classified (error : ArbError) : Prop :=
  ((∀ direction, MinimumComplete binArrayAccounts bitmapExtension timestamp market cashbackSellIsReady
      direction bounds.minAmount) → error = .noProfitableDirection) ∧
    (¬ (∀ direction, MinimumComplete binArrayAccounts bitmapExtension timestamp market
      cashbackSellIsReady direction bounds.minAmount) → error = .bestDirectionQuoteIncomplete)

/-- No asked-for curve overflows first and, when both minimum quotes are complete,
every full search that is asked for has its curve and keeps its minimum. -/
def MinimaSurvive : Prop :=
  ¬ OverflowsFirst binArrayAccounts bitmapExtension timestamp market cashbackSellIsReady bounds ∧
    ((∀ direction, MinimumComplete binArrayAccounts bitmapExtension timestamp market cashbackSellIsReady
        direction bounds.minAmount) →
      ∀ direction, Worth binArrayAccounts bitmapExtension timestamp market cashbackSellIsReady direction
          bounds →
        DirectionBuilds binArrayAccounts bitmapExtension timestamp market direction bounds.maxAmount ∧
          KeepsMinimum binArrayAccounts bitmapExtension timestamp market direction bounds)

variable {binArrayAccounts bitmapExtension timestamp market cashbackSellIsReady bounds}

theorem probe_error {direction : SelectedDirection} {error : ArbError}
    (failed : probeAlone binArrayAccounts bitmapExtension timestamp market cashbackSellIsReady direction
      bounds = .error error) :
    directionReady cashbackSellIsReady direction = true ∧
      directionCurve binArrayAccounts bitmapExtension timestamp market direction bounds.minAmount =
        .error error := by
  unfold probeAlone at failed
  split at failed
  next ready =>
    refine ⟨ready, ?_⟩
    unfold probeDirection at failed
    cases built : directionCurve binArrayAccounts bitmapExtension timestamp market direction
        (minimumBounds bounds).minAmount with
    | ok curve => rw [built] at failed; cases failed
    | error other =>
        rw [built] at failed
        cases failed
        exact built
  next => cases failed

theorem expand_error {direction : SelectedDirection} {minimum : DirectionSearch} {error : ArbError}
    (failed : expandAlone binArrayAccounts bitmapExtension timestamp market direction bounds minimum =
      .error error) :
    expands minimum bounds = true ∧
      directionCurve binArrayAccounts bitmapExtension timestamp market direction bounds.maxAmount =
        .error error := by
  unfold expandAlone at failed
  split at failed
  next grows =>
    refine ⟨grows, ?_⟩
    unfold searchDirection at failed
    cases built : directionCurve binArrayAccounts bitmapExtension timestamp market direction
        bounds.maxAmount with
    | ok curve => rw [built] at failed; cases failed
    | error other =>
        rw [built] at failed
        cases failed
        rfl
  next => cases failed

/-- A failed selection met a curve that could not be built, or two outcomes that
its decision refused. -/
theorem select_error_cases {error : ArbError}
    (failed : selectDynamic binArrayAccounts bitmapExtension timestamp market cashbackSellIsReady
      bounds.minAmount bounds.maxAmount bounds.minProfit = .error error) :
    FailsFirst binArrayAccounts bitmapExtension timestamp market cashbackSellIsReady bounds
        (fun direction amount => directionCurve binArrayAccounts bitmapExtension timestamp market direction
          amount = .error error) ∨
      ∃ forward reverse,
        directionAlone binArrayAccounts bitmapExtension timestamp market cashbackSellIsReady .pumpToMeteora
            bounds = .ok forward ∧
          directionAlone binArrayAccounts bitmapExtension timestamp market cashbackSellIsReady
            .meteoraToPump bounds = .ok reverse ∧
          selectionOf forward reverse = .error error := by
  rw [select_dynamic_eq] at failed
  -- Both probes, both searches, then the decision: each stage knows that those before it ran.
  cases forwardProbe : probeAlone binArrayAccounts bitmapExtension timestamp market cashbackSellIsReady
      .pumpToMeteora bounds with
  | error other =>
      rw [forwardProbe] at failed
      cases failed
      exact .inl (.inl (probe_error forwardProbe).2)
  | ok forwardMinimum =>
  rw [forwardProbe, ok_bind] at failed
  have forwardBuilds := (probe_ok_iff _ _ _ _ _ _ bounds).mp ⟨forwardMinimum, forwardProbe⟩ rfl
  cases reverseProbe : probeAlone binArrayAccounts bitmapExtension timestamp market cashbackSellIsReady
      .meteoraToPump bounds with
  | error other =>
      rw [reverseProbe] at failed
      cases failed
      exact .inl (.inr (.inl ⟨forwardBuilds, probe_error reverseProbe⟩))
  | ok reverseMinimum =>
  rw [reverseProbe, ok_bind] at failed
  have probed : Probed binArrayAccounts bitmapExtension timestamp market cashbackSellIsReady bounds :=
    ⟨forwardBuilds, (probe_ok_iff _ _ _ _ _ _ bounds).mp ⟨reverseMinimum, reverseProbe⟩⟩
  have forwardWorth := expands_iff_worth _ _ _ _ _ forwardProbe
  have reverseWorth := expands_iff_worth _ _ _ _ _ reverseProbe
  cases forwardSearch : expandAlone binArrayAccounts bitmapExtension timestamp market .pumpToMeteora bounds
      forwardMinimum with
  | error other =>
      rw [forwardSearch] at failed
      cases failed
      obtain ⟨grows, unbuilt⟩ := expand_error forwardSearch
      exact .inl (.inr (.inr (.inl ⟨probed, forwardWorth.mp grows, unbuilt⟩)))
  | ok forward =>
  rw [forwardSearch, ok_bind] at failed
  have forwardFull := (expand_ok_iff _ _ _ _ _ _ _).mp ⟨forward, forwardSearch⟩
  cases reverseSearch : expandAlone binArrayAccounts bitmapExtension timestamp market .meteoraToPump bounds
      reverseMinimum with
  | error other =>
      rw [reverseSearch] at failed
      cases failed
      obtain ⟨grows, unbuilt⟩ := expand_error reverseSearch
      exact .inl (.inr (.inr (.inr ⟨probed, fun worth => forwardFull (forwardWorth.mpr worth),
        reverseWorth.mp grows, unbuilt⟩)))
  | ok reverse =>
  rw [reverseSearch, ok_bind] at failed
  refine .inr ⟨forward, reverse, ?_, ?_, failed⟩
  · unfold directionAlone
    rw [forwardProbe, ok_bind, forwardSearch]
  · unfold directionAlone
    rw [reverseProbe, ok_bind, reverseSearch]

theorem complete_builds {direction : SelectedDirection} {amount : Nat}
    (complete : MinimumComplete binArrayAccounts bitmapExtension timestamp market cashbackSellIsReady
      direction amount) :
    directionReady cashbackSellIsReady direction = true ∧
      DirectionBuilds binArrayAccounts bitmapExtension timestamp market direction amount := by
  obtain ⟨_, ready, curve, built, _⟩ := complete
  exact ⟨ready, (direction_builds_iff _ _ _ _ _ _).mpr ⟨curve, built⟩⟩

theorem decision_error {forward reverse : DirectionSearch} {error : ArbError}
    (failed : selectionOf forward reverse = .error error) :
    error = if forward.minimumQuoteComplete && reverse.minimumQuoteComplete then .noProfitableDirection
      else .bestDirectionQuoteIncomplete := by
  have refused (direction : SelectedDirection) (choice : DirectionChoice) :
      (outcomeOf forward reverse direction).best ≠ some choice := by
    intro found
    obtain ⟨selection, selected, _⟩ := selection_at_least (outcomeOf forward reverse) direction choice found
    cases selected.symm.trans failed
  have atForward : forward.best = none := Option.eq_none_iff_forall_ne_some.mpr (refused .pumpToMeteora)
  have atReverse : reverse.best = none := Option.eq_none_iff_forall_ne_some.mpr (refused .meteoraToPump)
  unfold selectionOf decideDynamicSearch at failed
  rw [atForward, atReverse] at failed
  dsimp only at failed
  by_cases both : (forward.minimumQuoteComplete && reverse.minimumQuoteComplete) = true
  · rw [if_pos both] at failed ⊢
    cases failed
    rfl
  · rw [if_neg both] at failed ⊢
    cases failed
    rfl

theorem overflow_unbuilt {direction : SelectedDirection} {amount : Nat}
    (overflows : DirectionOverflows binArrayAccounts bitmapExtension timestamp market direction amount) :
    ¬ DirectionBuilds binArrayAccounts bitmapExtension timestamp market direction amount := by
  intro builds
  obtain ⟨curve, built⟩ := (curve_builds_iff _ _ _ _ _ _).mp builds
  cases built.symm.trans ((curve_overflows_iff _ _ _ _ _ _).mp overflows)

theorem error_split {direction : SelectedDirection} {amount : Nat} {error : ArbError}
    (failed : directionCurve binArrayAccounts bitmapExtension timestamp market direction amount =
      .error error) :
    ¬ DirectionBuilds binArrayAccounts bitmapExtension timestamp market direction amount ∧
      (error = .arithmeticOverflow ↔
        DirectionOverflows binArrayAccounts bitmapExtension timestamp market direction amount) ∧
      (error = .arithmeticOverflow ∨ error = .bestDirectionQuoteIncomplete) := by
  refine ⟨fun builds => ?_, ?_, build_curve_error _ _ _ _ _ _ failed⟩
  · obtain ⟨curve, built⟩ := (direction_builds_iff _ _ _ _ _ _).mp builds
    cases built.symm.trans failed
  · unfold DirectionOverflows
    rw [curve_overflows_iff]
    unfold directionCurve at failed
    rw [failed, Except.error.injEq]

/-- A first failure decides by its own kind. -/
theorem first_failure {error : ArbError}
    (failed : FailsFirst binArrayAccounts bitmapExtension timestamp market cashbackSellIsReady bounds
      fun direction amount => directionCurve binArrayAccounts bitmapExtension timestamp market direction
        amount = .error error) :
    (error = .arithmeticOverflow ∨ error = .bestDirectionQuoteIncomplete) ∧
      (error = .arithmeticOverflow ↔
        OverflowsFirst binArrayAccounts bitmapExtension timestamp market cashbackSellIsReady bounds) ∧
      ((∀ direction, MinimumComplete binArrayAccounts bitmapExtension timestamp market cashbackSellIsReady
          direction bounds.minAmount) →
        ∃ direction, Worth binArrayAccounts bitmapExtension timestamp market cashbackSellIsReady direction
            bounds ∧
          ¬ DirectionBuilds binArrayAccounts bitmapExtension timestamp market direction
            bounds.maxAmount) := by
  unfold OverflowsFirst FailsFirst
  unfold FailsFirst at failed
  -- One case for each curve the search asks for, in its order: both probes, then both full ranges.
  rcases failed with failed | ⟨builds, ready, failed⟩ | ⟨⟨builds, probed⟩, worth, failed⟩ |
      ⟨⟨builds, probed⟩, expanded, worth, failed⟩
  · obtain ⟨unbuilt, overflows, kinds⟩ := error_split failed
    refine ⟨kinds, ⟨fun same => .inl (overflows.mp same), ?_⟩, fun complete => ?_⟩
    · rintro (overflow | ⟨built, _⟩ | ⟨⟨built, _⟩, _⟩ | ⟨⟨built, _⟩, _⟩)
      exacts [overflows.mpr overflow, absurd built unbuilt, absurd built unbuilt, absurd built unbuilt]
    · exact absurd (complete_builds (complete .pumpToMeteora)).2 unbuilt
  · obtain ⟨unbuilt, overflows, kinds⟩ := error_split failed
    refine ⟨kinds, ⟨fun same => .inr (.inl ⟨builds, ready, overflows.mp same⟩), ?_⟩, fun complete => ?_⟩
    · rintro (early | ⟨_, _, overflow⟩ | ⟨⟨_, built⟩, _⟩ | ⟨⟨_, built⟩, _⟩)
      exacts [absurd builds (overflow_unbuilt early), overflows.mpr overflow, absurd (built ready) unbuilt,
        absurd (built ready) unbuilt]
    · exact absurd (complete_builds (complete .meteoraToPump)).2 unbuilt
  · obtain ⟨unbuilt, overflows, kinds⟩ := error_split failed
    refine ⟨kinds, ⟨fun same => .inr (.inr (.inl ⟨⟨builds, probed⟩, worth, overflows.mp same⟩)), ?_⟩,
      fun _ => ⟨_, worth, unbuilt⟩⟩
    rintro (early | ⟨_, ready, early⟩ | ⟨_, _, overflow⟩ | ⟨_, built, _⟩)
    exacts [absurd builds (overflow_unbuilt early), absurd (probed ready) (overflow_unbuilt early),
      overflows.mpr overflow, absurd (built worth) unbuilt]
  · obtain ⟨unbuilt, overflows, kinds⟩ := error_split failed
    refine ⟨kinds, ⟨fun same => .inr (.inr (.inr ⟨⟨builds, probed⟩, expanded, worth, overflows.mp same⟩)),
      ?_⟩, fun _ => ⟨_, worth, unbuilt⟩⟩
    rintro (early | ⟨_, ready, early⟩ | ⟨_, asked, early⟩ | ⟨_, _, _, overflow⟩)
    exacts [absurd builds (overflow_unbuilt early), absurd (probed ready) (overflow_unbuilt early),
      absurd (expanded asked) (overflow_unbuilt early), overflows.mpr overflow]

end Stages

section Classification
variable {binArrayAccounts bitmapExtension timestamp market cashbackSellIsReady}

/-- Two outcomes leave no room for a curve that was not built. -/
theorem outcomes_no_overflow {bounds : DynamicSearchBounds}
    (ran : ∀ direction, ∃ search, directionAlone binArrayAccounts bitmapExtension timestamp market
      cashbackSellIsReady direction bounds = .ok search) :
    ¬ OverflowsFirst binArrayAccounts bitmapExtension timestamp market cashbackSellIsReady bounds := by
  have built (direction : SelectedDirection) := (alone_ok_iff _ _ _ _ _ _ _).mp (ran direction)
  rintro (early | ⟨_, ready, early⟩ | ⟨_, asked, early⟩ | ⟨_, _, asked, early⟩)
  · exact overflow_unbuilt early ((built .pumpToMeteora).1 rfl)
  · exact overflow_unbuilt early ((built .meteoraToPump).1 ready)
  · exact overflow_unbuilt early ((built .pumpToMeteora).2 asked)
  · exact overflow_unbuilt early ((built .meteoraToPump).2 asked)

/-- A run that met an unbuilt curve. -/
theorem unbuilt_classified {bounds : DynamicSearchBounds} {error : ArbError}
    (failed : FailsFirst binArrayAccounts bitmapExtension timestamp market cashbackSellIsReady bounds
      fun direction amount => directionCurve binArrayAccounts bitmapExtension timestamp market direction
        amount = .error error) :
    Classified binArrayAccounts bitmapExtension timestamp market cashbackSellIsReady bounds error ↔
      MinimaSurvive binArrayAccounts bitmapExtension timestamp market cashbackSellIsReady bounds := by
  unfold Classified MinimaSurvive
  obtain ⟨kinds, overflows, lost⟩ := first_failure failed
  by_cases both : ∀ direction, MinimumComplete binArrayAccounts bitmapExtension timestamp market
      cashbackSellIsReady direction bounds.minAmount
  · -- With both minima complete the unbuilt curve is that of a full search: neither side holds.
    obtain ⟨direction, worth, unbuilt⟩ := lost both
    constructor
    · rintro ⟨classified, _⟩
      rcases kinds with same | same <;> cases same.symm.trans (classified both)
    · rintro ⟨_, survive⟩
      exact absurd (survive both direction worth).1 unbuilt
  · rw [← overflows]
    constructor
    · rintro ⟨_, classified⟩
      refine ⟨fun overflow => ?_, fun whole => absurd whole both⟩
      cases overflow.symm.trans (classified both)
    · rintro ⟨calm, _⟩
      exact ⟨fun whole => absurd whole both, fun _ => kinds.resolve_left calm⟩

theorem both_complete_iff {bounds : DynamicSearchBounds} {forward reverse : DirectionSearch}
    (forwardRan : directionAlone binArrayAccounts bitmapExtension timestamp market cashbackSellIsReady
      .pumpToMeteora bounds = .ok forward)
    (reverseRan : directionAlone binArrayAccounts bitmapExtension timestamp market cashbackSellIsReady
      .meteoraToPump bounds = .ok reverse) :
    (forward.minimumQuoteComplete && reverse.minimumQuoteComplete) = true ↔
      ∀ direction, MinimumComplete binArrayAccounts bitmapExtension timestamp market cashbackSellIsReady
          direction bounds.minAmount ∧
        (Worth binArrayAccounts bitmapExtension timestamp market cashbackSellIsReady direction bounds →
          KeepsMinimum binArrayAccounts bitmapExtension timestamp market direction bounds) := by
  rw [Bool.and_eq_true, alone_complete_iff forwardRan, alone_complete_iff reverseRan]
  constructor
  · rintro ⟨first, second⟩ direction
    cases direction with
    | pumpToMeteora => exact first
    | meteoraToPump => exact second
  · intro all
    exact ⟨all .pumpToMeteora, all .meteoraToPump⟩

/-- A run that got to its decision and was refused there. -/
theorem decided_classified {bounds : DynamicSearchBounds} {forward reverse : DirectionSearch} {error : ArbError}
    (forwardRan : directionAlone binArrayAccounts bitmapExtension timestamp market cashbackSellIsReady
      .pumpToMeteora bounds = .ok forward)
    (reverseRan : directionAlone binArrayAccounts bitmapExtension timestamp market cashbackSellIsReady
      .meteoraToPump bounds = .ok reverse)
    (decided : selectionOf forward reverse = .error error) :
    Classified binArrayAccounts bitmapExtension timestamp market cashbackSellIsReady bounds error ↔
      MinimaSurvive binArrayAccounts bitmapExtension timestamp market cashbackSellIsReady bounds := by
  have ran (direction : SelectedDirection) : ∃ search, directionAlone binArrayAccounts bitmapExtension
      timestamp market cashbackSellIsReady direction bounds = .ok search := by
    cases direction with
    | pumpToMeteora => exact ⟨forward, forwardRan⟩
    | meteoraToPump => exact ⟨reverse, reverseRan⟩
  have built (direction : SelectedDirection) := (alone_ok_iff _ _ _ _ _ _ _).mp (ran direction)
  have flags := both_complete_iff forwardRan reverseRan
  unfold Classified MinimaSurvive
  rw [decision_error decided]
  constructor
  · rintro ⟨classified, _⟩
    refine ⟨outcomes_no_overflow ran, fun both direction worth => ⟨(built direction).2 worth, ?_⟩⟩
    have complete := classified both
    split at complete
    next kept => exact (flags.mp kept direction).2 worth
    next => cases complete
  · rintro ⟨_, survive⟩
    constructor
    · intro both
      rw [if_pos (flags.mpr fun direction => ⟨both direction, fun worth => (survive both direction worth).2⟩)]
    · intro missing
      rw [if_neg fun kept => missing fun direction => (flags.mp kept direction).1]

/-- A failed selection is classified as documented exactly when its minima survive. -/
theorem failure_classified_iff (bounds : DynamicSearchBounds) (error : ArbError)
    (failed : selectDynamic binArrayAccounts bitmapExtension timestamp market cashbackSellIsReady
      bounds.minAmount bounds.maxAmount bounds.minProfit = .error error) :
    Classified binArrayAccounts bitmapExtension timestamp market cashbackSellIsReady bounds error ↔
      MinimaSurvive binArrayAccounts bitmapExtension timestamp market cashbackSellIsReady bounds := by
  rcases select_error_cases failed with first | ⟨forward, reverse, forwardRan, reverseRan, decided⟩
  · exact unbuilt_classified first
  · exact decided_classified forwardRan reverseRan decided

end Classification

/-! Both minimum quotes of the profitable market complete, but the bin after the
active one has a price at which its input leaves its word, and only the full
search of the profitable direction gets there. -/
section Unreached
open CurveSoundness BinArrayLayout

def unreachedArray : AccountInfo :=
  binArrayAccount meteoraDlmmProgramId meteoraDlmmProgramId 0
    [{ payingBin 2 with priceQ64 := 1 }, { payingBin 1000 with priceQ64 := 2 ^ 65, amountX := 1000 }]

def wideBounds : DynamicSearchBounds where
  minAmount := 100
  maxAmount := 600
  minProfit := 1

theorem complete_minimum {arrays : List AccountInfo} {bounds : DynamicSearchBounds}
    {direction : SelectedDirection}
    (evaluated : ((directionCurve arrays none 0 profitableMarket direction bounds.minAmount).toOption.bind
      fun curve => (evaluateIn profitableMarket direction curve bounds.minAmount).toOption).isSome = true) :
    MinimumComplete arrays none 0 profitableMarket true direction bounds.minAmount := by
  obtain ⟨quote, found⟩ := Option.isSome_iff_exists.mp evaluated
  obtain ⟨curve, built, evaluated⟩ := Option.bind_eq_some_iff.mp found
  exact ⟨quote, by cases direction <;> rfl, curve, (to_option_some _ _).mp built,
    (to_option_some _ _).mp evaluated⟩

/-- One amount is selected, the wider range fails after both of its minimum quotes. -/
theorem unreached_selections :
    (selectDynamic [unreachedArray] none 0 profitableMarket true 100 100 1).toOption.isSome = true ∧
    (match selectDynamic [unreachedArray] none 0 profitableMarket true 100 600 1 with
      | .ok _ => none
      | .error error => some error) = some .bestDirectionQuoteIncomplete ∧
    ∀ direction, ((directionCurve [unreachedArray] none 0 profitableMarket direction 100).toOption.bind
      fun curve => (evaluateIn profitableMarket direction curve 100).toOption).isSome = true := by
  refine ⟨by decide +kernel, by decide +kernel, fun direction => ?_⟩
  cases direction <;> decide +kernel

theorem unreached_not_classified :
    ∃ error, selectDynamic [unreachedArray] none 0 profitableMarket true wideBounds.minAmount
        wideBounds.maxAmount wideBounds.minProfit = .error error ∧
      ¬ Classified [unreachedArray] none 0 profitableMarket true wideBounds error := by
  obtain ⟨_, failed, complete⟩ := unreached_selections
  refine ⟨.bestDirectionQuoteIncomplete, ?_, fun classified => ?_⟩
  · change selectDynamic [unreachedArray] none 0 profitableMarket true 100 600 1 = _
    split at failed
    · cases failed
    next ran => rw [ran, Option.some.inj failed]
  · exact absurd (classified.1 fun direction => complete_minimum (complete direction)) (by decide)

def narrowBounds : DynamicSearchBounds where
  minAmount := 100
  maxAmount := 100
  minProfit := 600

theorem failure_classified_narrow :
    Classified [unreachedArray] none 0 profitableMarket true narrowBounds .noProfitableDirection := by
  have failed : selectDynamic [unreachedArray] none 0 profitableMarket true narrowBounds.minAmount
      narrowBounds.maxAmount narrowBounds.minProfit = .error .noProfitableDirection := by
    have ran : (match selectDynamic [unreachedArray] none 0 profitableMarket true narrowBounds.minAmount
        narrowBounds.maxAmount narrowBounds.minProfit with
      | .ok _ => none
      | .error error => some error) = some .noProfitableDirection := by decide +kernel
    split at ran
    · cases ran
    next same => rw [same, Option.some.inj ran]
  refine (failure_classified_iff narrowBounds _ failed).mpr ⟨outcomes_no_overflow fun direction => ?_,
    fun _ direction worth => absurd rfl worth.1⟩
  have finishes : (directionAlone [unreachedArray] none 0 profitableMarket true direction
      narrowBounds).toOption.isSome = true := by
    cases direction <;> decide +kernel
  obtain ⟨search, ran⟩ := Option.isSome_iff_exists.mp finishes
  exact ⟨search, (to_option_some _ _).mp ran⟩

end Unreached

end ArbExecutor.FailureClass
