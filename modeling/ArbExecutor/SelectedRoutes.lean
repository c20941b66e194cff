import ArbExecutor.RouteSafety
import ArbExecutor.SuppliedArrays
import ArbExecutor.FixedParity

/-!
The two selecting instructions against what they execute. The arrays handed to
the DLMM swap are the ones the quote went through, in the order it did, and they
are enough for the quote; the swap goes the way it was quoted; an announced
amount is the amount spent.
-/

namespace ArbExecutor.SelectedRoutes

open Checked QuoteMath QuoteAccounts AccountValidation BinArrayLayout MarketLayouts AccountPrefixes
  DexAdapters RouteAccounts BestDirection DynamicAmount RouteHandlers RouteTraces
  RouteSafety SuppliedArrays DirectionOutcome ExactSelection MockDex

/-! A traversal reads the array list only at the indices it reports. -/
section UsedArrays
variable {pair : LbPairState} {arrays fewer : List AccountInfo} {bitmapExtension : Option Bytes}
  {swapForY feeOnInput supportsLimitOrders : Bool}

theorem enter_array_keeps {used next : List Int} {arrayIndex : Int}
    (entered : enterArray used arrayIndex = some next) : used ⊆ next ∧ arrayIndex ∈ next := by
  unfold enterArray at entered
  split at entered
  · rename_i last
    cases entered
    exact ⟨List.Subset.refl _, List.mem_of_getLast? last⟩
  · split at entered
    · cases entered
    · cases entered
      exact ⟨List.subset_append_left _ _, List.mem_append_right _ (List.mem_singleton_self _)⟩

/-- What entering an array keeps, a traversal keeps. -/
theorem bins_used_keep (Kept : List Int → Prop)
    (enters : ∀ used next arrayIndex, Kept used → enterArray used arrayIndex = some next → Kept next)
    (visits : Nat) (state final : AccountTraversal)
    (ran : quoteAccountBins pair arrays bitmapExtension swapForY feeOnInput supportsLimitOrders visits
      state = .ok final) (kept : Kept state.usedIndices) :
    Kept final.usedIndices := by
  induction visits generalizing state with
  | zero => cases ran; exact kept
  | succ visits ih =>
      unfold quoteAccountBins at ran
      split at ran
      · cases ran
        exact kept
      · obtain ⟨initialized, _, ran⟩ := (bind_ok_iff _ _ _).mp ran
        split at ran
        · exact ih _ ran kept
        · simp only [bind_ok_iff, ok_or_eq_ok] at ran
          obtain ⟨_, _, used, entered, _, _, _, _, _, _, _, _, ran⟩ := ran
          exact ih _ ran (enters _ _ _ kept entered)

theorem bins_used_grow (visits : Nat) (state final : AccountTraversal)
    (ran : quoteAccountBins pair arrays bitmapExtension swapForY feeOnInput supportsLimitOrders visits
      state = .ok final) :
    state.usedIndices ⊆ final.usedIndices :=
  bins_used_keep (state.usedIndices ⊆ ·)
    (fun _ _ _ grown entered => List.Subset.trans grown (enter_array_keeps entered).1) visits state
    final ran (List.Subset.refl _)

/-- Any list with the same lookups at the reported indices gives the same run. -/
theorem bins_restricted (visits : Nat) (state final : AccountTraversal)
    (ran : quoteAccountBins pair arrays bitmapExtension swapForY feeOnInput supportsLimitOrders visits
      state = .ok final)
    (same : ∀ index ∈ final.usedIndices, findBinArray fewer index = findBinArray arrays index) :
    quoteAccountBins pair fewer bitmapExtension swapForY feeOnInput supportsLimitOrders visits state =
      .ok final := by
  induction visits generalizing state with
  | zero => exact ran
  | succ visits ih =>
      unfold quoteAccountBins at ran ⊢
      split at ran
      next settled => rw [if_pos settled]; exact ran
      next open_ =>
        rw [if_neg open_]
        obtain ⟨initialized, present, ran⟩ := (bind_ok_iff _ _ _).mp ran
        refine (bind_ok_iff _ _ _).mpr ⟨initialized, present, ?_⟩
        split at ran
        next absent => rw [if_pos absent]; exact ih _ ran
        next standing =>
          rw [if_neg standing]
          simp only [bind_ok_iff, ok_or_eq_ok] at ran ⊢
          obtain ⟨account, located, used, entered, bin, parsed, filled, priced, remaining, left,
            amountOut, paid, ran⟩ := ran
          -- The index looked up here is among the ones the finished run reports.
          have reported := bins_used_grow _ _ _ ran (enter_array_keeps entered).2
          exact ⟨account, (same _ reported).trans located, used, entered, bin, parsed, filled, priced,
            remaining, left, amountOut, paid, ih _ ran⟩

theorem found_array {index : Int} {account : AccountInfo}
    (located : findBinArray arrays index = some account) :
    account ∈ arrays ∧ embeddedIndex account = some index := by
  unfold findBinArray at located
  have fits := List.find?_some located
  exact ⟨List.mem_of_find?_eq_some located, eq_of_beq fits⟩

/-- Among the selected accounts an index is found where it was found before. -/
theorem find_among_ordered {selected : List AccountInfo} {indices : List Int}
    (ordered : BestDirection.orderedBinArrays arrays indices = .ok selected) (index : Int)
    (member : index ∈ indices) : findBinArray selected index = findBinArray arrays index := by
  have listed := ordered_arrays_found _ _ _ ordered
  have given : findBinArray arrays index ∈ selected.map some := by
    rw [← listed]
    exact List.mem_map_of_mem member
  obtain ⟨found, inSelected, located⟩ := List.mem_map.mp given
  have fits := (found_array located.symm).2
  cases chosen : findBinArray selected index with
  | none =>
      have missed := List.find?_eq_none.mp chosen found inSelected
      exact absurd (beq_iff_eq.mpr fits) missed
  | some account =>
      obtain ⟨present, embedded⟩ := found_array chosen
      -- What stands among the selected was itself found under its own index.
      have original : some account ∈ indices.map (findBinArray arrays) := by
        rw [listed]
        exact List.mem_map_of_mem present
      obtain ⟨wanted, _, source⟩ := List.mem_map.mp original
      have same := (found_array source).2
      rw [embedded] at same
      cases same
      exact source.symm

/-- The arrays a complete quote used are enough to quote again. -/
theorem quote_on_used {amountIn : Nat} {timestamp : Int64} {quote : AccountDataQuote}
    {selected : List AccountInfo}
    (quoted : quoteDlmmFromAccounts amountIn pair arrays bitmapExtension swapForY timestamp = .ok quote)
    (ordered : BestDirection.orderedBinArrays arrays quote.usedIndices = .ok selected) :
    quoteDlmmFromAccounts amountIn pair selected bitmapExtension swapForY timestamp = .ok quote := by
  unfold quoteDlmmFromAccounts at quoted ⊢
  simp only [bind_ok_iff] at quoted ⊢
  obtain ⟨onInput, first, supports, second, state, ran, done, settled, finished⟩ := quoted
  cases finished
  exact ⟨onInput, first, supports, second, state,
    bins_restricted _ _ _ ran (find_among_ordered ordered), done, settled, rfl⟩

/-- A quote goes through at most two arrays and through none of them twice. -/
theorem quote_uses_few {amountIn : Nat} {timestamp : Int64} {quote : AccountDataQuote}
    (quoted : quoteDlmmFromAccounts amountIn pair arrays bitmapExtension swapForY timestamp = .ok quote) :
    quote.usedIndices.length ≤ maxQuoteBinArraysPerDirection ∧ quote.usedIndices.Nodup := by
  unfold quoteDlmmFromAccounts at quoted
  simp only [bind_ok_iff] at quoted
  obtain ⟨_, _, _, _, state, ran, _, _, finished⟩ := quoted
  cases finished
  refine bins_used_keep (fun used => used.length ≤ maxQuoteBinArraysPerDirection ∧ used.Nodup)
    (fun _ _ _ kept entered => ?_) _ _ _ ran ⟨Nat.zero_le _, List.nodup_nil⟩
  have arrived := CurveShape.enter_array_used kept.1 kept.2 entered
  exact ⟨arrived.2.1, arrived.2.2⟩

end UsedArrays

section FixedAmount
variable {runtime : Runtime} (context : RouteContext runtime)

/-- The same instruction with other accounts behind the fixed list. -/
def withArrays (arrays : List AccountRef) : RouteContext runtime :=
  { context with remainingAccounts := arrays }

/-- A route's quote from the accounts of an instruction. -/
def contextQuote (market : MarketState) (ready : Bool) (amountIn : Nat)
    (direction : SelectedDirection) : Option (Nat × List Int) :=
  FixedParity.routeQuote (arrayInfos context) (bitmapExtension context) runtime.unixTimestamp market
    ready amountIn direction

/-- The entries a selection returns carry the wanted indices, in the order wanted. -/
theorem ordered_refs_infos {indices : List Int} {refs : List AccountRef}
    (ordered : orderedArrayRefs context indices = .ok refs) :
    BestDirection.orderedBinArrays (arrayInfos context) indices =
        .ok (arrayInfos (withArrays context refs)) ∧
      (arrayInfos (withArrays context refs)).map embeddedIndex = indices.map some := by
  unfold orderedArrayRefs at ordered
  obtain ⟨infos, found, mapped⟩ := (bind_ok_iff _ _ _).mp ordered
  cases mapped
  have listed := ordered_arrays_found _ _ _ found
  have original (info : AccountInfo) (member : info ∈ infos) :
      (entryOf info).info context.ledger = info := by
    have given : some info ∈ indices.map (findBinArray (arrayInfos context)) := by
      rw [listed]
      exact List.mem_map_of_mem member
    obtain ⟨index, _, located⟩ := List.mem_map.mp given
    obtain ⟨entry, _, rfl⟩ := List.mem_map.mp (found_array located).1
    rfl
  have restored : arrayInfos (withArrays context (infos.map entryOf)) = infos := by
    unfold arrayInfos withArrays
    rw [List.map_map]
    exact (List.map_congr_left original).trans (List.map_id infos)
  have carried (index : Int) (member : index ∈ indices) :
      (findBinArray (arrayInfos context) index).bind embeddedIndex = some index := by
    have given : findBinArray (arrayInfos context) index ∈ infos.map some := by
      rw [← listed]
      exact List.mem_map_of_mem member
    obtain ⟨info, _, located⟩ := List.mem_map.mp given
    rw [← located]
    exact (found_array located.symm).2
  rw [restored]
  refine ⟨found, ?_⟩
  calc infos.map embeddedIndex
      = (infos.map some).map (·.bind embeddedIndex) := by rw [List.map_map]; rfl
    _ = indices.map fun index => (findBinArray (arrayInfos context) index).bind embeddedIndex := by
        rw [← listed, List.map_map]; rfl
    _ = indices.map some := List.map_congr_left carried

/-- A route quotes the same from the arrays it used alone. -/
theorem context_quote_on_used {market : MarketState} {ready : Bool} {amountIn out : Nat}
    {direction : SelectedDirection} {used : List Int} {refs : List AccountRef}
    (quoted : contextQuote context market ready amountIn direction = some (out, used))
    (ordered : orderedArrayRefs context used = .ok refs) :
    contextQuote (withArrays context refs) market ready amountIn direction = some (out, used) := by
  unfold contextQuote at quoted ⊢
  obtain ⟨allowed, input, dlmm, reached, direct, paid, rfl⟩ :=
    (FixedParity.route_quote_some _ _ _ _ _ _ _ _ _).mp quoted
  have again := quote_on_used direct (ordered_refs_infos context ordered).1
  exact (FixedParity.route_quote_some _ _ _ _ _ _ _ _ _).mpr
    ⟨allowed, input, dlmm, reached, again, paid, rfl⟩

theorem context_selection_iff (market : MarketState) (ready : Bool) (amountIn minProfit : Nat)
    (direction : SelectedDirection) (used : List Int) :
    BestDirection.selectDirection market ready (arrayInfos context) (bitmapExtension context) amountIn
        minProfit runtime.unixTimestamp = .ok (direction, used) ↔
      ∃ out, contextQuote context market ready amountIn direction = some (out, used) ∧
        amountIn + minProfit < 2 ^ 64 ∧ amountIn + minProfit ≤ out ∧
        ∀ rival rivalOut, (contextQuote context market ready amountIn rival).map Prod.fst =
          some rivalOut → rivalOut ≤ out ∧
            (rival = .pumpToMeteora → rivalOut = out → direction = .pumpToMeteora) :=
  FixedParity.select_direction_iff _ _ _ _ _ amountIn minProfit direction used

/-- Under distinct indices the selected entries are the only ones with the wanted indices. -/
theorem ordered_refs_iff (distinct : ListChoice.Distinct embeddedIndex (arrayInfos context))
    (indices : List Int) (refs : List AccountRef) :
    orderedArrayRefs context indices = .ok refs ↔
      refs ⊆ context.remainingAccounts ∧
        (arrayInfos (withArrays context refs)).map embeddedIndex = indices.map some := by
  constructor
  · exact fun ordered =>
      ⟨ordered_refs_subset context _ _ ordered, (ordered_refs_infos context ordered).2⟩
  · rintro ⟨given, carried⟩
    unfold orderedArrayRefs BestDirection.orderedBinArrays
    induction refs generalizing indices with
    | nil =>
        cases indices with
        | nil => rfl
        | cons index rest => cases carried
    | cons entry rest ih =>
        cases indices with
        | nil => cases carried
        | cons index later =>
            obtain ⟨own, others⟩ := List.cons.inj carried
            have member : entry.info context.ledger ∈ arrayInfos context :=
              List.mem_map_of_mem (given List.mem_cons_self)
            have located : findBinArray (arrayInfos context) index = some (entry.info context.ledger) :=
              (ListChoice.first_match_iff distinct _ _).mpr ⟨member, own⟩
            have tail := ih later (List.subset_of_cons_subset given) others
            obtain ⟨infos, found, mapped⟩ := (bind_ok_iff _ _ _).mp tail
            rw [List.mapM_cons, located]
            simp only [ok_or_some, ok_bind, found, pure_ok, List.map_cons] at mapped ⊢
            cases mapped
            rfl

theorem quote_accounts_distinct (accepted : validateQuoteAccounts context = .ok ()) :
    ListChoice.Distinct embeddedIndex (arrayInfos context) := by
  unfold validateQuoteAccounts at accepted
  simp only [bind_ok_iff] at accepted
  obtain ⟨_, _, _, _, _, _, _, _, _, _, _, _, _, _, arrays⟩ := accepted
  exact validated_distinct _ _ arrays

/-- What the fixed-amount instruction decides before it calls anything. -/
structure FixedDecision where
  market : MarketState
  ready : Bool
  direction : SelectedDirection
  amountOut : Nat
  usedIndices : List Int
  binArrays : List AccountRef

/-- The decision the accounts call for. -/
structure FixedDecision.Justified (decision : FixedDecision) (amountIn minProfit : Nat) : Prop where
  parsed : parseMarket context = .ok decision.market
  readiness : cashbackSellIsReady context.ledger context.accounts.pumpAccounts = .ok decision.ready
  quoted : contextQuote context decision.market decision.ready amountIn decision.direction =
    some (decision.amountOut, decision.usedIndices)
  fits : amountIn + minProfit < 2 ^ 64
  enough : amountIn + minProfit ≤ decision.amountOut
  best : ∀ rival rivalOut,
    (contextQuote context decision.market decision.ready amountIn rival).map Prod.fst = some rivalOut →
      rivalOut ≤ decision.amountOut ∧ (rival = .pumpToMeteora → rivalOut = decision.amountOut →
        decision.direction = .pumpToMeteora)
  given : decision.binArrays ⊆ context.remainingAccounts
  inOrder : (arrayInfos (withArrays context decision.binArrays)).map embeddedIndex =
    decision.usedIndices.map some

/-- The arrays of a justified decision number at most two and carry the quote alone. -/
theorem justified_sufficient {decision : FixedDecision} {amountIn minProfit : Nat}
    (accepted : validateQuoteAccounts context = .ok ())
    (justified : decision.Justified context amountIn minProfit) :
    decision.binArrays.length ≤ maxQuoteBinArraysPerDirection ∧
      contextQuote (withArrays context decision.binArrays) decision.market decision.ready amountIn
        decision.direction = some (decision.amountOut, decision.usedIndices) := by
  have ordered := (ordered_refs_iff context (quote_accounts_distinct context accepted) _ _).mpr
    ⟨justified.given, justified.inOrder⟩
  refine ⟨?_, context_quote_on_used context justified.quoted ordered⟩
  have quoted := justified.quoted
  unfold contextQuote at quoted
  obtain ⟨_, _, dlmm, _, direct, _, used⟩ :=
    (FixedParity.route_quote_some _ _ _ _ _ _ _ _ _).mp quoted
  have sameLength := congrArg List.length justified.inOrder
  unfold arrayInfos withArrays at sameLength
  simp only [List.length_map] at sameLength
  rw [sameLength, ← used]
  exact (quote_uses_few direct).1

/-- The fixed-amount instruction is the direct instruction of the decision its
accounts call for: it succeeds when that does, with the arrays the quote went
through and no others, and then in the same way. Two arrays at most are handed
on, and they alone give the quote again. -/
theorem best_direction_is_direct (amountIn minProfit : UInt64) (final : RouteRun) :
    bestDirectionHandler context amountIn minProfit = .ok final ↔
      validateQuoteAccounts context = .ok () ∧ ∃ decision : FixedDecision,
        decision.Justified context amountIn.toNat minProfit.toNat ∧
        (decision.binArrays.length ≤ maxQuoteBinArraysPerDirection ∧
          contextQuote (withArrays context decision.binArrays) decision.market decision.ready
            amountIn.toNat decision.direction = some (decision.amountOut, decision.usedIndices)) ∧
        directHandler (withArrays context decision.binArrays) decision.direction amountIn minProfit =
          .ok final := by
  unfold bestDirectionHandler directHandler
  constructor
  · intro ran
    simp only [bind_ok_iff, checked_ok] at ran
    obtain ⟨_, args, _, mints, _, accepted, ⟨direction, used⟩, selected, arrays, ordered, executed⟩ := ran
    unfold selectDirectionFromAccounts at selected
    obtain ⟨market, parsed, selected⟩ := (bind_ok_iff _ _ _).mp selected
    obtain ⟨ready, readiness, selected⟩ := (bind_ok_iff _ _ _).mp selected
    obtain ⟨out, quoted, fits, enough, best⟩ := (context_selection_iff context _ _ _ _ _ _).mp selected
    obtain ⟨given, inOrder⟩ :=
      (ordered_refs_iff context (quote_accounts_distinct context accepted) _ _).mp ordered
    have justified : FixedDecision.Justified context ⟨market, ready, direction, out, used, arrays⟩
        amountIn.toNat minProfit.toNat :=
      ⟨parsed, readiness, quoted, fits, enough, best, given, inOrder⟩
    refine ⟨accepted, _, justified, justified_sufficient context accepted justified, ?_⟩
    simp only [bind_ok_iff, checked_ok]
    exact ⟨_, args, _, mints, executed⟩
  · rintro ⟨accepted, decision, justified, _, ran⟩
    simp only [bind_ok_iff, checked_ok] at ran
    obtain ⟨_, args, _, mints, executed⟩ := ran
    have selected : selectDirectionFromAccounts context amountIn.toNat minProfit.toNat =
        .ok (decision.direction, decision.usedIndices) := by
      unfold selectDirectionFromAccounts
      rw [justified.parsed, ok_bind, justified.readiness, ok_bind]
      exact (context_selection_iff context _ _ _ _ _ _).mpr
        ⟨_, justified.quoted, justified.fits, justified.enough, justified.best⟩
    have ordered := (ordered_refs_iff context (quote_accounts_distinct context accepted) _ _).mpr
      ⟨justified.given, justified.inOrder⟩
    simp only [bind_ok_iff, checked_ok]
    exact ⟨_, args, _, mints, _, accepted, _, selected, _, ordered, executed⟩

example : (bestDirectionHandler sampleContext 100 1).toOption.isSome = true := by decide +kernel

end FixedAmount

section ChosenAmount
variable {runtime : Runtime} (context : RouteContext runtime)

/-- Events in front of a route's own do not reach into it. -/
theorem execute_announced (direction : SelectedDirection) (binArrays : List AccountRef)
    (amountIn minProfit : Nat) (announced : List ProgramEvent) (final : RouteRun) :
    executeDirection runtime context.accounts direction binArrays amountIn minProfit
        { opened context with events := announced } = .ok final ↔
      ∃ direct, executeDirection runtime context.accounts direction binArrays amountIn minProfit
          (opened context) = .ok direct ∧
        final = { direct with events := announced ++ direct.events } := by
  rw [execute_direction_eq]
  simp only [execute_route_iff]
  constructor
  · rintro ⟨trace, completes, rfl⟩
    -- A trace reads the ledger and the two balances of its start alone.
    exact ⟨_, ⟨trace, { completes with }, rfl⟩, rfl⟩
  · rintro ⟨_, ⟨trace, completes, rfl⟩, rfl⟩
    exact ⟨trace, { completes with }, rfl⟩

/-- A selected amount lies in the range, and what it returns covers it and the profit. -/
theorem selection_earns {market : MarketState} {ready : Bool} {arrays : List AccountInfo}
    {extension : Option Bytes} {timestamp : Int64} {minAmount maxAmount minProfit : Nat}
    {selection : DynamicSelection} (ordered : minAmount ≤ maxAmount) (profitable : 0 < minProfit)
    (selected : DynamicAmount.selectDynamic arrays extension timestamp market ready minAmount maxAmount
      minProfit = .ok selection) :
    (minAmount ≤ selection.choice.amountIn ∧ selection.choice.amountIn ≤ maxAmount) ∧
      selection.choice.amountOut = selection.choice.amountIn + selection.choice.profit ∧
      minProfit ≤ selection.choice.profit := by
  have chosen := (select_dynamic_iff ⟨minAmount, maxAmount, minProfit⟩ selection).mp selected
  obtain ⟨outcome, alone, decided⟩ := chosen
  obtain ⟨run, ran, same⟩ :=
    map_ok ((direction_alone_run _ _ _ _ _ _ _ profitable).symm.trans (alone selection.direction))
  have best := (selection_best decided).1
  rw [same] at best
  obtain ⟨⟨_, least, most⟩, _, exact, enough⟩ := run_best market _ _ _ best
  obtain ⟨sameMin, sameProfit, covered⟩ := direction_run_context market arrays extension timestamp ready
    selection.direction _ ordered run ran
  exact ⟨⟨sameMin.ge.trans least, most.trans covered⟩, exact, sameProfit.ge.trans enough⟩

/-- What the dynamic instruction decides before it calls anything. -/
structure DynamicDecision where
  market : MarketState
  ready : Bool
  selection : DynamicSelection
  binArrays : List AccountRef

def balanceLimitedMax (args : BestDirectionDynamicArgs) : Nat :=
  min args.maxWsolAmountIn.toNat context.userWsol.amount.toNat

structure DynamicDecision.Justified (decision : DynamicDecision) (args : BestDirectionDynamicArgs) :
    Prop where
  parsed : parseMarket context = .ok decision.market
  readiness : cashbackSellIsReady context.ledger context.accounts.pumpAccounts = .ok decision.ready
  selected : DynamicAmount.selectDynamic (arrayInfos context) (bitmapExtension context)
    runtime.unixTimestamp decision.market decision.ready args.minWsolAmountIn.toNat
    (balanceLimitedMax context args) args.minProfitLamports.toNat = .ok decision.selection
  atLeast : args.minWsolAmountIn.toNat ≤ decision.selection.choice.amountIn
  affordable : decision.selection.choice.amountIn ≤ balanceLimitedMax context args
  exact_ : decision.selection.choice.amountOut =
    decision.selection.choice.amountIn + decision.selection.choice.profit
  enough : args.minProfitLamports.toNat ≤ decision.selection.choice.profit
  given : decision.binArrays ⊆ context.remainingAccounts
  inOrder : (arrayInfos (withArrays context decision.binArrays)).map embeddedIndex =
    decision.selection.choice.usedIndices.map some

/-- A route with the selected amount announced in front of its own events. -/
def announced (args : BestDirectionDynamicArgs) (selection : DynamicSelection) (direct : RouteRun) :
    RouteRun :=
  { direct with
    events := [.dynamicAmountSelected (selectedEvent args (balanceLimitedMax context args) selection)] ++
      direct.events }

theorem validate_args_ok (args : BestDirectionDynamicArgs) (done : Unit) :
    DynamicAmount.validateArgs args = .ok done ↔ 0 < args.minWsolAmountIn.toNat ∧
      args.minWsolAmountIn.toNat ≤ args.maxWsolAmountIn.toNat ∧ 0 < args.minProfitLamports.toNat := by
  unfold DynamicAmount.validateArgs
  simp [require_ok, UInt64.lt_iff_toNat_lt, UInt64.le_iff_toNat_le]

/-- The dynamic instruction is the direct instruction of its decision, with the
amount it announces in front: it spends what it announced, which is in the range
and in the wallet, and announced a return that covers it and the profit. -/
theorem dynamic_is_direct (args : BestDirectionDynamicArgs) (final : RouteRun) :
    dynamicHandler context args = .ok final ↔
      DynamicAmount.validateArgs args = .ok () ∧ validateQuoteAccounts context = .ok () ∧
      ∃ decision : DynamicDecision, decision.Justified context args ∧
        ∃ direct, directHandler (withArrays context decision.binArrays) decision.selection.direction
            (UInt64.ofNat decision.selection.choice.amountIn) args.minProfitLamports = .ok direct ∧
          final = announced context args decision.selection direct := by
  have word {amount : Nat} (affordable : amount ≤ balanceLimitedMax context args) :
      (UInt64.ofNat amount).toNat = amount :=
    UInt64.toNat_ofNat_of_lt' (lt_of_le_of_lt (affordable.trans (min_le_left _ _))
      args.maxWsolAmountIn.toNat_lt)
  unfold dynamicHandler directHandler
  constructor
  · intro ran
    simp only [bind_ok_iff, checked_ok, require_ok, decide_eq_true_eq] at ran
    obtain ⟨_, valid, _, mints, _, accepted, _, ordered, selection, chosen, _, ⟨atLeast, affordable⟩,
      arrays, found, executed⟩ := ran
    obtain ⟨positive, _, profitable⟩ := (validate_args_ok args _).mp valid
    unfold selectDynamicFromAccounts at chosen
    obtain ⟨market, parsed, chosen⟩ := (bind_ok_iff _ _ _).mp chosen
    obtain ⟨ready, readiness, selected⟩ := (bind_ok_iff _ _ _).mp chosen
    obtain ⟨_, exact_, enough⟩ := selection_earns ordered profitable selected
    obtain ⟨given, inOrder⟩ :=
      (ordered_refs_iff context (quote_accounts_distinct context accepted) _ _).mp found
    obtain ⟨direct, directRan, same⟩ := (execute_announced context _ _ _ _ _ _).mp executed
    refine ⟨valid, accepted, ⟨market, ready, selection, arrays⟩,
      ⟨parsed, readiness, selected, atLeast, affordable, exact_, enough, given, inOrder⟩, direct, ?_, same⟩
    simp only [bind_ok_iff, checked_ok, validate_route_args_ok, word affordable]
    exact ⟨(), ⟨positive.trans_le atLeast, profitable⟩, _, mints, directRan⟩
  · rintro ⟨valid, accepted, decision, justified, direct, ran, rfl⟩
    simp only [bind_ok_iff, checked_ok, word justified.affordable] at ran
    obtain ⟨_, _, _, mints, directRan⟩ := ran
    have chosen : selectDynamicFromAccounts context args.minWsolAmountIn.toNat
        (balanceLimitedMax context args) args.minProfitLamports.toNat = .ok decision.selection := by
      unfold selectDynamicFromAccounts
      rw [justified.parsed, ok_bind, justified.readiness, ok_bind]
      exact justified.selected
    have found := (ordered_refs_iff context (quote_accounts_distinct context accepted) _ _).mpr
      ⟨justified.given, justified.inOrder⟩
    simp only [bind_ok_iff, checked_ok, require_ok, decide_eq_true_eq]
    exact ⟨_, valid, _, mints, _, accepted, (), justified.atLeast.trans justified.affordable, _, chosen,
      (), ⟨justified.atLeast, justified.affordable⟩, _, found,
      (execute_announced context _ _ _ _ _ _).mpr ⟨direct, directRan, rfl⟩⟩

end ChosenAmount

section Orientation
variable {runtime : Runtime} (context : RouteContext runtime)

def keyAt (invocation : Invocation) (position : Nat) : Option Pubkey :=
  (invocation.instruction.accounts[position]?).map (·.pubkey)

/-- A DLMM swap whose reserves and mints are the ones the pair names, the user's accounts
in the order given, and whose last accounts are the given bin arrays. -/
structure FollowsPair (lbPair : Pubkey) (pair : MeteoraPairPrefix) (input output : AccountRef)
    (binArrays : List AccountRef) (invocation : Invocation) : Prop where
  pool : keyAt invocation 0 = some lbPair
  reserveX : keyAt invocation 2 = some pair.reserveX
  reserveY : keyAt invocation 3 = some pair.reserveY
  userInput : keyAt invocation 4 = some input.key
  userOutput : keyAt invocation 5 = some output.key
  tokenX : keyAt invocation 6 = some pair.tokenXMint
  tokenY : keyAt invocation 7 = some pair.tokenYMint
  arrays : invocation.instruction.accounts.drop 16 = binArrays.map (writableMeta · false)

theorem swap_follows {accounts : RouteAccounts.ExecuteRoute} {binArrays : List AccountRef}
    {input output : AccountRef} {amountIn minOut : Nat} {ledger : Ledger} {invocation : Invocation}
    (built : swapLeg accounts binArrays input output amountIn minOut ledger = .ok invocation) :
    ∃ pair, parseMeteoraPair (ledger accounts.meteoraLbPair.val.key).data = .ok pair ∧
      FollowsPair accounts.meteoraLbPair.val.key pair input output binArrays invocation ∧
      ∀ array ∈ binArrays, ValidArray accounts.meteoraLbPair.val.key (array.info ledger) := by
  unfold swapLeg swap2 at built
  simp only [bind_ok_iff, pure_ok, Except.ok.injEq] at built
  obtain ⟨_, accepted, rfl⟩ := built
  have arrays := (validated_arrays (swap_arrays_validated accepted)).2.2
  unfold validateMeteora at accepted
  simp only [bind_ok_iff, require_ok, decide_eq_true_eq] at accepted
  obtain ⟨_, _, _, _, _, _, pair, parsed, _, sameX, _, sameY, _, reserveX, _, reserveY, _⟩ := accepted
  exact ⟨pair, parsed, ⟨rfl, congrArg some reserveX.symm, congrArg some reserveY.symm, rfl, rfl,
    congrArg some sameX.symm, congrArg some sameY.symm, rfl⟩,
    fun array member => arrays _ (List.mem_map_of_mem member)⟩

/-- The user's account a direction pays the DLMM pool from, and the one it is paid into. -/
def swapInput (accounts : RouteAccounts.ExecuteRoute) : SelectedDirection → AccountRef
  | .pumpToMeteora => accounts.userTarget.val
  | .meteoraToPump => accounts.userWsol.val

def swapOutput (accounts : RouteAccounts.ExecuteRoute) : SelectedDirection → AccountRef
  | .pumpToMeteora => accounts.userWsol.val
  | .meteoraToPump => accounts.userTarget.val

def swapInputMint : SelectedDirection → Pubkey
  | .pumpToMeteora => context.userTarget.mint
  | .meteoraToPump => context.userWsol.mint

/-- The DLMM swap of a route, and the ledger it is built on. -/
def swapOf (direction : SelectedDirection) (trace : RouteTrace) : Invocation :=
  match direction with
  | .pumpToMeteora => trace.second
  | .meteoraToPump => trace.first

def swapLedger (direction : SelectedDirection) (trace : RouteTrace) : Ledger :=
  match direction with
  | .pumpToMeteora => trace.between
  | .meteoraToPump => context.ledger

/-- The quote's direction flag says whether the token paid in is the pair's X. -/
theorem quoted_orientation {market : MarketState} {pair : MeteoraPairPrefix}
    (mints : context.validateRouteMints = .ok ()) (parsed : parseMarket context = .ok market)
    (pairRead : parseMeteoraPair (dataOf context context.accounts.meteoraLbPair.val) = .ok pair)
    (direction : SelectedDirection) :
    swapInputMint context direction = pair.tokenXMint ↔
      directionSwapForY market direction = true := by
  have apart := context.accounts.targetMint.property
  have wsol := context.accounts.wsolMint.property
  have ofRoute : context.accounts.pairOfRoute pair = true := by
    unfold RouteContext.validateRouteMints at mints
    simp only [bind_ok_iff, require_ok] at mints
    obtain ⟨_, _, _, _, _, _, _, _, again, reread, ofRoute⟩ := mints
    cases pairRead.symm.trans reread
    exact ofRoute
  have flag : market.targetIsX = (pair.tokenXMint == context.accounts.targetMint.val.key) := by
    unfold parseMarket at parsed
    simp only [bind_ok_iff, pure_ok, Except.ok.injEq] at parsed
    obtain ⟨_, _, _, _, _, _, _, _, _, _, _, _, _, _, again, reread, rfl⟩ := parsed
    cases pairRead.symm.trans reread
    rfl
  unfold ExecuteRoute.pairOfRoute at ofRoute
  simp only [Bool.or_eq_true, Bool.and_eq_true, beq_iff_eq] at ofRoute
  unfold directionSwapForY swapInputMint
  cases direction with
  | pumpToMeteora =>
      dsimp only
      rw [flag, beq_iff_eq, context.targetMint]
      exact eq_comm
  | meteoraToPump =>
      dsimp only
      rw [flag, Bool.not_eq_true', beq_eq_false_iff_ne, context.wsolMint, wsol]
      rcases ofRoute with ⟨isX, isWsol⟩ | ⟨isTarget, isX⟩
      · rw [isX]
        exact ⟨fun same => absurd same.symm apart, fun different => absurd rfl different⟩
      · rw [isX]
        exact ⟨fun _ same => apart same.symm, fun _ => rfl⟩

/-- The DLMM swap of every instruction that succeeds is made on the reserves and mints
the pair names at that moment, through the arrays the instruction settled on, and these
are the pair's own. Unless the
program before it changed the pair, the token it pays in is the pair's X exactly
when the market as it was read quotes that direction as selling X. -/
theorem swap_goes_as_quoted (instruction : RouteInstruction) (final : RouteRun)
    (ran : process context instruction = .ok final) :
    ∃ executed pair, Describes context instruction final executed ∧
      parseMeteoraPair (swapLedger context executed.direction executed.trace
        context.accounts.meteoraLbPair.val.key).data = .ok pair ∧
      FollowsPair context.accounts.meteoraLbPair.val.key pair
        (swapInput context.accounts executed.direction) (swapOutput context.accounts executed.direction)
        executed.binArrays (swapOf executed.direction executed.trace) ∧
      (∀ array ∈ executed.binArrays, ValidArray context.accounts.meteoraLbPair.val.key
        (array.info (swapLedger context executed.direction executed.trace))) ∧
      ∀ market, parseMarket context = .ok market →
        parseMeteoraPair (dataOf context context.accounts.meteoraLbPair.val) = .ok pair →
        (swapInputMint context executed.direction = pair.tokenXMint ↔
          directionSwapForY market executed.direction = true) := by
  obtain ⟨executed, described⟩ := process_described context instruction final ran
  have completes := described.completes
  have oriented {pair : MeteoraPairPrefix} (market : MarketState)
      (parsed : parseMarket context = .ok market)
      (pairRead : parseMeteoraPair (dataOf context context.accounts.meteoraLbPair.val) = .ok pair) :=
    quoted_orientation context described.mintsChecked parsed pairRead executed.direction
  obtain ⟨direction, binArrays, amountIn, events, trace⟩ := executed
  cases direction with
  | pumpToMeteora =>
      obtain ⟨pair, read, follows, arrays⟩ := swap_follows completes.secondBuilt
      exact ⟨_, pair, described, read, follows, arrays, oriented⟩
  | meteoraToPump =>
      obtain ⟨pair, read, follows, arrays⟩ := swap_follows completes.firstBuilt
      exact ⟨_, pair, described, read, follows, arrays, oriented⟩

theorem swap_goes_as_quoted_sample : ∃ final : RouteRun, ∃ executed : ExecutedRoute, ∃ pair,
    process sampleContext (.executePumpToMeteora 1000 50) = .ok final ∧
      FollowsPair sampleContext.accounts.meteoraLbPair.val.key pair
        (swapInput sampleContext.accounts executed.direction)
        (swapOutput sampleContext.accounts executed.direction) sampleContext.remainingAccounts
        (swapOf executed.direction executed.trace) := by
  obtain ⟨final, ran⟩ := sample_direct_runs
  obtain ⟨executed, pair, described, _, follows, _⟩ := swap_goes_as_quoted sampleContext _ final ran
  obtain ⟨_, _, given⟩ := described.chosen
  exact ⟨final, executed, pair, ran, given ▸ follows⟩

end Orientation

end ArbExecutor.SelectedRoutes
