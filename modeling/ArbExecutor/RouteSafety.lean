import ArbExecutor.RouteTraces
import ArbExecutor.MockDex

/-!
What holds of every successful instruction, whatever the invoked programs do to
the ledger: the trader's books, the two invocations that were made and what they
were allowed, and the event that announces a chosen amount.
-/

namespace ArbExecutor.RouteSafety

open Checked QuoteAccounts AccountValidation BinArrayLayout MarketLayouts AccountPrefixes DexAdapters
  RouteAccounts BestDirection DynamicAmount RouteExecution RouteHandlers RouteTraces MockDex

/-- A swap instruction's bytes: eight of them name it, sixteen give the two
amounts, and what follows is fixed. -/
def callData (discriminator : Bytes) (amountIn minOut : Nat) (tail : Bytes) : Bytes :=
  discriminator ++ (leBytes 8 amountIn ++ (leBytes 8 minOut ++ tail))

structure LegFormat where
  program : DexProgram
  programId : Pubkey
  discriminator : { bytes : Bytes // bytes.length = 8 }
  tail : Bytes

def buyFormat : LegFormat :=
  ⟨.pumpSwap, pumpSwapProgramId, ⟨pumpBuyExactQuoteInDiscriminator, rfl⟩, [0]⟩

def sellFormat : LegFormat := ⟨.pumpSwap, pumpSwapProgramId, ⟨pumpSellDiscriminator, rfl⟩, []⟩

def swapFormat : LegFormat :=
  ⟨.meteoraDlmm, meteoraDlmmProgramId, ⟨meteoraSwap2Discriminator, rfl⟩,
    leBytes 4 2 ++ [0, 0, 1, 0]⟩

def legFormats : SelectedDirection → LegFormat × LegFormat
  | .pumpToMeteora => (buyFormat, swapFormat)
  | .meteoraToPump => (swapFormat, sellFormat)

/-- An invocation that is a given swap and asks for nothing the caller lacks. -/
structure Conforms (trader : Pubkey) (format : LegFormat) (amountIn minOut : Nat)
    (invocation : Invocation) : Prop where
  program : invocation.instruction.programId = format.programId
  data : invocation.instruction.data =
    callData format.discriminator.val amountIn minOut format.tail
  backed : FullyBacked invocation
  signer : ∀ requested ∈ invocation.instruction.accounts,
    requested.isSigner = true → requested.pubkey = trader

section Decoding

theorem read_amount_in (format : LegFormat) (amountIn minOut : Nat) (fits : amountIn < 2 ^ 64) :
    readU64 (callData format.discriminator.val amountIn minOut format.tail) 8 =
      .ok (UInt64.ofNat amountIn) := by
  have same : (UInt64.ofNat amountIn).toNat = amountIn := UInt64.toNat_ofNat_of_lt' fits
  have read := read_u64_at format.discriminator.val (leBytes 8 minOut ++ format.tail)
    (UInt64.ofNat amountIn) 8 format.discriminator.property
  rwa [same] at read

theorem read_min_out (format : LegFormat) (amountIn minOut : Nat) (fits : minOut < 2 ^ 64) :
    readU64 (callData format.discriminator.val amountIn minOut format.tail) 16 =
      .ok (UInt64.ofNat minOut) := by
  have same : (UInt64.ofNat minOut).toNat = minOut := UInt64.toNat_ofNat_of_lt' fits
  have start : (format.discriminator.val ++ leBytes 8 amountIn).length = 16 := by
    rw [List.length_append, format.discriminator.property, length_le_bytes]
  have read := read_u64_at _ format.tail (UInt64.ofNat minOut) 16 start
  rw [same, List.append_assoc] at read
  exact read

def programOf (programId : Pubkey) : Option DexProgram :=
  if programId = pumpSwapProgramId then some .pumpSwap
  else if programId = meteoraDlmmProgramId then some .meteoraDlmm
  else none

/-- The call an invocation makes, read back from its program id and bytes. -/
def decodeCall (invocation : Invocation) : Option CpiCall := do
  let program ← programOf invocation.instruction.programId
  let amountIn ← (readU64 invocation.instruction.data 8).toOption
  let minAmountOut ← (readU64 invocation.instruction.data 16).toOption
  some ⟨program, amountIn.toNat, minAmountOut.toNat⟩

def LegFormat.Known (format : LegFormat) : Prop := programOf format.programId = some format.program

theorem formats_known (direction : SelectedDirection) :
    (legFormats direction).1.Known ∧ (legFormats direction).2.Known := by
  unfold LegFormat.Known
  cases direction <;> decide

theorem conforming_decodes {trader : Pubkey} {format : LegFormat} {amountIn minOut : Nat}
    {invocation : Invocation} (known : format.Known)
    (conforms : Conforms trader format amountIn minOut invocation)
    (fitsIn : amountIn < 2 ^ 64) (fitsOut : minOut < 2 ^ 64) :
    decodeCall invocation = some ⟨format.program, amountIn, minOut⟩ := by
  unfold decodeCall
  rw [conforms.program, conforms.data, known, read_amount_in _ _ _ fitsIn,
    read_min_out _ _ _ fitsOut]
  simp [Except.toOption, UInt64.toNat_ofNat_of_lt' fitsIn, UInt64.toNat_ofNat_of_lt' fitsOut]

end Decoding

section Legs
variable (runtime : Runtime) (accounts : RouteAccounts.ExecuteRoute) (binArrays : List AccountRef)

def firstAdapter : SelectedDirection → Adapter
  | .pumpToMeteora => buyLeg runtime accounts
  | .meteoraToPump => swapLeg accounts binArrays accounts.userWsol.val accounts.userTarget.val

def secondAdapter : SelectedDirection → Adapter
  | .pumpToMeteora => swapLeg accounts binArrays accounts.userTarget.val accounts.userWsol.val
  | .meteoraToPump => sellLeg runtime accounts

theorem execute_direction_eq (direction : SelectedDirection) :
    executeDirection runtime accounts direction binArrays =
      executeRoute runtime accounts direction (firstAdapter runtime accounts binArrays direction)
        (secondAdapter runtime accounts binArrays direction) := by
  cases direction <;> rfl

theorem common_signer : ∀ requested ∈ commonPumpMetas accounts.pumpAccounts,
    requested.isSigner = true → requested.pubkey = accounts.trader.val.key := by
  simp [commonPumpMetas, writableMeta, readonlyMeta, ExecuteRoute.pumpAccounts]

theorem extra_unsigned (pool : PumpPoolPrefix) (isBuy : Bool) :
    ∀ requested ∈ volumeMetas accounts.pumpAccounts ++ feeMetas accounts.pumpAccounts ++
      currentRemainingMetas accounts.pumpAccounts pool isBuy, requested.isSigner = false := by
  unfold volumeMetas feeMetas currentRemainingMetas
  cases isBuy <;> cases pool.isCashbackCoin <;> by_cases created : pool.coinCreator = zeroKey <;>
    simp [created, writableMeta, readonlyMeta]

theorem swap_signer (ledger : Ledger) (input output : AccountRef) :
    ∀ requested ∈ swap2Metas (accounts.meteoraAccounts ledger input output) binArrays,
      requested.isSigner = true → requested.pubkey = accounts.trader.val.key := by
  have optional (account : AccountRef) : (optionalMeta account).isSigner = false := by
    unfold optionalMeta
    split <;> rfl
  unfold swap2Metas
  simp [writableMeta, readonlyMeta, optional, ExecuteRoute.meteoraAccounts]

theorem buy_conforms {amountIn minOut : Nat} {ledger : Ledger} {invocation : Invocation}
    (built : buyLeg runtime accounts amountIn minOut ledger = .ok invocation) :
    Conforms accounts.trader.val.key buyFormat amountIn minOut invocation := by
  have backed := buy_backed accounts built
  unfold buyLeg buyExactQuoteIn pumpInvocation at built
  simp only [bind_ok_iff, pure_ok, Except.ok.injEq] at built
  obtain ⟨_, _, pool, _, _, _, rfl⟩ := built
  refine ⟨rfl, by simp [callData, buyFormat, List.append_assoc], backed, fun requested member signs => ?_⟩
  simp only [List.append_assoc] at member
  rcases List.mem_append.mp member with common | extra
  · exact common_signer accounts requested common signs
  · have unsigned := extra_unsigned accounts pool true requested (by simpa using extra)
    rw [unsigned] at signs
    cases signs

theorem sell_conforms {amountIn minOut : Nat} {ledger : Ledger} {invocation : Invocation}
    (built : sellLeg runtime accounts amountIn minOut ledger = .ok invocation) :
    Conforms accounts.trader.val.key sellFormat amountIn minOut invocation := by
  have backed := sell_backed accounts built
  unfold sellLeg DexAdapters.sell pumpInvocation at built
  simp only [bind_ok_iff, pure_ok, Except.ok.injEq] at built
  obtain ⟨_, _, _, _, _, _, pool, _, _, _, rfl⟩ := built
  refine ⟨rfl, by simp [callData, sellFormat, List.append_assoc], backed,
    fun requested member signs => ?_⟩
  simp only [List.append_assoc] at member
  rcases List.mem_append.mp member with common | extra
  · exact common_signer accounts requested common signs
  · have unsigned := extra_unsigned accounts pool false requested
      (by simp only [List.append_assoc]; exact List.mem_append_right _ extra)
    rw [unsigned] at signs
    cases signs

theorem swap_conforms {input output : MutAccount} {amountIn minOut : Nat} {ledger : Ledger}
    {invocation : Invocation}
    (built : swapLeg accounts binArrays input.val output.val amountIn minOut ledger = .ok invocation) :
    Conforms accounts.trader.val.key swapFormat amountIn minOut invocation := by
  have backed := swap2_backed accounts built
  unfold swapLeg swap2 at built
  simp only [bind_ok_iff, pure_ok, Except.ok.injEq] at built
  obtain ⟨_, _, rfl⟩ := built
  exact ⟨rfl, by simp [callData, swapFormat, List.append_assoc], backed, swap_signer _ _ _ _ _⟩

theorem first_conforms {direction : SelectedDirection} {amountIn minOut : Nat} {ledger : Ledger}
    {invocation : Invocation}
    (built : firstAdapter runtime accounts binArrays direction amountIn minOut ledger = .ok invocation) :
    Conforms accounts.trader.val.key (legFormats direction).1 amountIn minOut invocation := by
  cases direction with
  | pumpToMeteora => exact buy_conforms runtime accounts built
  | meteoraToPump => exact swap_conforms accounts binArrays built

theorem second_conforms {direction : SelectedDirection} {amountIn minOut : Nat} {ledger : Ledger}
    {invocation : Invocation}
    (built : secondAdapter runtime accounts binArrays direction amountIn minOut ledger = .ok invocation) :
    Conforms accounts.trader.val.key (legFormats direction).2 amountIn minOut invocation := by
  cases direction with
  | pumpToMeteora => exact swap_conforms accounts binArrays built
  | meteoraToPump => exact sell_conforms runtime accounts built

end Legs

section Instructions
variable {runtime : Runtime} (context : RouteContext runtime)

def RouteInstruction.minProfit : RouteInstruction → UInt64
  | .executePumpToMeteora _ minProfitLamports => minProfitLamports
  | .executeMeteoraToPump _ minProfitLamports => minProfitLamports
  | .executeBestDirection _ minProfitLamports => minProfitLamports
  | .executeBestDirectionDynamic args => args.minProfitLamports

theorem ordered_arrays_found (arrays selected : List AccountInfo) (indices : List Int)
    (ordered : BestDirection.orderedBinArrays arrays indices = .ok selected) :
    indices.map (findBinArray arrays) = selected.map some := by
  unfold BestDirection.orderedBinArrays at ordered
  induction indices generalizing selected with
  | nil => cases ordered; rfl
  | cons wanted rest ih =>
      rw [List.mapM_cons] at ordered
      simp only [bind_ok_iff, ok_or_eq_ok, pure_ok, Except.ok.injEq] at ordered
      obtain ⟨account, found, later, restOrdered, rfl⟩ := ordered
      rw [List.map_cons, List.map_cons, found, ih later restOrdered]

/-- The selected entries are entries of the instruction's own list. -/
theorem ordered_refs_subset (indices : List Int) (refs : List AccountRef)
    (ordered : orderedArrayRefs context indices = .ok refs) : refs ⊆ context.remainingAccounts := by
  unfold orderedArrayRefs at ordered
  obtain ⟨infos, found, mapped⟩ := (bind_ok_iff _ _ _).mp ordered
  cases mapped
  intro entry member
  obtain ⟨info, inInfos, rfl⟩ := List.mem_map.mp member
  have listed : some info ∈ indices.map (findBinArray (arrayInfos context)) := by
    rw [ordered_arrays_found _ _ _ found]
    exact List.mem_map_of_mem inInfos
  obtain ⟨wanted, _, located⟩ := List.mem_map.mp listed
  obtain ⟨original, inList, rfl⟩ := List.mem_map.mp (List.mem_of_find?_eq_some located)
  exact inList

/-- What an instruction came down to: a direction, its arrays and amount, the
events in front of the route's own, and the trace of the route. -/
structure ExecutedRoute where
  direction : SelectedDirection
  binArrays : List AccountRef
  amountIn : Nat
  announced : List ProgramEvent
  trace : RouteTrace

def routeEventOf : ProgramEvent → Option RouteEvent
  | .route event => some event
  | .dynamicAmountSelected _ => none

def ExecutedRoute.start (executed : ExecutedRoute) : RouteRun :=
  { opened context with events := executed.announced }

/-- The direction, amount and bin arrays an instruction settles on: its own ones, or what
its selection decides over its accounts. -/
def Chooses (direction : SelectedDirection) (amountIn : Nat) (binArrays : List AccountRef) :
    RouteInstruction → Prop
  | .executePumpToMeteora wsolAmountIn _ =>
      direction = .pumpToMeteora ∧ amountIn = wsolAmountIn.toNat ∧ binArrays = context.remainingAccounts
  | .executeMeteoraToPump wsolAmountIn _ =>
      direction = .meteoraToPump ∧ amountIn = wsolAmountIn.toNat ∧ binArrays = context.remainingAccounts
  | .executeBestDirection wsolAmountIn minProfitLamports =>
      amountIn = wsolAmountIn.toNat ∧ ∃ used,
        selectDirectionFromAccounts context wsolAmountIn.toNat minProfitLamports.toNat =
            .ok (direction, used) ∧
          orderedArrayRefs context used = .ok binArrays
  | .executeBestDirectionDynamic args =>
      ∃ selection, selectDynamicFromAccounts context args.minWsolAmountIn.toNat
          (min args.maxWsolAmountIn.toNat context.userWsol.amount.toNat) args.minProfitLamports.toNat =
            .ok selection ∧
        direction = selection.direction ∧ amountIn = selection.choice.amountIn ∧
          args.minWsolAmountIn.toNat ≤ amountIn ∧
          amountIn ≤ min args.maxWsolAmountIn.toNat context.userWsol.amount.toNat ∧
          orderedArrayRefs context selection.choice.usedIndices = .ok binArrays

structure Describes (instruction : RouteInstruction) (final : RouteRun) (executed : ExecutedRoute) :
    Prop where
  chosen : Chooses context executed.direction executed.amountIn executed.binArrays instruction
  amountFits : executed.amountIn < 2 ^ 64
  amountPositive : 0 < executed.amountIn
  profitPositive : 0 < (RouteInstruction.minProfit instruction).toNat
  mintsChecked : context.validateRouteMints = .ok ()
  arraysGiven : executed.binArrays ⊆ context.remainingAccounts
  onlyAmounts : executed.announced.filterMap routeEventOf = []
  completes : Completes runtime context.accounts
    (firstAdapter runtime context.accounts executed.binArrays executed.direction)
    (secondAdapter runtime context.accounts executed.binArrays executed.direction)
    executed.amountIn (RouteInstruction.minProfit instruction).toNat (executed.start context)
    executed.trace
  ends : final =
    finishedRun context.accounts executed.direction (executed.start context) executed.trace

theorem validate_route_args_ok (amountIn minProfit : Nat) (done : Unit) :
    validateRouteArgs amountIn minProfit = .ok done ↔ 0 < amountIn ∧ 0 < minProfit := by
  unfold validateRouteArgs
  simp [bind_ok_iff, require_ok]

theorem direct_described (direction : SelectedDirection) (amountIn minProfit : UInt64)
    (instruction : RouteInstruction) (final : RouteRun)
    (sameProfit : RouteInstruction.minProfit instruction = minProfit)
    (own : Chooses context direction amountIn.toNat context.remainingAccounts instruction)
    (ran : directHandler context direction amountIn minProfit = .ok final) :
    ∃ executed, Describes context instruction final executed := by
  unfold directHandler at ran
  simp only [bind_ok_iff, checked_ok, validate_route_args_ok, execute_direction_eq,
    execute_route_iff] at ran
  obtain ⟨_, ⟨positive, profit⟩, _, mints, trace, completes, ends⟩ := ran
  subst sameProfit
  exact ⟨⟨direction, context.remainingAccounts, amountIn.toNat, [], trace⟩, own, amountIn.toNat_lt,
    positive, profit, mints, List.Subset.refl _, rfl, completes, ends⟩

theorem best_direction_described (amountIn minProfit : UInt64) (final : RouteRun)
    (ran : bestDirectionHandler context amountIn minProfit = .ok final) :
    ∃ executed, Describes context (.executeBestDirection amountIn minProfit) final executed := by
  unfold bestDirectionHandler at ran
  simp only [bind_ok_iff, checked_ok, validate_route_args_ok, execute_direction_eq,
    execute_route_iff] at ran
  obtain ⟨_, ⟨positive, profit⟩, _, mints, _, _, selected, chosen, arrays, ordered, trace, completes,
    ends⟩ := ran
  exact ⟨⟨selected.1, arrays, amountIn.toNat, [], trace⟩, ⟨Eq.refl _, selected.2, chosen, ordered⟩,
    amountIn.toNat_lt, positive, profit, mints, ordered_refs_subset context _ _ ordered, rfl, completes, ends⟩

theorem dynamic_described (args : BestDirectionDynamicArgs) (final : RouteRun)
    (ran : dynamicHandler context args = .ok final) :
    ∃ executed, Describes context (.executeBestDirectionDynamic args) final executed := by
  have maxFits := args.maxWsolAmountIn.toNat_lt
  unfold dynamicHandler DynamicAmount.validateArgs at ran
  simp only [bind_ok_iff, checked_ok, require_ok, decide_eq_true_eq, execute_direction_eq,
    execute_route_iff, UInt64.lt_iff_toNat_lt] at ran
  obtain ⟨_, ⟨minPositive, _, profit⟩, _, mints, _, _, _, _, selection, chosen, _, ⟨atLeast, atMost⟩,
    arrays, ordered, trace, completes, ends⟩ := ran
  have minimum : 0 < args.minWsolAmountIn.toNat := minPositive
  exact ⟨⟨selection.direction, arrays, selection.choice.amountIn, _, trace⟩,
    ⟨selection, chosen, Eq.refl _, Eq.refl _, atLeast, atMost, ordered⟩, by dsimp only; omega,
    by dsimp only; omega, profit, mints, ordered_refs_subset context _ _ ordered, rfl, completes, ends⟩

/-- Every successful instruction is one completed route. -/
theorem process_described (instruction : RouteInstruction) (final : RouteRun)
    (ran : process context instruction = .ok final) :
    ∃ executed, Describes context instruction final executed := by
  cases instruction with
  | executePumpToMeteora amountIn minProfit =>
      exact direct_described context _ _ _ _ _ rfl ⟨rfl, rfl, rfl⟩ ran
  | executeMeteoraToPump amountIn minProfit =>
      exact direct_described context _ _ _ _ _ rfl ⟨rfl, rfl, rfl⟩ ran
  | executeBestDirection amountIn minProfit => exact best_direction_described context _ _ _ ran
  | executeBestDirectionDynamic args => exact dynamic_described context _ _ ran

/-- The run of the sample context, with its outcome. -/
theorem sample_direct_runs : ∃ final,
    process sampleContext (.executePumpToMeteora 1000 50) = .ok final := by
  have succeeds : (process sampleContext (.executePumpToMeteora 1000 50)).toOption.isSome = true := by
    decide +kernel
  obtain ⟨final, ran⟩ := Option.isSome_iff_exists.mp succeeds
  exact ⟨final, (to_option_some _ _).mp ran⟩

/-- No invoked program can make an instruction succeed at the trader's cost: the
WSOL account in the resulting ledger has grown by the profit asked for, which is
positive, the target account holds what it held, and the last event says so. -/
theorem instruction_earns (instruction : RouteInstruction) (final : RouteRun)
    (ran : process context instruction = .ok final) :
    Loads runtime final.ledger context.accounts.userWsol.val final.userWsol ∧
    Loads runtime final.ledger context.accounts.userTarget.val final.userTarget ∧
    0 < (RouteInstruction.minProfit instruction).toNat ∧
    context.userWsol.amount.toNat + (RouteInstruction.minProfit instruction).toNat ≤
      final.userWsol.amount.toNat ∧
    final.userTarget.amount = context.userTarget.amount ∧
    ∃ direction bought earned, final.events.getLast? = some (.route (.routeCompleted direction
      context.accounts.trader.val.key context.accounts.targetMint.val.key
      context.userWsol.amount.toNat final.userWsol.amount.toNat bought earned)) := by
  obtain ⟨executed, described⟩ := process_described context instruction final ran
  have completes := described.completes
  rw [described.ends]
  refine ⟨completes.wsolFinal, completes.targetFinal, described.profitPositive,
    completes.profitable, UInt64.toNat_inj.mp completes.restored, executed.direction,
    executed.trace.targetDelta (executed.start context), executed.trace.wsolDelta, ?_⟩
  simp [finishedRun, routeEvents, ExecutedRoute.start, opened]

theorem instruction_earns_sample : ∃ final : RouteRun,
    process sampleContext (.executePumpToMeteora 1000 50) = .ok final ∧
      5000 + 50 ≤ final.userWsol.amount.toNat := by
  obtain ⟨final, ran⟩ := sample_direct_runs
  exact ⟨final, ran, (instruction_earns sampleContext _ final ran).2.2.2.1⟩

/-- Two invocations are made, of the pinned programs in the order of the direction
the instruction settles on. Each one's metas name the infos passed with it, key by
key, it asks for no privilege the instruction was not given, only the trader signs,
and its bytes decode to the amounts: the first spends the amount settled on for
anything, the second spends what the first one delivered for what is still missing
of the initial balance and the profit. -/
theorem instruction_calls_conform (instruction : RouteInstruction) (final : RouteRun)
    (ran : process context instruction = .ok final) :
    ∃ direction amountIn binArrays first second between loaded kept delta minOut,
      Chooses context direction amountIn binArrays instruction ∧
      final.invocations = [first, second] ∧
      Conforms context.accounts.trader.val.key (legFormats direction).1 amountIn 1 first ∧
      Conforms context.accounts.trader.val.key (legFormats direction).2 delta minOut second ∧
      decodeCall first = some ⟨(legFormats direction).1.program, amountIn, 1⟩ ∧
      decodeCall second = some ⟨(legFormats direction).2.program, delta, minOut⟩ ∧
      Invokes runtime first context.ledger between ∧
      Loads runtime between context.accounts.userTarget.val loaded ∧
      loaded.amount.toNat = context.userTarget.amount.toNat + delta ∧ 0 < delta ∧
      Loads runtime between context.accounts.userWsol.val kept ∧
      requiredSecondLegOut context.userWsol.amount.toNat kept.amount.toNat
        (RouteInstruction.minProfit instruction).toNat = .ok minOut ∧
      Invokes runtime second between final.ledger := by
  obtain ⟨executed, described⟩ := process_described context instruction final ran
  have completes := described.completes
  have grew := completes.targetGrew
  have known := formats_known executed.direction
  have firstConforms := first_conforms runtime context.accounts executed.binArrays
    completes.firstBuilt
  have secondConforms := second_conforms runtime context.accounts executed.binArrays
    completes.secondBuilt
  have deltaFits : executed.trace.targetDelta (executed.start context) < 2 ^ 64 :=
    Nat.lt_of_le_of_lt (Nat.sub_le _ _) executed.trace.targetBetween.amount.toNat_lt
  have outFits : executed.trace.requiredOut (executed.start context)
      (RouteInstruction.minProfit instruction).toNat < 2 ^ 64 := by
    have fits := completes.fits
    unfold RouteTrace.requiredOut
    omega
  rw [described.ends]
  refine ⟨executed.direction, executed.amountIn, executed.binArrays, executed.trace.first,
    executed.trace.second, executed.trace.between, executed.trace.targetBetween,
    executed.trace.wsolBetween, executed.trace.targetDelta (executed.start context),
    executed.trace.requiredOut (executed.start context) _, described.chosen, rfl, firstConforms, secondConforms,
    conforming_decodes known.1 firstConforms described.amountFits (by decide),
    conforming_decodes known.2 secondConforms deltaFits outFits,
    completes.firstInvoked, completes.targetReloaded, ?_, ?_, completes.wsolReloaded,
    (required_out_ok _ _ _ _).mpr ⟨completes.fits, Eq.refl _⟩, completes.secondInvoked⟩
  · change _ = (executed.start context).userTarget.amount.toNat + _
    unfold RouteTrace.targetDelta
    omega
  · unfold RouteTrace.targetDelta
    omega

theorem instruction_calls_conform_sample : ∃ final : RouteRun, ∃ first second,
    process sampleContext (.executePumpToMeteora 1000 50) = .ok final ∧
      final.invocations = [first, second] ∧ FullyBacked first ∧ FullyBacked second ∧
      decodeCall first = some ⟨.pumpSwap, 1000, 1⟩ := by
  obtain ⟨final, ran⟩ := sample_direct_runs
  obtain ⟨_, _, _, first, second, _, _, _, _, _, ⟨rfl, rfl, _⟩, made, one, two, decoded, _⟩ :=
    instruction_calls_conform sampleContext _ final ran
  exact ⟨final, first, second, ran, made, one.backed, two.backed, decoded⟩

/-- The callee of the balance-level route that leaves given balances behind. -/
def balanceCpi (wsol target : TokenAccount) : Cpi := fun _ _ _ => .ok ⟨wsol.amount, target.amount⟩

theorem completed_refines (direction : SelectedDirection) (accounts : RouteAccounts.ExecuteRoute)
    (firstLeg secondLeg : Adapter) (amountIn minProfit : Nat) (start : RouteRun)
    (trace : RouteTrace)
    (completes : Completes runtime accounts firstLeg secondLeg amountIn minProfit start trace) :
    ∃ balanced, RouteExecution.execute direction
        (balanceCpi trace.wsolBetween trace.targetBetween) (balanceCpi trace.wsolAfter trace.targetAfter)
        amountIn minProfit (openedRoute accounts.trader.val.key accounts.targetMint.val.key
          ⟨start.userWsol.amount, start.userTarget.amount⟩) = .ok balanced ∧
      balanced.chain = ⟨trace.wsolAfter.amount, trace.targetAfter.amount⟩ ∧
      balanced.events = routeEvents accounts direction start trace ∧
      balanced.calls = [⟨(routePrograms direction).1, amountIn, 1⟩,
        ⟨(routePrograms direction).2, trace.targetDelta start, trace.requiredOut start minProfit⟩] := by
  have grew := completes.targetGrew
  have gained := completes.wsolGrew
  rw [execute_eq_legs]
  unfold executeLegs runFirstLeg runSecondLeg
  simp only [bind_ok_iff, invoke_ok, arb_ok, checked_increase_ok, required_out_ok, enforce_ok,
    pure_ok, Except.ok.injEq]
  refine ⟨_, ⟨⟨_, trace.targetDelta start, trace.requiredOut start minProfit⟩,
    ⟨_, ⟨_, rfl, rfl⟩, _, ⟨?_, ?_⟩, _, ⟨completes.fits, rfl⟩, rfl⟩, _, ⟨_, rfl, rfl⟩,
    trace.wsolDelta, ⟨?_, ?_⟩, (), ⟨completes.fits, completes.profitable, completes.restored⟩, rfl⟩,
    rfl, rfl, rfl⟩
  · simp only [RouteTrace.targetDelta, ExecuteRoute.reloadTarget]
    change trace.targetBetween.amount.toNat = start.userTarget.amount.toNat + _
    omega
  · unfold RouteTrace.targetDelta
    omega
  · simp only [RouteTrace.wsolDelta, ExecuteRoute.reloadWsol]
    change trace.wsolAfter.amount.toNat = trace.wsolBetween.amount.toNat + _
    omega
  · unfold RouteTrace.wsolDelta
    omega

/-- Every successful instruction is a successful route of the balance-level model
whose two callees leave the balances the ledgers show: same events, same calls
when the bytes are decoded, same final balances. -/
theorem instruction_refines_balances (instruction : RouteInstruction) (final : RouteRun)
    (ran : process context instruction = .ok final) :
    ∃ executed balanced, Describes context instruction final executed ∧
      RouteExecution.execute executed.direction
        (balanceCpi executed.trace.wsolBetween executed.trace.targetBetween)
        (balanceCpi executed.trace.wsolAfter executed.trace.targetAfter)
        executed.amountIn (RouteInstruction.minProfit instruction).toNat
        (openedRoute context.accounts.trader.val.key context.accounts.targetMint.val.key
          ⟨context.userWsol.amount, context.userTarget.amount⟩) = .ok balanced ∧
      balanced.chain = ⟨final.userWsol.amount, final.userTarget.amount⟩ ∧
      final.events.filterMap routeEventOf = balanced.events ∧
      final.invocations.map decodeCall = balanced.calls.map some := by
  obtain ⟨executed, described⟩ := process_described context instruction final ran
  have completes := described.completes
  obtain ⟨balanced, balancedRan, chain, events, calls⟩ :=
    completed_refines executed.direction context.accounts _ _ _ _ _ _ completes
  have known := formats_known executed.direction
  have programs : routePrograms executed.direction =
      ((legFormats executed.direction).1.program, (legFormats executed.direction).2.program) := by
    cases executed.direction <;> rfl
  have fits := completes.fits
  have deltaFits : executed.trace.targetDelta (executed.start context) < 2 ^ 64 :=
    Nat.lt_of_le_of_lt (Nat.sub_le _ _) executed.trace.targetBetween.amount.toNat_lt
  have outFits : executed.trace.requiredOut (executed.start context)
      (RouteInstruction.minProfit instruction).toNat < 2 ^ 64 := by
    unfold RouteTrace.requiredOut
    omega
  have firstDecoded := conforming_decodes known.1
    (first_conforms runtime context.accounts executed.binArrays completes.firstBuilt)
    described.amountFits (by decide)
  have secondDecoded := conforming_decodes known.2
    (second_conforms runtime context.accounts executed.binArrays completes.secondBuilt)
    deltaFits outFits
  refine ⟨executed, balanced, described, balancedRan, ?_, ?_, ?_⟩
  · rw [chain, described.ends]
    rfl
  · have restored (announced : List RouteEvent) :
        (announced.map ProgramEvent.route).filterMap routeEventOf = announced := by
      induction announced with
      | nil => rfl
      | cons head rest ih => simp [routeEventOf, ih]
    rw [described.ends, events, finishedRun, List.filterMap_append, restored]
    exact congrArg (· ++ _) described.onlyAmounts
  · rw [described.ends, calls, programs, finishedRun]
    simp [ExecutedRoute.start, opened, firstDecoded, secondDecoded]

theorem instruction_refines_balances_sample : ∃ final : RouteRun, ∃ calls : List CpiCall,
    process sampleContext (.executePumpToMeteora 1000 50) = .ok final ∧
      final.invocations.map decodeCall = calls.map some := by
  obtain ⟨final, ran⟩ := sample_direct_runs
  obtain ⟨_, balanced, _, _, _, _, decoded⟩ := instruction_refines_balances sampleContext _ final ran
  exact ⟨final, balanced.calls, ran, decoded⟩

end Instructions

end ArbExecutor.RouteSafety
