import ArbExecutor.DexAdapters

/-!
The account list of the four route instructions, from instructions/mod.rs. What
Anchor's `#[account]` attributes and account types demand of an entry is part of
the entry's type, so a list that fails them cannot be built. The two adapters are
given their accounts from it.
-/

namespace ArbExecutor.RouteAccounts

open Checked QuoteAccounts AccountValidation MarketLayouts AccountPrefixes DexAdapters

/-- `#[account(mut)]`. -/
abbrev MutAccount := { account : AccountRef // account.isWritable = true }

/-- `#[account(address = ...)]`. -/
abbrev FixedAccount (address : Pubkey) := { account : AccountRef // account.key = address }

/-- `#[account(mut)] Signer`. -/
abbrev MutSigner := { account : AccountRef // account.isSigner = true ∧ account.isWritable = true }

/-- `Interface<TokenInterface>`: one of the two token programs. -/
abbrev TokenProgramAccount :=
  { account : AccountRef // account.key = legacyTokenProgramId ∨ account.key = token2022ProgramId }

structure ExecuteRoute where
  trader : MutSigner
  wsolMint : FixedAccount wsolMintId
  targetMint : { account : AccountRef // account.key ≠ wsolMintId }
  userWsol : MutAccount
  userTarget : MutAccount
  wsolTokenProgram : FixedAccount legacyTokenProgramId
  targetTokenProgram : TokenProgramAccount
  systemProgram : FixedAccount zeroKey
  associatedTokenProgram : FixedAccount associatedTokenProgramId
  pumpProgram : FixedAccount pumpSwapProgramId
  pumpPool : MutAccount
  pumpGlobalConfig : AccountRef
  pumpPoolBaseTokenAccount : MutAccount
  pumpPoolQuoteTokenAccount : MutAccount
  pumpProtocolFeeRecipient : AccountRef
  pumpProtocolFeeRecipientTokenAccount : MutAccount
  pumpEventAuthority : AccountRef
  pumpCoinCreatorVaultAta : MutAccount
  pumpCoinCreatorVaultAuthority : AccountRef
  pumpGlobalVolumeAccumulator : AccountRef
  pumpUserVolumeAccumulator : MutAccount
  pumpUserVolumeAccumulatorWsolAta : MutAccount
  pumpFeeConfig : AccountRef
  pumpFeeProgram : FixedAccount pumpFeeProgramId
  pumpPoolV2 : AccountRef
  pumpBuybackFeeRecipient : AccountRef
  pumpBuybackFeeRecipientTokenAccount : MutAccount
  meteoraProgram : FixedAccount meteoraDlmmProgramId
  meteoraLbPair : MutAccount
  meteoraBinArrayBitmapExtension : MutAccount
  meteoraReserveX : MutAccount
  meteoraReserveY : MutAccount
  meteoraOracle : MutAccount
  meteoraHostFeeIn : MutAccount
  memoProgram : FixedAccount memoProgramId
  meteoraEventAuthority : AccountRef

variable (accounts : ExecuteRoute)

def ExecuteRoute.pumpAccounts : PumpSwapAccounts where
  pool := accounts.pumpPool.val
  user := accounts.trader.val
  globalConfig := accounts.pumpGlobalConfig
  baseMint := accounts.targetMint.val
  quoteMint := accounts.wsolMint.val
  userBaseTokenAccount := accounts.userTarget.val
  userQuoteTokenAccount := accounts.userWsol.val
  poolBaseTokenAccount := accounts.pumpPoolBaseTokenAccount.val
  poolQuoteTokenAccount := accounts.pumpPoolQuoteTokenAccount.val
  protocolFeeRecipient := accounts.pumpProtocolFeeRecipient
  protocolFeeRecipientTokenAccount := accounts.pumpProtocolFeeRecipientTokenAccount.val
  baseTokenProgram := accounts.targetTokenProgram.val
  quoteTokenProgram := accounts.wsolTokenProgram.val
  systemProgram := accounts.systemProgram.val
  associatedTokenProgram := accounts.associatedTokenProgram.val
  eventAuthority := accounts.pumpEventAuthority
  program := accounts.pumpProgram.val
  coinCreatorVaultAta := accounts.pumpCoinCreatorVaultAta.val
  coinCreatorVaultAuthority := accounts.pumpCoinCreatorVaultAuthority
  globalVolumeAccumulator := accounts.pumpGlobalVolumeAccumulator
  userVolumeAccumulator := accounts.pumpUserVolumeAccumulator.val
  userVolumeAccumulatorWsolAta := accounts.pumpUserVolumeAccumulatorWsolAta.val
  feeConfig := accounts.pumpFeeConfig
  feeProgram := accounts.pumpFeeProgram.val
  poolV2 := accounts.pumpPoolV2
  buybackFeeRecipient := accounts.pumpBuybackFeeRecipient
  buybackFeeRecipientTokenAccount := accounts.pumpBuybackFeeRecipientTokenAccount.val

/-- A pair that does not parse counts as one whose token X is WSOL. -/
def ExecuteRoute.targetIsX (ledger : Ledger) : Bool :=
  match parseMeteoraPair (ledger accounts.meteoraLbPair.val.key).data with
  | .ok pair => pair.tokenXMint == accounts.targetMint.val.key
  | .error _ => false

/-- Tokens X and Y follow the pair; the user's accounts follow the route's direction. -/
def ExecuteRoute.meteoraAccounts (ledger : Ledger) (input output : AccountRef) : MeteoraAccounts where
  lbPair := accounts.meteoraLbPair.val
  binArrayBitmapExtension := accounts.meteoraBinArrayBitmapExtension.val
  reserveX := accounts.meteoraReserveX.val
  reserveY := accounts.meteoraReserveY.val
  userTokenIn := input
  userTokenOut := output
  tokenXMint := if accounts.targetIsX ledger then accounts.targetMint.val else accounts.wsolMint.val
  tokenYMint := if accounts.targetIsX ledger then accounts.wsolMint.val else accounts.targetMint.val
  oracle := accounts.meteoraOracle.val
  hostFeeIn := accounts.meteoraHostFeeIn.val
  user := accounts.trader.val
  tokenXProgram :=
    if accounts.targetIsX ledger then accounts.targetTokenProgram.val else accounts.wsolTokenProgram.val
  tokenYProgram :=
    if accounts.targetIsX ledger then accounts.wsolTokenProgram.val else accounts.targetTokenProgram.val
  memoProgram := accounts.memoProgram.val
  eventAuthority := accounts.meteoraEventAuthority
  program := accounts.meteoraProgram.val

/-- The list with the token accounts and the mint supply Anchor deserialised from the ledger. -/
structure RouteContext (runtime : Runtime) where
  accounts : ExecuteRoute
  remainingAccounts : List AccountRef
  ledger : Ledger
  userWsol : TokenAccount
  userTarget : TokenAccount
  targetMintSupply : UInt64
  wsolLoaded : runtime.unpackTokenAccount (ledger accounts.userWsol.val.key).data = some userWsol
  targetLoaded :
    runtime.unpackTokenAccount (ledger accounts.userTarget.val.key).data = some userTarget
  wsolOwner : userWsol.owner = accounts.trader.val.key
  wsolMint : userWsol.mint = accounts.wsolMint.val.key
  targetOwner : userTarget.owner = accounts.trader.val.key
  targetMint : userTarget.mint = accounts.targetMint.val.key

/-- The mints of the pair are the target and WSOL, in either order. -/
def ExecuteRoute.pairOfRoute (pair : MeteoraPairPrefix) : Bool :=
  (pair.tokenXMint == accounts.targetMint.val.key && pair.tokenYMint == wsolMintId) ||
    (pair.tokenYMint == accounts.targetMint.val.key && pair.tokenXMint == wsolMintId)

def RouteContext.validateRouteMints {runtime : Runtime} (context : RouteContext runtime) :
    Except ArbError Unit := do
  let accounts := context.accounts
  let ledger := context.ledger
  validateRouteTokenPrograms (accounts.wsolMint.val.info ledger) (accounts.targetMint.val.info ledger)
    (accounts.userWsol.val.info ledger) (accounts.userTarget.val.info ledger)
    accounts.wsolTokenProgram.val.key accounts.targetTokenProgram.val.key
  validateSupportedTargetMint runtime (accounts.targetMint.val.info ledger)
  validateUserTokenFields context.userWsol.owner context.userWsol.mint accounts.trader.val.key
    wsolMintId
  validateUserTokenFields context.userTarget.owner context.userTarget.mint accounts.trader.val.key
    accounts.targetMint.val.key
  let pair ← parseMeteoraPair (ledger accounts.meteoraLbPair.val.key).data
  require (accounts.pairOfRoute pair) .invalidRouteAccounts

/-! An account info backs a meta when it is the account meant and the caller has
every privilege the meta asks for. -/
section Privileges

def Backs (info : AccountRef) (requested : AccountMeta) : Prop :=
  info.key = requested.pubkey ∧ (requested.isSigner = true → info.isSigner = true) ∧
    (requested.isWritable = true → info.isWritable = true)

/-- Metas and infos name the same accounts in the same order, and nothing is
requested that the caller was not given. -/
def FullyBacked (invocation : Invocation) : Prop :=
  List.Forall₂ Backs invocation.infos invocation.instruction.accounts

theorem backs_readonly (account : AccountRef) : Backs account (readonlyMeta account false) := by
  simp [Backs, readonlyMeta]

theorem backs_writable {account : AccountRef} (writable : account.isWritable = true) :
    Backs account (writableMeta account false) := by
  simp [Backs, writableMeta, writable]

theorem backs_mut (account : MutAccount) : Backs account.val (writableMeta account.val false) :=
  backs_writable account.property

theorem backs_optional (account : MutAccount) : Backs account.val (optionalMeta account.val) := by
  unfold optionalMeta
  split
  · exact backs_readonly _
  · exact backs_mut account

theorem backs_user (trader : MutSigner) : Backs trader.val (writableMeta trader.val true) := by
  simp [Backs, writableMeta, trader.property]

theorem backs_signer (trader : MutSigner) : Backs trader.val (readonlyMeta trader.val true) := by
  simp [Backs, readonlyMeta, trader.property]

theorem backed_append {infos moreInfos : List AccountRef} {metas moreMetas : List AccountMeta}
    (front : List.Forall₂ Backs infos metas) (back : List.Forall₂ Backs moreInfos moreMetas) :
    List.Forall₂ Backs (infos ++ moreInfos) (metas ++ moreMetas) :=
  List.rel_append front back

theorem common_backed :
    List.Forall₂ Backs
      [accounts.pumpAccounts.pool, accounts.pumpAccounts.user, accounts.pumpAccounts.globalConfig,
       accounts.pumpAccounts.baseMint, accounts.pumpAccounts.quoteMint,
       accounts.pumpAccounts.userBaseTokenAccount, accounts.pumpAccounts.userQuoteTokenAccount,
       accounts.pumpAccounts.poolBaseTokenAccount, accounts.pumpAccounts.poolQuoteTokenAccount,
       accounts.pumpAccounts.protocolFeeRecipient,
       accounts.pumpAccounts.protocolFeeRecipientTokenAccount,
       accounts.pumpAccounts.baseTokenProgram, accounts.pumpAccounts.quoteTokenProgram,
       accounts.pumpAccounts.systemProgram, accounts.pumpAccounts.associatedTokenProgram,
       accounts.pumpAccounts.eventAuthority, accounts.pumpAccounts.program,
       accounts.pumpAccounts.coinCreatorVaultAta, accounts.pumpAccounts.coinCreatorVaultAuthority]
      (commonPumpMetas accounts.pumpAccounts) := by
  unfold commonPumpMetas
  simp only [List.forall₂_cons, List.forall₂_nil_right_iff, and_true]
  exact ⟨backs_mut _, backs_user _, backs_readonly _, backs_readonly _, backs_readonly _,
    backs_mut _, backs_mut _, backs_mut _, backs_mut _, backs_readonly _, backs_mut _,
    backs_readonly _, backs_readonly _, backs_readonly _, backs_readonly _, backs_readonly _,
    backs_readonly _, backs_mut _, backs_readonly _⟩

/-- The appended accounts of a buy and of a sell, whichever of them the pool asks for. -/
theorem remaining_backed (pool : PumpPoolPrefix) (isBuy : Bool) :
    List.Forall₂ Backs
      ((if pool.isCashbackCoin then accounts.pumpAccounts.userVolumeAccumulatorWsolAta ::
          (if !isBuy then [accounts.pumpAccounts.userVolumeAccumulator] else []) else []) ++
        (if pool.coinCreator ≠ zeroKey then [accounts.pumpAccounts.poolV2] else []) ++
        [accounts.pumpAccounts.buybackFeeRecipient,
          accounts.pumpAccounts.buybackFeeRecipientTokenAccount])
      (currentRemainingMetas accounts.pumpAccounts pool isBuy) := by
  have accumulator : List.Forall₂ Backs
      (if !isBuy then [accounts.pumpAccounts.userVolumeAccumulator] else [])
      (if !isBuy then [writableMeta accounts.pumpAccounts.userVolumeAccumulator false] else []) := by
    split
    · exact .cons (backs_mut _) .nil
    · exact .nil
  unfold currentRemainingMetas
  refine backed_append (backed_append ?_ ?_) (.cons (backs_readonly _) (.cons (backs_mut _) .nil))
  · split
    · exact .cons (backs_mut _) accumulator
    · exact .nil
  · split
    · exact .cons (backs_readonly _) .nil
    · exact .nil

theorem buy_backed {runtime : Runtime} {ledger : Ledger} {quoteIn minOut : Nat}
    {invocation : Invocation}
    (built : buyExactQuoteIn runtime ledger accounts.pumpAccounts quoteIn minOut = .ok invocation) :
    FullyBacked invocation := by
  unfold buyExactQuoteIn pumpInvocation at built
  simp only [bind_ok_iff, pure_ok, Except.ok.injEq] at built
  obtain ⟨_, _, pool, parsed, again, reparsed, rfl⟩ := built
  -- Metas and infos are chosen from two parses of the same account data.
  rw [parsed] at reparsed
  cases reparsed
  unfold FullyBacked pumpInfos
  simp only [if_true, List.append_assoc]
  refine backed_append (common_backed accounts) (backed_append
    (.cons (backs_readonly _) (.cons (backs_mut _) .nil))
    (backed_append (.cons (backs_readonly _) (.cons (backs_readonly _) .nil)) ?_))
  simpa only [List.append_assoc] using remaining_backed accounts pool true

theorem sell_backed {runtime : Runtime} {ledger : Ledger} {baseIn minOut : Nat}
    {invocation : Invocation}
    (built : sell runtime ledger accounts.pumpAccounts baseIn minOut = .ok invocation) :
    FullyBacked invocation := by
  unfold sell pumpInvocation at built
  simp only [bind_ok_iff, pure_ok, Except.ok.injEq] at built
  obtain ⟨_, _, _, _, _, _, pool, parsed, again, reparsed, rfl⟩ := built
  rw [parsed] at reparsed
  cases reparsed
  unfold FullyBacked pumpInfos
  simp only [Bool.false_eq_true, if_false, List.append_nil, List.append_assoc]
  refine backed_append (common_backed accounts)
    (backed_append (.cons (backs_readonly _) (.cons (backs_readonly _) .nil)) ?_)
  simpa only [List.append_assoc] using remaining_backed accounts pool false

/-- What validation establishes of every array handed to the DLMM program. -/
structure ValidArray (lbPair : Pubkey) (account : AccountInfo) : Prop where
  owned : account.owner = meteoraDlmmProgramId
  writable : account.isWritable = true
  notSigner : account.isSigner = false
  marked : account.data.take discriminatorLen = meteoraBinArrayDiscriminator
  ofPair : readPubkey account.data meteoraBinArrayLbPairOffset = .ok lbPair

theorem validate_from_valid (lbPair : Pubkey) (earlier arrays : List AccountInfo)
    (accepted : validateBinArraysFrom lbPair earlier arrays = .ok ()) :
    ∀ account ∈ arrays, ValidArray lbPair account := by
  induction arrays generalizing earlier with
  | nil => exact fun _ member => absurd member List.not_mem_nil
  | cons head rest ih =>
      unfold validateBinArraysFrom validateBinArrayData at accepted
      simp only [bind_ok_iff, require_ok, decide_eq_true_eq, Bool.and_eq_true,
        Bool.not_eq_true'] at accepted
      obtain ⟨_, owned, _, ⟨writable, notSigner⟩, _, ⟨_, _, _, marked, key, read, same⟩, _, _, _, _,
        later⟩ := accepted
      intro account member
      rcases List.mem_cons.mp member with rfl | later'
      · exact ⟨owned, writable, notSigner, marked, same ▸ read⟩
      · exact ih _ later account later'

theorem validated_arrays {lbPair : Pubkey} {arrays : List AccountInfo}
    (accepted : validateBinArrays arrays lbPair = .ok ()) :
    0 < arrays.length ∧ arrays.length ≤ maxMeteoraBinArrays ∧
      ∀ account ∈ arrays, ValidArray lbPair account := by
  unfold validateBinArrays validateBinArrayCount at accepted
  simp only [bind_ok_iff, require_ok, decide_eq_true_eq] at accepted
  obtain ⟨_, ⟨_, some, atMost⟩, later⟩ := accepted
  exact ⟨some, atMost, validate_from_valid _ _ _ later⟩

theorem swap_arrays_validated {ledger : Ledger} {meteora : MeteoraAccounts}
    {binArrays : List AccountRef} (accepted : validateMeteora ledger meteora binArrays = .ok ()) :
    validateBinArrays (binArrays.map (·.info ledger)) meteora.lbPair.key = .ok () := by
  unfold validateMeteora at accepted
  simp only [bind_ok_iff] at accepted
  obtain ⟨_, _, _, _, _, _, _, _, _, _, _, _, _, _, _, _, _, _, _, _, arrays⟩ := accepted
  exact arrays

/-- The user's two token accounts are whichever the direction calls input and output. -/
theorem swap2_backed {ledger : Ledger} {input output : MutAccount} {binArrays : List AccountRef}
    {amountIn minOut : Nat} {invocation : Invocation}
    (built : swap2 ledger (accounts.meteoraAccounts ledger input.val output.val) binArrays amountIn
      minOut = .ok invocation) :
    FullyBacked invocation := by
  unfold swap2 at built
  simp only [bind_ok_iff, pure_ok, Except.ok.injEq] at built
  obtain ⟨_, accepted, rfl⟩ := built
  have valid := (validated_arrays (swap_arrays_validated accepted)).2.2
  unfold FullyBacked swap2Infos swap2Metas
  refine backed_append ?_ (List.forall₂_map_right_iff.mpr (List.forall₂_same.mpr ?_))
  · simp only [List.forall₂_cons, List.forall₂_nil_right_iff, and_true]
    exact ⟨backs_mut _, backs_optional _, backs_mut _, backs_mut _, backs_mut input,
      backs_mut output, backs_readonly _, backs_readonly _, backs_mut _, backs_optional _,
      backs_signer _, backs_readonly _, backs_readonly _, backs_readonly _, backs_readonly _,
      backs_readonly _⟩
  · intro array member
    exact backs_writable (valid _ (List.mem_map_of_mem member)).writable

end Privileges

end ArbExecutor.RouteAccounts
