import ArbExecutor.AccountPrefixes

/-!
Instruction building of adapters/pump_swap.rs and adapters/meteora_dlmm.rs. An
adapter validates its accounts against the ledger, builds the callee's account
metas and data, and passes the account infos along; the source writes metas and
infos as two separate lists, and so does the model.
-/

namespace ArbExecutor.DexAdapters

open Checked QuoteAccounts AccountValidation BinArrayLayout MarketLayouts AccountPrefixes

/-- `AccountMeta::new`. -/
def writableMeta (account : AccountRef) (isSigner : Bool) : AccountMeta :=
  ⟨account.key, isSigner, true⟩

def readonlyMeta (account : AccountRef) (isSigner : Bool) : AccountMeta :=
  ⟨account.key, isSigner, false⟩

/-- An instruction with the account infos its invocation is given. -/
structure Invocation where
  instruction : Instruction
  infos : List AccountRef
  deriving DecidableEq

def pumpBuyExactQuoteInDiscriminator : Bytes := [198, 46, 21, 82, 180, 217, 232, 112]
def pumpSellDiscriminator : Bytes := [51, 230, 133, 164, 1, 127, 131, 173]
def meteoraSwap2Discriminator : Bytes := [65, 75, 63, 76, 235, 91, 91, 136]
def userVolumeAccumulatorDiscriminator : Bytes := [86, 255, 112, 14, 102, 53, 154, 250]
def userVolumeAccumulatorCurrentLen : Nat := 137
def tokenAccountLen : Nat := 165

/-- A seed given as text: its characters are all single bytes. -/
def seed (text : String) : Bytes := text.toList.map fun letter => UInt8.ofNat letter.toNat

section PumpSwap

structure PumpSwapAccounts where
  pool : AccountRef
  user : AccountRef
  globalConfig : AccountRef
  baseMint : AccountRef
  quoteMint : AccountRef
  userBaseTokenAccount : AccountRef
  userQuoteTokenAccount : AccountRef
  poolBaseTokenAccount : AccountRef
  poolQuoteTokenAccount : AccountRef
  protocolFeeRecipient : AccountRef
  protocolFeeRecipientTokenAccount : AccountRef
  baseTokenProgram : AccountRef
  quoteTokenProgram : AccountRef
  systemProgram : AccountRef
  associatedTokenProgram : AccountRef
  eventAuthority : AccountRef
  program : AccountRef
  coinCreatorVaultAta : AccountRef
  coinCreatorVaultAuthority : AccountRef
  globalVolumeAccumulator : AccountRef
  userVolumeAccumulator : AccountRef
  userVolumeAccumulatorWsolAta : AccountRef
  feeConfig : AccountRef
  feeProgram : AccountRef
  poolV2 : AccountRef
  buybackFeeRecipient : AccountRef
  buybackFeeRecipientTokenAccount : AccountRef
  deriving DecidableEq

variable (runtime : Runtime) (ledger : Ledger) (accounts : PumpSwapAccounts)

def expectedPoolV2 : Pubkey :=
  runtime.findProgramAddress [seed "pool-v2", accounts.baseMint.key.val] pumpSwapProgramId

def expectedUserVolumeAccumulator : Pubkey :=
  runtime.findProgramAddress [seed "user_volume_accumulator", accounts.user.key.val]
    pumpSwapProgramId

def expectedCashbackAta : Pubkey :=
  runtime.findProgramAddress
    [(expectedUserVolumeAccumulator runtime accounts).val, accounts.quoteTokenProgram.key.val,
      accounts.quoteMint.key.val]
    associatedTokenProgramId

def validateCreator (pool : PumpPoolPrefix) : Except ArbError Unit :=
  if pool.coinCreator ≠ zeroKey then
    require (expectedPoolV2 runtime accounts = accounts.poolV2.key) .invalidPool
  else .ok ()

def validateCashback (pool : PumpPoolPrefix) : Except ArbError Unit :=
  if pool.isCashbackCoin then do
    require (expectedUserVolumeAccumulator runtime accounts = accounts.userVolumeAccumulator.key)
      .invalidCashbackAccount
    require (expectedCashbackAta runtime accounts = accounts.userVolumeAccumulatorWsolAta.key)
      .invalidCashbackAccount
  else .ok ()

/-- `pump_swap::validate`. -/
def validatePump : Except ArbError Unit := do
  require (accounts.program.key = pumpSwapProgramId) .invalidProgramId
  require (ledger accounts.program.key).executable .invalidProgramId
  require (accounts.feeProgram.key = pumpFeeProgramId) .invalidProgramId
  require (ledger accounts.feeProgram.key).executable .invalidProgramId
  require ((ledger accounts.pool.key).owner = pumpSwapProgramId) .invalidPool
  let pool ← parsePumpPoolPrefix (ledger accounts.pool.key).data
  require (pool.baseMint = accounts.baseMint.key) .invalidTokenMint
  require (pool.quoteMint = accounts.quoteMint.key) .invalidTokenMint
  require (pool.baseVault = accounts.poolBaseTokenAccount.key) .invalidPool
  require (pool.quoteVault = accounts.poolQuoteTokenAccount.key) .invalidPool
  validateCreator runtime accounts pool
  validateCashback runtime accounts pool

def accumulatorIsValid (accumulator : Account) : Bool :=
  accumulator.owner == pumpSwapProgramId &&
    decide (userVolumeAccumulatorCurrentLen ≤ accumulator.data.length) &&
    accumulator.data.take 8 == userVolumeAccumulatorDiscriminator &&
    (accumulator.data.drop 8).take 32 == accounts.user.key.val

def cashbackAtaIsValid (cashbackAta : Account) : Bool :=
  cashbackAta.owner == accounts.quoteTokenProgram.key &&
    decide (tokenAccountLen ≤ cashbackAta.data.length) &&
    cashbackAta.data.take 32 == accounts.quoteMint.key.val &&
    (cashbackAta.data.drop 32).take 32 == accounts.userVolumeAccumulator.key.val

def cashbackSellIsReady : Except ArbError Bool := do
  let pool ← parsePumpPoolPrefix (ledger accounts.pool.key).data
  if !pool.isCashbackCoin then pure true
  else pure (accumulatorIsValid accounts (ledger accounts.userVolumeAccumulator.key) &&
    cashbackAtaIsValid accounts (ledger accounts.userVolumeAccumulatorWsolAta.key))

/-- The metas a buy and a sell have in common, up to the creator vault authority. -/
def commonPumpMetas : List AccountMeta :=
  [writableMeta accounts.pool false, writableMeta accounts.user true,
   readonlyMeta accounts.globalConfig false, readonlyMeta accounts.baseMint false,
   readonlyMeta accounts.quoteMint false, writableMeta accounts.userBaseTokenAccount false,
   writableMeta accounts.userQuoteTokenAccount false,
   writableMeta accounts.poolBaseTokenAccount false,
   writableMeta accounts.poolQuoteTokenAccount false,
   readonlyMeta accounts.protocolFeeRecipient false,
   writableMeta accounts.protocolFeeRecipientTokenAccount false,
   readonlyMeta accounts.baseTokenProgram false, readonlyMeta accounts.quoteTokenProgram false,
   readonlyMeta accounts.systemProgram false, readonlyMeta accounts.associatedTokenProgram false,
   readonlyMeta accounts.eventAuthority false, readonlyMeta accounts.program false,
   writableMeta accounts.coinCreatorVaultAta false,
   readonlyMeta accounts.coinCreatorVaultAuthority false]

def volumeMetas : List AccountMeta :=
  [readonlyMeta accounts.globalVolumeAccumulator false,
   writableMeta accounts.userVolumeAccumulator false]

def feeMetas : List AccountMeta :=
  [readonlyMeta accounts.feeConfig false, readonlyMeta accounts.feeProgram false]

/-- `append_current_remaining_accounts`, as the list it appends. -/
def currentRemainingMetas (pool : PumpPoolPrefix) (isBuy : Bool) : List AccountMeta :=
  (if pool.isCashbackCoin then
    writableMeta accounts.userVolumeAccumulatorWsolAta false ::
      (if !isBuy then [writableMeta accounts.userVolumeAccumulator false] else [])
   else []) ++
  (if pool.coinCreator ≠ zeroKey then [readonlyMeta accounts.poolV2 false] else []) ++
  [readonlyMeta accounts.buybackFeeRecipient false,
   writableMeta accounts.buybackFeeRecipientTokenAccount false]

def pumpInfos (pool : PumpPoolPrefix) (includeVolumeAccounts : Bool) : List AccountRef :=
  [accounts.pool, accounts.user, accounts.globalConfig, accounts.baseMint, accounts.quoteMint,
   accounts.userBaseTokenAccount, accounts.userQuoteTokenAccount, accounts.poolBaseTokenAccount,
   accounts.poolQuoteTokenAccount, accounts.protocolFeeRecipient,
   accounts.protocolFeeRecipientTokenAccount, accounts.baseTokenProgram,
   accounts.quoteTokenProgram, accounts.systemProgram, accounts.associatedTokenProgram,
   accounts.eventAuthority, accounts.program, accounts.coinCreatorVaultAta,
   accounts.coinCreatorVaultAuthority] ++
  (if includeVolumeAccounts then
    [accounts.globalVolumeAccumulator, accounts.userVolumeAccumulator] else []) ++
  [accounts.feeConfig, accounts.feeProgram] ++
  (if pool.isCashbackCoin then
    accounts.userVolumeAccumulatorWsolAta ::
      (if !includeVolumeAccounts then [accounts.userVolumeAccumulator] else [])
   else []) ++
  (if pool.coinCreator ≠ zeroKey then [accounts.poolV2] else []) ++
  [accounts.buybackFeeRecipient, accounts.buybackFeeRecipientTokenAccount]

/-- `pump_swap::invoke` up to the runtime's invocation. -/
def pumpInvocation (metas : List AccountMeta) (data : Bytes) (includeVolumeAccounts : Bool) :
    Except ArbError Invocation := do
  let pool ← parsePumpPoolPrefix (ledger accounts.pool.key).data
  pure ⟨⟨pumpSwapProgramId, metas, data⟩, pumpInfos accounts pool includeVolumeAccounts⟩

/-- The last byte is `OptionBool(false)`: volume is not tracked. -/
def buyExactQuoteIn (spendableQuoteIn minBaseAmountOut : Nat) : Except ArbError Invocation := do
  validatePump runtime ledger accounts
  let pool ← parsePumpPoolPrefix (ledger accounts.pool.key).data
  pumpInvocation ledger accounts
    (commonPumpMetas accounts ++ volumeMetas accounts ++ feeMetas accounts ++
      currentRemainingMetas accounts pool true)
    (pumpBuyExactQuoteInDiscriminator ++ leBytes 8 spendableQuoteIn ++ leBytes 8 minBaseAmountOut ++ [0])
    true

def sell (baseAmountIn minQuoteAmountOut : Nat) : Except ArbError Invocation := do
  validatePump runtime ledger accounts
  let ready ← cashbackSellIsReady ledger accounts
  require ready .invalidCashbackAccount
  let pool ← parsePumpPoolPrefix (ledger accounts.pool.key).data
  pumpInvocation ledger accounts
    (commonPumpMetas accounts ++ feeMetas accounts ++ currentRemainingMetas accounts pool false)
    (pumpSellDiscriminator ++ leBytes 8 baseAmountIn ++ leBytes 8 minQuoteAmountOut)
    false

end PumpSwap

section MeteoraDlmm

structure MeteoraAccounts where
  lbPair : AccountRef
  binArrayBitmapExtension : AccountRef
  reserveX : AccountRef
  reserveY : AccountRef
  userTokenIn : AccountRef
  userTokenOut : AccountRef
  tokenXMint : AccountRef
  tokenYMint : AccountRef
  oracle : AccountRef
  hostFeeIn : AccountRef
  user : AccountRef
  tokenXProgram : AccountRef
  tokenYProgram : AccountRef
  memoProgram : AccountRef
  eventAuthority : AccountRef
  program : AccountRef
  deriving DecidableEq

variable (ledger : Ledger) (accounts : MeteoraAccounts) (binArrays : List AccountRef)

/-- The DLMM program id stands for an optional account that is not given. -/
def validateOptional (account : AccountRef) : Except ArbError Unit :=
  if account.key ≠ meteoraDlmmProgramId then
    require ((ledger account.key).owner = meteoraDlmmProgramId) .invalidPool
  else .ok ()

/-- `meteora_dlmm::validate`. -/
def validateMeteora : Except ArbError Unit := do
  require (accounts.program.key = meteoraDlmmProgramId) .invalidProgramId
  require (ledger accounts.program.key).executable .invalidProgramId
  require ((ledger accounts.lbPair.key).owner = meteoraDlmmProgramId) .invalidPool
  let pair ← parseMeteoraPair (ledger accounts.lbPair.key).data
  require (pair.tokenXMint = accounts.tokenXMint.key) .invalidTokenMint
  require (pair.tokenYMint = accounts.tokenYMint.key) .invalidTokenMint
  require (pair.reserveX = accounts.reserveX.key) .invalidPool
  require (pair.reserveY = accounts.reserveY.key) .invalidPool
  validateOptional ledger accounts.binArrayBitmapExtension
  validateOptional ledger accounts.hostFeeIn
  validateBinArrays (binArrays.map (·.info ledger)) accounts.lbPair.key

def optionalMeta (account : AccountRef) : AccountMeta :=
  if account.key = meteoraDlmmProgramId then readonlyMeta account false
  else writableMeta account false

def swap2Metas : List AccountMeta :=
  [writableMeta accounts.lbPair false, optionalMeta accounts.binArrayBitmapExtension,
   writableMeta accounts.reserveX false, writableMeta accounts.reserveY false,
   writableMeta accounts.userTokenIn false, writableMeta accounts.userTokenOut false,
   readonlyMeta accounts.tokenXMint false, readonlyMeta accounts.tokenYMint false,
   writableMeta accounts.oracle false, optionalMeta accounts.hostFeeIn,
   readonlyMeta accounts.user true, readonlyMeta accounts.tokenXProgram false,
   readonlyMeta accounts.tokenYProgram false, readonlyMeta accounts.memoProgram false,
   readonlyMeta accounts.eventAuthority false, readonlyMeta accounts.program false] ++
  binArrays.map (writableMeta · false)

def swap2Infos : List AccountRef :=
  [accounts.lbPair, accounts.binArrayBitmapExtension, accounts.reserveX, accounts.reserveY,
   accounts.userTokenIn, accounts.userTokenOut, accounts.tokenXMint, accounts.tokenYMint,
   accounts.oracle, accounts.hostFeeIn, accounts.user, accounts.tokenXProgram,
   accounts.tokenYProgram, accounts.memoProgram, accounts.eventAuthority, accounts.program] ++
  binArrays

/-- The data ends in two empty transfer-hook slices: supported mints have no hooks. -/
def swap2 (amountIn minAmountOut : Nat) : Except ArbError Invocation := do
  validateMeteora ledger accounts binArrays
  pure ⟨⟨meteoraDlmmProgramId, swap2Metas accounts binArrays,
      meteoraSwap2Discriminator ++ leBytes 8 amountIn ++ leBytes 8 minAmountOut ++
        leBytes 4 2 ++ [0, 0, 1, 0]⟩,
    swap2Infos accounts binArrays⟩

end MeteoraDlmm

end ArbExecutor.DexAdapters
