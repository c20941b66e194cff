import ArbExecutor.AccountImages
import ArbExecutor.CurveSoundness
import ArbExecutor.RouteHandlers

/-!
The stand-in for both DEX programs, from test-programs/mock-dex. It pays out
twice what it is paid, from vaults its own address signs for. The token program
it moves balances with is a parameter; the plain one at the end keeps the mint,
owner and amount of a token account where the real one does.
-/

namespace ArbExecutor.MockDex

open Checked QuoteMath QuoteAccounts AccountValidation BinArrayLayout ByteRanges MarketLayouts
  AccountPrefixes DexAdapters RouteAccounts RouteHandlers AccountImages CurveSoundness

inductive ProgramError where
  | custom (code : Nat)
  | invalidInstructionData
  | invalidAccountData
  | notEnoughAccountKeys
  | illegalOwner
  | arithmeticOverflow
  | token (code : Nat)
  deriving DecidableEq, Repr

/-- The number an error is returned to the invoking program as. -/
def ProgramError.code : ProgramError → Nat
  | .custom code => code
  | .invalidInstructionData => 3 * 2 ^ 32
  | .invalidAccountData => 4 * 2 ^ 32
  | .notEnoughAccountKeys => 11 * 2 ^ 32
  | .illegalOwner => 18 * 2 ^ 32
  | .arithmeticOverflow => 24 * 2 ^ 32
  | .token code => code

/-- A transfer is authorised by a signing account, or by the program whose
vault address the authority is. -/
structure TokenProgram where
  unpack : Bytes → Option TokenAccount
  transfer : (tokenProgram source destination authority : AccountRef) → (amount : Nat) →
    (signer : Option Pubkey) → Ledger → Except Nat Ledger

def fixtureWrite : Bytes := seed "fixture!"

section Processing
variable (tokens : TokenProgram)

def readAmount (data : Bytes) (offset : Nat) : Except ProgramError Nat :=
  ((readU64 data offset).map UInt64.toNat).mapError fun _ => .invalidInstructionData

def transfer (tokenProgram source destination authority : AccountRef) (amount : Nat)
    (signer : Option Pubkey) (ledger : Ledger) : Except ProgramError Ledger :=
  (tokens.transfer tokenProgram source destination authority amount signer ledger).mapError .token

/-- `amount_in.checked_mul(2)` with its minimum, `shortfall` being the custom code below it. -/
def payOut (data : Bytes) (shortfall : Nat) : Except ProgramError (Nat × Nat) := do
  let amountIn ← readAmount data 8
  let minOut ← readAmount data 16
  let amountOut ← okOr (checkedMul 64 amountIn 2) .arithmeticOverflow
  if amountOut < minOut then .error (.custom shortfall) else pure (amountIn, amountOut)

def processPump (accounts : List AccountRef) (data : Bytes) (ledger : Ledger) :
    Except ProgramError Ledger :=
  if enough : 21 ≤ accounts.length ∧ 24 ≤ data.length then do
    let amounts ← payOut data 1
    let tokenProgram := accounts[11]
    let user := accounts[1]
    let vaultAuthority := accounts[18]
    if data.take 8 = pumpBuyExactQuoteInDiscriminator then do
      let ledger ← transfer tokens tokenProgram accounts[6] accounts[8] user amounts.1 none ledger
      transfer tokens tokenProgram accounts[7] accounts[5] vaultAuthority amounts.2
        (some pumpSwapProgramId) ledger
    else if data.take 8 = pumpSellDiscriminator then do
      let ledger ← transfer tokens tokenProgram accounts[5] accounts[7] user amounts.1 none ledger
      transfer tokens tokenProgram accounts[8] accounts[6] vaultAuthority amounts.2
        (some pumpSwapProgramId) ledger
    else .error .invalidInstructionData
  else .error .notEnoughAccountKeys

def unpackAt (ledger : Ledger) (account : AccountRef) : Except ProgramError TokenAccount :=
  okOr (tokens.unpack (ledger account.key).data) .invalidAccountData

/-- The reserve of the paid mint takes the payment, the other one pays out. -/
def processMeteora (accounts : List AccountRef) (data : Bytes) (ledger : Ledger) :
    Except ProgramError Ledger :=
  if enough : 17 ≤ accounts.length ∧ 24 ≤ data.length ∧ data.take 8 = meteoraSwap2Discriminator then do
    let amounts ← payOut data 2
    let input ← unpackAt tokens ledger accounts[4]
    let reserveX ← unpackAt tokens ledger accounts[2]
    let inputReserve := if input.mint = reserveX.mint then accounts[2] else accounts[3]
    let outputReserve := if input.mint = reserveX.mint then accounts[3] else accounts[2]
    let ledger ← transfer tokens accounts[11] accounts[4] inputReserve accounts[10] amounts.1 none
      ledger
    transfer tokens accounts[11] outputReserve accounts[5] accounts[14] amounts.2
      (some meteoraDlmmProgramId) ledger
  else .error .invalidInstructionData

def writeFixture (programId : Pubkey) (accounts : List AccountRef) (payload : Bytes)
    (ledger : Ledger) : Except ProgramError Ledger := do
  let target ← okOr accounts.head? .notEnoughAccountKeys
  if (ledger target.key).owner ≠ programId || !target.isWritable then .error .illegalOwner
  else if payload.length ≠ (ledger target.key).data.length then .error .invalidAccountData
  else pure fun key =>
    if key = target.key then { ledger target.key with data := payload } else ledger key

/-- Loaded under any other id, the program does nothing. -/
def processInstruction (programId : Pubkey) (accounts : List AccountRef) (data : Bytes)
    (ledger : Ledger) : Except ProgramError Ledger :=
  if data.take fixtureWrite.length = fixtureWrite then
    writeFixture programId accounts (data.drop fixtureWrite.length) ledger
  else if programId = pumpSwapProgramId then processPump tokens accounts data ledger
  else if programId = meteoraDlmmProgramId then processMeteora tokens accounts data ledger
  else .ok ledger

/-- The callee sees the accounts its metas name, with the privileges they ask for. -/
def calleeAccount (requested : AccountMeta) : AccountRef :=
  ⟨requested.pubkey, requested.isSigner, requested.isWritable⟩

def mockInvoke (instruction : Instruction) (ledger : Ledger) : Except Nat Ledger :=
  (processInstruction tokens instruction.programId (instruction.accounts.map calleeAccount)
    instruction.data ledger).mapError ProgramError.code

end Processing

section PlainTokens

/-- Mint, owner and amount of a token account of the usual length. -/
def plainUnpack (data : Bytes) : Option TokenAccount :=
  if data.length = tokenAccountLen then do
    let mint ← (readKey data 0).toOption
    let owner ← (readKey data 32).toOption
    let amount ← (readU64 data 64).toOption
    some ⟨mint, owner, amount⟩
  else none

def setAmount (ledger : Ledger) (key : Pubkey) (amount : Nat) : Ledger := fun other =>
  if other = key then { ledger key with data := put (ledger key).data ⟨64, leBytes 8 amount⟩ }
  else ledger other

/-- Insufficient funds are error 1, a foreign mint 3, a wrong authority 4. -/
def plainTransfer (vaultAddress : Pubkey → Pubkey)
    (_tokenProgram source destination authority : AccountRef) (amount : Nat)
    (signer : Option Pubkey) (ledger : Ledger) : Except Nat Ledger := do
  let payer ← okOr (plainUnpack (ledger source.key).data) (4 * 2 ^ 32)
  let payee ← okOr (plainUnpack (ledger destination.key).data) (4 * 2 ^ 32)
  if payer.amount.toNat < amount then .error 1
  else if payer.mint ≠ payee.mint then .error 3
  else if payer.owner ≠ authority.key then .error 4
  else if !authority.isSigner && signer.map vaultAddress ≠ some authority.key then .error (8 * 2 ^ 32)
  else if source.key = destination.key then pure ledger
  else if 2 ^ 64 ≤ payee.amount.toNat + amount then .error 14
  else pure (setAmount (setAmount ledger source.key (payer.amount.toNat - amount)) destination.key
    (payee.amount.toNat + amount))

def plainTokens (vaultAddress : Pubkey → Pubkey) : TokenProgram where
  unpack := plainUnpack
  transfer := plainTransfer vaultAddress

end PlainTokens

/-! One world with plain tokens: a pair whose active bin buys the target at twice
the pool's price, and the mock behind both program ids. -/
section SampleWorld

/-- A key for each byte. -/
def numbered (number : UInt8) : Pubkey := ⟨List.replicate 32 number, List.length_replicate⟩

def tokenData (mint owner : Pubkey) (amount : UInt64) : Bytes :=
  mint.val ++ owner.val ++ leBytes 8 amount.toNat ++ zeros 93

def entry (key : Pubkey) : AccountRef := ⟨key, false, false⟩
def mutEntry (key : Pubkey) : MutAccount := ⟨⟨key, false, true⟩, rfl⟩

def sampleAccounts : RouteAccounts.ExecuteRoute where
  trader := ⟨⟨numbered 1, true, true⟩, rfl, rfl⟩
  wsolMint := ⟨entry wsolMintId, rfl⟩
  targetMint := ⟨entry (numbered 2), by decide⟩
  userWsol := mutEntry (numbered 3)
  userTarget := mutEntry (numbered 4)
  wsolTokenProgram := ⟨entry legacyTokenProgramId, rfl⟩
  targetTokenProgram := ⟨entry legacyTokenProgramId, .inl rfl⟩
  systemProgram := ⟨entry zeroKey, rfl⟩
  associatedTokenProgram := ⟨entry associatedTokenProgramId, rfl⟩
  pumpProgram := ⟨entry pumpSwapProgramId, rfl⟩
  pumpPool := mutEntry (numbered 5)
  pumpGlobalConfig := entry (numbered 20)
  pumpPoolBaseTokenAccount := mutEntry (numbered 6)
  pumpPoolQuoteTokenAccount := mutEntry (numbered 7)
  pumpProtocolFeeRecipient := entry (numbered 22)
  pumpProtocolFeeRecipientTokenAccount := mutEntry (numbered 23)
  pumpEventAuthority := entry (numbered 24)
  pumpCoinCreatorVaultAta := mutEntry (numbered 25)
  pumpCoinCreatorVaultAuthority := entry (numbered 30)
  pumpGlobalVolumeAccumulator := entry (numbered 26)
  pumpUserVolumeAccumulator := mutEntry (numbered 27)
  pumpUserVolumeAccumulatorWsolAta := mutEntry (numbered 28)
  pumpFeeConfig := entry (numbered 21)
  pumpFeeProgram := ⟨entry pumpFeeProgramId, rfl⟩
  pumpPoolV2 := entry (numbered 29)
  pumpBuybackFeeRecipient := entry (numbered 32)
  pumpBuybackFeeRecipientTokenAccount := mutEntry (numbered 33)
  meteoraProgram := ⟨entry meteoraDlmmProgramId, rfl⟩
  meteoraLbPair := mutEntry (numbered 8)
  meteoraBinArrayBitmapExtension := mutEntry meteoraDlmmProgramId
  meteoraReserveX := mutEntry (numbered 9)
  meteoraReserveY := mutEntry (numbered 10)
  meteoraOracle := mutEntry (numbered 34)
  meteoraHostFeeIn := mutEntry meteoraDlmmProgramId
  memoProgram := ⟨entry memoProgramId, rfl⟩
  meteoraEventAuthority := entry (numbered 31)

def samplePool : Bytes :=
  poolImage (zeros 261) ⟨numbered 98, numbered 2, zeroKey, 0⟩
    ⟨numbered 2, wsolMintId, numbered 6, numbered 7, zeroKey, false⟩

def samplePair : Bytes :=
  pairImage (zeros 712) dustPair ⟨zeroKey, zeroKey⟩
    ⟨numbered 2, wsolMintId, numbered 9, numbered 10⟩

def sampleArray : Bytes :=
  (binArrayAccount (numbered 11) (numbered 8) 0
    [payingBin 1000, { payingBin 1000 with priceQ64 := 2 ^ 65 }]).data

def sampleLedger : Ledger := fun key =>
  if key = numbered 3 then ⟨legacyTokenProgramId, false, tokenData wsolMintId (numbered 1) 5000⟩
  else if key = numbered 4 then ⟨legacyTokenProgramId, false, tokenData (numbered 2) (numbered 1) 7⟩
  else if key = numbered 6 then ⟨legacyTokenProgramId, false, tokenData (numbered 2) (numbered 30) 1000000⟩
  else if key = numbered 7 then ⟨legacyTokenProgramId, false, tokenData wsolMintId (numbered 30) 1000000⟩
  else if key = numbered 9 then ⟨legacyTokenProgramId, false, tokenData (numbered 2) (numbered 31) 1000000⟩
  else if key = numbered 10 then ⟨legacyTokenProgramId, false, tokenData wsolMintId (numbered 31) 1000000⟩
  else if key = wsolMintId ∨ key = numbered 2 then ⟨legacyTokenProgramId, false, zeros 82⟩
  else if key = numbered 5 then ⟨pumpSwapProgramId, false, samplePool⟩
  else if key = numbered 20 then ⟨pumpSwapProgramId, false, zeros 321⟩
  else if key = numbered 21 then
    ⟨pumpFeeProgramId, false, zeros 41 ++ leBytes 8 20 ++ leBytes 8 5 ++ leBytes 8 5⟩
  else if key = numbered 8 then ⟨meteoraDlmmProgramId, false, samplePair⟩
  else if key = numbered 11 then ⟨meteoraDlmmProgramId, false, sampleArray⟩
  else ⟨zeroKey, true, []⟩

def sampleAddress (seeds : List Bytes) (_program : Pubkey) : Pubkey :=
  if seeds = [seed "global_config"] then numbered 20
  else if seeds.head? = some (seed "fee_config") then numbered 21
  else numbered 99

def sampleVault (program : Pubkey) : Pubkey :=
  if program = pumpSwapProgramId then numbered 30 else numbered 31

def sampleRuntime : Runtime where
  findProgramAddress := sampleAddress
  unpackTokenAccount := plainUnpack
  mintExtensionTypes := fun _ => none
  unixTimestamp := 0
  invoke := fun instruction _ ledger => mockInvoke (plainTokens sampleVault) instruction ledger

def sampleContext : RouteContext sampleRuntime where
  accounts := sampleAccounts
  remainingAccounts := [⟨numbered 11, false, true⟩]
  ledger := sampleLedger
  userWsol := ⟨wsolMintId, numbered 1, 5000⟩
  userTarget := ⟨numbered 2, numbered 1, 7⟩
  targetMintSupply := 0
  wsolLoaded := by decide +kernel
  targetLoaded := by decide +kernel
  wsolOwner := rfl
  wsolMint := rfl
  targetOwner := rfl
  targetMint := rfl

end SampleWorld

end ArbExecutor.MockDex
