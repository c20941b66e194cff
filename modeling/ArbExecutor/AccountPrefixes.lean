import ArbExecutor.MarketLayouts
import ArbExecutor.RouteExecution

/-!
Accounts as the runtime stores them, and the checks of utils/account_validation.rs
and utils/token_extensions.rs on them. Account unpacking of the token programs,
program address derivation, the clock and program invocation are not part of
the repository; a `Runtime` supplies them.
-/

namespace ArbExecutor.AccountPrefixes

open Checked QuoteMath QuoteAccounts AccountValidation BinArrayLayout ByteRanges MarketLayouts

structure Account where
  owner : Pubkey
  executable : Bool
  data : Bytes
  deriving DecidableEq

abbrev Ledger := Pubkey → Account

/-- An entry of an account list: the contents are whatever the ledger holds when it is read. -/
structure AccountRef where
  key : Pubkey
  isSigner : Bool
  isWritable : Bool
  deriving DecidableEq

def AccountRef.info (account : AccountRef) (ledger : Ledger) : AccountInfo where
  key := account.key
  owner := (ledger account.key).owner
  isWritable := account.isWritable
  isSigner := account.isSigner
  data := (ledger account.key).data

structure AccountMeta where
  pubkey : Pubkey
  isSigner : Bool
  isWritable : Bool
  deriving DecidableEq

structure Instruction where
  programId : Pubkey
  accounts : List AccountMeta
  data : Bytes
  deriving DecidableEq

structure TokenAccount where
  mint : Pubkey
  owner : Pubkey
  amount : UInt64
  deriving DecidableEq

inductive ExtensionType where
  | metadataPointer
  | tokenMetadata
  | other (code : Nat)
  deriving DecidableEq, Repr

/-- What the handlers use and the repository does not define. An invocation may
fail with a code or leave any ledger behind. -/
structure Runtime where
  findProgramAddress : List Bytes → Pubkey → Pubkey
  unpackTokenAccount : Bytes → Option TokenAccount
  mintExtensionTypes : Bytes → Option (List ExtensionType)
  unixTimestamp : Int64
  invoke : Instruction → List AccountRef → Ledger → Except Nat Ledger

def pumpSwapProgramId : Pubkey :=
  ⟨[12, 20, 222, 252, 130, 94, 198, 118, 148, 37, 8, 24, 187, 101, 64, 101,
    244, 41, 141, 49, 86, 213, 113, 180, 212, 248, 9, 12, 24, 233, 168, 99], rfl⟩

def pumpProgramId : Pubkey :=
  ⟨[1, 86, 224, 246, 147, 102, 90, 207, 68, 219, 21, 104, 191, 23, 91, 170,
    81, 137, 203, 151, 245, 210, 255, 59, 101, 93, 43, 182, 253, 109, 24, 176], rfl⟩

def pumpFeeProgramId : Pubkey :=
  ⟨[12, 53, 255, 169, 5, 90, 142, 86, 141, 168, 247, 188, 7, 86, 21, 39,
    76, 241, 201, 44, 164, 31, 64, 0, 156, 81, 106, 164, 20, 194, 124, 112], rfl⟩

def wsolMintId : Pubkey :=
  ⟨[6, 155, 136, 87, 254, 171, 129, 132, 251, 104, 127, 99, 70, 24, 192, 53,
    218, 196, 57, 220, 26, 235, 59, 85, 152, 160, 240, 0, 0, 0, 0, 1], rfl⟩

def memoProgramId : Pubkey :=
  ⟨[5, 74, 83, 90, 153, 41, 33, 6, 77, 36, 232, 113, 96, 218, 56, 124,
    124, 53, 181, 221, 188, 146, 187, 129, 228, 31, 168, 64, 65, 5, 68, 141], rfl⟩

def legacyTokenProgramId : Pubkey :=
  ⟨[6, 221, 246, 225, 215, 101, 161, 147, 217, 203, 225, 70, 206, 235, 121, 172,
    28, 180, 133, 237, 95, 91, 55, 145, 58, 140, 245, 133, 126, 255, 0, 169], rfl⟩

def token2022ProgramId : Pubkey :=
  ⟨[6, 221, 246, 225, 238, 117, 143, 222, 24, 66, 93, 188, 228, 108, 205, 218,
    182, 26, 252, 77, 131, 185, 13, 39, 254, 189, 249, 40, 216, 161, 139, 252], rfl⟩

def associatedTokenProgramId : Pubkey :=
  ⟨[140, 151, 37, 143, 78, 36, 137, 241, 187, 61, 16, 41, 20, 142, 13, 131,
    11, 90, 19, 153, 218, 255, 16, 132, 4, 142, 123, 216, 219, 233, 248, 89], rfl⟩

def pumpPoolDiscriminator : Bytes := [241, 154, 109, 4, 17, 177, 109, 188]
def meteoraLbPairDiscriminator : Bytes := [33, 11, 49, 98, 181, 101, 177, 13]

section Prefixes

structure PumpPoolPrefix where
  baseMint : Pubkey
  quoteMint : Pubkey
  baseVault : Pubkey
  quoteVault : Pubkey
  coinCreator : Pubkey
  isCashbackCoin : Bool
  deriving DecidableEq

structure MeteoraPairPrefix where
  tokenXMint : Pubkey
  tokenYMint : Pubkey
  reserveX : Pubkey
  reserveY : Pubkey
  deriving DecidableEq

def pumpCoinCreatorOffset : Nat := 211
def pumpIsCashbackCoinOffset : Nat := 244
def pumpRequiredPrefixLen : Nat := pumpCoinCreatorOffset + 32
def meteoraReserveYOffset : Nat := 184
def meteoraRequiredPrefixLen : Nat := meteoraReserveYOffset + 32

def checkDiscriminator (data expected : Bytes) : Except ArbError Unit :=
  require (data.take discriminatorLen = expected) .invalidAccountData

/-- The cashback byte: pools from before it was appended have none. -/
def readCashbackFlag (data : Bytes) : Except ArbError Bool :=
  match data[pumpIsCashbackCoinOffset]? with
  | none => .ok false
  | some flag =>
      if flag = 0 then .ok false
      else if flag = 1 then .ok true
      else .error .invalidAccountData

def parsePumpPoolPrefix (data : Bytes) : Except ArbError PumpPoolPrefix := do
  require (pumpRequiredPrefixLen ≤ data.length) .invalidAccountData
  checkDiscriminator data pumpPoolDiscriminator
  let isCashbackCoin ← readCashbackFlag data
  let baseMint ← readPubkey data 43
  let quoteMint ← readPubkey data 75
  let baseVault ← readPubkey data 139
  let quoteVault ← readPubkey data 171
  let coinCreator ← readPubkey data pumpCoinCreatorOffset
  pure { baseMint, quoteMint, baseVault, quoteVault, coinCreator, isCashbackCoin }

def parseMeteoraPair (data : Bytes) : Except ArbError MeteoraPairPrefix := do
  require (meteoraRequiredPrefixLen ≤ data.length) .invalidAccountData
  checkDiscriminator data meteoraLbPairDiscriminator
  let tokenXMint ← readPubkey data 88
  let tokenYMint ← readPubkey data 120
  let reserveX ← readPubkey data 152
  let reserveY ← readPubkey data meteoraReserveYOffset
  pure { tokenXMint, tokenYMint, reserveX, reserveY }

def validateUserTokenFields (actualOwner actualMint expectedOwner expectedMint : Pubkey) :
    Except ArbError Unit := do
  require (actualOwner = expectedOwner) .invalidTokenAccountOwner
  require (actualMint = expectedMint) .invalidTokenMint

end Prefixes

section TokenExtensions

def isSupportedTokenProgram (program : Pubkey) : Bool :=
  program == legacyTokenProgramId || program == token2022ProgramId

def validateRouteTokenPrograms (wsolMint targetMint userWsol userTarget : AccountInfo)
    (wsolTokenProgram targetTokenProgram : Pubkey) : Except ArbError Unit := do
  require (wsolTokenProgram = legacyTokenProgramId) .unsupportedTokenProgram
  require (isSupportedTokenProgram targetTokenProgram) .unsupportedTokenProgram
  require (wsolMint.owner = wsolTokenProgram) .unsupportedTokenProgram
  require (userWsol.owner = wsolTokenProgram) .unsupportedTokenProgram
  require (targetMint.owner = targetTokenProgram) .unsupportedTokenProgram
  require (userTarget.owner = targetTokenProgram) .unsupportedTokenProgram

def ExtensionType.supported : ExtensionType → Bool
  | .metadataPointer => true
  | .tokenMetadata => true
  | .other _ => false

def requireSupportedExtensions : List ExtensionType → Except ArbError Unit
  | [] => .ok ()
  | extension :: rest => do
      require extension.supported .unsupportedTokenExtension
      requireSupportedExtensions rest

def validateSupportedTargetMint (runtime : Runtime) (targetMint : AccountInfo) :
    Except ArbError Unit :=
  if targetMint.owner = legacyTokenProgramId then .ok ()
  else do
    require (targetMint.owner = token2022ProgramId) .unsupportedTokenProgram
    let extensions ← okOr (runtime.mintExtensionTypes targetMint.data) .invalidAccountData
    requireSupportedExtensions extensions

end TokenExtensions

/-! The validating parsers accept exactly the layouts too, on the same bytes the
quoting parsers read. -/
section Layouts

/-- The validating reader takes the same range as the quoting one. -/
theorem read_pubkey_ok (data : Bytes) (offset : Nat) (key : Pubkey) :
    readPubkey data offset = .ok key ↔ HasField data ⟨offset, key.val⟩ := by
  rw [← read_key_ok]
  unfold readPubkey readKey
  dsimp only
  split <;> simp

theorem check_discriminator_ok (data expected : Bytes) (done : Unit)
    (wide : expected.length = discriminatorLen) :
    checkDiscriminator data expected = .ok done ↔ HasField data ⟨0, expected⟩ := by
  unfold checkDiscriminator HasField ByteRanges.slice
  rw [require_ok, decide_eq_true_eq, wide, List.drop_zero]

def pumpPrefixFields (pool : PumpPoolPrefix) : List (FieldAt UInt8) :=
  [⟨0, pumpPoolDiscriminator⟩, ⟨43, pool.baseMint.val⟩, ⟨75, pool.quoteMint.val⟩,
   ⟨139, pool.baseVault.val⟩, ⟨171, pool.quoteVault.val⟩, ⟨211, pool.coinCreator.val⟩]

def pairPrefixFields (pair : MeteoraPairPrefix) : List (FieldAt UInt8) :=
  [⟨0, meteoraLbPairDiscriminator⟩, ⟨88, pair.tokenXMint.val⟩, ⟨120, pair.tokenYMint.val⟩,
   ⟨152, pair.reserveX.val⟩, ⟨184, pair.reserveY.val⟩]

theorem parse_pump_prefix_ok (data : Bytes) (pool : PumpPoolPrefix) :
    parsePumpPoolPrefix data = .ok pool ↔
      Carries data (pumpPrefixFields pool) ∧ readCashbackFlag data = .ok pool.isCashbackCoin := by
  unfold parsePumpPoolPrefix pumpPrefixFields
  simp only [bind_ok_iff, require_ok, decide_eq_true_eq, check_discriminator_ok data
    pumpPoolDiscriminator _ rfl, read_pubkey_ok, pure_ok, Except.ok.injEq, carries_cons,
    carries_nil, and_true, pumpCoinCreatorOffset]
  constructor
  · rintro ⟨_, _, _, marked, cashback, flag, base, h1, quote, h2, baseVault, h3, quoteVault, h4,
      coin, h5, rfl⟩
    exact ⟨⟨marked, h1, h2, h3, h4, h5⟩, flag⟩
  · rintro ⟨⟨marked, h1, h2, h3, h4, h5⟩, flag⟩
    have long := has_field_fits h5 (by rw [pool.coinCreator.property]; decide)
    rw [FieldAt.finish, pool.coinCreator.property] at long
    exact ⟨(), long, (), marked, _, flag, _, h1, _, h2, _, h3, _, h4, _, h5, rfl⟩

theorem parse_meteora_pair_ok (data : Bytes) (pair : MeteoraPairPrefix) :
    parseMeteoraPair data = .ok pair ↔ Carries data (pairPrefixFields pair) := by
  unfold parseMeteoraPair pairPrefixFields
  simp only [bind_ok_iff, require_ok, decide_eq_true_eq, check_discriminator_ok data
    meteoraLbPairDiscriminator _ rfl, read_pubkey_ok, pure_ok, Except.ok.injEq, carries_cons,
    carries_nil, and_true, meteoraReserveYOffset]
  constructor
  · rintro ⟨_, _, _, marked, x, h1, y, h2, reserveX, h3, reserveY, h4, rfl⟩
    exact ⟨marked, h1, h2, h3, h4⟩
  · rintro ⟨marked, h1, h2, h3, h4⟩
    have long := has_field_fits h4 (by rw [pair.reserveY.property]; decide)
    rw [FieldAt.finish, pair.reserveY.property] at long
    exact ⟨(), long, (), marked, _, h1, _, h2, _, h3, _, h4, rfl⟩

end Layouts

end ArbExecutor.AccountPrefixes
