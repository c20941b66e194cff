import ArbExecutor.QuoteAccounts

/-!
The executor's error codes and the bin-array part of
utils/account_validation.rs. An account carries the fields the bin-array checks
read; borrowing its data never fails because nothing holds it mutably here.
-/

namespace ArbExecutor.AccountValidation

open Checked QuoteMath QuoteAccounts

inductive ArbError where
  | invalidProgramId
  | invalidTokenMint
  | invalidTokenAccountOwner
  | invalidPool
  | invalidCashbackAccount
  | invalidRemainingAccounts
  | invalidBinArray
  | balanceDidNotIncreaseAsExpected
  | arithmeticOverflow
  | invalidAmount
  | profitTooLow
  | targetBalanceNotRestored
  | unsupportedTokenProgram
  | unsupportedTokenExtension
  | invalidRouteAccounts
  | invalidAccountData
  | bestDirectionQuoteIncomplete
  | noProfitableDirection
  | invalidDynamicAmountRange
  deriving DecidableEq, Repr

/-- A public key is exactly 32 bytes. -/
abbrev Pubkey := { bytes : Bytes // bytes.length = 32 }

structure AccountInfo where
  key : Pubkey
  owner : Pubkey
  isWritable : Bool
  isSigner : Bool
  data : Bytes
  deriving DecidableEq

def meteoraDlmmProgramId : Pubkey :=
  ⟨[4, 233, 225, 47, 188, 132, 232, 38, 201, 50, 204, 233, 226, 100, 12, 206,
    21, 89, 12, 28, 98, 115, 176, 146, 87, 8, 186, 59, 133, 32, 176, 188], rfl⟩

def meteoraBinArrayDiscriminator : Bytes := [92, 142, 92, 220, 5, 148, 70, 181]
def meteoraBinArrayLbPairOffset : Nat := 24
def meteoraBinArrayRequiredPrefixLen : Nat := meteoraBinArrayLbPairOffset + 32
def maxMeteoraBinArrays : Nat := 8

def readPubkey (data : Bytes) (offset : Nat) : Except ArbError Pubkey :=
  let slice := (data.drop offset).take 32
  if size : slice.length = 32 then .ok ⟨slice, size⟩ else .error .invalidAccountData

def require (condition : Bool) (error : ArbError) : Except ArbError Unit :=
  if condition then .ok () else .error error

theorem require_ok (condition : Bool) (error : ArbError) (done : Unit) :
    require condition error = .ok done ↔ condition = true := by
  unfold require
  split <;> simp_all

def validateBinArrayData (data : Bytes) (expectedLbPair : Pubkey) : Except ArbError Unit := do
  require (meteoraBinArrayRequiredPrefixLen ≤ data.length) .invalidBinArray
  require (data.take discriminatorLen = meteoraBinArrayDiscriminator) .invalidBinArray
  let lbPair ← readPubkey data meteoraBinArrayLbPairOffset
  require (lbPair = expectedLbPair) .invalidBinArray

def binArrayIndexField (data : Bytes) : Except ArbError Int :=
  (parseBinArrayIndex data).mapError fun _ => .invalidBinArray

/-- The inner loop: no earlier account may carry the same index. -/
def requireFreshIndex (index : Int) : List AccountInfo → Except ArbError Unit
  | [] => .ok ()
  | earlier :: rest => do
      let earlierIndex ← binArrayIndexField earlier.data
      require (index ≠ earlierIndex) .invalidBinArray
      requireFreshIndex index rest

def validateBinArraysFrom (lbPair : Pubkey) :
    List AccountInfo → List AccountInfo → Except ArbError Unit
  | _, [] => .ok ()
  | earlier, account :: rest => do
      require (account.owner = meteoraDlmmProgramId) .invalidBinArray
      require (account.isWritable && !account.isSigner) .invalidBinArray
      validateBinArrayData account.data lbPair
      let index ← binArrayIndexField account.data
      requireFreshIndex index earlier
      validateBinArraysFrom lbPair (earlier ++ [account]) rest

def validateBinArrayCount (count : Nat) : Except ArbError Unit := do
  require (0 < count) .invalidRemainingAccounts
  require (count ≤ maxMeteoraBinArrays) .invalidRemainingAccounts

def validateBinArrays (accounts : List AccountInfo) (lbPair : Pubkey) : Except ArbError Unit := do
  validateBinArrayCount accounts.length
  validateBinArraysFrom lbPair [] accounts

end ArbExecutor.AccountValidation
