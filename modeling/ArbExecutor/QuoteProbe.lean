import ArbExecutor.SelectedRoutes
import ArbExecutor.SnapshotAgreement

/-!
The offline amount probe of test-programs/quote-probe. It reads the same accounts
as the executor into windows around the active bin, quotes each given amount both
ways and keeps the first of the most profitable ones. What it keeps is what the
executor selects for that amount, and no other amount it tried earns more there.
-/

namespace ArbExecutor.QuoteProbe

open Checked QuoteMath QuoteAccounts AccountValidation MarketLayouts AccountPrefixes DexAdapters
  RouteAccounts BestDirection RouteHandlers SelectedRoutes SnapshotAgreement ListChoice MockDex
  BinArrayLayout

def maxTrials : Nat := 9

structure Market where
  base : UInt64
  quote : UInt64
  virtualQuote : UInt64
  fees : PumpFees
  pair : LbPairState
  arrays : List ParsedBinArray
  targetIsX : Bool
  timestamp : Int64

structure Row where
  input : UInt64
  forward : Except QuoteError Nat
  reverse : Except QuoteError Nat

structure Choice where
  input : UInt64
  output : Nat
  reverse : Bool
  deriving DecidableEq

inductive ProgramError where
  | invalidInstructionData
  | invalidAccountData
  deriving DecidableEq

section Choosing

/-- One result of a row against the best so far. -/
def consider (minProfit : Nat) (row : Row) (best : Option Choice)
    (side : Bool × Except QuoteError Nat) : Option Choice :=
  match side.2 with
  | .error _ => best
  | .ok output =>
      match checkedSub output row.input.toNat with
      | none => best
      | some profit =>
          if minProfit ≤ profit ∧ best.all (fun best => best.output - best.input.toNat < profit) then
            some { input := row.input, output, reverse := side.1 }
          else best

def choose (rows : List Row) (minProfit : Nat) : Option Choice :=
  rows.foldl (fun best row =>
    [(false, row.forward), (true, row.reverse)].foldl (consider minProfit row) best) none

end Choosing

section Reading
variable (findProgramAddress : List Bytes → Pubkey → Pubkey)

/-- `Market::parse`: seven accounts and one to four bin arrays. -/
def Market.parse (data : List Bytes) (timestamp : Int64) : Except QuoteError Market :=
  match data with
  | poolData :: globalData :: feeConfigData :: mintData :: baseData :: quoteData :: pairData ::
      arrayData => do
      if arrayData.length = 0 ∨ 4 < arrayData.length then .error .invalidInput
      else
        let pool ← parsePumpPool poolData
        let base ← tokenAmount baseData
        let quote ← tokenAmount quoteData
        let expectedCreator :=
          findProgramAddress [seed "pool-authority", pool.baseMint.val] pumpProgramId
        let globalFees ← parsePumpGlobalFees globalData
        let supply ← mintSupply mintData
        let effective ← okOr (checkedAdd 64 quote.toNat pool.virtualQuoteReserves.toNat) .mathOverflow
        let fees ← selectPumpFeesFromData feeConfigData globalFees (pool.creator == expectedCreator)
          supply.toNat base.toNat effective
        let pair ← parseLbPair pairData
        let targetIsX := (bytes pairData 88 32).toOption == some pool.baseMint.val
        if !targetIsX ∧ (bytes pairData 120 32).toOption ≠ some pool.baseMint.val then
          .error .invalidInput
        else
          let arrays ← arrayData.mapM fun data => parseBinArrayWindow data pair.activeId.toInt
          pure { base, quote, virtualQuote := pool.virtualQuoteReserves, fees := chargedFees pool fees
                 pair, arrays, targetIsX, timestamp }
  | _ => .error .invalidInput

/-- What the executor keeps of a market. -/
def Market.state (market : Market) : MarketState where
  pumpBaseReserve := market.base
  pumpQuoteReserve := market.quote
  pumpVirtualQuoteReserve := market.virtualQuote
  pumpFees := market.fees
  pair := market.pair
  targetIsX := market.targetIsX

def Market.row (market : Market) (input : UInt64) : Row where
  input := input
  forward := do
    let buy ← pumpBuy market.state input.toNat
    let quote ← quoteDlmmSnapshot buy.amountOut market.pair market.arrays market.targetIsX
      market.timestamp
    pure quote.amountOut
  reverse := do
    let buy ← quoteDlmmSnapshot input.toNat market.pair market.arrays (!market.targetIsX)
      market.timestamp
    let sell ← pumpSell market.state buy.amountOut
    pure sell.amountOut

/-- The trials of an instruction, eight bytes each. -/
def trials : Nat → Bytes → List UInt64
  | 0, _ => []
  | count + 1, data => UInt64.ofNat (leNat (data.take 8)) :: trials count (data.drop 8)

/-- `process`, with the rows and the best of them as it logs them. -/
def process (accounts : List Bytes) (data : Bytes) :
    Except ProgramError (List Row × Option Choice) :=
  if data.length < 18 then .error .invalidInstructionData
  else
    let count := (data.getD 9 0).toNat
    if count = 0 ∨ maxTrials < count ∨ data.length ≠ 10 + 8 * count then .error .invalidInstructionData
    else
      let timestamp := (UInt64.ofNat (leNat ((data.drop 1).take 8))).toInt64
      match Market.parse findProgramAddress accounts timestamp with
      | .error _ => .error .invalidAccountData
      | .ok market =>
          let rows := (trials count (data.drop 10)).map market.row
          .ok (rows, choose rows 1)

/-- The first byte of the data that reaches the amount search. -/
def searchTag : UInt8 := 4

/-- The arm of `process_instruction` that hands data to the amount search; the other
probes of the program take the data that it leaves. -/
def searchArm (accounts : List Bytes) (data : Bytes) :
    Option (Except ProgramError (List Row × Option Choice)) :=
  if data.head? = some searchTag then some (process findProgramAddress accounts data) else none

end Reading

/-! The instruction data as scripts/measure-amount-search.ts writes it. -/
section Trials

def trialData (timestamp : Int64) (amounts : List UInt64) : Bytes :=
  [searchTag] ++ leBytes 8 timestamp.toUInt64.toNat ++ [UInt8.ofNat amounts.length] ++
    amounts.flatMap fun amount => leBytes 8 amount.toNat

def probedInputs (data : Bytes) : List UInt64 := trials (data.getD 9 0).toNat (data.drop 10)

def probedTime (data : Bytes) : Int64 := (UInt64.ofNat (leNat ((data.drop 1).take 8))).toInt64

theorem trials_length (count : Nat) (data : Bytes) : (trials count data).length = count := by
  induction count generalizing data with
  | zero => rfl
  | succ count ih => exact congrArg (· + 1) (ih _)

/-- Eight bytes and the number they spell. -/
theorem word_spelled {slice : Bytes} (wide : slice.length = 8) :
    leBytes 8 (UInt64.ofNat (leNat slice)).toNat = slice := by
  have small := le_nat_lt slice
  rw [wide] at small
  rw [UInt64.toNat_ofNat_of_lt' small, ← wide, le_bytes_le_nat]

theorem word_read_back (value : UInt64) : UInt64.ofNat (leNat (leBytes 8 value.toNat)) = value := by
  rw [le_nat_le_bytes 8 _ value.toNat_lt, UInt64.ofNat_toNat]

theorem trials_written (amounts : List UInt64) :
    trials amounts.length (amounts.flatMap fun amount => leBytes 8 amount.toNat) = amounts := by
  induction amounts with
  | nil => rfl
  | cons amount rest ih =>
      have wide := length_le_bytes 8 amount.toNat
      rw [List.flatMap_cons, List.length_cons, trials, List.take_left' wide, List.drop_left' wide,
        word_read_back, ih]

theorem written_trials (count : Nat) (data : Bytes) (sized : data.length = 8 * count) :
    (trials count data).flatMap (fun amount => leBytes 8 amount.toNat) = data := by
  induction count generalizing data with
  | zero => exact (List.eq_nil_of_length_eq_zero sized).symm
  | succ count ih =>
      have wide : (data.take 8).length = 8 := by rw [List.length_take]; omega
      rw [trials, List.flatMap_cons, word_spelled wide, ih _ (by rw [List.length_drop]; omega),
        List.take_append_drop]

theorem trial_data_parts (timestamp : Int64) (amounts : List UInt64) (few : amounts.length ≤ maxTrials) :
    (trialData timestamp amounts).length = 10 + 8 * amounts.length ∧
      ((trialData timestamp amounts).getD 9 0).toNat = amounts.length ∧
      probedTime (trialData timestamp amounts) = timestamp ∧
      probedInputs (trialData timestamp amounts) = amounts := by
  have words : (amounts.flatMap fun amount => leBytes 8 amount.toNat).length = 8 * amounts.length := by
    simp [List.length_flatMap, Nat.mul_comm]
  have fits : amounts.length < 256 := by unfold maxTrials at few; omega
  have count : (UInt8.ofNat amounts.length).toNat = amounts.length := by
    rw [UInt8.toNat_ofNat', Nat.mod_eq_of_lt fits]
  obtain ⟨stamp, atStamp⟩ : ∃ stamp, leBytes 8 timestamp.toUInt64.toNat = stamp := ⟨_, rfl⟩
  have wide : stamp.length = 8 := by rw [← atStamp, length_le_bytes]
  have counted : (trialData timestamp amounts).getD 9 0 = UInt8.ofNat amounts.length := by
    unfold trialData
    rw [atStamp, List.append_assoc, List.getD_eq_getElem?_getD, List.getElem?_append_right (by simp [wide])]
    simp [wide]
  refine ⟨?_, by rw [counted, count], ?_, ?_⟩
  · unfold trialData
    simp only [List.length_append, List.length_singleton, length_le_bytes, words]
  · unfold probedTime trialData
    rw [List.append_assoc, List.append_assoc, List.singleton_append, List.drop_succ_cons, List.drop_zero,
      List.take_left' (length_le_bytes _ _), word_read_back]
    exact Int64.toInt64_toUInt64 timestamp
  · unfold probedInputs
    rw [counted, count]
    unfold trialData
    rw [List.drop_left' (by simp [length_le_bytes])]
    exact trials_written amounts

/-- Tagged data of the right length is what the script would have written. -/
theorem data_spelled {data : Bytes} {count : Nat} (tagged : data.head? = some searchTag) (counted : (data.getD 9 0).toNat = count)
    (sized : data.length = 10 + 8 * count) :
    data = trialData (probedTime data) (trials count (data.drop 10)) := by
  cases data with
  | nil =>
      rw [List.length_nil] at sized
      omega
  | cons tag rest =>
      obtain rfl : tag = searchTag := Option.some.inj tagged
      rw [List.length_cons] at sized
      have inside : 8 < rest.length := by omega
      have wide : (rest.take 8).length = 8 := by rw [List.length_take]; omega
      have counter : UInt8.ofNat count = rest[8] := by
        rw [← counted, List.getD_cons_succ, List.getD_eq_getElem?_getD, List.getElem?_eq_getElem inside,
          Option.getD_some, UInt8.ofNat_toNat]
      have stamp : leBytes 8 (probedTime (searchTag :: rest)).toUInt64.toNat = rest.take 8 := word_spelled wide
      unfold trialData
      rw [trials_length, stamp, counter, List.drop_succ_cons, written_trials count _ (by
        rw [List.length_drop]; omega), List.append_assoc, List.append_assoc, List.singleton_append,
        List.singleton_append, ← List.drop_eq_getElem_cons inside, List.take_append_drop]

/-- The amount search answers exactly the data the script writes for one to nine
amounts, each amount with its row and in the order written; other data with its tag
is refused, and data with another tag does not reach it. -/
theorem trial_data_exact (findProgramAddress : List Bytes → Pubkey → Pubkey) (accounts : List Bytes)
    (data : Bytes) :
    ((∀ timestamp amounts, 0 < amounts.length → amounts.length ≤ maxTrials →
        data ≠ trialData timestamp amounts) ∧
      searchArm findProgramAddress accounts data =
        if data.head? = some searchTag then some (.error .invalidInstructionData) else none) ∨
      ∃ timestamp amounts, (0 < amounts.length ∧ amounts.length ≤ maxTrials) ∧
        data = trialData timestamp amounts ∧
        searchArm findProgramAddress accounts data =
          some (((Market.parse findProgramAddress accounts timestamp).mapError
            fun _ => ProgramError.invalidAccountData).map
            fun market => (amounts.map market.row, choose (amounts.map market.row) 1)) := by
  unfold searchArm
  by_cases tagged : data.head? = some searchTag
  · simp only [if_pos tagged]
    unfold process
    by_cases short : data.length < 18
    · refine .inl ⟨fun timestamp amounts some few same => ?_, by rw [if_pos short]⟩
      have sized := (trial_data_parts timestamp amounts few).1
      rw [same, sized] at short
      omega
    rw [if_neg short]
    by_cases refused : (data.getD 9 0).toNat = 0 ∨ maxTrials < (data.getD 9 0).toNat ∨
        data.length ≠ 10 + 8 * (data.getD 9 0).toNat
    · refine .inl ⟨fun timestamp amounts some few same => ?_, by rw [if_pos refused]⟩
      obtain ⟨sized, counted, _, _⟩ := trial_data_parts timestamp amounts few
      rw [← same] at sized counted
      omega
    · have sized : data.length = 10 + 8 * (data.getD 9 0).toNat := by omega
      refine .inr ⟨_, _, ?_, data_spelled tagged rfl sized, ?_⟩
      · rw [trials_length]
        omega
      · dsimp only
        rw [if_neg refused]
        unfold probedTime
        cases Market.parse findProgramAddress accounts
          (UInt64.ofNat (leNat ((data.drop 1).take 8))).toInt64 <;> rfl
  · simp only [if_neg tagged]
    refine .inl ⟨fun timestamp amounts some few same => tagged ?_, trivial⟩
    rw [same]
    rfl

end Trials

/-! What a row offers, in the order the probe looks at it. -/
section Offers

def profit (choice : Choice) : Nat := choice.output - choice.input.toNat

def offer (minProfit : Nat) (row : Row) (side : Bool × Except QuoteError Nat) : Option Choice :=
  side.2.toOption.bind fun output =>
    if row.input.toNat + minProfit ≤ output then some { input := row.input, output, reverse := side.1 }
    else none

def offers (minProfit : Nat) (row : Row) : List Choice :=
  [(false, row.forward), (true, row.reverse)].filterMap (offer minProfit row)

theorem consider_offer (minProfit : Nat) (row : Row) (best : Option Choice)
    (side : Bool × Except QuoteError Nat) :
    consider minProfit row best side =
      ((offer minProfit row side).toList).foldl (keepBest (greater profit)) best := by
  obtain ⟨reverse, result⟩ := side
  unfold consider offer
  cases result with
  | error error => rfl
  | ok output =>
      dsimp only [Except.toOption, Option.bind_some]
      by_cases covers : row.input.toNat ≤ output
      · rw [checked_sub_fits covers]
        dsimp only
        by_cases enough : row.input.toNat + minProfit ≤ output
        · have earns : minProfit ≤ output - row.input.toNat := by omega
          rw [if_pos enough]
          simp only [earns, true_and, Option.toList_some, List.foldl_cons, List.foldl_nil]
          rfl
        · rw [if_neg enough, if_neg (fun both => enough (by omega))]
          rfl
      · have short : checkedSub output row.input.toNat = none := if_neg covers
        rw [short, if_neg (by omega)]
        rfl

/-- The probe keeps the running best of all offers. -/
theorem choose_best_of (rows : List Row) (minProfit : Nat) :
    choose rows minProfit = bestOf (greater profit) (rows.flatMap (offers minProfit)) := by
  have row_step (best : Option Choice) (row : Row) :
      [(false, row.forward), (true, row.reverse)].foldl (consider minProfit row) best =
        (offers minProfit row).foldl (keepBest (greater profit)) best := by
    unfold offers
    simp only [List.foldl_cons, List.foldl_nil, consider_offer, List.filterMap_cons, List.filterMap_nil]
    cases offer minProfit row (false, row.forward) <;>
      cases offer minProfit row (true, row.reverse) <;> rfl
  unfold choose bestOf
  rw [List.foldl_flatMap]
  congr 1
  funext best row
  exact row_step best row

def Row.result (row : Row) (reverse : Bool) : Except QuoteError Nat :=
  if reverse then row.reverse else row.forward

theorem mem_offers {minProfit : Nat} {row : Row} {choice : Choice} :
    choice ∈ offers minProfit row ↔ choice.input = row.input ∧
      row.result choice.reverse = .ok choice.output ∧
      choice.input.toNat + minProfit ≤ choice.output := by
  have offered (side : Bool × Except QuoteError Nat) :
      offer minProfit row side = some choice ↔ choice.input = row.input ∧ side.1 = choice.reverse ∧
        side.2 = .ok choice.output ∧ choice.input.toNat + minProfit ≤ choice.output := by
    obtain ⟨input, output, reverse⟩ := choice
    unfold offer
    simp only [Option.bind_eq_some_iff, to_option_some, Option.ite_none_right_eq_some,
      Option.some.injEq, Choice.mk.injEq]
    constructor
    · rintro ⟨_, quoted, enough, rfl, rfl, rfl⟩
      exact ⟨rfl, rfl, quoted, enough⟩
    · rintro ⟨rfl, rfl, quoted, enough⟩
      exact ⟨_, quoted, enough, rfl, rfl, rfl⟩
  unfold offers Row.result
  simp only [List.mem_filterMap, List.mem_cons, List.not_mem_nil, or_false, exists_eq_or_imp,
    exists_eq_left, offered]
  cases choice.reverse <;> simp

/-- A row offers its forward result before its reverse one. -/
theorem offers_ordered (minProfit : Nat) (row : Row) :
    (offers minProfit row).Pairwise fun earlier _ => earlier.reverse = false := by
  have forward {choice : Choice} (offered : offer minProfit row (false, row.forward) = some choice) :
      choice.reverse = false := by
    unfold offer at offered
    simp only [Option.bind_eq_some_iff, Option.ite_none_right_eq_some, Option.some.injEq] at offered
    obtain ⟨_, _, _, rfl⟩ := offered
    rfl
  unfold offers
  simp only [List.filterMap_cons, List.filterMap_nil]
  cases first : offer minProfit row (false, row.forward) <;>
    cases offer minProfit row (true, row.reverse) <;> simp
  exact forward first

/-- No result of the row earns more than the choice does. -/
def Row.Within (row : Row) (choice : Choice) : Prop :=
  ∀ reverse output, row.result reverse = .ok output →
    output + choice.input.toNat ≤ choice.output + row.input.toNat

def Row.Below (row : Row) (choice : Choice) : Prop :=
  ∀ reverse output, row.result reverse = .ok output →
    output + choice.input.toNat < choice.output + row.input.toNat

theorem row_compares {minProfit : Nat} {row : Row} {choice : Choice}
    (enough : choice.input.toNat + minProfit ≤ choice.output) :
    ((∀ other ∈ offers minProfit row, profit other ≤ profit choice) → row.Within choice) ∧
      ((∀ other ∈ offers minProfit row, profit other < profit choice) → row.Below choice) := by
  have short {reverse : Bool} {output : Nat} (quoted : row.result reverse = .ok output) :
      ⟨row.input, output, reverse⟩ ∈ offers minProfit row ∨
        output + choice.input.toNat < choice.output + row.input.toNat := by
    by_cases covers : row.input.toNat + minProfit ≤ output
    · exact .inl (mem_offers.mpr ⟨rfl, quoted, covers⟩)
    · exact .inr (by omega)
  unfold profit
  constructor
  · intro most reverse output quoted
    rcases short quoted with offered | less
    · have least := most _ offered
      dsimp only at least
      omega
    · exact less.le
  · intro most reverse output quoted
    rcases short quoted with offered | less
    · have least := most _ offered
      dsimp only at least
      omega
    · exact less

/-- The first of the most profitable results, the forward one within a row. -/
structure FirstMost (rows before after : List Row) (row : Row) (choice : Choice) : Prop where
  listed : rows = before ++ row :: after
  input : choice.input = row.input
  quoted : row.result choice.reverse = .ok choice.output
  earlier : ∀ other ∈ before, other.Below choice
  own : row.Within choice
  later : ∀ other ∈ after, other.Within choice
  forward : ∀ output, choice.reverse = true → row.forward = .ok output → output < choice.output

theorem choose_first (rows : List Row) (minProfit : Nat) :
    (choose rows minProfit = none ∧ rows.flatMap (offers minProfit) = []) ∨
      ∃ choice, choose rows minProfit = some choice ∧
        FirstGreatest profit (rows.flatMap (offers minProfit)) choice := by
  rw [choose_best_of]
  exact best_of_greater _

theorem choose_some {rows : List Row} {minProfit : Nat} {choice : Choice}
    (chosen : choose rows minProfit = some choice) :
    choice.input.toNat + minProfit ≤ choice.output ∧
      ∃ before row after, FirstMost rows before after row choice := by
  rcases choose_first rows minProfit with ⟨none, _⟩ | ⟨_, some, first⟩
  · rw [none] at chosen
    cases chosen
  cases some.symm.trans chosen
  have most := (greatest_le first).2
  obtain ⟨before, after, split, smaller, _⟩ := first
  obtain ⟨earlier, row, later, own, rest, rfl, members, rfl, rfl⟩ := group_of_split split
  have offered : choice ∈ offers minProfit row := by
    rw [members]
    exact List.mem_append_right _ List.mem_cons_self
  obtain ⟨input, quoted, enough⟩ := mem_offers.mp offered
  have within (other : Row) (listed : other ∈ earlier ++ row :: later) : other.Within choice :=
    (row_compares enough).1 fun offered member => most _ (List.mem_flatMap.mpr ⟨other, listed, member⟩)
  refine ⟨enough, earlier, row, later, rfl, input, quoted, ?_, within _ (by simp),
    fun other listed => within _ (by simp [listed]), ?_⟩
  · intro other listed
    exact (row_compares enough).2 fun offered member =>
      smaller _ (List.mem_append_left _ (List.mem_flatMap.mpr ⟨other, listed, member⟩))
  · intro output reversed forward
    -- A forward offer of the same row stands in front of the choice.
    by_contra beats
    have rival : ⟨row.input, output, false⟩ ∈ offers minProfit row :=
      mem_offers.mpr ⟨rfl, forward, by dsimp only; rw [← input]; omega⟩
    have ordered := offers_ordered minProfit row
    rw [members] at rival ordered
    rcases List.mem_append.mp rival with ahead | behind
    · have less := smaller _ (List.mem_append_right _ ahead)
      unfold profit at less
      rw [← input] at less
      dsimp only at less
      omega
    · rcases List.mem_cons.mp behind with rfl | behind
      · cases reversed
      · have precedes := (List.pairwise_cons.mp (List.pairwise_append.mp ordered).2.1).1 _ behind
        rw [reversed] at precedes
        cases precedes

theorem choose_none {rows : List Row} {minProfit : Nat} :
    choose rows minProfit = none ↔
      ∀ row ∈ rows, ∀ reverse output, row.result reverse = .ok output →
        output < row.input.toNat + minProfit := by
  constructor
  · intro none row listed reverse output quoted
    rcases choose_first rows minProfit with ⟨_, empty⟩ | ⟨_, some, _⟩
    · by_contra covers
      have offered : ⟨row.input, output, reverse⟩ ∈ offers minProfit row :=
        mem_offers.mpr ⟨rfl, quoted, by dsimp only; omega⟩
      exact List.not_mem_nil (empty ▸ List.mem_flatMap.mpr ⟨row, listed, offered⟩)
    · rw [none] at some
      cases some
  · intro short
    have empty : rows.flatMap (offers minProfit) = [] := by
      refine List.eq_nil_iff_forall_not_mem.mpr fun choice member => ?_
      obtain ⟨row, listed, offered⟩ := List.mem_flatMap.mp member
      obtain ⟨input, quoted, enough⟩ := mem_offers.mp offered
      have less := short row listed _ _ quoted
      rw [← input] at less
      omega
    rw [choose_best_of, empty]
    rfl

end Offers

/-! The probe's market against the executor's. -/
section Agreement
variable {runtime : Runtime} (context : RouteContext runtime)

/-- The accounts of an instruction as the probe is given them. -/
def probeAccounts : List Bytes :=
  [dataOf context context.accounts.pumpPool.val, dataOf context context.accounts.pumpGlobalConfig,
   dataOf context context.accounts.pumpFeeConfig, dataOf context context.accounts.targetMint.val,
   dataOf context context.accounts.pumpPoolBaseTokenAccount.val,
   dataOf context context.accounts.pumpPoolQuoteTokenAccount.val,
   dataOf context context.accounts.meteoraLbPair.val] ++ (arrayInfos context).map (·.data)

variable {context} {probe : Market}

theorem pool_of_target (accepted : validateQuoteAccounts context = .ok ()) {pool : PumpPoolState}
    (read : parsePumpPool (dataOf context context.accounts.pumpPool.val) = .ok pool) :
    pool.baseMint = context.accounts.targetMint.val.key := by
  unfold validateQuoteAccounts validatePump at accepted
  unfold parsePumpPool at read
  unfold parsePumpPoolPrefix at accepted
  simp only [bind_ok_iff, require_ok, decide_eq_true_eq, pure_ok, Except.ok.injEq] at accepted read
  obtain ⟨_, ⟨_, _, _, _, _, _, _, _, _, _, _, ⟨_, _, _, _, _, _, baseMint, checked, _, _, _, _, _, _, _,
    _, rfl⟩, _, target, _⟩, _⟩ := accepted
  obtain ⟨_, _, _, _, mint, quoted, _, _, _, _, rfl⟩ := read
  -- The validating parser and the quoting one read the same range.
  have again : readKey (dataOf context context.accounts.pumpPool.val) 43 = .ok baseMint :=
    (read_key_ok _ _ _).mpr ((read_pubkey_ok _ _ _).mp checked)
  cases again.symm.trans quoted
  exact target

theorem token_x_bytes {data : Bytes} {pair : MeteoraPairPrefix} (read : parseMeteoraPair data = .ok pair) :
    bytes data 88 32 = .ok pair.tokenXMint.val := by
  unfold parseMeteoraPair at read
  simp only [bind_ok_iff, pure_ok, Except.ok.injEq] at read
  obtain ⟨_, _, _, _, tokenXMint, found, _, _, _, _, _, _, rfl⟩ := read
  have field := (read_pubkey_ok _ _ _).mp found
  unfold ByteRanges.HasField at field
  rw [tokenXMint.property] at field
  exact (bytes_ok _ _ _ _).mpr ⟨field, tokenXMint.property⟩

/-- A market the probe reads is one the executor reads, and it is the same. -/
theorem parse_agrees (mints : context.validateRouteMints = .ok ())
    (accepted : validateQuoteAccounts context = .ok ())
    (supply : mintSupply (dataOf context context.accounts.targetMint.val) = .ok context.targetMintSupply)
    {timestamp : Int64}
    (probed : Market.parse runtime.findProgramAddress (probeAccounts context) timestamp = .ok probe) :
    parseMarket context = .ok probe.state ∧ probe.timestamp = timestamp ∧
      (arrayInfos context).mapM (fun info => parseBinArrayWindow info.data probe.pair.activeId.toInt) =
        .ok probe.arrays := by
  unfold Market.parse probeAccounts at probed
  dsimp only [List.cons_append, List.nil_append] at probed
  split at probed
  · cases probed
  simp only [bind_ok_iff, ok_or_eq_ok, checked_add_some] at probed
  obtain ⟨pool, poolRead, base, baseRead, quote, quoteRead, globals, globalsRead, minted, mintRead,
    _, ⟨rfl, fits⟩, fees, feesRead, pair, pairRead, probed⟩ := probed
  cases mintRead.symm.trans supply
  rw [pool_of_target accepted poolRead] at probed feesRead
  unfold RouteContext.validateRouteMints at mints
  simp only [bind_ok_iff, require_ok] at mints
  obtain ⟨_, _, _, _, _, _, _, _, checked, checkedRead, _⟩ := mints
  have side : bytes (dataOf context context.accounts.meteoraLbPair.val) 88 32 = .ok checked.tokenXMint.val :=
    token_x_bytes checkedRead
  rw [side] at probed
  split at probed
  · cases probed
  simp only [bind_ok_iff, pure_ok, Except.ok.injEq, List.mapM_map] at probed
  obtain ⟨arrays, arraysRead, rfl⟩ := probed
  have sameSide : ((Except.ok checked.tokenXMint.val : Except QuoteError Bytes).toOption ==
      some context.accounts.targetMint.val.key.val) =
      (checked.tokenXMint == context.accounts.targetMint.val.key) := by
    rw [Bool.eq_iff_iff, beq_iff_eq, beq_iff_eq, Subtype.ext_iff]
    exact Option.some_inj
  refine ⟨?_, rfl, arraysRead⟩
  unfold parseMarket Market.state
  simp only [bind_ok_iff, ok_or_eq_ok, checked_add_some, invalidData, incomplete, map_error_ok_iff, pure_ok,
    Except.ok.injEq]
  exact ⟨pool, poolRead, base, baseRead, quote, quoteRead, _, ⟨rfl, fits⟩, globals, globalsRead, fees,
    feesRead, pair, pairRead, checked, checkedRead, by rw [sameSide]⟩

/-- Both read the same windowed quote, as long as the pair has no bitmap extension. -/
theorem snapshot_out (arraysRead : (arrayInfos context).mapM (fun info =>
      parseBinArrayWindow info.data probe.pair.activeId.toInt) = .ok probe.arrays)
    {input : Nat} (fits : input < 2 ^ 64) (swapForY : Bool) (timestamp : Int64) (output : Nat) :
    (∃ quote, quoteDlmmSnapshot input probe.pair probe.arrays swapForY timestamp = .ok quote ∧
        quote.amountOut = output) ↔
      ∃ dlmm, quoteDlmmFromAccounts input probe.pair (arrayInfos context) none swapForY timestamp =
        .ok dlmm ∧ dlmm.amountOut = output := by
  have standing := (map_m_forall₂ _ _ _ arraysRead).imp fun account array parsed =>
    window_stands probe.pair.activeId.toInt account array parsed
  have agrees := snapshot_quote_agrees probe.pair (arrayInfos context) probe.arrays none swapForY
    (UInt64.ofNat input) timestamp standing
  rw [UInt64.toNat_ofNat_of_lt' fits] at agrees
  have shown (used : List Int) := congrArg (· = some (output, used)) agrees
  unfold snapshotObserved observed at shown
  simp only [Option.map_eq_some_iff, to_option_some, eq_iff_iff, Prod.mk.injEq] at shown
  unfold quoteDlmmSnapshot quoteDlmmSnapshotWithArrays
  simp only [bind_ok_iff, pure_ok, Except.ok.injEq]
  constructor
  · rintro ⟨_, ⟨snapshot, quoted, rfl⟩, paid⟩
    obtain ⟨dlmm, direct, same, _⟩ := (shown _).mp ⟨snapshot, quoted, paid, rfl⟩
    exact ⟨dlmm, direct, same⟩
  · rintro ⟨dlmm, direct, paid⟩
    obtain ⟨snapshot, quoted, same, _⟩ := (shown _).mpr ⟨dlmm, direct, paid, rfl⟩
    exact ⟨_, ⟨snapshot, quoted, rfl⟩, same⟩

def isReverse : SelectedDirection → Bool
  | .pumpToMeteora => false
  | .meteoraToPump => true

/-- A row of the probe holds the two quotes the executor would make for that amount. -/
theorem row_agrees (time : probe.timestamp = runtime.unixTimestamp)
    (arraysRead : (arrayInfos context).mapM (fun info =>
      parseBinArrayWindow info.data probe.pair.activeId.toInt) = .ok probe.arrays)
    (plain : bitmapExtension context = none) (input : UInt64) (direction : SelectedDirection)
    (output : Nat) :
    (probe.row input).result (isReverse direction) = .ok output ↔
      ∃ used, contextQuote context probe.state true input.toNat direction = some (output, used) := by
  unfold contextQuote Row.result Market.row
  rw [plain, time]
  simp only [FixedParity.route_quote_some]
  cases direction with
  | pumpToMeteora =>
      simp only [isReverse, Bool.false_eq_true, if_false, bind_ok_iff, pure_ok, Except.ok.injEq]
      constructor
      · rintro ⟨buy, bought, quoted⟩
        have reached : FixedParity.dlmmInput probe.state input.toNat .pumpToMeteora = some buy.amountOut :=
          (FixedParity.pump_buy_input _ _ _).mpr ⟨buy, bought, rfl⟩
        have fits := FixedParity.input_fits probe.state input.toNat_lt reached
        obtain ⟨dlmm, direct, paid⟩ := (snapshot_out arraysRead fits _ _ _).mp quoted
        exact ⟨_, rfl, _, dlmm, reached, direct, congrArg some paid, rfl⟩
      · rintro ⟨_, _, arriving, dlmm, reached, direct, paid, _⟩
        have fits := FixedParity.input_fits probe.state input.toNat_lt reached
        obtain ⟨buy, bought, rfl⟩ := (FixedParity.pump_buy_input probe.state input.toNat _).mp reached
        exact ⟨buy, bought, (snapshot_out arraysRead fits _ _ _).mpr ⟨dlmm, direct, Option.some.inj paid⟩⟩
  | meteoraToPump =>
      simp only [isReverse, if_true, bind_ok_iff, pure_ok, Except.ok.injEq]
      constructor
      · rintro ⟨buy, quoted, sell, sold, paid⟩
        obtain ⟨dlmm, direct, same⟩ := (snapshot_out arraysRead input.toNat_lt _ _ _).mp ⟨buy, quoted, rfl⟩
        rw [← same] at sold
        exact ⟨_, rfl, _, dlmm, rfl, direct, (FixedParity.payout_reverse _ _ _).mpr ⟨sell, sold, paid⟩, rfl⟩
      · rintro ⟨_, _, _, dlmm, reached, direct, paid, _⟩
        cases reached
        obtain ⟨sell, sold, paid⟩ := (FixedParity.payout_reverse _ _ _).mp paid
        obtain ⟨buy, quoted, same⟩ := (snapshot_out arraysRead input.toNat_lt _ _ _).mpr ⟨dlmm, direct, rfl⟩
        exact ⟨buy, quoted, sell, same ▸ sold, paid⟩

theorem context_quote_fits {market : MarketState} {ready : Bool} {input : UInt64}
    {direction : SelectedDirection} {output : Nat} {used : List Int}
    (quoted : contextQuote context market ready input.toNat direction = some (output, used)) :
    output < 2 ^ 64 := by
  unfold contextQuote at quoted
  obtain ⟨_, arriving, dlmm, reached, direct, paid, _⟩ :=
    (FixedParity.route_quote_some _ _ _ _ _ _ _ _ _).mp quoted
  have small := FixedParity.input_fits market input.toNat_lt reached
  cases direction with
  | pumpToMeteora =>
      obtain ⟨_, _, _, fits⟩ := (BinWalk.direct_quote_ok _ _ _ _ _ _ small _).mp direct
      exact Option.some.inj paid ▸ fits
  | meteoraToPump =>
      obtain ⟨sold, sells, rfl⟩ := (FixedParity.payout_reverse _ _ _).mp paid
      obtain ⟨_, _, split, fees, held⟩ := PumpQuotes.sell_some sells
      rw [SplitFees.splitFee, List.map_cons, List.sum_cons] at fees
      have stored := market.pumpQuoteReserve.toNat_lt
      omega

def Choice.direction (choice : Choice) : SelectedDirection :=
  if choice.reverse then .meteoraToPump else .pumpToMeteora

/-- What the executor makes of a kept choice: it selects the direction for just the
profits the choice covers. No amount earns more either way, none before it as much. -/
structure Selected (context : RouteContext runtime) (market : MarketState) (inputs : List UInt64)
    (choice : Choice) : Prop where
  selects : ∃ used, contextQuote context market true choice.input.toNat choice.direction =
      some (choice.output, used) ∧
    ∀ minProfit, selectDirectionFromAccounts context choice.input.toNat minProfit =
      .ok (choice.direction, used) ↔ choice.input.toNat + minProfit ≤ choice.output
  first : ∃ before after, inputs = before ++ choice.input :: after ∧
    (∀ input ∈ before, ∀ direction output used,
      contextQuote context market true input.toNat direction = some (output, used) →
        output + choice.input.toNat < choice.output + input.toNat) ∧
    ∀ input ∈ choice.input :: after, ∀ direction output used,
      contextQuote context market true input.toNat direction = some (output, used) →
        output + choice.input.toNat ≤ choice.output + input.toNat

theorem direction_reverse (choice : Choice) : isReverse choice.direction = choice.reverse := by
  unfold Choice.direction
  cases choice.reverse <;> rfl

section Executor
variable (ready : cashbackSellIsReady context.ledger context.accounts.pumpAccounts = .ok true)
  (plain : bitmapExtension context = none) (time : probe.timestamp = runtime.unixTimestamp)
  (read : parseMarket context = .ok probe.state)
  (arraysRead : (arrayInfos context).mapM (fun info =>
    parseBinArrayWindow info.data probe.pair.activeId.toInt) = .ok probe.arrays)
include ready plain time read arraysRead

theorem chosen_selected {inputs : List UInt64} {minProfit : Nat} {choice : Choice}
    (chosen : choose (inputs.map probe.row) minProfit = some choice) :
    Selected context probe.state inputs choice := by
  have agrees (input : UInt64) := row_agrees time arraysRead plain input
  obtain ⟨_, before, row, after, most⟩ := choose_some chosen
  obtain ⟨earlier, rest, rfl, rfl, listed⟩ := List.map_eq_append_iff.mp most.listed
  obtain ⟨input, later, rfl, rfl, rfl⟩ := List.map_eq_cons_iff.mp listed
  have input_eq : choice.input = input := most.input
  subst input_eq
  have quoted := most.quoted
  rw [← direction_reverse choice, agrees] at quoted
  obtain ⟨used, quoted⟩ := quoted
  have within (other : UInt64) (listed : other ∈ choice.input :: later) :
      (probe.row other).Within choice := by
    rcases List.mem_cons.mp listed with rfl | after
    · exact most.own
    · exact most.later _ (List.mem_map_of_mem after)
  refine ⟨⟨used, quoted, fun minProfit => ?_⟩, earlier, later, rfl, ?_, ?_⟩
  · unfold selectDirectionFromAccounts
    rw [read, ok_bind, ready, ok_bind, context_selection_iff]
    constructor
    · rintro ⟨out, again, _, enough, _⟩
      cases quoted.symm.trans again
      exact enough
    · intro enough
      have fits := context_quote_fits quoted
      refine ⟨_, quoted, by omega, enough, fun rival rivalOut paid => ?_⟩
      obtain ⟨⟨rivalPaid, rivalUsed⟩, rivalQuoted, rfl⟩ := Option.map_eq_some_iff.mp paid
      have result := (agrees choice.input rival _).mpr ⟨rivalUsed, rivalQuoted⟩
      have least : rivalPaid + choice.input.toNat ≤ choice.output + choice.input.toNat :=
        most.own _ _ result
      refine ⟨by omega, fun forward even => ?_⟩
      subst forward
      -- A forward quote that pays the same would have been kept in place of a reverse one.
      cases reversed : choice.reverse with
      | false => exact if_neg (by rw [reversed]; decide)
      | true =>
          have less := most.forward _ reversed result
          dsimp only at even
          omega
  · intro other listed direction output otherUsed otherQuoted
    exact most.earlier _ (List.mem_map_of_mem listed) _ _ ((agrees other direction _).mpr ⟨_, otherQuoted⟩)
  · intro other listed direction output otherUsed otherQuoted
    exact within other listed _ _ ((agrees other direction _).mpr ⟨_, otherQuoted⟩)

theorem none_unselected {inputs : List UInt64} {minProfit : Nat}
    (chosen : choose (inputs.map probe.row) minProfit = none) (input : UInt64) (listed : input ∈ inputs)
    (requested : Nat) (enough : minProfit ≤ requested) (selected : SelectedDirection × List Int) :
    selectDirectionFromAccounts context input.toNat requested ≠ .ok selected := by
  intro made
  unfold selectDirectionFromAccounts at made
  rw [read, ok_bind, ready, ok_bind] at made
  obtain ⟨direction, used⟩ := selected
  obtain ⟨out, quoted, _, covers, _⟩ := (context_selection_iff context _ _ _ _ _ _).mp made
  have result := (row_agrees time arraysRead plain input direction out).mpr ⟨used, quoted⟩
  have short := choose_none.mp chosen _ (List.mem_map_of_mem listed) _ _ result
  have same : (probe.row input).input = input := rfl
  rw [same] at short
  omega

end Executor

/-- The probe run on an instruction's accounts decides for the amounts it is given
what the executor would: the choice it logs is selected by the executor for that
amount, in that direction and for any profit it covers, and no amount tried earns
more; when it logs none, the executor refuses every amount tried. -/
theorem probe_choice_executes {runtime : Runtime} (context : RouteContext runtime)
    (mints : context.validateRouteMints = .ok ()) (accepted : validateQuoteAccounts context = .ok ())
    (ready : cashbackSellIsReady context.ledger context.accounts.pumpAccounts = .ok true)
    (supply : mintSupply (dataOf context context.accounts.targetMint.val) = .ok context.targetMintSupply)
    (plain : bitmapExtension context = none) (data : Bytes) (time : probedTime data = runtime.unixTimestamp)
    (rows : List Row) (best : Option Choice)
    (probed : process runtime.findProgramAddress (probeAccounts context) data = .ok (rows, best)) :
    (0 < (probedInputs data).length ∧ (probedInputs data).length ≤ maxTrials) ∧
      ∃ market, parseMarket context = .ok market ∧
        match best with
        | some choice => Selected context market (probedInputs data) choice
        | none => ∀ input ∈ probedInputs data, ∀ minProfit, 1 ≤ minProfit →
            ∀ selected, selectDirectionFromAccounts context input.toNat minProfit ≠ .ok selected := by
  unfold process at probed
  split at probed
  · cases probed
  dsimp only at probed
  split at probed
  · cases probed
  next sized =>
    split at probed
    · cases probed
    next market parsed =>
      obtain ⟨read, marked, arraysRead⟩ := parse_agrees mints accepted supply parsed
      have now : market.timestamp = runtime.unixTimestamp := marked.trans time
      rw [Except.ok.injEq, Prod.mk.injEq] at probed
      obtain ⟨rfl, chosen⟩ := probed
      unfold probedInputs
      rw [trials_length]
      refine ⟨by omega, market.state, read, ?_⟩
      cases best with
      | some choice => exact chosen_selected ready plain now read arraysRead chosen
      | none => exact none_unselected ready plain now read arraysRead chosen

def sampleTrials : Bytes := [4] ++ leBytes 8 0 ++ [3] ++ leBytes 8 10 ++ leBytes 8 100 ++ leBytes 8 1000

theorem sample_probed : ∃ rows, process sampleRuntime.findProgramAddress (probeAccounts sampleContext)
    sampleTrials = .ok (rows, some ⟨1000, 1493, false⟩) := by
  have shown : ((process sampleRuntime.findProgramAddress (probeAccounts sampleContext)
      sampleTrials).toOption.map Prod.snd) = some (some ⟨1000, 1493, false⟩) := by decide +kernel
  obtain ⟨⟨rows, best⟩, probed, rfl⟩ := Option.map_eq_some_iff.mp shown
  exact ⟨rows, (to_option_some _ _).mp probed⟩

theorem sample_ready :
    cashbackSellIsReady sampleContext.ledger sampleContext.accounts.pumpAccounts = .ok true := by
  decide +kernel

theorem probe_choice_executes_sample : ∃ market,
    Selected sampleContext market [10, 100, 1000] ⟨1000, 1493, false⟩ := by
  obtain ⟨rows, probed⟩ := sample_probed
  obtain ⟨_, market, _, selected⟩ := probe_choice_executes sampleContext (by decide +kernel)
    (by decide +kernel) sample_ready (by decide +kernel) (by decide +kernel) sampleTrials (by decide +kernel)
    rows _ probed
  have amounts : probedInputs sampleTrials = [10, 100, 1000] := by decide +kernel
  rw [amounts] at selected
  exact ⟨market, selected⟩

end Agreement

end ArbExecutor.QuoteProbe
