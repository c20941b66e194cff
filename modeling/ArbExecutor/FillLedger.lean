import ArbExecutor.BinPricing

/-!
The ledger of the bin loop. One bin turns what remains into a use of it: the
input it takes with its fee, the net input the price sees and the output it
pays. Booking a use moves it from the remaining amount to the totals, so that the
two always balance.
-/

namespace ArbExecutor.FillLedger

open Checked QuoteMath BinPricing

/-- What one bin takes and pays, before it is booked. -/
structure BinUse where
  netInput : Nat
  rawOut : Nat
  usedWithFee : Nat
  fee : Nat
  output : Nat
  deriving DecidableEq, Repr

/-- The body of the bin loop up to the running totals; none on a bin that is passed over. -/
def useBin (swapForY feeOnInput : Bool) (feeRate : Nat) (bin : Bin) (remaining : Nat) :
    Except QuoteError (Option BinUse) := do
  let (available, feeForFullInput) ←
    if feeOnInput then excludedFeeAmount remaining feeRate else pure (remaining, 0)
  let maxOut ← maxOut bin swapForY
  if maxOut = 0 then pure none
  else do
    let maxInputWithoutFee ← amountInForOut maxOut bin.priceQ64.toNat swapForY
    let netInput := min available maxInputWithoutFee
    let rawOut ←
      if netInput = maxInputWithoutFee then pure maxOut
      else amountOutForIn netInput bin.priceQ64.toNat swapForY
    if feeOnInput then
      if netInput = available then
        pure (some { netInput, rawOut, usedWithFee := remaining, fee := feeForFullInput, output := rawOut })
      else do
        let (included, includedFee) ← includedFeeAmount netInput feeRate
        pure (some { netInput, rawOut, usedWithFee := included, fee := includedFee, output := rawOut })
    else do
      let (output, outputFee) ← excludedFeeAmount rawOut feeRate
      pure (some { netInput, rawOut, usedWithFee := netInput, fee := outputFee, output })

def bookUse (totals : FillTotals) (use : BinUse) : Except QuoteError FillTotals := do
  let remaining ← okOr (checkedSub totals.remaining use.usedWithFee) .mathOverflow
  let totalIn ← okOr (checkedAdd 64 totals.totalIn use.usedWithFee) .mathOverflow
  let totalOut ← okOr (checkedAdd 64 totals.totalOut use.output) .mathOverflow
  let totalFee ← okOr (checkedAdd 64 totals.totalFee use.fee) .mathOverflow
  pure { remaining, totalIn, totalOut, totalFee }

/-- An iteration of the bin loop uses the bin and books the use. -/
theorem fill_bin_books (swapForY feeOnInput : Bool) (feeRate : Nat) (bin : Bin) (totals : FillTotals) :
    fillBin swapForY feeOnInput feeRate bin totals = (do
      match ← useBin swapForY feeOnInput feeRate bin totals.remaining with
      | none => pure totals
      | some use => bookUse totals use) := by
  unfold fillBin useBin
  -- Both sides make the same calls in the same order, so each failing call ends both alike.
  simp only [if_bind]
  cases (if feeOnInput then excludedFeeAmount totals.remaining feeRate
    else pure (totals.remaining, 0)) with
  | error error => rfl
  | ok split =>
  cases maxOut bin swapForY with
  | error error => rfl
  | ok available =>
  simp only [ok_bind]
  by_cases empty : available = 0
  · rw [if_pos empty, if_pos empty]
    rfl
  rw [if_neg empty, if_neg empty]
  cases amountInForOut available bin.priceQ64.toNat swapForY with
  | error error => rfl
  | ok needed =>
  simp only [ok_bind]
  cases (if min split.1 needed = needed then pure available
    else amountOutForIn (min split.1 needed) bin.priceQ64.toNat swapForY) with
  | error error => rfl
  | ok rawOut =>
  simp only [ok_bind]
  cases feeOnInput
  · cases excludedFeeAmount rawOut feeRate <;> rfl
  · by_cases whole : min split.1 needed = split.1
    · simp only [if_pos whole]
      rfl
    · simp only [if_neg whole]
      cases includedFeeAmount (min split.1 needed) feeRate <;> rfl

/-- All that a bin can pay in one direction. -/
def executableOut (swapForY : Bool) (bin : Bin) : Nat :=
  (if swapForY then bin.amountY.toNat else bin.amountX.toNat) +
    if (swapForY && !bin.limitOrderAskSide) || (!swapForY && bin.limitOrderAskSide) then
      bin.openOrderAmount.toNat + bin.processedOrderRemainingAmount.toNat
    else 0

theorem max_out_some {swapForY : Bool} {bin : Bin} {available : Nat}
    (offered : maxOut bin swapForY = .ok available) : available = executableOut swapForY bin := by
  unfold maxOut at offered
  extract_lets mmOut total at offered
  unfold executableOut
  split at offered
  next orders =>
    simp only [total, bind_ok_iff, ok_or_eq_ok, checked_add_some] at offered
    obtain ⟨_, ⟨rfl, _⟩, rfl, _⟩ := offered
    rw [if_pos orders]
  next plain =>
    simp only [total, pure_ok, ok_bind, ok_or_eq_ok, checked_add_some] at offered
    rw [if_neg plain]
    exact offered.1

/-- An output is worth no more than an input at a price. -/
def WorthAtMost (swapForY : Bool) (price output input : Nat) : Prop :=
  if swapForY then output * 2 ^ 64 ≤ input * price else output * price ≤ input * 2 ^ 64

theorem worth_iff (swapForY : Bool) {price : Nat} (positive : 0 < price) (output input : Nat) :
    WorthAtMost swapForY price output input ↔ output ≤ give swapForY price input := by
  unfold WorthAtMost give
  cases swapForY
  · exact (le_floor_quotient_iff positive).symm
  · exact (le_floor_quotient_iff (by decide)).symm

section Uses
variable {swapForY feeOnInput : Bool} {feeRate remaining : Nat} {bin : Bin} {use : BinUse}

/-- What holds of every use of a bin, by the side the fee is taken on. -/
structure UseBalances (swapForY feeOnInput : Bool) (bin : Bin) (remaining : Nat) (use : BinUse) :
    Prop where
  within : use.usedWithFee ≤ remaining
  takes : use.usedWithFee = use.netInput + if feeOnInput then use.fee else 0
  pays : use.rawOut = use.output + if feeOnInput then 0 else use.fee
  stocked : use.rawOut ≤ executableOut swapForY bin
  worth : WorthAtMost swapForY bin.priceQ64.toNat use.rawOut use.netInput

/-- The raw output never exceeds what the bin has nor what the net input is worth. -/
theorem raw_out_bounded {available needed netInput rawOut : Nat}
    (offered : maxOut bin swapForY = .ok available)
    (priced : amountInForOut available bin.priceQ64.toNat swapForY = .ok needed)
    (bounded : netInput ≤ needed)
    (paid : (if netInput = needed then pure available
      else amountOutForIn netInput bin.priceQ64.toNat swapForY) = (.ok rawOut : Except QuoteError Nat)) :
    rawOut ≤ executableOut swapForY bin ∧
      WorthAtMost swapForY bin.priceQ64.toNat rawOut netInput := by
  obtain ⟨positive, rfl, _⟩ := amount_in_ok priced
  obtain rfl := max_out_some offered
  rw [worth_iff swapForY positive]
  split at paid
  next whole =>
    cases paid
    exact ⟨le_rfl, (need_le_iff swapForY positive _ _).mp whole.ge⟩
  next short =>
    obtain rfl := amount_out_given paid
    have below := (need_le_iff swapForY positive (executableOut swapForY bin) netInput).not.mp (by omega)
    exact ⟨by omega, le_rfl⟩

theorem use_balances (capped : feeRate ≤ maxFeeRate)
    (used : useBin swapForY feeOnInput feeRate bin remaining = .ok (some use)) :
    UseBalances swapForY feeOnInput bin remaining use := by
  unfold useBin at used
  simp only [if_bind, bind_ok_iff] at used
  obtain ⟨⟨available, feeForFullInput⟩, started, stock, offered, used⟩ := used
  split at used
  · cases used
  simp only [bind_ok_iff] at used
  obtain ⟨needed, priced, rawOut, paid, used⟩ := used
  obtain ⟨stocked, worth⟩ := raw_out_bounded offered priced (min_le_right _ _) paid
  cases feeOnInput with
  | false =>
      simp only [Bool.false_eq_true, if_false, bind_ok_iff] at started used
      obtain ⟨⟨output, outputFee⟩, taxed, same⟩ := used
      obtain ⟨_, _, whole⟩ := excluded_fee_some taxed
      cases started
      cases same
      exact ⟨min_le_left _ _, rfl, whole.symm, stocked, worth⟩
  | true =>
      simp only [if_true] at started used
      obtain ⟨rfl, rfl, whole⟩ := excluded_fee_some started
      split at used
      next kept =>
        cases used
        exact ⟨le_rfl, by simp only [if_true]; omega, rfl, stocked, worth⟩
      next less =>
        simp only [bind_ok_iff] at used
        obtain ⟨⟨included, includedFee⟩, taxed, same⟩ := used
        obtain ⟨rfl, split, _⟩ := included_fee_some capped taxed
        cases same
        -- A net input that leaves some of the net remainder grosses up within the gross one.
        have grossed := (gross_le_iff capped _ remaining).mpr (min_le_left (net feeRate remaining) needed)
        exact ⟨grossed, split.symm, rfl, stocked, worth⟩

end Uses

section Totals
variable {swapForY feeOnInput : Bool} {feeRate : Nat} (capped : feeRate ≤ maxFeeRate)

/-- What the totals have taken and paid since some earlier totals. -/
structure Balances (feeOnInput : Bool) (stock : Nat) (start totals : FillTotals) : Prop where
  amount : totals.remaining + totals.totalIn = start.remaining + start.totalIn
  output : totals.totalOut + (if feeOnInput then 0 else totals.totalFee) ≤
    start.totalOut + (if feeOnInput then 0 else start.totalFee) + stock

include capped

theorem fill_bin_balances {bin : Bin} {start totals : FillTotals}
    (filled : fillBin swapForY feeOnInput feeRate bin start = .ok totals) :
    Balances feeOnInput (executableOut swapForY bin) start totals := by
  rw [fill_bin_books, bind_ok_iff] at filled
  obtain ⟨outcome, used, booked⟩ := filled
  cases outcome with
  | none =>
      cases booked
      exact ⟨rfl, Nat.le_add_right _ _⟩
  | some use =>
      have balanced := use_balances capped used
      have pays := balanced.pays
      have stocked := balanced.stocked
      unfold bookUse at booked
      simp only [bind_ok_iff, ok_or_eq_ok, checked_sub_some, checked_add_some] at booked
      obtain ⟨_, ⟨rfl, within⟩, _, ⟨rfl, _⟩, _, ⟨rfl, _⟩, _, ⟨rfl, _⟩, same⟩ := booked
      cases same
      refine ⟨by dsimp only; omega, ?_⟩
      dsimp only
      cases feeOnInput
      · simp only [Bool.false_eq_true, if_false] at pays ⊢
        omega
      · simp only [if_true] at pays ⊢
        omega

theorem fill_bins_balance (bins : List Bin) {start totals : FillTotals}
    (filled : fillBins swapForY feeOnInput feeRate bins start = .ok totals) :
    Balances feeOnInput (bins.map (executableOut swapForY)).sum start totals := by
  induction bins generalizing start with
  | nil =>
      cases filled
      exact ⟨rfl, le_rfl⟩
  | cons bin rest ih =>
      rw [List.map_cons, List.sum_cons]
      unfold fillBins at filled
      split at filled
      · cases filled
        exact ⟨rfl, Nat.le_add_right _ _⟩
      · obtain ⟨next, first, later⟩ := (bind_ok_iff _ _ _).mp filled
        have here := fill_bin_balances capped first
        have there := ih later
        exact ⟨there.amount.trans here.amount, by have one := here.output; have more := there.output; omega⟩

end Totals

section Quotes
variable {amount : Nat} {bins : List Bin} {swapForY feeOnInput : Bool} {parameters : DlmmFeeParameters}
  {quote : QuoteResult}

def startTotals (amount : Nat) : FillTotals :=
  { remaining := amount, totalIn := 0, totalOut := 0, totalFee := 0 }

/-- A partial quote reports the totals of its loop, whatever remains. -/
theorem partial_quote_some
    (quoted : dlmmQuoteExactInPartial amount bins swapForY feeOnInput parameters = .ok quote) :
    ∃ feeRate totals, dlmmTotalFeeRate parameters = .ok feeRate ∧
      fillBins swapForY feeOnInput feeRate bins (startTotals amount) = .ok totals ∧
      quote = { amountIn := totals.totalIn, amountOut := totals.totalOut, fee := totals.totalFee } ∧
      dlmmQuoteExactIn amount bins swapForY feeOnInput parameters =
        if totals.remaining = 0 then .ok quote else .error .insufficientLiquidity := by
  unfold dlmmQuoteExactInPartial dlmmQuoteExactInImpl at quoted
  split at quoted
  · cases quoted
  next valid =>
    obtain ⟨feeRate, rated, totals, filled, same⟩ : ∃ feeRate, dlmmTotalFeeRate parameters = .ok feeRate ∧
        ∃ totals, fillBins swapForY feeOnInput feeRate bins (startTotals amount) = .ok totals ∧
          { amountIn := totals.totalIn, amountOut := totals.totalOut, fee := totals.totalFee } = quote := by
      simpa [bind_ok_iff, startTotals] using quoted
    refine ⟨feeRate, totals, rated, filled, same.symm, ?_⟩
    unfold dlmmQuoteExactIn dlmmQuoteExactInImpl
    unfold startTotals at filled
    rw [if_neg valid, rated, ok_bind, filled, ok_bind, same]
    by_cases left : totals.remaining = 0 <;> simp [left]

/-- The ledger of every run of the bin loop and of the quotes it ends in. -/
theorem fill_ledger_balances (amount : Nat) (bins : List Bin) (swapForY feeOnInput : Bool)
    (parameters : DlmmFeeParameters) :
    (∀ feeRate, dlmmTotalFeeRate parameters = .ok feeRate → ∀ before bin after,
      bins = before ++ bin :: after → ∀ totals,
      fillBins swapForY feeOnInput feeRate before (startTotals amount) = .ok totals → ∀ use,
      useBin swapForY feeOnInput feeRate bin totals.remaining = .ok (some use) →
        checkedSub totals.remaining use.usedWithFee = some (totals.remaining - use.usedWithFee) ∧
          WorthAtMost swapForY bin.priceQ64.toNat use.rawOut use.netInput) ∧
    ∀ quote, dlmmQuoteExactInPartial amount bins swapForY feeOnInput parameters = .ok quote →
      quote.amountIn ≤ amount ∧
      quote.amountOut + (if feeOnInput then 0 else quote.fee) ≤ (bins.map (executableOut swapForY)).sum ∧
      dlmmQuoteExactIn amount bins swapForY feeOnInput parameters =
        if quote.amountIn = amount then .ok quote else .error .insufficientLiquidity := by
  constructor
  · intro feeRate rated before bin after _ totals _ use used
    have balanced := use_balances (fee_rate_capped rated) used
    exact ⟨checked_sub_fits balanced.within, balanced.worth⟩
  · intro quote quoted
    obtain ⟨feeRate, totals, rated, filled, rfl, exact⟩ := partial_quote_some quoted
    have balanced := fill_bins_balance (fee_rate_capped rated) bins filled
    have amountKept : totals.remaining + totals.totalIn = amount := balanced.amount
    have paid := balanced.output
    rw [exact]
    refine ⟨by dsimp only; omega, ?_, ?_⟩
    · dsimp only [startTotals] at paid ⊢
      simpa using paid
    · dsimp only
      by_cases left : totals.remaining = 0
      · rw [if_pos left, if_pos (by omega)]
      · rw [if_neg left, if_neg (by omega)]

def ledgerBin : Bin where
  priceQ64 := BitVec.ofNat 128 (2 ^ 64)
  amountX := 0
  amountY := 1000
  openOrderAmount := 30
  processedOrderRemainingAmount := 20
  limitOrderAskSide := false

def ledgerParameters : DlmmFeeParameters where
  binStep := 10
  baseFactor := 10000
  baseFeePowerFactor := 0
  variableFeeControl := 0
  volatilityAccumulator := 0

theorem sample_fills :
    dlmmQuoteExactInPartial 2000 [ledgerBin, ledgerBin] true true ledgerParameters =
        .ok { amountIn := 2000, amountOut := 1997, fee := 3 } ∧
      fillBins true true 1000000 [ledgerBin] (startTotals 2000) =
        .ok { remaining := 948, totalIn := 1052, totalOut := 1050, totalFee := 2 } ∧
      useBin true true 1000000 ledgerBin 948 =
        .ok (some { netInput := 947, rawOut := 947, usedWithFee := 948, fee := 1, output := 947 }) := by
  decide +kernel

theorem ledger_balances_sample :
    checkedSub 948 948 = some 0 ∧ WorthAtMost true ledgerBin.priceQ64.toNat 947 947 ∧
    dlmmQuoteExactIn 2000 [ledgerBin, ledgerBin] true true ledgerParameters =
      .ok { amountIn := 2000, amountOut := 1997, fee := 3 } := by
  obtain ⟨quoted, filled, used⟩ := sample_fills
  obtain ⟨uses, quotes⟩ := fill_ledger_balances 2000 [ledgerBin, ledgerBin] true true ledgerParameters
  obtain ⟨within, worth⟩ := uses 1000000 (by decide) [ledgerBin] ledgerBin [] rfl _ filled _ used
  exact ⟨within, worth, (quotes _ quoted).2.2⟩

end Quotes

end ArbExecutor.FillLedger
