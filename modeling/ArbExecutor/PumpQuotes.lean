import ArbExecutor.ConstantProduct
import ArbExecutor.CurveSoundness
import ArbExecutor.SplitFees

/-!
Pump quotes in closed form: the effective quote of a buy is the net amount of
three split fees and goes through the constant-product curve less one unit; a
sale takes three split fees out of the curve's output. Neither is monotone, and
the theorems say exactly on which pairs of inputs they fail to be.
-/

namespace ArbExecutor.PumpQuotes

open Checked QuoteMath QuoteAccounts BestDirection ConstantProduct SplitFees

variable (market : MarketState)

def bpsPrecision : Nat := 10000

def pumpRates : List Nat :=
  [market.pumpFees.lpFeeBps.toNat, market.pumpFees.protocolFeeBps.toNat,
    market.pumpFees.creatorFeeBps.toNat]

/-- The WSOL reserve the curve sees. -/
def pumpQuoteSide : Nat := market.pumpQuoteReserve.toNat + market.pumpVirtualQuoteReserve.toNat

/-- What a buy brings to the curve once its fees are paid. -/
def effectiveQuote (amountIn : Nat) : Nat := netOf bpsPrecision (pumpRates market) amountIn

def buyOut (effective : Nat) : Nat :=
  curveOut market.pumpBaseReserve.toNat (pumpQuoteSide market) (effective - 1)

theorem bps_fee_ok (amount bps : Nat) (fits : amount * bps + 9999 < 2 ^ 128) :
    bpsFee amount bps = .ok (ceilQuotient (amount * bps) bpsPrecision) := by
  unfold bpsFee ceilDiv
  have product : checkedMul 128 amount bps = some (amount * bps) := checked_mul_fits (by omega)
  have raised : checkedAdd 128 (amount * bps) (10000 - 1) = some (amount * bps + 9999) :=
    checked_add_fits fits
  rw [product, ok_or_some, ok_bind, if_neg (by decide), raised, ok_or_some, ok_bind]
  rfl

theorem pump_rates_sum : (pumpRates market).sum = market.pumpFees.lpFeeBps.toNat +
    market.pumpFees.protocolFeeBps.toNat + market.pumpFees.creatorFeeBps.toNat := by
  simp [pumpRates, Nat.add_assoc]

theorem split_fee_eq (net : Nat) : splitFee bpsPrecision (pumpRates market) net =
    ceilQuotient (net * market.pumpFees.lpFeeBps.toNat) bpsPrecision +
      ceilQuotient (net * market.pumpFees.protocolFeeBps.toNat) bpsPrecision +
      ceilQuotient (net * market.pumpFees.creatorFeeBps.toNat) bpsPrecision := by
  simp [splitFee, pumpRates, Nat.add_assoc]

/-- No fee of a word-sized amount leaves its range. -/
theorem bps_product_fits {amount bps : Nat} (small : amount < 2 ^ 66) (rate : bps < 2 ^ 16) :
    amount * bps < 2 ^ 82 := by
  calc amount * bps < 2 ^ 66 * 2 ^ 16 := Nat.mul_lt_mul'' small rate
    _ = 2 ^ 82 := by rw [← pow_add]

theorem bps_fee_lt {amount bps : Nat} (small : amount < 2 ^ 66) (rate : bps < 2 ^ 16) :
    ceilQuotient (amount * bps) bpsPrecision < 2 ^ 82 + 1 := by
  have product := bps_product_fits small rate
  rw [Nat.lt_succ_iff, ceil_quotient_le_iff (by decide)]
  unfold bpsPrecision
  omega

theorem scaled_le (gross : Nat) : scaled bpsPrecision (pumpRates market) gross ≤ gross := by
  have covered := (le_scaled_iff (pumpRates market) (by decide : 0 < bpsPrecision) _ gross).mp le_rfl
  omega

/-- The over-spend correction of a buy leaves the net amount of its split fees, or
fails where that is nothing. -/
theorem over_spend_cases (amountIn : Nat) :
    let kept := scaled bpsPrecision (pumpRates market) amountIn
    let spent := kept + splitFee bpsPrecision (pumpRates market) kept
    (if spent > amountIn then okOr (checkedSub kept (spent - amountIn)) QuoteError.mathOverflow
        else pure kept) = .ok (effectiveQuote market amountIn) ∨
      (if spent > amountIn then okOr (checkedSub kept (spent - amountIn)) QuoteError.mathOverflow
        else pure kept) = .error .mathOverflow ∧ effectiveQuote market amountIn = 0 := by
  intro kept spent
  have net : effectiveQuote market amountIn = min kept (amountIn - (spent - kept)) := by
    unfold effectiveQuote netOf
    rw [show spent - kept = splitFee bpsPrecision (pumpRates market) kept from Nat.add_sub_cancel_left ..]
  have above : kept ≤ spent := Nat.le_add_right _ _
  by_cases overspent : spent > amountIn
  · rw [if_pos overspent]
    by_cases payable : spent - amountIn ≤ kept
    · rw [checked_sub_fits payable, ok_or_some, net]
      exact .inl (congrArg Except.ok (by omega))
    · unfold checkedSub
      rw [if_neg payable, net]
      exact .inr ⟨rfl, by omega⟩
  · rw [if_neg overspent, net]
    exact .inl (congrArg Except.ok (by omega))

theorem effective_le (amountIn : Nat) : effectiveQuote market amountIn ≤ amountIn :=
  (net_le_scaled _ _).trans (scaled_le market amountIn)

/-- The three fees of a net amount added to it one by one. -/
theorem total_with_fees {kept : Nat} (small : kept < 2 ^ 66) :
    ((checkedAdd 128 kept (ceilQuotient (kept * market.pumpFees.lpFeeBps.toNat) bpsPrecision)).bind
      fun value => (bpsFee kept market.pumpFees.protocolFeeBps.toNat).toOption.bind
        (checkedAdd 128 value)).bind
      (fun value => (bpsFee kept market.pumpFees.creatorFeeBps.toNat).toOption.bind
        (checkedAdd 128 value)) =
      some (kept + splitFee bpsPrecision (pumpRates market) kept) := by
  have protocol := market.pumpFees.protocolFeeBps.toNat_lt
  have creator := market.pumpFees.creatorFeeBps.toNat_lt
  have lpSmall := bps_fee_lt small market.pumpFees.lpFeeBps.toNat_lt
  have protocolSmall := bps_fee_lt small protocol
  have creatorSmall := bps_fee_lt small creator
  have protocolFits := bps_product_fits small protocol
  have creatorFits := bps_product_fits small creator
  rw [split_fee_eq, bps_fee_ok kept _ (by omega), bps_fee_ok kept _ (by omega)]
  simp only [Except.toOption, Option.bind_some]
  rw [checked_add_fits (by omega), Option.bind_some, checked_add_fits (by omega), Option.bind_some,
    checked_add_fits (by omega)]
  exact congrArg some (by omega)

/-- What a buy does once its fees are settled: nothing in it leaves its range. -/
theorem curve_part_ok {effective amountIn : Nat} (positive : 0 < effective)
    (within : effective ≤ amountIn) (fits : amountIn < 2 ^ 64) :
    (do
      let curveInput ← okOr (checkedSub effective 1) .invalidInput
      let effectiveQuoteReserve ← okOr (checkedAdd 128 market.pumpQuoteReserve.toNat
        market.pumpVirtualQuoteReserve.toNat) .mathOverflow
      let product ← okOr (checkedMul 128 market.pumpBaseReserve.toNat curveInput) .mathOverflow
      let divisor ← okOr (checkedAdd 128 effectiveQuoteReserve curveInput) .mathOverflow
      let amountOut ← toU64 (product / divisor)
      let fee ← toU64 (amountIn - effective)
      pure { amountIn, amountOut, fee } : Except QuoteError QuoteResult) =
      .ok { amountIn, amountOut := buyOut market effective, fee := amountIn - effective } := by
  have base := market.pumpBaseReserve.toNat_lt
  have real := market.pumpQuoteReserve.toNat_lt
  have virtual := market.pumpVirtualQuoteReserve.toNat_lt
  have reserve : checkedAdd 128 market.pumpQuoteReserve.toNat market.pumpVirtualQuoteReserve.toNat =
      some (pumpQuoteSide market) := checked_add_fits (by omega)
  have side : pumpQuoteSide market < 2 ^ 65 := by unfold pumpQuoteSide; omega
  have product : market.pumpBaseReserve.toNat * (effective - 1) < 2 ^ 128 := by
    calc market.pumpBaseReserve.toNat * (effective - 1) < 2 ^ 64 * 2 ^ 64 :=
          Nat.mul_lt_mul'' base (by omega)
      _ = 2 ^ 128 := by rw [← pow_add]
  have paid : market.pumpBaseReserve.toNat * (effective - 1) / (pumpQuoteSide market + (effective - 1)) =
      buyOut market effective := rfl
  have bounded : buyOut market effective < 2 ^ 64 := lt_of_le_of_lt (curve_out_le_base _) base
  have fee : amountIn - effective < 2 ^ 64 := by omega
  rw [checked_sub_fits (show 1 ≤ effective from positive), ok_or_some, ok_bind, reserve, ok_or_some,
    ok_bind, checked_mul_fits product, ok_or_some, ok_bind, checked_add_fits (by omega), ok_or_some,
    ok_bind, paid]
  unfold toU64
  rw [narrow_fits bounded, ok_or_some, ok_bind, narrow_fits fee, ok_or_some, ok_bind, pure_ok]

/-- A buy succeeds exactly on a positive effective quote. -/
theorem pump_buy_ok (amountIn : Nat) (fits : amountIn < 2 ^ 64) (quote : QuoteResult) :
    pumpBuy market amountIn = .ok quote ↔
      amountIn ≠ 0 ∧ market.pumpBaseReserve.toNat ≠ 0 ∧ market.pumpQuoteReserve.toNat ≠ 0 ∧
        0 < effectiveQuote market amountIn ∧
        quote = { amountIn, amountOut := buyOut market (effectiveQuote market amountIn)
                  fee := amountIn - effectiveQuote market amountIn } := by
  have lp := market.pumpFees.lpFeeBps.toNat_lt
  have protocol := market.pumpFees.protocolFeeBps.toNat_lt
  have creator := market.pumpFees.creatorFeeBps.toNat_lt
  have scaledSmall := scaled_le market amountIn
  have adjusted := over_spend_cases market amountIn
  dsimp only at adjusted
  unfold pumpBuy pumpBuyExactQuoteIn
  by_cases invalid : amountIn = 0 ∨ market.pumpBaseReserve.toNat = 0 ∨
      market.pumpQuoteReserve.toNat = 0
  · rw [if_pos invalid]
    refine iff_of_false (by simp) ?_
    rintro ⟨input, reserve, other, _⟩
    omega
  rw [if_neg invalid]
  have total : (checkedAdd 128 market.pumpFees.lpFeeBps.toNat
      market.pumpFees.protocolFeeBps.toNat).bind
        (fun value => checkedAdd 128 value market.pumpFees.creatorFeeBps.toNat) =
      some (pumpRates market).sum := by
    rw [checked_add_fits (by omega), Option.bind_some, checked_add_fits (by omega), pump_rates_sum]
  have scaledQuote : checkedMul 128 amountIn 10000 = some (amountIn * 10000) :=
    checked_mul_fits (by omega)
  have scaledEq : amountIn * 10000 / (10000 + (pumpRates market).sum) =
      scaled bpsPrecision (pumpRates market) amountIn := rfl
  rw [total, ok_or_some, ok_bind, scaledQuote, ok_or_some, ok_bind, scaledEq]
  generalize scaled bpsPrecision (pumpRates market) amountIn = kept at *
  have small : kept < 2 ^ 66 := by omega
  have lpFits := bps_product_fits small lp
  dsimp only
  rw [bps_fee_ok kept _ (by omega), ok_bind, total_with_fees market small, ok_or_some, ok_bind, if_bind]
  -- The correction ends in the net amount, or overflows where the net amount is nothing.
  rcases adjusted with done | ⟨failed, nothing⟩
  · rw [done, ok_bind]
    by_cases positive : 0 < effectiveQuote market amountIn
    · rw [curve_part_ok market positive (effective_le market amountIn) fits]
      constructor
      · intro same
        cases same
        exact ⟨by omega, by omega, by omega, positive, rfl⟩
      · rintro ⟨_, _, _, _, rfl⟩
        rfl
    · unfold checkedSub
      rw [if_neg (by omega), ok_or_none, error_bind]
      exact iff_of_false (by simp) fun bought => positive bought.2.2.2.1
  · rw [failed, error_bind, nothing]
    exact iff_of_false (by simp) fun bought => absurd bought.2.2.2.1 (by omega)

/-- The curve's output of a sale, before fees. -/
def soldRaw (amountIn : Nat) : Nat :=
  curveOut (pumpQuoteSide market) market.pumpBaseReserve.toNat amountIn

theorem bps_fee_some {amount bps fee : Nat} (paid : bpsFee amount bps = .ok fee) :
    fee = ceilQuotient (amount * bps) bpsPrecision := by
  unfold bpsFee ceilDiv at paid
  simp only [bind_ok_iff, ok_or_eq_ok, checked_mul_some] at paid
  obtain ⟨_, ⟨rfl, _⟩, paid⟩ := paid
  rw [if_neg (by decide), bind_ok_iff] at paid
  obtain ⟨raised, fits, paid⟩ := paid
  rw [ok_or_eq_ok, checked_add_some] at fits
  cases paid
  rw [fits.1]
  rfl

/-- A sale that succeeds takes its fees out of the curve's output, and the vault holds what leaves it. -/
theorem sell_some {amount baseReserve quoteReserve virtualQuoteReserves lpFeeBps protocolFeeBps
      creatorFeeBps : Nat} {quote : QuoteResult}
    (sold : pumpSellBaseIn amount baseReserve quoteReserve virtualQuoteReserves
      lpFeeBps protocolFeeBps creatorFeeBps = .ok quote) :
    let raw := curveOut (quoteReserve + virtualQuoteReserves) baseReserve amount
    0 < baseReserve ∧ 0 < quoteReserve ∧ raw = quote.amountOut + quote.fee ∧
      quote.fee = splitFee bpsPrecision [lpFeeBps, protocolFeeBps, creatorFeeBps] raw ∧
      raw - ceilQuotient (raw * lpFeeBps) bpsPrecision ≤ quoteReserve := by
  unfold pumpSellBaseIn at sold
  split at sold
  · cases sold
  simp only [bind_ok_iff, ok_or_eq_ok, checked_add_some, checked_mul_some, checked_sub_some,
    Option.bind_eq_some_iff, to_option_some] at sold
  obtain ⟨_, ⟨rfl, _⟩, _, ⟨rfl, _⟩, _, ⟨rfl, _⟩, lpFee, lpPaid, protocolFee, protocolPaid, _,
    ⟨_, ⟨rfl, _⟩, creatorFee, creatorPaid, rfl, _⟩, _, ⟨rfl, covered⟩, _, ⟨rfl, _⟩, sold⟩ := sold
  obtain rfl := bps_fee_some lpPaid
  obtain rfl := bps_fee_some protocolPaid
  obtain rfl := bps_fee_some creatorPaid
  split at sold
  · cases sold
  next held =>
    simp only [bind_ok_iff, BinPricing.to_u64_ok_iff] at sold
    obtain ⟨_, ⟨rfl, _⟩, _, ⟨rfl, _⟩, same⟩ := sold
    cases same
    refine ⟨by omega, by omega, (Nat.sub_add_cancel covered).symm, ?_, Nat.le_of_not_lt held⟩
    simp [splitFee, curveOut, Nat.add_assoc]

/-- What a sale that succeeds pays and keeps back. -/
theorem pump_sell_some {amountIn : Nat} {quote : QuoteResult}
    (sold : pumpSell market amountIn = .ok quote) :
    splitFee bpsPrecision (pumpRates market) (soldRaw market amountIn) ≤ soldRaw market amountIn ∧
      quote.amountOut = soldRaw market amountIn -
        splitFee bpsPrecision (pumpRates market) (soldRaw market amountIn) := by
  obtain ⟨_, _, split, fees, _⟩ := sell_some sold
  have raw : soldRaw market amountIn = quote.amountOut + quote.fee := split
  have kept : quote.fee = splitFee bpsPrecision (pumpRates market) (soldRaw market amountIn) := fees
  rw [← kept, raw]
  exact ⟨Nat.le_add_left _ _, (Nat.add_sub_cancel _ _).symm⟩

theorem sold_raw_mono {left right : Nat} (ordered : left ≤ right) :
    soldRaw market left ≤ soldRaw market right := curve_out_mono ordered

section Monotone

/-- A net amount that drops by one where the curve pays for that one. -/
def BuyDrops (left right : Nat) : Prop :=
  NetDrops bpsPrecision (pumpRates market) left right ∧
    buyOut market (scaled bpsPrecision (pumpRates market) left - 1) <
      buyOut market (scaled bpsPrecision (pumpRates market) left)

instance (left right : Nat) : Decidable (BuyDrops market left right) :=
  inferInstanceAs (Decidable (_ ∧ _))

/-- Raw outputs at which three rounded fees exceed the joint one by more than the
larger output makes up for. -/
def SellDrops (left right : Nat) : Prop :=
  SaleDrops bpsPrecision (pumpRates market) (soldRaw market left) (soldRaw market right)

theorem buy_out_mono {left right : Nat} (ordered : left ≤ right) :
    buyOut market left ≤ buyOut market right := curve_out_mono (by omega)

/-- Two buys are out of order exactly at a drop. -/
theorem buy_order_iff {left right : Nat} (ordered : left ≤ right) (fits : right < 2 ^ 64)
    {less more : QuoteResult} (first : pumpBuy market left = .ok less)
    (second : pumpBuy market right = .ok more) :
    less.amountOut ≤ more.amountOut ↔ ¬ BuyDrops market left right := by
  obtain ⟨_, _, _, _, rfl⟩ := (pump_buy_ok market left (by omega) less).mp first
  obtain ⟨_, _, _, _, rfl⟩ := (pump_buy_ok market right fits more).mp second
  obtain ⟨drops, values⟩ := net_drops_iff (pumpRates market) (by decide : 0 < bpsPrecision)
    (by unfold pumpRates; exact le_rfl) ordered
  dsimp only
  unfold BuyDrops
  by_cases down : NetDrops bpsPrecision (pumpRates market) left right
  · obtain ⟨whole, one⟩ := values down
    unfold effectiveQuote
    rw [whole, one]
    constructor
    · rintro kept ⟨_, paid⟩
      omega
    · intro calm
      by_contra lost
      exact calm ⟨down, by omega⟩
  · have kept : effectiveQuote market left ≤ effectiveQuote market right :=
      Nat.le_of_not_lt fun less => down (drops.mp less)
    exact ⟨fun _ both => down both.1, fun _ => buy_out_mono market kept⟩

/-- Two sales are out of order exactly at a drop of what their fees leave. -/
theorem sell_order_iff {left right : Nat} (ordered : left ≤ right) {less more : QuoteResult}
    (first : pumpSell market left = .ok less) (second : pumpSell market right = .ok more) :
    less.amountOut ≤ more.amountOut ↔ ¬ SellDrops market left right := by
  obtain ⟨leftCovered, leftPaid⟩ := pump_sell_some market first
  obtain ⟨rightCovered, rightPaid⟩ := pump_sell_some market second
  rw [leftPaid, rightPaid, ← Nat.not_lt]
  exact not_congr (sale_drops_iff (pumpRates market) (by decide) (by unfold pumpRates; exact le_rfl)
    (sold_raw_mono market ordered) leftCovered rightCovered)

/-- More input never quotes less output, for buys and for sales. -/
def PumpMonotone : Prop :=
  (∀ left right : UInt64, left ≤ right → ∀ less more,
    pumpBuy market left.toNat = .ok less → pumpBuy market right.toNat = .ok more →
      less.amountOut ≤ more.amountOut) ∧
  ∀ left right : UInt64, left ≤ right → ∀ less more,
    pumpSell market left.toNat = .ok less → pumpSell market right.toNat = .ok more →
      less.amountOut ≤ more.amountOut

def BuyQuoted (amountIn : Nat) : Prop := ∃ quote, pumpBuy market amountIn = .ok quote

def SellQuoted (amountIn : Nat) : Prop := ∃ quote, pumpSell market amountIn = .ok quote

/-- A market is monotone exactly when no two quoted inputs are at a drop. -/
theorem pump_monotone_iff :
    PumpMonotone market ↔
      (∀ left right : UInt64, left ≤ right → BuyQuoted market left.toNat →
        BuyQuoted market right.toNat → ¬ BuyDrops market left.toNat right.toNat) ∧
      ∀ left right : UInt64, left ≤ right → SellQuoted market left.toNat →
        SellQuoted market right.toNat → ¬ SellDrops market left.toNat right.toNat := by
  constructor
  · rintro ⟨buys, sells⟩
    constructor
    · rintro left right ordered ⟨less, first⟩ ⟨more, second⟩
      exact (buy_order_iff market ordered right.toNat_lt first second).mp
        (buys left right ordered less more first second)
    · rintro left right ordered ⟨less, first⟩ ⟨more, second⟩
      exact (sell_order_iff market ordered first second).mp
        (sells left right ordered less more first second)
  · rintro ⟨buys, sells⟩
    constructor
    · intro left right ordered less more first second
      exact (buy_order_iff market ordered right.toNat_lt first second).mpr
        (buys left right ordered ⟨less, first⟩ ⟨more, second⟩)
    · intro left right ordered less more first second
      exact (sell_order_iff market ordered first second).mpr
        (sells left right ordered ⟨less, first⟩ ⟨more, second⟩)

/-- Three fees of 25 bps on equal reserves. -/
def roundingMarket : MarketState where
  pumpBaseReserve := 1000000
  pumpQuoteReserve := 1000000
  pumpVirtualQuoteReserve := 0
  pumpFees := { lpFeeBps := 25, protocolFeeBps := 25, creatorFeeBps := 25 }
  pair := CurveSoundness.dustPair
  targetIsX := true

/-- The same fees where one unit of WSOL buys thousands of the base token. -/
def steepMarket : MarketState := { roundingMarket with pumpBaseReserve := 3000000000 }

theorem rounding_market_drops : ¬ PumpMonotone roundingMarket := by
  rintro ⟨buys, _⟩
  have less : (pumpBuy roundingMarket 404).toOption.map (·.amountOut) = some 398 := by decide
  have more : (pumpBuy roundingMarket 405).toOption.map (·.amountOut) = some 397 := by decide
  obtain ⟨first, bought, paid⟩ := Option.map_eq_some_iff.mp less
  obtain ⟨second, boughtMore, paidLess⟩ := Option.map_eq_some_iff.mp more
  have kept := buys 404 405 (by decide) first second ((to_option_some _ _).mp bought)
    ((to_option_some _ _).mp boughtMore)
  omega

end Monotone

end ArbExecutor.PumpQuotes
