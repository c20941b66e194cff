import ArbExecutor.PumpQuotes

/-!
What a Pump quote leaves in the pool. The effective quote of a buy is what its
fee leaves, and the over-spend correction, which reprices nothing, still leaves
room for the fees on it; a sale splits its raw quote. Both keep the product of
the base reserve and the WSOL side that the curve sees.
-/

namespace ArbExecutor.PumpConservation

open Checked QuoteMath BinPricing ConstantProduct SplitFees PumpQuotes

variable {amount baseReserve quoteReserve virtualQuoteReserves lpFeeBps protocolFeeBps creatorFeeBps : Nat}
  {quote : QuoteResult}

/-- A fee of some basis points, rounded up. -/
def roundedFee (amount bps : Nat) : Nat := ceilQuotient (amount * bps) bpsPrecision

theorem split_fee_three (net : Nat) :
    splitFee bpsPrecision [lpFeeBps, protocolFeeBps, creatorFeeBps] net =
      roundedFee net lpFeeBps + roundedFee net protocolFeeBps + roundedFee net creatorFeeBps := by
  simp [splitFee, roundedFee, Nat.add_assoc]

/-- The over-spend correction as the code makes it. -/
theorem correction_some {kept gross spent effective : Nat}
    (settled : (if spent > gross then okOr (checkedSub kept (spent - gross)) QuoteError.mathOverflow
      else pure kept) = .ok effective) :
    if gross < spent then effective = kept - (spent - gross) ∧ spent - gross ≤ kept
      else effective = kept := by
  split at settled
  next overspent =>
    rw [if_pos overspent]
    exact (checked_sub_some _ _ _).mp ((ok_or_eq_ok _ _ _).mp settled)
  next within =>
    rw [if_neg within]
    cases settled
    rfl

/-- A buy that succeeds pays the curve's output on what its fee leaves. -/
theorem buy_some
    (bought : pumpBuyExactQuoteIn amount baseReserve quoteReserve virtualQuoteReserves
      lpFeeBps protocolFeeBps creatorFeeBps = .ok quote) :
    ∃ effective, 0 < baseReserve ∧ 0 < quoteReserve ∧ 0 < effective ∧
      effective + splitFee bpsPrecision [lpFeeBps, protocolFeeBps, creatorFeeBps] effective ≤ amount ∧
      quote = { amountIn := amount
                amountOut := curveOut baseReserve (quoteReserve + virtualQuoteReserves) (effective - 1)
                fee := amount - effective } := by
  unfold pumpBuyExactQuoteIn at bought
  split at bought
  · cases bought
  simp only [if_bind] at bought
  simp only [bind_ok_iff, ok_or_eq_ok, checked_add_some, checked_mul_some, checked_sub_some,
    Option.bind_eq_some_iff, to_option_some] at bought
  obtain ⟨_, ⟨_, ⟨rfl, _⟩, rfl, _⟩, _, ⟨rfl, _⟩, lpFee, lpPaid, _,
    ⟨_, ⟨_, ⟨rfl, _⟩, protocolFee, protocolPaid, rfl, _⟩, creatorFee, creatorPaid, rfl, _⟩,
    effective, settled, _, ⟨rfl, positive⟩, _, ⟨rfl, _⟩, _, ⟨rfl, _⟩, _, ⟨rfl, _⟩, bought⟩ := bought
  obtain ⟨_, paid, _, charged, same⟩ := bought
  obtain ⟨rfl, _⟩ := (to_u64_ok_iff _ _).mp paid
  obtain ⟨rfl, _⟩ := (to_u64_ok_iff _ _).mp charged
  have scaledDown : amount * 10000 / (10000 + (lpFeeBps + protocolFeeBps + creatorFeeBps)) ≤ amount :=
    Nat.div_le_of_le_mul (by rw [Nat.mul_comm]; exact Nat.mul_le_mul_right amount (by omega))
  generalize amount * 10000 / (10000 + (lpFeeBps + protocolFeeBps + creatorFeeBps)) = kept at *
  obtain rfl := bps_fee_some lpPaid
  obtain rfl := bps_fee_some protocolPaid
  obtain rfl := bps_fee_some creatorPaid
  have spent : kept + ceilQuotient (kept * lpFeeBps) bpsPrecision +
      ceilQuotient (kept * protocolFeeBps) bpsPrecision + ceilQuotient (kept * creatorFeeBps) bpsPrecision =
      kept + splitFee bpsPrecision [lpFeeBps, protocolFeeBps, creatorFeeBps] kept := by
    rw [split_fee_three]
    unfold roundedFee
    omega
  rw [spent] at settled
  obtain ⟨_, covered⟩ := corrected_covers _ (correction_some settled)
  cases same
  exact ⟨effective, by omega, by omega, positive, covered, rfl⟩

/-- Neither quote takes value out of the pool. -/
theorem pump_quotes_conserve (amount baseReserve quoteReserve virtualQuoteReserves
    lpFeeBps protocolFeeBps creatorFeeBps : Nat) :
    (∀ quote, pumpBuyExactQuoteIn amount baseReserve quoteReserve virtualQuoteReserves
        lpFeeBps protocolFeeBps creatorFeeBps = .ok quote →
      let effective := amount - quote.fee
      quote.fee ≤ amount ∧ quote.amountOut < baseReserve ∧ 1 ≤ effective ∧
        effective + roundedFee effective lpFeeBps + roundedFee effective protocolFeeBps +
          roundedFee effective creatorFeeBps ≤ amount ∧
        baseReserve * (quoteReserve + virtualQuoteReserves) ≤
          (baseReserve - quote.amountOut) * (quoteReserve + virtualQuoteReserves + effective - 1)) ∧
    ∀ quote, pumpSellBaseIn amount baseReserve quoteReserve virtualQuoteReserves
        lpFeeBps protocolFeeBps creatorFeeBps = .ok quote →
      let raw := quote.amountOut + quote.fee
      raw = curveOut (quoteReserve + virtualQuoteReserves) baseReserve amount ∧
        raw < quoteReserve + virtualQuoteReserves ∧
        quote.fee = roundedFee raw lpFeeBps + roundedFee raw protocolFeeBps +
          roundedFee raw creatorFeeBps ∧
        quote.amountOut + roundedFee raw protocolFeeBps + roundedFee raw creatorFeeBps ≤ quoteReserve ∧
        baseReserve * (quoteReserve + virtualQuoteReserves) ≤
          (baseReserve + amount) * (quoteReserve + virtualQuoteReserves - raw) := by
  constructor
  · intro quote bought
    obtain ⟨effective, base, reserve, positive, covered, rfl⟩ := buy_some bought
    rw [split_fee_three] at covered
    have left : amount - (amount - effective) = effective := by omega
    dsimp only
    rw [left]
    refine ⟨Nat.sub_le _ _, curve_out_lt_base base (by omega) _, positive, by omega, ?_⟩
    -- The source prices one unit below the effective amount, and that unit stays with the pool.
    rw [Nat.add_sub_assoc positive]
    exact curve_out_keeps_product _
  · intro quote sold
    obtain ⟨base, reserve, split, fees, held⟩ := sell_some sold
    have below := curve_out_lt_base (show 0 < quoteReserve + virtualQuoteReserves by omega) base amount
    rw [split_fee_three] at fees
    dsimp only
    rw [← split]
    unfold roundedFee at fees ⊢
    refine ⟨rfl, below, fees, by omega, ?_⟩
    rw [Nat.mul_comm baseReserve, Nat.mul_comm (baseReserve + amount)]
    exact curve_out_keeps_product amount

theorem vector_quotes_conserve :
    (∃ quote, pumpBuyExactQuoteIn 5000000 800000000000 20000000000 1000000000 20 5 5 = .ok quote ∧
      800000000000 * 21000000000 ≤
        (800000000000 - quote.amountOut) * (21000000000 + (5000000 - quote.fee) - 1)) ∧
    ∃ quote, pumpSellBaseIn 5000000 800000000000 20000000000 1000000000 20 5 5 = .ok quote ∧
      800000000000 * 21000000000 ≤
        (800000000000 + 5000000) * (21000000000 - (quote.amountOut + quote.fee)) := by
  obtain ⟨buys, sells⟩ := pump_quotes_conserve 5000000 800000000000 20000000000 1000000000 20 5 5
  refine ⟨⟨{ amountIn := 5000000, amountOut := 189861292, fee := 14957 }, by decide, ?_⟩,
    ⟨{ amountIn := 5000000, amountOut := 130854, fee := 395 }, by decide, ?_⟩⟩
  · exact (buys _ (by decide)).2.2.2.2
  · exact (sells _ (by decide)).2.2.2.2

end ArbExecutor.PumpConservation
