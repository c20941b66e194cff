import ArbExecutor.FillLedger

/-!
Fees and prices are applied with one rounding and undone with the other. Each pair
is a Galois connection, so that undoing finds the least amount that suffices, and
the checked arithmetic of quote/math.rs never overflows below that amount.
-/

namespace ArbExecutor.PriceInversion

open BinPricing FillLedger QuoteMath

section Connections

theorem fee_connection {rate : Nat} (capped : rate ≤ maxFeeRate) :
    GaloisConnection (gross rate) (net rate) := gross_le_iff capped

theorem price_connection (swapForY : Bool) {price : Nat} (positive : 0 < price) :
    GaloisConnection (need swapForY price) (give swapForY price) := need_le_iff swapForY positive

theorem need_least_worth (swapForY : Bool) {price : Nat} (positive : 0 < price) (output : Nat) :
    IsLeast {input | WorthAtMost swapForY price output input} (need swapForY price output) := by
  simp only [worth_iff swapForY positive]
  exact (price_connection swapForY positive).isLeast_l

end Connections

section Inversions

/-- The fee leaves at least `least` of an amount. -/
def Leaves (rate least amount : Nat) : Prop :=
  amount < 2 ^ 64 ∧ ∃ kept fee, excludedFeeAmount amount rate = .ok (kept, fee) ∧ least ≤ kept

theorem leaves_iff {rate : Nat} (capped : rate ≤ maxFeeRate) (least amount : Nat) :
    Leaves rate least amount ↔ amount < 2 ^ 64 ∧ gross rate least ≤ amount := by
  rw [fee_connection capped]
  refine and_congr_right fun fits => ?_
  rw [excluded_fee_ok capped fits]
  constructor
  · rintro ⟨kept, fee, same, enough⟩
    cases same
    exact enough
  · exact fun enough => ⟨_, _, rfl, enough⟩

theorem included_fee_least {rate amount included fee : Nat} (capped : rate ≤ maxFeeRate)
    (computed : includedFeeAmount amount rate = .ok (included, fee)) :
    IsLeast {least | Leaves rate amount least} included := by
  obtain ⟨rfl, -, fits⟩ := included_fee_some capped computed
  constructor
  · exact (leaves_iff capped _ _).mpr ⟨fits, le_rfl⟩
  · exact fun other leaves => ((leaves_iff capped _ _).mp leaves).2

theorem included_fee_returns {rate amount included fee : Nat} (capped : rate ≤ maxFeeRate)
    (computed : includedFeeAmount amount rate = .ok (included, fee)) :
    excludedFeeAmount included rate = .ok (amount, fee) := by
  obtain ⟨grossed, covered, fits⟩ := included_fee_some capped computed
  have computed := excluded_fee_ok capped fits
  obtain ⟨-, -, split⟩ := excluded_fee_some computed
  have kept : net rate included = amount := by rw [grossed, net_gross capped]
  have taxed : feeOn rate included = fee := by omega
  rw [computed, kept, taxed]

theorem smaller_input_pays {output price input smaller : Nat} {swapForY : Bool} (fits : output < 2 ^ 64)
    (computed : amountInForOut output price swapForY = .ok input) (less : smaller < input) :
    ∃ value, amountOutForIn smaller price swapForY = .ok value ∧ value < output := by
  obtain ⟨positive, rfl, -⟩ := amount_in_ok computed
  have below : give swapForY price smaller < output := by
    rw [← Nat.not_le, ← need_le_iff swapForY positive]
    omega
  exact ⟨_, amount_out_ok positive (lt_trans below fits), below⟩

/-- Including a fee and pricing an output find the least amounts that suffice; the
fee is taken back off exactly, and every smaller input is priced below the output. -/
theorem inversions_least :
    (∀ (rate : Nat) (amount : UInt64) (included fee : Nat), rate ≤ maxFeeRate →
      includedFeeAmount amount.toNat rate = .ok (included, fee) →
        IsLeast {least | Leaves rate amount.toNat least} included ∧
          excludedFeeAmount included rate = .ok (amount.toNat, fee)) ∧
      ∀ (price : BitVec 128) (swapForY : Bool) (output : UInt64) (input : Nat), price ≠ 0 →
        amountInForOut output.toNat price.toNat swapForY = .ok input →
          IsLeast {least | WorthAtMost swapForY price.toNat output.toNat least} input ∧
            ∀ smaller < input, ∃ value,
              amountOutForIn smaller price.toNat swapForY = .ok value ∧ value < output.toNat := by
  constructor
  · intro rate amount included fee capped computed
    exact ⟨included_fee_least capped computed, included_fee_returns capped computed⟩
  · intro price swapForY output input _ computed
    obtain ⟨positive, least, -⟩ := amount_in_ok computed
    refine ⟨?_, fun smaller less => smaller_input_pays output.toNat_lt computed less⟩
    rw [least]
    exact need_least_worth swapForY positive output.toNat

def halfAgain : BitVec 128 := BitVec.ofNat 128 (3 * 2 ^ 63)

set_option maxRecDepth 4000 in
/-- A net thousand at a fee of one in a thousand, and ten units at one and a half. -/
theorem inversions_least_sample :
    (IsLeast {least | Leaves 1000000 1000 least} 1002 ∧ excludedFeeAmount 1002 1000000 = .ok (1000, 2)) ∧
      IsLeast {least | WorthAtMost true halfAgain.toNat 10 least} 7 ∧
      ∀ smaller < 7, ∃ value,
        amountOutForIn smaller halfAgain.toNat true = .ok value ∧ value < 10 :=
  ⟨inversions_least.1 1000000 1000 1002 2 (by decide) (by decide),
    inversions_least.2 halfAgain true 10 7 (by decide) (by decide)⟩

end Inversions

end ArbExecutor.PriceInversion
