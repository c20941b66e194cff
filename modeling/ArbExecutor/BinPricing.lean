import ArbExecutor.QuoteMath

/-!
What one bin does with an input, as a closed form. A bin that can be read has a
pricing: fee rate, price and payable liquidity, all within the widths that the
checked arithmetic of a fill needs. On a pricing the fill never fails, and on a
bin without one it never succeeds.
-/

namespace ArbExecutor.BinPricing

open Checked QuoteMath

section Rounding

def feeOn (rate amount : Nat) : Nat := ceilQuotient (amount * rate) feePrecision

def net (rate amount : Nat) : Nat := amount - feeOn rate amount

def gross (rate amount : Nat) : Nat := ceilQuotient (amount * feePrecision) (feePrecision - rate)

/-- Least input that pays `output` at a price, before fees. -/
def need (swapForY : Bool) (price output : Nat) : Nat :=
  if swapForY then ceilQuotient (output * 2 ^ 64) price else ceilQuotient (output * price) (2 ^ 64)

/-- Output that an input pays at a price, before fees. -/
def give (swapForY : Bool) (price input : Nat) : Nat :=
  if swapForY then input * price / 2 ^ 64 else input * 2 ^ 64 / price

variable {rate : Nat} (capped : rate ≤ maxFeeRate)

include capped

theorem fee_le (amount : Nat) : feeOn rate amount ≤ amount := by
  unfold feeOn
  rw [ceil_quotient_le_iff (by decide)]
  exact Nat.mul_le_mul_left amount (by unfold maxFeeRate at capped; unfold feePrecision; omega)

/-- The net amount is the floor of the untaxed share. -/
theorem le_net_iff (amount least : Nat) :
    least ≤ net rate amount ↔ least * feePrecision ≤ amount * (feePrecision - rate) := by
  have small : rate ≤ feePrecision := by unfold maxFeeRate at capped; unfold feePrecision; omega
  have share : amount * rate ≤ amount * feePrecision := Nat.mul_le_mul_left amount small
  rw [Nat.mul_sub]
  by_cases bounded : least ≤ amount
  · have taxed : feeOn rate amount ≤ amount - least ↔
        amount * rate ≤ (amount - least) * feePrecision := ceil_quotient_le_iff (by decide)
    rw [Nat.sub_mul] at taxed
    have scaled : least * feePrecision ≤ amount * feePrecision :=
      Nat.mul_le_mul_right feePrecision bounded
    have within := fee_le capped amount
    unfold net
    omega
  · have beyond : amount * feePrecision < least * feePrecision :=
      Nat.mul_lt_mul_of_pos_right (by omega) (by decide)
    unfold net
    omega

theorem gross_le_iff (need amount : Nat) : gross rate need ≤ amount ↔ need ≤ net rate amount := by
  rw [le_net_iff capped]
  exact ceil_quotient_le_iff (by unfold maxFeeRate at capped; unfold feePrecision; omega)

theorem net_mono {left right : Nat} (ordered : left ≤ right) : net rate left ≤ net rate right := by
  rw [le_net_iff capped]
  exact ((le_net_iff capped left _).mp le_rfl).trans (Nat.mul_le_mul_right _ ordered)

omit capped in
theorem net_le (rate amount : Nat) : net rate amount ≤ amount := Nat.sub_le _ _

/-- One more unit of input adds at most one net unit. -/
theorem net_step (amount : Nat) : net rate (amount + 1) ≤ net rate amount + 1 := by
  by_contra jump
  have reached := (le_net_iff capped (amount + 1) (net rate amount + 2)).mp (by omega)
  have missed := (le_net_iff capped amount (net rate amount + 1)).not.mp (by omega)
  have share : feePrecision - rate ≤ feePrecision := Nat.sub_le _ _
  simp only [Nat.add_mul, Nat.one_mul] at reached missed
  omega

/-- Two more units of input add at least one net unit. -/
theorem net_two_steps (amount : Nat) : net rate amount + 1 ≤ net rate (amount + 2) := by
  rw [le_net_iff capped]
  have reached := (le_net_iff capped amount (net rate amount)).mp le_rfl
  have share : feePrecision ≤ 2 * (feePrecision - rate) := by
    unfold maxFeeRate at capped; unfold feePrecision; omega
  simp only [Nat.add_mul]
  omega

theorem net_gross (amount : Nat) : net rate (gross rate amount) = amount := by
  have reached : amount ≤ net rate (gross rate amount) := (gross_le_iff capped _ _).mp le_rfl
  by_contra different
  cases size : gross rate amount with
  | zero => rw [size] at reached different; simp only [net, Nat.zero_sub] at *; omega
  | succ less =>
      have missed := (gross_le_iff capped amount less).not.mp (by omega)
      have step := net_step capped less
      rw [size] at reached different
      omega

theorem le_gross (amount : Nat) : amount ≤ gross rate amount :=
  calc amount = net rate (gross rate amount) := (net_gross capped amount).symm
    _ ≤ gross rate amount := net_le rate _

/-- Beyond the gross amount only one more unit can vanish in the fee. -/
theorem gross_hides {need amount : Nat} (beyond : gross rate need < amount)
    (absorbed : net rate amount ≤ need) : amount = gross rate need + 1 ∧ net rate amount = need := by
  have grossed := net_gross capped need
  have grown := net_mono capped beyond.le
  refine ⟨?_, by omega⟩
  by_contra further
  have twice := net_two_steps capped (gross rate need)
  have grown := net_mono capped (show gross rate need + 2 ≤ amount by omega)
  omega

omit capped in
@[simp] theorem net_zero (rate : Nat) : net rate 0 = 0 := by simp [net]

omit capped

/-- Pricing an output and pricing an input are adjoint roundings. -/
theorem need_le_iff (swapForY : Bool) {price : Nat} (positive : 0 < price) (output input : Nat) :
    need swapForY price output ≤ input ↔ output ≤ give swapForY price input := by
  cases swapForY
  · simp only [need, give, Bool.false_eq_true, if_false]
    rw [ceil_quotient_le_iff (by decide), le_floor_quotient_iff positive]
  · simp only [need, give, if_true]
    rw [ceil_quotient_le_iff positive, le_floor_quotient_iff (by decide)]

theorem give_mono (swapForY : Bool) (price : Nat) {left right : Nat} (ordered : left ≤ right) :
    give swapForY price left ≤ give swapForY price right := by
  cases swapForY
  · exact Nat.div_le_div_right (Nat.mul_le_mul_right _ ordered)
  · exact Nat.div_le_div_right (Nat.mul_le_mul_right _ ordered)

@[simp] theorem give_zero (swapForY : Bool) (price : Nat) : give swapForY price 0 = 0 := by
  cases swapForY <;> simp [give]

end Rounding

section CheckedForms

theorem fee_rate_capped {parameters : DlmmFeeParameters} {rate : Nat}
    (computed : dlmmTotalFeeRate parameters = .ok rate) : rate ≤ maxFeeRate := by
  unfold dlmmTotalFeeRate at computed
  simp only [bind_ok_iff] at computed
  obtain ⟨_, _, _, _, computed⟩ := computed
  -- Both ways of computing the variable fee end in the same cap.
  split at computed
  · simp only [bind_ok_iff, pure_ok, Except.ok.injEq] at computed
    obtain ⟨_, _, _, _, rfl⟩ := computed
    exact min_le_right _ _
  · simp only [bind_ok_iff, pure_ok, Except.ok.injEq] at computed
    obtain ⟨_, _, _, _, _, _, _, _, _, _, rfl⟩ := computed
    exact min_le_right _ _

theorem max_out_fits {bin : Bin} {swapForY : Bool} {available : Nat}
    (computed : maxOut bin swapForY = .ok available) : available < 2 ^ 64 := by
  unfold maxOut at computed
  extract_lets mmOut total at computed
  split at computed
  · simp only [total, bind_ok_iff, ok_or_eq_ok, checked_add_some] at computed
    obtain ⟨_, _, rfl, fits⟩ := computed
    exact fits
  · simp only [total, pure_ok, ok_bind, ok_or_eq_ok, checked_add_some] at computed
    obtain ⟨rfl, fits⟩ := computed
    exact fits

theorem ceil_div_ok_iff (numerator denominator value : Nat) :
    ceilDiv numerator denominator = .ok value ↔
      denominator ≠ 0 ∧ numerator + (denominator - 1) < 2 ^ 128 ∧
        value = ceilQuotient numerator denominator := by
  unfold ceilDiv ceilQuotient
  split
  next zero => simp [zero]
  next nonzero =>
    simp only [bind_ok_iff, ok_or_eq_ok, checked_add_some, pure_ok, Except.ok.injEq]
    constructor
    · rintro ⟨_, ⟨rfl, fits⟩, rfl⟩
      exact ⟨nonzero, fits, rfl⟩
    · rintro ⟨_, fits, rfl⟩
      exact ⟨_, ⟨rfl, fits⟩, rfl⟩

theorem to_u64_ok_iff (value result : Nat) :
    toU64 value = .ok result ↔ result = value ∧ value < 2 ^ 64 := by
  unfold toU64
  rw [ok_or_eq_ok, narrow_some]

theorem excluded_fee_ok {rate amount : Nat} (capped : rate ≤ maxFeeRate) (fits : amount < 2 ^ 64) :
    excludedFeeAmount amount rate = .ok (net rate amount, feeOn rate amount) := by
  have product : amount * rate ≤ amount * maxFeeRate := Nat.mul_le_mul_left amount capped
  have wide : amount * rate + (feePrecision - 1) < 2 ^ 128 := by
    unfold maxFeeRate at product; unfold feePrecision; omega
  have within := fee_le capped amount
  unfold excludedFeeAmount
  simp only [bind_ok_iff, ok_or_eq_ok, checked_mul_some, checked_sub_some, ceil_div_ok_iff,
    to_u64_ok_iff, pure_ok, Except.ok.injEq]
  refine ⟨_, ⟨rfl, by omega⟩, _, ⟨by decide, wide, rfl⟩, _, ⟨rfl, within⟩, _, ⟨rfl, ?_⟩, _,
    ⟨rfl, ?_⟩, rfl⟩
  · exact lt_of_le_of_lt (Nat.sub_le _ _) fits
  · exact lt_of_le_of_lt within fits

theorem excluded_fee_some {rate amount excluded fee : Nat}
    (computed : excludedFeeAmount amount rate = .ok (excluded, fee)) :
    excluded = net rate amount ∧ fee = feeOn rate amount ∧ excluded + fee = amount := by
  unfold excludedFeeAmount at computed
  simp only [bind_ok_iff, ok_or_eq_ok, checked_mul_some, checked_sub_some, ceil_div_ok_iff,
    to_u64_ok_iff, pure_ok, Except.ok.injEq, Prod.mk.injEq] at computed
  obtain ⟨_, ⟨rfl, _⟩, _, ⟨_, _, rfl⟩, _, ⟨rfl, within⟩, _, ⟨rfl, _⟩, _, ⟨rfl, _⟩, rfl, rfl⟩ := computed
  exact ⟨rfl, rfl, Nat.sub_add_cancel within⟩

theorem included_fee_some {rate amount included fee : Nat} (capped : rate ≤ maxFeeRate)
    (computed : includedFeeAmount amount rate = .ok (included, fee)) :
    included = gross rate amount ∧ amount + fee = included ∧ included < 2 ^ 64 := by
  have covered := le_gross capped amount
  unfold includedFeeAmount at computed
  simp only [bind_ok_iff, ok_or_eq_ok, checked_mul_some, checked_sub_some, ceil_div_ok_iff,
    to_u64_ok_iff, pure_ok, Except.ok.injEq, Prod.mk.injEq] at computed
  obtain ⟨_, ⟨rfl, _⟩, _, ⟨rfl, _⟩, _, ⟨_, _, rfl⟩, _, ⟨rfl, fits⟩, _, ⟨rfl, _⟩, rfl, rfl⟩ := computed
  exact ⟨rfl, Nat.add_sub_of_le covered, fits⟩

theorem included_fee_ok {rate amount bound : Nat} (capped : rate ≤ maxFeeRate)
    (bounded : gross rate amount ≤ bound) (fits : bound < 2 ^ 64) :
    includedFeeAmount amount rate = .ok (gross rate amount, gross rate amount - amount) := by
  have small := le_gross capped amount
  have room : 0 < feePrecision - rate := by unfold maxFeeRate at capped; unfold feePrecision; omega
  have wide : amount * feePrecision + (feePrecision - rate - 1) < 2 ^ 128 := by
    unfold feePrecision at *; omega
  unfold includedFeeAmount
  simp only [bind_ok_iff, ok_or_eq_ok, checked_mul_some, checked_sub_some, ceil_div_ok_iff,
    to_u64_ok_iff, pure_ok, Except.ok.injEq]
  exact ⟨_, ⟨rfl, by omega⟩, _, ⟨rfl, by omega⟩, _, ⟨by omega, wide, rfl⟩, _,
    ⟨rfl, lt_of_le_of_lt bounded fits⟩, _,
    ⟨rfl, lt_of_le_of_lt ((Nat.sub_le _ _).trans bounded) fits⟩, rfl⟩

theorem amount_in_ok {output price input : Nat} {swapForY : Bool}
    (computed : amountInForOut output price swapForY = .ok input) :
    0 < price ∧ input = need swapForY price output ∧ input < 2 ^ 64 := by
  unfold amountInForOut at computed
  split at computed
  · cases computed
  · cases swapForY
    · simp only [Bool.false_eq_true, if_false, bind_ok_iff, ok_or_eq_ok, checked_mul_some,
        ceil_div_ok_iff, to_u64_ok_iff] at computed
      obtain ⟨_, ⟨rfl, _⟩, _, ⟨_, _, rfl⟩, rfl, fits⟩ := computed
      exact ⟨by omega, (if_neg Bool.false_ne_true).symm, fits⟩
    · simp only [if_true, bind_ok_iff, ceil_div_ok_iff, to_u64_ok_iff] at computed
      obtain ⟨_, ⟨_, _, rfl⟩, rfl, fits⟩ := computed
      exact ⟨by omega, (if_pos rfl).symm, fits⟩

theorem amount_out_given {input price value : Nat} {swapForY : Bool}
    (paid : amountOutForIn input price swapForY = .ok value) : value = give swapForY price input := by
  unfold amountOutForIn at paid
  unfold give
  split at paid
  · cases paid
  · split at paid
    next forY =>
      rw [if_pos forY]
      simp only [bind_ok_iff, ok_or_eq_ok, checked_mul_some, pure_ok, to_u64_ok_iff,
        Except.ok.injEq] at paid
      obtain ⟨_, ⟨rfl, _⟩, _, rfl, rfl, _⟩ := paid
      rfl
    next forX =>
      rw [pure_ok, ok_bind, to_u64_ok_iff] at paid
      rw [if_neg forX]
      exact paid.1

theorem amount_out_fits {input price value : Nat} {swapForY : Bool}
    (paid : amountOutForIn input price swapForY = .ok value) : value < 2 ^ 64 := by
  unfold amountOutForIn at paid
  split at paid
  · cases paid
  · split at paid
    · simp only [bind_ok_iff, to_u64_ok_iff] at paid
      obtain ⟨_, _, raw, _, rfl, fits⟩ := paid
      exact fits
    · rw [pure_ok, ok_bind, to_u64_ok_iff] at paid
      rw [paid.1]
      exact paid.2

/-- An output that fits its word is converted without overflow. -/
theorem amount_out_ok {input price : Nat} {swapForY : Bool} (positive : 0 < price)
    (fits : give swapForY price input < 2 ^ 64) :
    amountOutForIn input price swapForY = .ok (give swapForY price input) := by
  unfold amountOutForIn
  rw [if_neg (by omega)]
  cases swapForY
  · simp only [give, Bool.false_eq_true, if_false] at fits ⊢
    rw [pure_ok, ok_bind]
    exact (to_u64_ok_iff _ _).mpr ⟨rfl, fits⟩
  · simp only [give, if_true] at fits ⊢
    have product : input * price < 2 ^ 64 * 2 ^ 64 := (Nat.div_lt_iff_lt_mul (by decide)).mp fits
    rw [← pow_add] at product
    rw [(checked_mul_some 128 input price _).mpr ⟨rfl, product⟩]
    rw [ok_or_some, ok_bind, pure_ok, ok_bind]
    exact (to_u64_ok_iff _ _).mpr ⟨rfl, fits⟩

/-- An output conversion fails only on inputs that pay far more than one unit. -/
theorem amount_out_error {input price : Nat} {swapForY : Bool} {error : QuoteError}
    (positive : 0 < price) (several : 2 ≤ input)
    (failed : amountOutForIn input price swapForY = .error error) :
    0 < give swapForY price (input - 1) := by
  -- The conversion fails only on an output past the word, and one unit less still pays then.
  have huge : price ≤ (input - 1) * 2 ^ 64 ∧ swapForY = false ∨
      2 ^ 64 ≤ (input - 1) * price ∧ swapForY = true := by
    by_contra small
    unfold amountOutForIn at failed
    rw [if_neg (by omega)] at failed
    cases swapForY
    · have paid : toU64 (input * 2 ^ 64 / price) = .ok (input * 2 ^ 64 / price) := by
        refine (to_u64_ok_iff _ _).mpr ⟨rfl, ?_⟩
        rw [Nat.div_lt_iff_lt_mul positive]
        simp only [Bool.false_eq_true, and_false, or_false, and_true] at small
        omega
      rw [if_neg Bool.false_ne_true, pure_ok, ok_bind] at failed
      cases paid.symm.trans failed
    · simp only [Bool.true_eq_false, and_false, false_or, and_true] at small
      have less : input * price < 2 ^ 128 := by
        obtain ⟨fewer, rfl⟩ : ∃ fewer, input = fewer + 1 := ⟨input - 1, by omega⟩
        have several : price ≤ fewer * price := Nat.le_mul_of_pos_left _ (by omega)
        rw [Nat.add_sub_cancel] at small
        rw [Nat.add_mul]
        omega
      have paid : toU64 (input * price / 2 ^ 64) = .ok (input * price / 2 ^ 64) := by
        refine (to_u64_ok_iff _ _).mpr ⟨rfl, ?_⟩
        rw [Nat.div_lt_iff_lt_mul (by decide)]
        omega
      rw [if_pos rfl, (checked_mul_some 128 input price _).mpr ⟨rfl, less⟩, ok_or_some, ok_bind, pure_ok,
        ok_bind] at failed
      cases paid.symm.trans failed
  rcases huge with ⟨huge, rfl⟩ | ⟨huge, rfl⟩
  · simp only [give, Bool.false_eq_true, if_false]
    exact Nat.div_pos (by omega) positive
  · simp only [give, if_true]
    exact Nat.div_pos (by omega) (by decide)

end CheckedForms

/-! No reading of a bin fails by reporting missing liquidity, so that a capacity
of `insufficientLiquidity` always means an empty bin. -/
section Avoidance
variable {Error Result Next : Type}

def Avoids (error : Error) (outcome : Except Error Result) : Prop := outcome ≠ .error error

theorem bind_avoids {first : Except Error Result} {next : Result → Except Error Next}
    {error : Error} (firstAvoids : Avoids error first)
    (nextAvoids : ∀ value, Avoids error (next value)) : Avoids error (first >>= next) := by
  cases first with
  | error other => exact fun failed => firstAvoids (congrArg Except.error (Except.error.inj failed))
  | ok value => exact nextAvoids value

theorem ok_or_avoids (value : Option Result) {raised error : Error} (different : raised ≠ error) :
    Avoids error (okOr value raised) := by
  cases value with
  | none => exact fun failed => different (Except.error.inj failed)
  | some result => exact fun failed => nomatch failed

theorem pure_avoids (value : Result) (error : Error) :
    Avoids error (pure value : Except Error Result) := fun failed => nomatch failed

theorem fee_rate_avoids (parameters : DlmmFeeParameters) :
    Avoids .insufficientLiquidity (dlmmTotalFeeRate parameters) := by
  have overflows {Value : Type} (value : Option Value) :
      Avoids .insufficientLiquidity (okOr value QuoteError.mathOverflow) := ok_or_avoids _ (by decide)
  unfold dlmmTotalFeeRate
  refine bind_avoids (overflows _) fun _ => bind_avoids (overflows _) fun _ => ?_
  split
  · exact bind_avoids (pure_avoids _ _) fun _ => bind_avoids (overflows _) fun _ => pure_avoids _ _
  · exact bind_avoids (overflows _) fun _ => bind_avoids (overflows _) fun _ =>
      bind_avoids (overflows _) fun _ => bind_avoids (pure_avoids _ _) fun _ =>
      bind_avoids (overflows _) fun _ => pure_avoids _ _

theorem max_out_avoids (bin : Bin) (swapForY : Bool) :
    Avoids .insufficientLiquidity (maxOut bin swapForY) := by
  unfold maxOut
  extract_lets mmOut total
  split
  · exact bind_avoids (ok_or_avoids _ (by decide)) fun _ => ok_or_avoids _ (by decide)
  · exact bind_avoids (pure_avoids _ _) fun _ => ok_or_avoids _ (by decide)

theorem ceil_div_avoids (numerator denominator : Nat) :
    Avoids .insufficientLiquidity (ceilDiv numerator denominator) := by
  unfold ceilDiv
  split
  · exact fun failed => nomatch failed
  · exact bind_avoids (ok_or_avoids _ (by decide)) fun _ => pure_avoids _ _

theorem amount_in_avoids (output price : Nat) (swapForY : Bool) :
    Avoids .insufficientLiquidity (amountInForOut output price swapForY) := by
  unfold amountInForOut
  split
  · exact fun failed => nomatch failed
  · split
    · exact bind_avoids (ceil_div_avoids _ _) fun _ => ok_or_avoids _ (by decide)
    · exact bind_avoids (ok_or_avoids _ (by decide)) fun _ =>
        bind_avoids (ceil_div_avoids _ _) fun _ => ok_or_avoids _ (by decide)

end Avoidance

-- From here on only the bounds above are used; unfolding would compute with 64-bit literals.
attribute [irreducible] feeOn net gross need give

section Fill

/-- What a readable bin offers in one direction. -/
structure Pricing where
  swapForY : Bool
  feeOnInput : Bool
  feeRate : Nat
  price : Nat
  available : Nat
  capped : feeRate ≤ maxFeeRate
  availableFits : available < 2 ^ 64
  payable : available ≠ 0 → 0 < price ∧ need swapForY price available < 2 ^ 64

variable (pricing : Pricing)

/-- Net input that takes everything the bin has. -/
def Pricing.fullNeed : Nat := need pricing.swapForY pricing.price pricing.available

/-- Output before fees on a net input no larger than the full need. -/
def Pricing.payout (input : Nat) : Nat :=
  if input = pricing.fullNeed then pricing.available
  else give pricing.swapForY pricing.price input

def Pricing.fill (input : Nat) : QuoteResult :=
  if pricing.available = 0 then { amountIn := 0, amountOut := 0, fee := 0 }
  else if pricing.feeOnInput then
    if net pricing.feeRate input ≤ pricing.fullNeed then
      { amountIn := input, amountOut := pricing.payout (net pricing.feeRate input)
        fee := feeOn pricing.feeRate input }
    else
      { amountIn := gross pricing.feeRate pricing.fullNeed, amountOut := pricing.available
        fee := gross pricing.feeRate pricing.fullNeed - pricing.fullNeed }
  else
    { amountIn := min input pricing.fullNeed
      amountOut := net pricing.feeRate (pricing.payout (min input pricing.fullNeed))
      fee := feeOn pricing.feeRate (pricing.payout (min input pricing.fullNeed)) }

theorem payable_of_readable {available price : Nat} {swapForY : Bool}
    (readable : available = 0 ∨ (amountInForOut available price swapForY).isOk) :
    available ≠ 0 → 0 < price ∧ need swapForY price available < 2 ^ 64 := by
  intro nonzero
  cases computed : amountInForOut available price swapForY with
  | error error => simp [computed, nonzero, Except.isOk, Except.toBool] at readable
  | ok input =>
    obtain ⟨positive, rfl, fits⟩ := amount_in_ok computed
    exact ⟨positive, fits⟩

/-- The pricing of a bin, absent when some reading of it fails. -/
def pricingOf (bin : Bin) (swapForY feeOnInput : Bool) (parameters : DlmmFeeParameters) :
    Option Pricing :=
  match rate : dlmmTotalFeeRate parameters, offered : maxOut bin swapForY with
  | .ok feeRate, .ok available =>
      if readable : available = 0 ∨ (amountInForOut available bin.priceQ64.toNat swapForY).isOk then
        some { swapForY, feeOnInput, feeRate, price := bin.priceQ64.toNat, available
               capped := fee_rate_capped rate
               availableFits := max_out_fits offered
               payable := payable_of_readable readable }
      else none
  | _, _ => none

variable {bin : Bin} {swapForY feeOnInput : Bool} {parameters : DlmmFeeParameters}

/-- Everything a pricing says about the bin it was read from. -/
theorem pricing_of_some {pricing : Pricing}
    (priced : pricingOf bin swapForY feeOnInput parameters = some pricing) :
    pricing.swapForY = swapForY ∧ pricing.feeOnInput = feeOnInput ∧
    dlmmTotalFeeRate parameters = .ok pricing.feeRate ∧ pricing.price = bin.priceQ64.toNat ∧
    maxOut bin swapForY = .ok pricing.available ∧
    (pricing.available ≠ 0 →
      amountInForOut pricing.available pricing.price swapForY = .ok pricing.fullNeed) := by
  unfold pricingOf at priced
  split at priced
  next feeRate available rate offered =>
    split at priced
    next readable =>
      cases priced
      refine ⟨rfl, rfl, rate, rfl, offered, fun nonzero => ?_⟩
      cases computed : amountInForOut available bin.priceQ64.toNat swapForY with
      | error error =>
        rcases readable with empty | readable
        · exact absurd empty nonzero
        · rw [computed] at readable; cases readable
      | ok input =>
        obtain ⟨_, rfl, _⟩ := amount_in_ok computed
        rfl
    next unreadable => cases priced
  next => cases priced

/-- A bin without a pricing fails at one of its three readings. -/
theorem pricing_of_none (unpriced : pricingOf bin swapForY feeOnInput parameters = none) :
    (∃ error, dlmmTotalFeeRate parameters = .error error) ∨
    (∃ error, maxOut bin swapForY = .error error) ∨
    (∃ available error, maxOut bin swapForY = .ok available ∧ available ≠ 0 ∧
      amountInForOut available bin.priceQ64.toNat swapForY = .error error) := by
  unfold pricingOf at unpriced
  split at unpriced
  next feeRate available rate offered =>
    split at unpriced
    next readable => cases unpriced
    next unreadable =>
      cases computed : amountInForOut available bin.priceQ64.toNat swapForY with
      | error error =>
          exact .inr (.inr ⟨available, error, offered, fun empty => unreadable (.inl empty), computed⟩)
      | ok input => exact absurd (.inr (by rw [computed]; rfl)) unreadable
  next missing =>
    cases rate : dlmmTotalFeeRate parameters with
    | error error => exact .inl ⟨error, rfl⟩
    | ok feeRate =>
      cases offered : maxOut bin swapForY with
      | error error => exact .inr (.inl ⟨error, rfl⟩)
      | ok available => exact absurd offered (missing feeRate available rate)

end Fill

section Payout
variable (pricing : Pricing)

theorem full_need_positive (some : pricing.available ≠ 0) : 0 < pricing.fullNeed := by
  by_contra none
  have nothing := (need_le_iff pricing.swapForY (pricing.payable some).1 pricing.available 0).mp
    (by unfold Pricing.fullNeed at none; omega)
  rw [give_zero] at nothing
  omega

/-- Short of the full need a bin pays less than all it has. -/
theorem give_below {input : Nat} (some : pricing.available ≠ 0) (short : input < pricing.fullNeed) :
    give pricing.swapForY pricing.price input < pricing.available := by
  by_contra reached
  have enough := (need_le_iff pricing.swapForY (pricing.payable some).1 pricing.available input).mpr
    (by omega)
  unfold Pricing.fullNeed at short
  omega

@[simp] theorem payout_full : pricing.payout pricing.fullNeed = pricing.available := if_pos rfl

theorem payout_le {input : Nat} (some : pricing.available ≠ 0) (bounded : input ≤ pricing.fullNeed) :
    pricing.payout input ≤ pricing.available := by
  unfold Pricing.payout
  split
  next full => exact le_rfl
  next short => exact (give_below pricing some (by omega)).le

theorem payout_mono {left right : Nat} (some : pricing.available ≠ 0) (ordered : left ≤ right)
    (bounded : right ≤ pricing.fullNeed) : pricing.payout left ≤ pricing.payout right := by
  by_cases full : right = pricing.fullNeed
  · have paid : pricing.payout right = pricing.available := if_pos full
    rw [paid]
    exact payout_le pricing some (by omega)
  · unfold Pricing.payout
    rw [if_neg full, if_neg (by omega)]
    exact give_mono _ _ ordered

@[simp] theorem payout_zero (some : pricing.available ≠ 0) : pricing.payout 0 = 0 := by
  have positive := full_need_positive pricing some
  unfold Pricing.payout
  rw [if_neg (by omega), give_zero]

theorem fill_empty (empty : pricing.available = 0) (amountIn : Nat) :
    pricing.fill amountIn = { amountIn := 0, amountOut := 0, fee := 0 } := if_pos empty

variable {amountIn : Nat}

theorem fill_absorbed (some : pricing.available ≠ 0) (onInput : pricing.feeOnInput = true)
    (absorbed : net pricing.feeRate amountIn ≤ pricing.fullNeed) :
    pricing.fill amountIn =
      { amountIn := amountIn, amountOut := pricing.payout (net pricing.feeRate amountIn)
        fee := feeOn pricing.feeRate amountIn } := by
  unfold Pricing.fill
  rw [if_neg some, if_pos onInput, if_pos absorbed]

theorem fill_overfull (some : pricing.available ≠ 0) (onInput : pricing.feeOnInput = true)
    (beyond : ¬ net pricing.feeRate amountIn ≤ pricing.fullNeed) :
    pricing.fill amountIn =
      { amountIn := gross pricing.feeRate pricing.fullNeed, amountOut := pricing.available
        fee := gross pricing.feeRate pricing.fullNeed - pricing.fullNeed } := by
  unfold Pricing.fill
  rw [if_neg some, if_pos onInput, if_neg beyond]

theorem fill_on_output (some : pricing.available ≠ 0) (onOutput : pricing.feeOnInput ≠ true)
    (amountIn : Nat) :
    pricing.fill amountIn =
      { amountIn := min amountIn pricing.fullNeed
        amountOut := net pricing.feeRate (pricing.payout (min amountIn pricing.fullNeed))
        fee := feeOn pricing.feeRate (pricing.payout (min amountIn pricing.fullNeed)) } := by
  unfold Pricing.fill
  rw [if_neg some, if_neg onOutput]

variable (amountIn)

/-- A fill is empty, absorbed or overfull on the input side, or taxed on the output side. -/
theorem fill_cases :
    pricing.available = 0 ∨
    (pricing.available ≠ 0 ∧ pricing.feeOnInput = true ∧
      net pricing.feeRate amountIn ≤ pricing.fullNeed) ∨
    (pricing.available ≠ 0 ∧ pricing.feeOnInput = true ∧
      ¬ net pricing.feeRate amountIn ≤ pricing.fullNeed) ∨
    (pricing.available ≠ 0 ∧ pricing.feeOnInput ≠ true) := by
  by_cases empty : pricing.available = 0
  · exact .inl empty
  · by_cases onInput : pricing.feeOnInput = true
    · by_cases absorbed : net pricing.feeRate amountIn ≤ pricing.fullNeed
      · exact .inr (.inl ⟨empty, onInput, absorbed⟩)
      · exact .inr (.inr (.inl ⟨empty, onInput, absorbed⟩))
    · exact .inr (.inr (.inr ⟨empty, onInput⟩))

end Payout

section Partial
variable {bin : Bin} {swapForY feeOnInput : Bool} {parameters : DlmmFeeParameters}

theorem partial_single (amountIn : Nat) (positive : 0 < amountIn) :
    dlmmQuoteExactInPartial amountIn [bin] swapForY feeOnInput parameters = (do
      let feeRate ← dlmmTotalFeeRate parameters
      let totals ← fillBin swapForY feeOnInput feeRate bin
        { remaining := amountIn, totalIn := 0, totalOut := 0, totalFee := 0 }
      pure { amountIn := totals.totalIn, amountOut := totals.totalOut, fee := totals.totalFee }) := by
  unfold dlmmQuoteExactInPartial dlmmQuoteExactInImpl
  rw [if_neg (by simp; omega)]
  refine congrArg _ (funext fun feeRate => ?_)
  unfold fillBins
  rw [if_neg (by change amountIn ≠ 0; omega)]
  cases fillBin swapForY feeOnInput feeRate bin
      { remaining := amountIn, totalIn := 0, totalOut := 0, totalFee := 0 } with
  | error error => rfl
  | ok totals => rfl

/-- The raw output step of a fill: the whole bin, or the priced share of it. -/
theorem raw_out_ok (pricing : Pricing) {input : Nat} (some : pricing.available ≠ 0)
    (bounded : input ≤ pricing.fullNeed) :
    (if input = pricing.fullNeed then pure pricing.available
      else amountOutForIn input pricing.price pricing.swapForY) =
      (Except.ok (pricing.payout input) : Except QuoteError Nat) := by
  unfold Pricing.payout
  split
  next full => rfl
  next short =>
    exact amount_out_ok (pricing.payable some).1
      (lt_trans (give_below pricing some (by omega)) pricing.availableFits)

/-- Booking one fill on empty totals never overflows. -/
theorem settle_ok {amountIn used output fee : Nat} (fits : amountIn < 2 ^ 64)
    (bounded : used ≤ amountIn) (outputFits : output < 2 ^ 64) (feeFits : fee < 2 ^ 64) :
    (do
      let remaining ← okOr (checkedSub amountIn used) QuoteError.mathOverflow
      let totalIn ← okOr (checkedAdd 64 0 used) QuoteError.mathOverflow
      let totalOut ← okOr (checkedAdd 64 0 output) QuoteError.mathOverflow
      let totalFee ← okOr (checkedAdd 64 0 fee) QuoteError.mathOverflow
      Except.ok ({ remaining, totalIn, totalOut, totalFee } : FillTotals)) =
      .ok { remaining := amountIn - used, totalIn := used, totalOut := output, totalFee := fee } := by
  simp only [bind_ok_iff, ok_or_eq_ok, checked_sub_some, checked_add_some, Nat.zero_add]
  exact ⟨_, ⟨rfl, bounded⟩, _, ⟨rfl, lt_of_le_of_lt bounded fits⟩, _, ⟨rfl, outputFits⟩, _,
    ⟨rfl, feeFits⟩, rfl⟩

/-- The totals after one fill on empty totals. -/
def Pricing.booked (pricing : Pricing) (amountIn : Nat) : FillTotals :=
  { remaining := amountIn - (pricing.fill amountIn).amountIn
    totalIn := (pricing.fill amountIn).amountIn
    totalOut := (pricing.fill amountIn).amountOut
    totalFee := (pricing.fill amountIn).fee }

section Booking
variable {pricing : Pricing} {amountIn : Nat}
  (priced : pricingOf bin swapForY feeOnInput parameters = some pricing) (fits : amountIn < 2 ^ 64)

include priced fits

theorem books_absorbed (some : pricing.available ≠ 0) (onInput : pricing.feeOnInput = true)
    (absorbed : net pricing.feeRate amountIn ≤ pricing.fullNeed) :
    fillBin swapForY feeOnInput pricing.feeRate bin
      { remaining := amountIn, totalIn := 0, totalOut := 0, totalFee := 0 } =
      .ok (pricing.booked amountIn) := by
  obtain ⟨rfl, rfl, _, price, offered, needed⟩ := pricing_of_some priced
  rw [price] at needed
  have excluded := excluded_fee_ok pricing.capped fits
  have rawOut := raw_out_ok pricing some absorbed
  have settled := settle_ok fits le_rfl
    (lt_of_le_of_lt (payout_le pricing some absorbed) pricing.availableFits)
    (lt_of_le_of_lt (fee_le pricing.capped amountIn) fits)
  unfold Pricing.booked fillBin
  rw [fill_absorbed pricing some onInput absorbed]
  simp only [onInput, offered, needed some, excluded, if_true, ok_bind, pure_ok]
  rw [if_neg some, min_eq_left absorbed, ← price]
  simp only [if_true]
  split
  next full =>
    rw [full, payout_full] at settled
    rw [full, payout_full]
    exact settled
  next short =>
    rw [if_neg short] at rawOut
    rw [rawOut, ok_bind]
    exact settled

theorem books_overfull (some : pricing.available ≠ 0) (onInput : pricing.feeOnInput = true)
    (beyond : ¬ net pricing.feeRate amountIn ≤ pricing.fullNeed) :
    fillBin swapForY feeOnInput pricing.feeRate bin
      { remaining := amountIn, totalIn := 0, totalOut := 0, totalFee := 0 } =
      .ok (pricing.booked amountIn) := by
  obtain ⟨rfl, rfl, _, price, offered, needed⟩ := pricing_of_some priced
  rw [price] at needed
  have excluded := excluded_fee_ok pricing.capped fits
  have grossed : gross pricing.feeRate pricing.fullNeed ≤ amountIn :=
    (gross_le_iff pricing.capped _ _).mpr (by omega)
  have included := included_fee_ok pricing.capped grossed fits
  have settled := settle_ok fits grossed pricing.availableFits
    (lt_of_le_of_lt ((Nat.sub_le _ pricing.fullNeed).trans grossed) fits)
  have apart : pricing.fullNeed ≠ net pricing.feeRate amountIn := by omega
  unfold Pricing.booked fillBin
  rw [fill_overfull pricing some onInput beyond]
  simp only [onInput, offered, needed some, excluded, if_true, ok_bind, pure_ok]
  rw [if_neg some, min_eq_right (by omega)]
  simp only [if_true]
  rw [if_neg apart, included, ok_bind]
  exact settled

theorem books_on_output (some : pricing.available ≠ 0) (onOutput : pricing.feeOnInput ≠ true) :
    fillBin swapForY feeOnInput pricing.feeRate bin
      { remaining := amountIn, totalIn := 0, totalOut := 0, totalFee := 0 } =
      .ok (pricing.booked amountIn) := by
  obtain ⟨rfl, rfl, _, price, offered, needed⟩ := pricing_of_some priced
  rw [price] at needed
  have bounded : min amountIn pricing.fullNeed ≤ pricing.fullNeed := min_le_right _ _
  have rawOut := raw_out_ok pricing some bounded
  have paid := lt_of_le_of_lt (payout_le pricing some bounded) pricing.availableFits
  have kept := net_le pricing.feeRate (pricing.payout (min amountIn pricing.fullNeed))
  have fee := fee_le pricing.capped (pricing.payout (min amountIn pricing.fullNeed))
  have settled := settle_ok fits (min_le_left amountIn pricing.fullNeed)
    (lt_of_le_of_lt kept paid) (lt_of_le_of_lt fee paid)
  have outputTax := excluded_fee_ok pricing.capped paid
  unfold Pricing.booked fillBin
  rw [fill_on_output pricing some onOutput]
  simp only [onOutput, offered, some, needed some, Bool.false_eq_true, if_false, ok_bind, pure_ok]
  rw [← price]
  split
  next full =>
    rw [full] at outputTax settled ⊢
    rw [payout_full] at outputTax settled ⊢
    rw [outputTax]
    exact settled
  next short =>
    rw [if_neg short] at rawOut
    rw [rawOut, ok_bind, outputTax]
    exact settled

theorem fill_bin_priced :
    fillBin swapForY feeOnInput pricing.feeRate bin
      { remaining := amountIn, totalIn := 0, totalOut := 0, totalFee := 0 } =
      .ok (pricing.booked amountIn) := by
  rcases fill_cases pricing amountIn with
    empty | ⟨some, onInput, absorbed⟩ | ⟨some, onInput, beyond⟩ | ⟨some, onOutput⟩
  · obtain ⟨rfl, rfl, _, _, offered, _⟩ := pricing_of_some priced
    unfold Pricing.booked fillBin
    rw [fill_empty pricing empty]
    simp [offered, empty, excluded_fee_ok pricing.capped fits]
  · exact books_absorbed priced fits some onInput absorbed
  · exact books_overfull priced fits some onInput beyond
  · exact books_on_output priced fits some onOutput

end Booking

theorem partial_priced {pricing : Pricing} {amountIn : Nat}
    (priced : pricingOf bin swapForY feeOnInput parameters = some pricing)
    (positive : 0 < amountIn) (fits : amountIn < 2 ^ 64) :
    dlmmQuoteExactInPartial amountIn [bin] swapForY feeOnInput parameters =
      .ok (pricing.fill amountIn) := by
  rw [partial_single amountIn positive, (pricing_of_some priced).2.2.1, ok_bind,
    fill_bin_priced priced fits]
  rfl

/-- An unpriced bin refuses every input, and never by claiming that it is empty. -/
theorem partial_unpriced (amountIn : Nat)
    (unpriced : pricingOf bin swapForY feeOnInput parameters = none)
    (positive : 0 < amountIn) (fits : amountIn < 2 ^ 64) :
    ∃ error, error ≠ QuoteError.insufficientLiquidity ∧
      dlmmQuoteExactInPartial amountIn [bin] swapForY feeOnInput parameters = .error error := by
  rw [partial_single amountIn positive]
  cases rate : dlmmTotalFeeRate parameters with
  | error error => exact ⟨error, fun same => fee_rate_avoids parameters (same ▸ rate), rfl⟩
  | ok feeRate =>
    have excluded := excluded_fee_ok (fee_rate_capped rate) fits
    rcases pricing_of_none unpriced with ⟨error, failed⟩ | ⟨error, failed⟩ |
      ⟨available, error, offered, some, failed⟩
    · rw [rate] at failed; cases failed
    · refine ⟨error, fun same => max_out_avoids bin swapForY (same ▸ failed), ?_⟩
      unfold fillBin
      cases feeOnInput <;> simp [excluded, failed]
    · refine ⟨error, fun same => amount_in_avoids available bin.priceQ64.toNat swapForY (same ▸ failed), ?_⟩
      unfold fillBin
      cases feeOnInput <;> simp [excluded, offered, some, failed]

end Partial

/-! The capacity of a bin is its fill of the largest word. Up to it a fill takes
everything, beyond it a fill takes the capacity, or one unit more when the fee
rounding of the input side hides that unit. -/
section Capacity
variable (pricing : Pricing)

def Pricing.capacity : QuoteResult := pricing.fill (wordMax 64)

theorem fill_input_le (amountIn : Nat) : (pricing.fill amountIn).amountIn ≤ amountIn := by
  rcases fill_cases pricing amountIn with
    empty | ⟨some, onInput, absorbed⟩ | ⟨some, onInput, beyond⟩ | ⟨some, onOutput⟩
  · rw [fill_empty pricing empty]
    exact Nat.zero_le _
  · rw [fill_absorbed pricing some onInput absorbed]
  · rw [fill_overfull pricing some onInput beyond]
    exact (gross_le_iff pricing.capped _ _).mpr (by omega)
  · rw [fill_on_output pricing some onOutput]
    exact min_le_left _ _

theorem fill_output_le (amountIn : Nat) : (pricing.fill amountIn).amountOut ≤ pricing.available := by
  rcases fill_cases pricing amountIn with
    empty | ⟨some, onInput, absorbed⟩ | ⟨some, onInput, beyond⟩ | ⟨some, onOutput⟩
  · rw [fill_empty pricing empty]
    exact Nat.zero_le _
  · rw [fill_absorbed pricing some onInput absorbed]
    exact payout_le pricing some absorbed
  · rw [fill_overfull pricing some onInput beyond]
  · rw [fill_on_output pricing some onOutput]
    exact (net_le _ _).trans (payout_le pricing some (min_le_right _ _))

theorem fill_output_mono {left right : Nat} (ordered : left ≤ right) :
    (pricing.fill left).amountOut ≤ (pricing.fill right).amountOut := by
  have grown := net_mono pricing.capped ordered
  rcases fill_cases pricing right with
    empty | ⟨some, onInput, absorbed⟩ | ⟨some, onInput, beyond⟩ | ⟨some, onOutput⟩
  · rw [fill_empty pricing empty, fill_empty pricing empty]
  · rw [fill_absorbed pricing some onInput absorbed,
      fill_absorbed pricing some onInput (grown.trans absorbed)]
    exact payout_mono pricing some grown absorbed
  · rw [fill_overfull pricing some onInput beyond]
    exact fill_output_le pricing left
  · rw [fill_on_output pricing some onOutput, fill_on_output pricing some onOutput]
    exact net_mono pricing.capped (payout_mono pricing some (by omega) (min_le_right _ _))

theorem fill_zero : (pricing.fill 0).amountOut = 0 := by
  rcases fill_cases pricing 0 with
    empty | ⟨some, onInput, absorbed⟩ | ⟨some, onInput, beyond⟩ | ⟨some, onOutput⟩
  · rw [fill_empty pricing empty]
  · rw [fill_absorbed pricing some onInput absorbed, net_zero]
    exact payout_zero pricing some
  · exact absurd (by rw [net_zero]; exact Nat.zero_le _) beyond
  · rw [fill_on_output pricing some onOutput, Nat.zero_min, payout_zero pricing some, net_zero]

theorem capacity_bounded : pricing.capacity.amountIn ≤ wordMax 64 := fill_input_le pricing _

/-- On the input side the capacity is what the whole need costs with its fee, cut at a word. -/
theorem within_absorbed {amountIn : Nat} (some : pricing.available ≠ 0)
    (onInput : pricing.feeOnInput = true) (within : amountIn ≤ pricing.capacity.amountIn) :
    net pricing.feeRate amountIn ≤ pricing.fullNeed := by
  by_cases whole : net pricing.feeRate (wordMax 64) ≤ pricing.fullNeed
  · exact (net_mono pricing.capped (within.trans (capacity_bounded pricing))).trans whole
  · unfold Pricing.capacity at within
    rw [fill_overfull pricing some onInput whole] at within
    have grown := net_mono pricing.capped within
    rwa [net_gross pricing.capped] at grown

theorem within_need (some : pricing.available ≠ 0) (onOutput : pricing.feeOnInput ≠ true) :
    pricing.capacity.amountIn ≤ pricing.fullNeed := by
  unfold Pricing.capacity
  rw [fill_on_output pricing some onOutput]
  exact min_le_right _ _

/-- Up to the capacity a bin takes the whole input. -/
theorem fill_within {amountIn : Nat} (within : amountIn ≤ pricing.capacity.amountIn) :
    (pricing.fill amountIn).amountIn = amountIn := by
  rcases fill_cases pricing amountIn with
    empty | ⟨some, onInput, absorbed⟩ | ⟨some, onInput, beyond⟩ | ⟨some, onOutput⟩
  · unfold Pricing.capacity at within
    rw [fill_empty pricing empty] at within ⊢
    exact (Nat.le_zero.mp within).symm
  · rw [fill_absorbed pricing some onInput absorbed]
  · exact absurd (within_absorbed pricing some onInput within) beyond
  · rw [fill_on_output pricing some onOutput]
    exact min_eq_left (within.trans (within_need pricing some onOutput))

/-- Beyond the capacity a bin pays its capacity and takes it, up to one absorbed unit. -/
theorem fill_beyond {amountIn : Nat} (fits : amountIn < 2 ^ 64)
    (beyond : pricing.capacity.amountIn < amountIn) :
    (pricing.fill amountIn).amountOut = pricing.capacity.amountOut ∧
    ((pricing.fill amountIn).amountIn = pricing.capacity.amountIn ∨
      amountIn = pricing.capacity.amountIn + 1 ∧ (pricing.fill amountIn).amountIn = amountIn) := by
  have bounded : amountIn ≤ wordMax 64 := by unfold wordMax; omega
  unfold Pricing.capacity at beyond ⊢
  rcases fill_cases pricing (wordMax 64) with
    empty | ⟨some, onInput, whole⟩ | ⟨some, onInput, more⟩ | ⟨some, onOutput⟩
  · simp only [fill_empty pricing empty, true_or, and_self]
  · rw [fill_absorbed pricing some onInput whole] at beyond
    exact absurd beyond (Nat.not_lt.mpr bounded)
  · rw [fill_overfull pricing some onInput more] at beyond ⊢
    by_cases absorbed : net pricing.feeRate amountIn ≤ pricing.fullNeed
    · obtain ⟨next, met⟩ := gross_hides pricing.capped beyond absorbed
      rw [fill_absorbed pricing some onInput absorbed, met, payout_full]
      exact ⟨rfl, .inr ⟨next, rfl⟩⟩
    · rw [fill_overfull pricing some onInput absorbed]
      exact ⟨rfl, .inl rfl⟩
  · rw [fill_on_output pricing some onOutput] at beyond ⊢
    rw [fill_on_output pricing some onOutput]
    change min (wordMax 64) pricing.fullNeed < amountIn at beyond
    have capped : pricing.fullNeed ≤ amountIn := by omega
    rw [min_eq_right capped, min_eq_right (capped.trans bounded)]
    exact ⟨rfl, .inl rfl⟩

theorem fill_at_capacity :
    (pricing.fill pricing.capacity.amountIn).amountOut = pricing.capacity.amountOut := by
  unfold Pricing.capacity
  rcases fill_cases pricing (wordMax 64) with
    empty | ⟨some, onInput, whole⟩ | ⟨some, onInput, more⟩ | ⟨some, onOutput⟩
  · rw [fill_empty pricing empty, fill_empty pricing empty]
  · rw [fill_absorbed pricing some onInput whole]
    exact congrArg QuoteResult.amountOut (fill_absorbed pricing some onInput whole)
  · have met := net_gross pricing.capped pricing.fullNeed
    rw [fill_overfull pricing some onInput more, fill_absorbed pricing some onInput met.le, met,
      payout_full]
  · rw [fill_on_output pricing some onOutput, fill_on_output pricing some onOutput]
    change net _ (pricing.payout (min (min _ _) _)) = net _ (pricing.payout (min _ _))
    rw [min_assoc, min_self]

theorem capacity_positive (some : pricing.available ≠ 0) : 0 < pricing.capacity.amountIn := by
  have needed := full_need_positive pricing some
  unfold Pricing.capacity
  rcases fill_cases pricing (wordMax 64) with
    empty | ⟨_, onInput, whole⟩ | ⟨_, onInput, more⟩ | ⟨_, onOutput⟩
  · exact absurd empty some
  · rw [fill_absorbed pricing some onInput whole]
    exact (by decide : 0 < wordMax 64)
  · rw [fill_overfull pricing some onInput more]
    exact lt_of_lt_of_le needed (le_gross pricing.capped _)
  · rw [fill_on_output pricing some onOutput]
    exact lt_min (by decide) needed

theorem capacity_ok {bin : Bin} {swapForY feeOnInput : Bool} {parameters : DlmmFeeParameters}
    {pricing : Pricing} (priced : pricingOf bin swapForY feeOnInput parameters = some pricing) :
    dlmmBinQuoteCapacity bin swapForY feeOnInput parameters =
      if pricing.capacity.amountIn = 0 ∨ pricing.capacity.amountOut = 0 then
        .error .insufficientLiquidity
      else .ok pricing.capacity := by
  unfold dlmmBinQuoteCapacity
  rw [partial_priced priced (by decide) (by decide), ok_bind]
  rfl

theorem capacity_unpriced {bin : Bin} {swapForY feeOnInput : Bool} {parameters : DlmmFeeParameters}
    (unpriced : pricingOf bin swapForY feeOnInput parameters = none) :
    ∃ error, error ≠ QuoteError.insufficientLiquidity ∧
      dlmmBinQuoteCapacity bin swapForY feeOnInput parameters = .error error := by
  obtain ⟨error, different, failed⟩ :=
    partial_unpriced (wordMax 64) unpriced (by decide) (by decide)
  refine ⟨error, different, ?_⟩
  unfold dlmmBinQuoteCapacity
  rw [failed]
  rfl

/-- Only an input one unit short of a whole-word capacity can already meet the
full need; anywhere else the interpolation reads the fill's own price. -/
def Pricing.Clamped (amountIn : Nat) : Prop :=
  pricing.feeOnInput = true ∧ net pricing.feeRate amountIn = pricing.fullNeed

theorem clamped_whole_word {amountIn : Nat} (clamped : pricing.Clamped amountIn)
    (some : pricing.available ≠ 0) (below : amountIn < pricing.capacity.amountIn) :
    pricing.capacity.amountIn = wordMax 64 ∧ amountIn + 1 = wordMax 64 := by
  obtain ⟨onInput, met⟩ := clamped
  unfold Pricing.capacity at below ⊢
  by_cases whole : net pricing.feeRate (wordMax 64) ≤ pricing.fullNeed
  · rw [fill_absorbed pricing some onInput whole] at below ⊢
    refine ⟨rfl, ?_⟩
    change amountIn < wordMax 64 at below
    by_contra further
    have grown := net_mono pricing.capped (show amountIn + 2 ≤ wordMax 64 by omega)
    have twice := net_two_steps pricing.capped amountIn
    omega
  · rw [fill_overfull pricing some onInput whole] at below
    change amountIn < gross _ _ at below
    have reached : gross pricing.feeRate pricing.fullNeed ≤ amountIn :=
      (gross_le_iff pricing.capped _ _).mpr met.ge
    omega

theorem output_within_capacity {amountIn : Nat} (positive : 0 < amountIn)
    (below : amountIn < pricing.capacity.amountIn) (some : pricing.available ≠ 0)
    (usable : pricing.capacity.amountOut ≠ 0) (fits : amountIn < 2 ^ 64)
    (unclamped : ¬ pricing.Clamped amountIn) :
    dlmmBinOutputWithinCapacity amountIn pricing.capacity.amountIn pricing.capacity.amountOut
      pricing.price pricing.swapForY pricing.feeOnInput pricing.feeRate =
      .ok (pricing.fill amountIn).amountOut := by
  have payable := (pricing.payable some).1
  unfold dlmmBinOutputWithinCapacity
  rw [if_neg (by omega), if_neg (by omega)]
  split
  next onInput =>
    have absorbed := within_absorbed pricing some onInput below.le
    have short : net pricing.feeRate amountIn < pricing.fullNeed :=
      lt_of_le_of_ne absorbed fun met => unclamped ⟨onInput, met⟩
    rw [fill_absorbed pricing some onInput absorbed, excluded_fee_ok pricing.capped fits, ok_bind]
    unfold Pricing.payout
    rw [if_neg short.ne]
    exact amount_out_ok payable (lt_trans (give_below pricing some short) pricing.availableFits)
  next onOutput =>
    have short : amountIn < pricing.fullNeed :=
      lt_of_lt_of_le below (within_need pricing some onOutput)
    have paid := give_below pricing some short
    rw [fill_on_output pricing some onOutput, min_eq_left short.le]
    unfold Pricing.payout
    rw [if_neg short.ne, amount_out_ok payable (lt_trans paid pricing.availableFits), ok_bind,
      excluded_fee_ok pricing.capped (lt_trans paid pricing.availableFits)]
    rfl

end Capacity

end ArbExecutor.BinPricing
