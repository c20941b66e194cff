import ArbExecutor.ListChoice
import ArbExecutor.QuoteAccounts

/-!
The two ways from the bytes of a FeeConfig to the fees of a pool: parse every
tier and select, or walk the raw offsets and decode only what qualifies. On bytes
that parse they agree in every case, and a Pump pool gets the last tier in file
order that its market cap reaches.
-/

namespace ArbExecutor.PumpFeeTiers

open Checked QuoteMath QuoteAccounts ListChoice

section Walk
variable (data : Bytes) (marketCap : Nat)

/-- One step of the streaming walk. -/
def walkTier (selected : PumpFees) (tierIndex : Nat) : Except QuoteError PumpFees := do
  let relative ← okOr (checkedMul 64 tierIndex 40) .mathOverflow
  let offset ← okOr (checkedAdd 64 tiersOffset relative) .mathOverflow
  let threshold ← readU128 data offset
  if threshold.toNat ≤ marketCap then parseFees data (offset + 16) else pure selected

/-- A tier that the market cap reaches replaces the one selected so far. -/
def keepTier (selected : PumpFees) (tier : PumpFeeTier) : PumpFees :=
  if tier.marketCapThreshold.toNat ≤ marketCap then tier.fees else selected

theorem parse_tiers_cons {offset count : Nat} {tiers : List PumpFeeTier}
    (parsed : parseTiers data offset (count + 1) = .ok tiers) :
    ∃ tier rest, tiers = tier :: rest ∧ readU128 data offset = .ok tier.marketCapThreshold ∧
      parseFees data (offset + 16) = .ok tier.fees ∧ parseTiers data (offset + 40) count = .ok rest := by
  simp only [parseTiers, bind_ok_iff, ok_or_eq_ok, checked_add_some] at parsed
  obtain ⟨threshold, read, fees, priced, _, ⟨rfl, _⟩, rest, parsed, same⟩ := parsed
  cases same
  exact ⟨{ marketCapThreshold := threshold, fees }, rest, rfl, read, priced, parsed⟩

theorem walk_tier_ok {tierIndex : Nat} {tier : PumpFeeTier} (small : tierIndex < 2 ^ 32)
    (read : readU128 data (tiersOffset + tierIndex * 40) = .ok tier.marketCapThreshold)
    (priced : parseFees data (tiersOffset + tierIndex * 40 + 16) = .ok tier.fees)
    (selected : PumpFees) :
    walkTier data marketCap selected tierIndex = .ok (keepTier marketCap selected tier) := by
  have offset : tiersOffset = 69 := rfl
  unfold walkTier keepTier
  rw [checked_mul_fits (by omega), ok_or_some, ok_bind, checked_add_fits (by omega), ok_or_some,
    ok_bind, read, ok_bind]
  split
  · exact priced
  · rfl

/-- The walk from any tier on keeps what folding the parsed tiers keeps. -/
theorem walk_tiers_ok (start count : Nat) (tiers : List PumpFeeTier) (small : start + count < 2 ^ 32)
    (parsed : parseTiers data (tiersOffset + start * 40) count = .ok tiers) (selected : PumpFees) :
    (List.range' start count).foldlM (walkTier data marketCap) selected =
      .ok (tiers.foldl (keepTier marketCap) selected) := by
  induction count generalizing start tiers selected with
  | zero =>
      cases parsed
      rfl
  | succ count ih =>
      obtain ⟨tier, rest, rfl, read, priced, parsedRest⟩ := parse_tiers_cons data parsed
      rw [List.range'_succ, List.foldlM_cons, List.foldl_cons,
        walk_tier_ok data marketCap (by omega) read priced, ok_bind]
      exact ih (start + 1) rest (by omega) (by rw [← parsedRest]; congr 1; omega) _

end Walk

variable {data : Bytes} {config : PumpFeeConfig}

/-- Bytes that parse hold at least one tier and all fees. -/
theorem fee_config_some (parsed : parsePumpFeeConfig data = .ok config) :
    ∃ tierCount, readU32 data (flatOffset + 24) = .ok tierCount ∧
      tierCountFits data tierCount.toNat = true ∧
      parseTiers data tiersOffset tierCount.toNat = .ok config.tiers ∧
      parseFees data flatOffset = .ok config.flatFees := by
  unfold parsePumpFeeConfig at parsed
  obtain ⟨tierCount, read, parsed⟩ := (bind_ok_iff _ _ _).mp parsed
  split at parsed
  · cases parsed
  next fits =>
    simp only [bind_ok_iff] at parsed
    obtain ⟨tiers, tiersParsed, flatFees, flatParsed, same⟩ := parsed
    cases same
    exact ⟨tierCount, read, by simpa using fits, tiersParsed, flatParsed⟩

/-- On bytes that parse, the streaming selection is the selection from the parsed configuration. -/
theorem streaming_agrees (parsed : parsePumpFeeConfig data = .ok config) (globalFees : PumpFees)
    (isPumpPool : Bool) (mintSupply baseReserve effectiveQuoteReserve : Nat) :
    selectPumpFeesFromData data globalFees isPumpPool mintSupply baseReserve effectiveQuoteReserve =
      selectPumpFees (some config) globalFees isPumpPool mintSupply baseReserve
        effectiveQuoteReserve := by
  obtain ⟨tierCount, read, fits, tiersParsed, flatParsed⟩ := fee_config_some parsed
  unfold selectPumpFeesFromData selectPumpFees
  rw [flatParsed, ok_bind, read]
  cases isPumpPool with
  | false => rfl
  | true =>
      obtain ⟨nonzero, _, small⟩ : tierCount.toNat ≠ 0 ∧ _ ∧ tierCount.toNat ≤ 64 := by
        simpa [tierCountFits] using fits
      -- A parsed configuration has a tier, so both selections start from the fees of the first one.
      obtain ⟨more, counted⟩ := Nat.exists_eq_succ_of_ne_zero nonzero
      rw [counted] at tiersParsed
      obtain ⟨first, rest, tiers, _, priced, _⟩ := parse_tiers_cons data tiersParsed
      simp only [Bool.not_true, Bool.false_eq_true, if_false, ok_bind, fits]
      rw [tiers]
      dsimp only
      split
      · rfl
      · refine congrArg _ (funext fun product => ?_)
        have walked := walk_tiers_ok data (product / baseReserve) 0 tierCount.toNat config.tiers (by omega)
          (by rw [counted]; exact tiersParsed) first.fees
        rw [← List.range_eq_range', tiers] at walked
        rw [priced, ok_bind]
        exact walked

/-- The selection from a configuration is the last tier the market cap reaches, or else the first. -/
theorem selection_last_tier {globalFees fees : PumpFees} {mintSupply baseReserve effectiveQuoteReserve : Nat}
    (selected : selectPumpFees (some config) globalFees true mintSupply baseReserve
      effectiveQuoteReserve = .ok fees) :
    let marketCap := effectiveQuoteReserve * mintSupply / baseReserve
    (∃ before tier after, config.tiers = before ++ tier :: after ∧
        tier.marketCapThreshold.toNat ≤ marketCap ∧
        (∀ later ∈ after, marketCap < later.marketCapThreshold.toNat) ∧ fees = tier.fees) ∨
      (∀ tier ∈ config.tiers, marketCap < tier.marketCapThreshold.toNat) ∧
        ∃ first rest, config.tiers = first :: rest ∧ fees = first.fees := by
  intro marketCap
  unfold selectPumpFees at selected
  simp only [Bool.not_true, Bool.false_eq_true, if_false] at selected
  split at selected
  · cases selected
  next first rest tiers =>
    split at selected
    · cases selected
    · simp only [bind_ok_iff, ok_or_eq_ok, checked_mul_some] at selected
      obtain ⟨_, ⟨rfl, _⟩, same⟩ := selected
      cases same
      rw [tiers]
      simp only [← Nat.not_le]
      rcases fold_last_match (fun tier : PumpFeeTier => tier.marketCapThreshold.toNat ≤ marketCap)
        PumpFeeTier.fees (first :: rest) first.fees with
        ⟨before, tier, after, split, reached, last, kept⟩ | ⟨none, kept⟩
      · exact .inl ⟨before, tier, after, split, reached, last, kept⟩
      · exact .inr ⟨none, first, rest, rfl, kept⟩

/-- Streaming is parsing and selecting, and on a Pump pool it is the last tier reached. -/
theorem streaming_selection (parsed : parsePumpFeeConfig data = .ok config) (globalFees : PumpFees)
    (isPumpPool : Bool) (mintSupply baseReserve effectiveQuoteReserve : UInt64) :
    selectPumpFeesFromData data globalFees isPumpPool mintSupply.toNat baseReserve.toNat
        effectiveQuoteReserve.toNat =
      selectPumpFees (some config) globalFees isPumpPool mintSupply.toNat baseReserve.toNat
        effectiveQuoteReserve.toNat ∧
    (isPumpPool = true → ∀ fees,
      selectPumpFeesFromData data globalFees isPumpPool mintSupply.toNat baseReserve.toNat
        effectiveQuoteReserve.toNat = .ok fees →
      let marketCap := effectiveQuoteReserve.toNat * mintSupply.toNat / baseReserve.toNat
      (∃ before tier after, config.tiers = before ++ tier :: after ∧
          tier.marketCapThreshold.toNat ≤ marketCap ∧
          (∀ later ∈ after, marketCap < later.marketCapThreshold.toNat) ∧ fees = tier.fees) ∨
        (∀ tier ∈ config.tiers, marketCap < tier.marketCapThreshold.toNat) ∧
          ∃ first rest, config.tiers = first :: rest ∧ fees = first.fees) := by
  have agrees := streaming_agrees parsed globalFees isPumpPool mintSupply.toNat baseReserve.toNat
    effectiveQuoteReserve.toNat
  refine ⟨agrees, ?_⟩
  rintro rfl fees streamed
  rw [agrees] at streamed
  exact selection_last_tier streamed

/-- Two tiers out of order: the one that starts lower comes last. -/
def unsortedFeeData : Bytes :=
  List.replicate 65 0 ++ [2, 0, 0, 0] ++
    (5 :: List.replicate 15 0) ++ (20 :: List.replicate 7 0) ++ (5 :: List.replicate 7 0) ++
      (5 :: List.replicate 7 0) ++
    (3 :: List.replicate 15 0) ++ (30 :: List.replicate 7 0) ++ (7 :: List.replicate 7 0) ++
      (7 :: List.replicate 7 0)

def noFees : PumpFees := { lpFeeBps := 0, protocolFeeBps := 0, creatorFeeBps := 0 }

def unsortedFeeConfig : PumpFeeConfig where
  flatFees := noFees
  tiers :=
    [{ marketCapThreshold := 5, fees := { lpFeeBps := 20, protocolFeeBps := 5, creatorFeeBps := 5 } },
      { marketCapThreshold := 3, fees := { lpFeeBps := 30, protocolFeeBps := 7, creatorFeeBps := 7 } }]

set_option maxRecDepth 4000 in
theorem unsorted_parses : parsePumpFeeConfig unsortedFeeData = .ok unsortedFeeConfig := by decide

theorem streaming_selection_unsorted :
    selectPumpFeesFromData unsortedFeeData noFees true (6 : UInt64).toNat (1 : UInt64).toNat
        (1 : UInt64).toNat =
      selectPumpFees (some unsortedFeeConfig) noFees true (6 : UInt64).toNat (1 : UInt64).toNat
        (1 : UInt64).toNat :=
  (streaming_selection unsorted_parses noFees true 6 1 1).1

end ArbExecutor.PumpFeeTiers
