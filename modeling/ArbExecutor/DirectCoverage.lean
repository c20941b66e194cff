import ArbExecutor.CurveSoundness

/-!
The raw account traversal over growing amounts. The bins it meets do not depend
on the amount, so whatever completes for an amount completes for a smaller one.
-/

namespace ArbExecutor.DirectCoverage

open Checked QuoteMath QuoteAccounts AccountValidation BestDirection BinPricing StagedFill BinWalk
  CurveSoundness

variable (pair : LbPairState) (arrays : List AccountInfo) (bitmapExtension : Option Bytes)
  (swapForY : Bool) (timestamp : Int64)

/-- Coverage is downward closed, and less input pays no more and uses no further arrays. -/
theorem direct_quote_monotone (fewer more : UInt64) (ordered : fewer ≤ more) (greater : AccountDataQuote)
    (quoted : quoteDlmmFromAccounts more.toNat pair arrays bitmapExtension swapForY timestamp =
      .ok greater) :
    ∃ less, quoteDlmmFromAccounts fewer.toNat pair arrays bitmapExtension swapForY timestamp = .ok less ∧
      less.amountOut ≤ greater.amountOut ∧ less.usedIndices <+: greater.usedIndices := by
  obtain ⟨result, walked, ran, small⟩ :=
    (direct_quote_ok pair arrays bitmapExtension swapForY timestamp _ more.toNat_lt greater).mp quoted
  obtain ⟨onInput, supports, _, _, rfl⟩ := (direction_walk_ok _ _ _ _ _ _).mp walked
  have pairwise := (walk_ordered pair arrays bitmapExtension swapForY onInput supports
    (updateReference pair.activeId pair.variableParameters pair.staticParameters timestamp)
    maxQuoteVisitedBinsPerDirection pair.activeId.toInt []).2
  obtain ⟨earlier, finished, bounded, reached⟩ := replay_mono (· <+: ·) (fun _ => List.prefix_rfl)
    (stages _) [] (List.pairwise_map.mpr pairwise) (fun _ _ => List.nil_prefix) ordered _ ran
  have fits := lt_of_le_of_lt bounded small
  exact ⟨{ amountOut := earlier.1, usedIndices := earlier.2 },
    (direct_quote_ok pair arrays bitmapExtension swapForY timestamp _ fewer.toNat_lt _).mpr
      ⟨_, walked, finished, fits⟩, bounded, reached⟩

theorem direct_quote_monotone_dust :
    ∃ greater less, quoteDlmmFromAccounts 10 dustPair [dustArray] none true 0 = .ok greater ∧
      quoteDlmmFromAccounts 4 dustPair [dustArray] none true 0 = .ok less ∧
      less.amountOut ≤ greater.amountOut := by
  obtain ⟨greater, quoted, _⟩ := Option.map_eq_some_iff.mp dust_quotes.2
  have quoted := (to_option_some _ _).mp quoted
  obtain ⟨less, finished, bounded, _⟩ :=
    direct_quote_monotone dustPair [dustArray] none true 0 4 10 (by decide) greater quoted
  exact ⟨greater, less, quoted, finished, bounded⟩

end ArbExecutor.DirectCoverage
