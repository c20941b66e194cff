import ArbExecutor.BinArrayLayout
import ArbExecutor.BinWalk
import ArbExecutor.CurveSoundness
import ArbExecutor.ListChoice

/-!
What the supplied BinArray list may look like. Validation makes the embedded
indices pairwise distinct, so that a first-match lookup does not depend on the
order of the list and is unchanged by further accounts. Both selectors and the
account ordering read the list through that lookup alone.
-/

namespace ArbExecutor.SuppliedArrays

open Checked QuoteMath QuoteAccounts AccountValidation BestDirection DynamicAmount BinPricing
  StagedFill BinWalk ListChoice BinArrayLayout CurveSoundness

section Validation

def embeddedIndex (account : AccountInfo) : Option Int := (parseBinArrayIndex account.data).toOption

theorem bin_array_index_field_ok (data : Bytes) (index : Int) :
    binArrayIndexField data = .ok index ↔ parseBinArrayIndex data = .ok index :=
  map_error_ok_iff _ _ _

theorem require_fresh_ok (index : Int) (earlier : List AccountInfo)
    (fresh : requireFreshIndex index earlier = .ok ()) :
    ∀ account ∈ earlier, embeddedIndex account ≠ some index := by
  induction earlier with
  | nil => exact fun _ member => absurd member List.not_mem_nil
  | cons head rest ih =>
      unfold requireFreshIndex at fresh
      simp only [bind_ok_iff, bin_array_index_field_ok, require_ok, decide_eq_true_eq] at fresh
      obtain ⟨other, parsed, _, different, later⟩ := fresh
      intro account member
      rcases List.mem_cons.mp member with rfl | later'
      · unfold embeddedIndex
        rw [parsed]
        exact fun same => different (Option.some.inj same).symm
      · exact ih later account later'

/-- The quadratic check keeps the indices read so far pairwise distinct. -/
theorem validate_from_distinct (lbPair : Pubkey) (earlier accounts : List AccountInfo)
    (distinct : Distinct embeddedIndex earlier)
    (accepted : validateBinArraysFrom lbPair earlier accounts = .ok ()) :
    Distinct embeddedIndex (earlier ++ accounts) := by
  induction accounts generalizing earlier with
  | nil => rwa [List.append_nil]
  | cons account rest ih =>
      unfold validateBinArraysFrom at accepted
      simp only [bind_ok_iff, require_ok, bin_array_index_field_ok] at accepted
      obtain ⟨_, _, _, _, _, _, index, parsed, _, fresh, later⟩ := accepted
      have own : embeddedIndex account = some index := by
        unfold embeddedIndex
        rw [parsed]
        rfl
      have extended : Distinct embeddedIndex (earlier ++ [account]) := by
        unfold Distinct at distinct ⊢
        rw [List.map_append, List.map_singleton, List.nodup_append]
        refine ⟨distinct, List.nodup_singleton _, ?_⟩
        intro left inEarlier right single same
        obtain ⟨other, member, rfl⟩ := List.mem_map.mp inEarlier
        have single := List.mem_singleton.mp single
        exact require_fresh_ok index earlier fresh other member (same.trans (single.trans own))
      have chained := ih _ extended later
      rwa [List.append_assoc, List.singleton_append] at chained

theorem validated_distinct (accounts : List AccountInfo) (lbPair : Pubkey)
    (accepted : validateBinArrays accounts lbPair = .ok ()) : Distinct embeddedIndex accounts := by
  unfold validateBinArrays at accepted
  obtain ⟨_, _, later⟩ := (bind_ok_iff _ _ _).mp accepted
  exact validate_from_distinct lbPair [] accounts List.nodup_nil later

end Validation

/-! Two lists with the same lookups are indistinguishable to everything that
reads them. -/
section SameLookups
variable {left right : List AccountInfo}
  (same : ∀ arrayIndex, findBinArray left arrayIndex = findBinArray right arrayIndex)

include same

theorem account_bins_same (pair : LbPairState) (bitmapExtension : Option Bytes)
    (swapForY feeOnInput supportsLimitOrders : Bool) (visits : Nat) (state : AccountTraversal) :
    quoteAccountBins pair left bitmapExtension swapForY feeOnInput supportsLimitOrders visits state =
      quoteAccountBins pair right bitmapExtension swapForY feeOnInput supportsLimitOrders visits
        state := by
  induction visits generalizing state with
  | zero => rfl
  | succ visits ih =>
      unfold quoteAccountBins
      simp only [same, ih]

theorem direct_quote_same (amountIn : Nat) (pair : LbPairState) (bitmapExtension : Option Bytes)
    (swapForY : Bool) (timestamp : Int64) :
    quoteDlmmFromAccounts amountIn pair left bitmapExtension swapForY timestamp =
      quoteDlmmFromAccounts amountIn pair right bitmapExtension swapForY timestamp := by
  unfold quoteDlmmFromAccounts
  simp only [account_bins_same same]

theorem curve_bins_same (pair : LbPairState) (bitmapExtension : Option Bytes)
    (swapForY feeOnInput supportsLimitOrders : Bool) (inputLimit visits : Nat)
    (state : CurveTraversal) :
    buildCurveBins pair left bitmapExtension swapForY feeOnInput supportsLimitOrders inputLimit visits
        state =
      buildCurveBins pair right bitmapExtension swapForY feeOnInput supportsLimitOrders inputLimit
        visits state := by
  induction visits generalizing state with
  | zero => rfl
  | succ visits ih =>
      unfold buildCurveBins
      simp only [same, ih]

theorem build_curve_same (pair : LbPairState) (bitmapExtension : Option Bytes) (swapForY : Bool)
    (timestamp : Int64) (inputLimit : Nat) :
    buildCurve pair left bitmapExtension swapForY timestamp inputLimit =
      buildCurve pair right bitmapExtension swapForY timestamp inputLimit := by
  unfold buildCurve
  simp only [curve_bins_same same]

theorem select_direction_same (market : MarketState) (cashbackSellIsReady : Bool)
    (bitmapExtension : Option Bytes) (amountIn minProfit : Nat) (timestamp : Int64) :
    selectDirection market cashbackSellIsReady left bitmapExtension amountIn minProfit timestamp =
      selectDirection market cashbackSellIsReady right bitmapExtension amountIn minProfit
        timestamp := by
  unfold selectDirection forwardQuote reverseQuote
  simp only [direct_quote_same same]

theorem select_dynamic_same (bitmapExtension : Option Bytes) (timestamp : Int64)
    (market : MarketState) (cashbackSellIsReady : Bool) (minAmount maxAmount minProfit : Nat) :
    selectDynamic left bitmapExtension timestamp market cashbackSellIsReady minAmount maxAmount
        minProfit =
      selectDynamic right bitmapExtension timestamp market cashbackSellIsReady minAmount maxAmount
        minProfit := by
  unfold selectDynamic probeForwardDirection probeReverseDirection searchForwardDirection
    searchReverseDirection
  simp only [build_curve_same same]

theorem ordered_arrays_same (indices : List Int) :
    orderedBinArrays left indices = orderedBinArrays right indices := by
  unfold orderedBinArrays
  simp only [same]

end SameLookups

section Superset
variable {fewer more : List AccountInfo}
  (extends_ : ∀ arrayIndex account, findBinArray fewer arrayIndex = some account →
    findBinArray more arrayIndex = some account)

include extends_

/-- More accounts only let a walk go on where it ran out of them. -/
theorem walk_extends (pair : LbPairState) (bitmapExtension : Option Bytes)
    (swapForY feeOnInput supportsLimitOrders : Bool) (reference : DlmmVariableParameters)
    (visits : Nat) (binId : Int) (used : List Int) :
    (walk pair fewer bitmapExtension swapForY feeOnInput supportsLimitOrders reference visits binId
        used).bins <+:
      (walk pair more bitmapExtension swapForY feeOnInput supportsLimitOrders reference visits binId
        used).bins := by
  induction visits generalizing binId used with
  | zero => exact List.prefix_rfl
  | succ visits ih =>
      unfold walk
      cases arrayInitialized pair bitmapExtension (binArrayIndex binId) with
      | error error => exact List.prefix_rfl
      | ok present =>
      cases present with
      | false => exact ih _ _
      | true =>
      cases located : findBinArray fewer (binArrayIndex binId) with
      | none => exact List.nil_prefix
      | some account =>
      -- An array found among fewer accounts is the one found among more.
      simp only [extends_ _ _ located]
      cases enterArray used (binArrayIndex binId) with
      | none => exact List.prefix_rfl
      | some next =>
      cases readBin pair swapForY feeOnInput supportsLimitOrders reference account binId with
      | none => exact List.prefix_rfl
      | some pricing => exact List.cons_prefix_cons.mpr ⟨rfl, ih _ _⟩

theorem direct_quote_extends (amountIn : UInt64) (pair : LbPairState)
    (bitmapExtension : Option Bytes) (swapForY : Bool) (timestamp : Int64) (quote : AccountDataQuote)
    (completed : quoteDlmmFromAccounts amountIn.toNat pair fewer bitmapExtension swapForY timestamp =
      .ok quote) :
    quoteDlmmFromAccounts amountIn.toNat pair more bitmapExtension swapForY timestamp = .ok quote := by
  obtain ⟨_, walked, replayed, fits⟩ :=
    (direct_quote_ok _ _ _ _ _ _ amountIn.toNat_lt quote).mp completed
  obtain ⟨onInput, supports, first, second, rfl⟩ := (direction_walk_ok _ _ _ _ _ _).mp walked
  refine (direct_quote_ok _ _ _ _ _ _ amountIn.toNat_lt quote).mpr
    ⟨_, (direction_walk_ok _ _ _ _ _ _).mpr ⟨onInput, supports, first, second, rfl⟩, ?_, fits⟩
  obtain ⟨rest, split⟩ := walk_extends extends_ pair bitmapExtension swapForY onInput supports
    (updateReference pair.activeId pair.variableParameters pair.staticParameters timestamp)
    maxQuoteVisitedBinsPerDirection pair.activeId.toInt []
  have extended := replay_append _ (stages rest) _ _ _ replayed
  unfold stages at extended ⊢
  rwa [← List.map_append, split] at extended

end Superset

/-- Accepted lists may be reordered without any effect on either selector or on
the ordered accounts, and enlarged without losing a completed quote. -/
theorem supplied_arrays_neutral (lbPair : Pubkey) (left right : List AccountInfo)
    (leftAccepted : validateBinArrays left lbPair = .ok ())
    (rightAccepted : validateBinArrays right lbPair = .ok ()) :
    (left.Perm right →
      (∀ market cashbackSellIsReady bitmapExtension amountIn minProfit timestamp,
        selectDirection market cashbackSellIsReady left bitmapExtension amountIn minProfit timestamp =
          selectDirection market cashbackSellIsReady right bitmapExtension amountIn minProfit
            timestamp) ∧
      (∀ bitmapExtension timestamp market cashbackSellIsReady minAmount maxAmount minProfit,
        selectDynamic left bitmapExtension timestamp market cashbackSellIsReady minAmount maxAmount
            minProfit =
          selectDynamic right bitmapExtension timestamp market cashbackSellIsReady minAmount maxAmount
            minProfit) ∧
      ∀ indices, orderedBinArrays left indices = orderedBinArrays right indices) ∧
    (left ⊆ right → ∀ (amountIn : UInt64) pair bitmapExtension swapForY timestamp quote,
      quoteDlmmFromAccounts amountIn.toNat pair left bitmapExtension swapForY timestamp = .ok quote →
      quoteDlmmFromAccounts amountIn.toNat pair right bitmapExtension swapForY timestamp =
        .ok quote) := by
  have distinctLeft := validated_distinct left lbPair leftAccepted
  have distinctRight := validated_distinct right lbPair rightAccepted
  constructor
  · intro perm
    have same (arrayIndex : Int) : findBinArray left arrayIndex = findBinArray right arrayIndex :=
      first_match_perm distinctLeft perm (some arrayIndex)
    exact ⟨select_direction_same same, select_dynamic_same same, ordered_arrays_same same⟩
  · intro subset amountIn pair bitmapExtension swapForY timestamp quote
    have grown (arrayIndex : Int) (account : AccountInfo)
        (found : findBinArray left arrayIndex = some account) :
        findBinArray right arrayIndex = some account :=
      first_match_subset distinctLeft distinctRight subset found
    exact direct_quote_extends grown amountIn pair bitmapExtension swapForY timestamp quote

section TwoArrays

def lowArray : AccountInfo := binArrayAccount meteoraDlmmProgramId meteoraDlmmProgramId (-1) []

/-- The dust market's array and an empty one below it, in both orders and with and
without the empty one. -/
theorem supplied_arrays_neutral_two :
    validateBinArrays [lowArray, dustArray] meteoraDlmmProgramId = .ok () ∧
    (∀ market, selectDirection market true [lowArray, dustArray] none 5 1 0 =
      selectDirection market true [dustArray, lowArray] none 5 1 0) ∧
    ∃ quote, quote.amountOut = 8 ∧
      quoteDlmmFromAccounts 10 dustPair [dustArray] none true 0 = .ok quote ∧
      quoteDlmmFromAccounts 10 dustPair [lowArray, dustArray] none true 0 = .ok quote := by
  have both : validateBinArrays [lowArray, dustArray] meteoraDlmmProgramId = .ok () := by
    decide +kernel
  have swapped : validateBinArrays [dustArray, lowArray] meteoraDlmmProgramId = .ok () := by
    decide +kernel
  have alone : validateBinArrays [dustArray] meteoraDlmmProgramId = .ok () := by decide +kernel
  obtain ⟨quote, replayed, paid⟩ := Option.map_eq_some_iff.mp dust_quotes.2
  have quoted : quoteDlmmFromAccounts 10 dustPair [dustArray] none true 0 = .ok quote :=
    (to_option_some _ _).mp replayed
  have unordered := (supplied_arrays_neutral meteoraDlmmProgramId _ _ both swapped).1
    (List.Perm.swap dustArray lowArray [])
  have grown := (supplied_arrays_neutral meteoraDlmmProgramId _ _ alone both).2
    (List.subset_cons_self lowArray [dustArray]) 10 dustPair none true 0 quote quoted
  exact ⟨both, fun market => unordered.1 market true none 5 1 0, quote, congrArg Prod.fst paid,
    quoted, grown⟩

end TwoArrays

end ArbExecutor.SuppliedArrays
