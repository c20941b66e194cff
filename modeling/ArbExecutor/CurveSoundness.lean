import ArbExecutor.BinDefects
import ArbExecutor.BinArrayLayout
import Mathlib.Data.BitVec

/-!
The compact curve against the direct traversal. Every amount a curve quotes is
completed by the direct traversal with the same output exactly when the bins
the curve was built from are sound stages: no bin that takes input for nothing
before a bin with capacity, no absorbed unit that the next bin would pay for,
and no bin whose interpolation overstates its own fill.
-/

namespace ArbExecutor.CurveSoundness

open Checked QuoteMath QuoteAccounts AccountValidation BestDirection DynamicAmount BinPricing
  StagedFill BinWalk CurveMeasure BinDefects BinArrayLayout

section Order

theorem enter_array_extends {used next : List Int} {arrayIndex : Int}
    (entered : enterArray used arrayIndex = some next) : used <+: next := by
  unfold enterArray at entered
  split at entered
  · cases entered; exact List.prefix_rfl
  · split at entered
    · cases entered
    · cases entered; exact List.prefix_append _ _

variable (pair : LbPairState) (arrays : List AccountInfo) (bitmapExtension : Option Bytes)
  (swapForY feeOnInput supportsLimitOrders : Bool) (reference : DlmmVariableParameters)

/-- The used arrays only grow along a walk. -/
theorem walk_ordered (visits : Nat) (binId : Int) (used : List Int) :
    (∀ bin ∈ (walk pair arrays bitmapExtension swapForY feeOnInput supportsLimitOrders reference
        visits binId used).bins, used <+: bin.usedIndices) ∧
    (walk pair arrays bitmapExtension swapForY feeOnInput supportsLimitOrders reference
        visits binId used).bins.Pairwise fun left right => left.usedIndices <+: right.usedIndices := by
  induction visits generalizing binId used with
  | zero => exact ⟨fun _ member => absurd member List.not_mem_nil, List.Pairwise.nil⟩
  | succ visits ih =>
      unfold walk
      split
      · exact ⟨fun _ member => absurd member List.not_mem_nil, List.Pairwise.nil⟩
      · exact ih _ used
      · split
        · exact ⟨fun _ member => absurd member List.not_mem_nil, List.Pairwise.nil⟩
        · split
          · exact ⟨fun _ member => absurd member List.not_mem_nil, List.Pairwise.nil⟩
          next next entered =>
            split
            · exact ⟨fun _ member => absurd member List.not_mem_nil, List.Pairwise.nil⟩
            next pricing read =>
              obtain ⟨above, pairwise⟩ := ih (nextBin binId swapForY) next
              have grown := enter_array_extends entered
              refine ⟨fun bin member => ?_, List.pairwise_cons.mpr ⟨above, pairwise⟩⟩
              rcases List.mem_cons.mp member with rfl | later
              · exact grown
              · exact grown.trans (above bin later)

end Order

section Fits

theorem capacity_out_fits (pricing : Pricing) : pricing.capacity.amountOut < 2 ^ 64 :=
  lt_of_le_of_lt (fill_output_le pricing _) pricing.availableFits

/-- Only a bin whose capacity is a whole word can overstate its own fill. -/
theorem interior_bounded {pricing : Pricing} {input value : Nat} (usable : (stage pricing).Usable)
    (positive : 0 < input) (within : input ≤ pricing.capacity.amountIn)
    (read : (stage pricing).interior input = some value) :
    value < 2 ^ 64 ∧
      (pricing.capacity.amountIn < wordMax 64 → value ≤ pricing.capacity.amountOut) := by
  have fits := capacity_out_fits pricing
  rcases Nat.lt_or_eq_of_le within with below | full
  · have quoted := (to_option_some _ _).mp read
    rcases interior_below positive usable.2 below with exact | ⟨clamped, interpolated⟩
    · rw [exact] at quoted
      cases quoted
      have bounded := fill_output_mono pricing (within.trans (capacity_bounded pricing))
      exact ⟨lt_of_le_of_lt bounded fits, fun _ => bounded⟩
    · have some : pricing.available ≠ 0 := fun empty => usable.2 (by
        change (pricing.fill _).amountOut = 0
        rw [fill_empty pricing empty])
      have whole := (clamped_whole_word pricing clamped some below).1
      rw [interpolated] at quoted
      exact ⟨amount_out_fits quoted, fun short => by omega⟩
  · rw [full, show pricing.capacity.amountIn = (stage pricing).capacity from rfl,
      (stage pricing).interior_full usable.1 usable.2] at read
    cases read
    exact ⟨fits, fun _ => le_rfl⟩

/-- Whatever measured stages quote stays within the words the curve adds up in. -/
theorem measured_fits (limit : Nat) (readable : Bool) (totalIn totalOut : Nat)
    (bins : List PricedBin) (segments : List DlmmSegment)
    (complete : measure limit readable totalIn totalOut bins = .ok segments)
    (started : totalIn = 0 → totalOut = 0) (input value : Nat) (label : List Int) (positive : 0 < input)
    (found : lookup (measured limit totalIn (stages bins)) input = some (value, label)) :
    totalOut + value < 2 ^ 64 ∧ totalIn + input < 2 ^ 64 := by
  induction bins generalizing totalIn totalOut segments input value with
  | nil => cases found
  | cons bin rest ih =>
      rw [measure_cons_ok] at complete
      rw [measured_cons] at found
      by_cases usable : (stage bin.pricing).Usable
      · rw [if_pos usable] at found
        obtain ⟨_, inFits, outFits, later⟩ | ⟨unusable, _⟩ := complete
        · by_cases within : input ≤ bin.pricing.capacity.amountIn
          · have quoted : ((stage bin.pricing).interior input).map (fun value => (value, bin.usedIndices)) =
                some (value, label) := by
              split at found
              · rwa [lookup_inside _ _ _ usable within] at found
              · rwa [lookup_inside _ _ _ usable within] at found
            obtain ⟨_, read, same⟩ := Option.map_eq_some_iff.mp quoted
            rw [Prod.mk.injEq] at same
            obtain ⟨rfl, _⟩ := same
            obtain ⟨small, bounded⟩ := interior_bounded usable positive within read
            refine ⟨?_, by omega⟩
            -- Past the first segment the input is below the largest word: a bin pays at most its capacity.
            by_cases first : totalIn = 0
            · rw [started first, Nat.zero_add]
              exact small
            · have less := bounded (by unfold wordMax; omega)
              omega
          · rcases later with ⟨reached, _⟩ | ⟨short, more, measured, _⟩
            · rw [if_pos reached, lookup_outside _ _ _ usable (Nat.lt_of_not_le within)] at found
              cases found
            · rw [if_neg (by omega), lookup_outside _ _ _ usable (Nat.lt_of_not_le within)] at found
              obtain ⟨⟨inner, _⟩, deeper, same⟩ := Option.map_eq_some_iff.mp found
              rw [Prod.mk.injEq] at same
              obtain ⟨rfl, rfl⟩ := same
              have nonzero : bin.pricing.capacity.amountIn ≠ 0 := usable.1
              have next := ih _ _ _ measured (by omega) (input - bin.pricing.capacity.amountIn) inner
                (by omega) deeper
              have total : (stage bin.pricing).reward + inner = bin.pricing.capacity.amountOut + inner := rfl
              rw [total]
              omega
        · exact absurd usable unusable
      · rw [if_neg usable, lookup_skip _ _ _ usable] at found
        obtain ⟨both, _⟩ | ⟨_, measured⟩ := complete
        · exact absurd both usable
        · exact ih _ _ _ measured started input value positive found

end Fits

/-- The bins of one direction's walk; none when the pair's modes are unknown. -/
def directionBins (pair : LbPairState) (arrays : List AccountInfo) (bitmapExtension : Option Bytes)
    (swapForY : Bool) (timestamp : Int64) : List PricedBin :=
  match directionWalk pair arrays bitmapExtension swapForY timestamp with
  | .ok result => result.bins
  | .error _ => []

/-- The same bins as stages. -/
def directionStages (pair : LbPairState) (arrays : List AccountInfo)
    (bitmapExtension : Option Bytes) (swapForY : Bool) (timestamp : Int64) :
    List (Stage × List Int) :=
  stages (directionBins pair arrays bitmapExtension swapForY timestamp)

section Soundness
variable (pair : LbPairState) (arrays : List AccountInfo) (bitmapExtension : Option Bytes)
  (swapForY : Bool) (timestamp : Int64)

theorem direction_bins_walked {result : Walk}
    (walked : directionWalk pair arrays bitmapExtension swapForY timestamp = .ok result) :
    directionBins pair arrays bitmapExtension swapForY timestamp = result.bins := by
  unfold directionBins
  rw [walked]

theorem direction_ordered :
    (directionStages pair arrays bitmapExtension swapForY timestamp).Pairwise
      fun left right => left.2 <+: right.2 := by
  unfold directionStages directionBins
  split
  next result walked =>
    obtain ⟨onInput, supports, _, _, rfl⟩ := (direction_walk_ok _ _ _ _ _ _).mp walked
    unfold stages
    rw [List.pairwise_map]
    exact (walk_ordered _ _ _ _ _ _ _ _ _ _).2
  next => exact List.Pairwise.nil

/-- Every amount the curve of an input limit quotes is completed by the direct
traversal, with the same output and a prefix of the arrays the curve names. -/
def DirectlyBacked (inputLimit : UInt64) : Prop :=
  ∀ curve, buildCurve pair arrays bitmapExtension swapForY timestamp inputLimit.toNat = .ok curve →
    ∀ amountIn : UInt64, 1 ≤ amountIn.toNat → ∀ quote, curve.quote amountIn.toNat = .ok quote →
      ∃ direct, quoteDlmmFromAccounts amountIn.toNat pair arrays bitmapExtension swapForY timestamp =
          .ok direct ∧
        direct.amountOut = quote.amountOut ∧ direct.usedIndices <+: quote.usedIndices

theorem built_curve_backed_iff (inputLimit : UInt64) (curve : DlmmCurve)
    (built : buildCurve pair arrays bitmapExtension swapForY timestamp inputLimit.toNat = .ok curve) :
    (∀ amountIn : UInt64, 1 ≤ amountIn.toNat → ∀ quote, curve.quote amountIn.toNat = .ok quote →
      ∃ direct, quoteDlmmFromAccounts amountIn.toNat pair arrays bitmapExtension swapForY timestamp =
          .ok direct ∧
        direct.amountOut = quote.amountOut ∧ direct.usedIndices <+: quote.usedIndices) ↔
      Sound (measured inputLimit.toNat 0
        (directionStages pair arrays bitmapExtension swapForY timestamp)) := by
  obtain ⟨result, walked, complete⟩ := build_curve_ok _ _ _ _ _ built
  have ordered := direction_ordered pair arrays bitmapExtension swapForY timestamp
  have same : directionStages pair arrays bitmapExtension swapForY timestamp = stages result.bins :=
    congrArg stages (direction_bins_walked pair arrays bitmapExtension swapForY timestamp walked)
  rw [same] at ordered ⊢
  -- The curve measures only the first bins of the walk, and a direct quote may fill the others too.
  obtain ⟨more, split⟩ := measured_split inputLimit.toNat 0 (stages result.bins)
  have prefixed : measured inputLimit.toNat 0 (stages result.bins) <+: stages result.bins :=
    ⟨more, split.symm⟩
  rw [← agrees_iff_sound (· <+: ·) _ (fun _ => List.prefix_rfl) (ordered.sublist prefixed.sublist)]
  have quotes := curve_quote_ok pair arrays bitmapExtension swapForY timestamp inputLimit.toNat curve
    result built walked
  constructor
  · intro sound input value label start positive found
    obtain ⟨fits, small⟩ := measured_fits _ _ _ _ _ _ complete (fun _ => rfl) input value label positive found
    rw [Nat.zero_add] at fits small
    have word : (UInt64.ofNat input).toNat = input := UInt64.toNat_ofNat_of_lt' small
    obtain ⟨direct, ran, paid, earlier⟩ := sound (UInt64.ofNat input) (by rw [word]; exact positive)
      { amountOut := value, usedIndices := label }
      ((quotes _ (by rw [word]; exact positive) _).mpr ⟨by rw [word]; exact found, fits⟩)
    rw [word] at ran
    obtain ⟨again, walkedAgain, replayed, _⟩ := (direct_quote_ok _ _ _ _ _ _ small _).mp ran
    rw [walked] at walkedAgain
    cases walkedAgain
    have covered := lookup_covers_replay _ input input start (by rw [found]; rfl) le_rfl
    obtain ⟨inner, finished⟩ := Option.isSome_iff_exists.mp covered
    have extended := replay_append _ more _ _ _ finished
    rw [← split, replay_label _ (by omega) start [], replayed] at extended
    cases extended
    exact ⟨direct.usedIndices, by rw [finished, paid], earlier⟩
  · intro agrees amountIn positive quote quoted
    obtain ⟨found, fits⟩ := (quotes _ positive quote).mp quoted
    obtain ⟨reached, ran, earlier⟩ := agrees _ _ _ [] positive found
    have extended := replay_append _ more _ _ _ ran
    rw [← split] at extended
    exact ⟨{ amountOut := quote.amountOut, usedIndices := reached },
      (direct_quote_ok _ _ _ _ _ _ amountIn.toNat_lt _).mpr ⟨result, walked, extended, fits⟩,
      rfl, earlier⟩

/-- A curve is backed by the direct traversal exactly when none of the bins it visits
is at fault. -/
theorem directly_backed_iff (inputLimit : UInt64) :
    DirectlyBacked pair arrays bitmapExtension swapForY timestamp inputLimit ↔
      ((∃ curve, buildCurve pair arrays bitmapExtension swapForY timestamp inputLimit.toNat =
          .ok curve) →
        SoundBins (visitedBins inputLimit.toNat 0
          (directionBins pair arrays bitmapExtension swapForY timestamp))) := by
  have bins : Sound (measured inputLimit.toNat 0
        (directionStages pair arrays bitmapExtension swapForY timestamp)) ↔
      SoundBins (visitedBins inputLimit.toNat 0
        (directionBins pair arrays bitmapExtension swapForY timestamp)) := by
    unfold directionStages
    rw [visited_stages]
    exact sound_iff _
  rw [← bins]
  constructor
  · rintro backed ⟨curve, built⟩
    exact (built_curve_backed_iff pair arrays bitmapExtension swapForY timestamp inputLimit curve
      built).mp (backed curve built)
  · intro sound curve built
    exact (built_curve_backed_iff pair arrays bitmapExtension swapForY timestamp inputLimit curve
      built).mpr (sound ⟨curve, built⟩)

end Soundness

/-! A pair that takes fees on the output of a sale of X, whose active bin holds a
single unit of Y: the fee takes that unit, so the bin measures no capacity, but
the direct traversal still pays an input unit into it. -/
section Dust

def dustPair : LbPairState where
  staticParameters :=
    { baseFactor := 10000, filterPeriod := 30, decayPeriod := 600, reductionFactor := 5000
      variableFeeControl := 0, maxVolatilityAccumulator := 350000, protocolShare := 0
      baseFeePowerFactor := 0, functionType := 1, collectFeeMode := 1 }
  variableParameters :=
    { volatilityAccumulator := 0, volatilityReference := 0, indexReference := 1
      lastUpdateTimestamp := 0 }
  activeId := 1
  binStep := 10
  bitmap := (Vector.replicate 16 0).set 8 1
  rewardsAreEmpty := true

def payingBin (amountY : UInt64) : Bin := { emptyBin with priceQ64 := 2 ^ 64, amountY }

def dustArray : AccountInfo :=
  binArrayAccount meteoraDlmmProgramId meteoraDlmmProgramId 0 [payingBin 1000, payingBin 1]

/-- The dust market quotes ten on its curve one above the direct replay. -/
theorem dust_quotes :
    (buildCurve dustPair [dustArray] none true 0 100).toOption.map (fun curve =>
      (curve.largestCompleteInput, (curve.quote 10).toOption.map (·.amountOut))) = some (1000, some 9) ∧
    (quoteDlmmFromAccounts 10 dustPair [dustArray] none true 0).toOption.map (fun quote =>
      (quote.amountOut, quote.usedIndices)) = some (8, [0]) := by
  decide +kernel

theorem dust_not_backed : ¬ DirectlyBacked dustPair [dustArray] none true 0 100 := by
  intro backed
  obtain ⟨curve, built, measured⟩ := Option.map_eq_some_iff.mp dust_quotes.1
  obtain ⟨quote, quoted, nine⟩ := Option.map_eq_some_iff.mp (congrArg Prod.snd measured)
  obtain ⟨direct, ran, paid, _⟩ := backed curve ((to_option_some _ _).mp built) 10 (by decide) quote
    ((to_option_some _ _).mp quoted)
  have ran : quoteDlmmFromAccounts 10 dustPair [dustArray] none true 0 = .ok direct := ran
  have replayed := dust_quotes.2
  rw [ran] at replayed
  have eight : direct.amountOut = 8 := congrArg Prod.fst (Option.some.inj replayed)
  omega

end Dust

end ArbExecutor.CurveSoundness
