import ArbExecutor.CurveSoundness

/-!
The three bin traversals over the same accounts: by byte offset in the raw
data, over fully parsed arrays and over arrays parsed in a window around the
active bin. All of them replay the same walk. The parsed ones also add up fees,
which never overflows while the outputs do not.
-/

namespace ArbExecutor.SnapshotAgreement

open Checked QuoteMath QuoteAccounts AccountValidation BestDirection BinPricing StagedFill BinWalk
  CurveSoundness BinArrayLayout

section Parsing

theorem map_m_forall₂ {Item Result : Type} (parse : Item → Except QuoteError Result)
    (items : List Item) (results : List Result) (ran : items.mapM parse = .ok results) :
    List.Forall₂ (fun item result => parse item = .ok result) items results := by
  induction items generalizing results with
  | nil => cases ran; exact List.Forall₂.nil
  | cons item rest ih =>
      rw [List.mapM_cons] at ran
      simp only [bind_ok_iff, pure_ok, Except.ok.injEq] at ran
      obtain ⟨result, parsed, later, restRan, rfl⟩ := ran
      exact List.Forall₂.cons parsed (ih later restRan)

/-- An entry list in which every listed index is found with its own parse. -/
def Holds (data : Bytes) (entries : List (UInt8 × Bin)) (binIndex : Nat) : Prop :=
  ∃ bin, parseBin data (discriminatorLen + binArrayHeaderSize) binIndex = .ok bin ∧
    entries.find? (fun entry => entry.1 == UInt8.ofNat binIndex) = some (UInt8.ofNat binIndex, bin)

theorem holds_cons (data : Bytes) (entry : UInt8 × Bin) (entries : List (UInt8 × Bin))
    (head binIndex : Nat) (parsed : parseBinEntry data head = .ok entry) (small : head < 70)
    (inside : binIndex < 70) (found : binIndex = head ∨ Holds data entries binIndex) :
    Holds data (entry :: entries) binIndex := by
  unfold parseBinEntry at parsed
  simp only [bind_ok_iff, pure_ok, Except.ok.injEq] at parsed
  obtain ⟨bin, read, rfl⟩ := parsed
  by_cases same : binIndex = head
  · rw [same]
    exact ⟨bin, read, by rw [List.find?_cons, beq_self_eq_true]⟩
  · obtain ⟨other, otherRead, located⟩ := found.resolve_left same
    refine ⟨other, otherRead, ?_⟩
    have apart : (UInt8.ofNat head == UInt8.ofNat binIndex) = false := by
      rw [beq_eq_false_iff_ne]
      intro equal
      have numbers := congrArg UInt8.toNat equal
      rw [UInt8.toNat_ofNat', UInt8.toNat_ofNat'] at numbers
      omega
    rw [List.find?_cons, apart]
    exact located

theorem full_entries_hold (data : Bytes) (indices : List Nat) (entries : List (UInt8 × Bin))
    (bounded : ∀ index ∈ indices, index < 70)
    (ran : indices.mapM (parseBinEntry data) = .ok entries) (binIndex : Nat)
    (member : binIndex ∈ indices) : Holds data entries binIndex := by
  induction indices generalizing entries with
  | nil => cases member
  | cons head rest ih =>
      rw [List.mapM_cons] at ran
      simp only [bind_ok_iff, pure_ok, Except.ok.injEq] at ran
      obtain ⟨entry, parsed, later, restRan, rfl⟩ := ran
      have smaller (index : Nat) (inside : index ∈ rest) : index < 70 :=
        bounded index (List.mem_cons_of_mem _ inside)
      refine holds_cons data entry later head binIndex parsed (bounded head List.mem_cons_self)
        (bounded binIndex member) ?_
      rcases List.mem_cons.mp member with same | inside
      · exact .inl same
      · exact .inr (ih later smaller restRan inside)

theorem window_entries_hold (data : Bytes) (arrayIndex lower upper : Int) (indices : List Nat)
    (entries : List (UInt8 × Bin)) (bounded : ∀ index ∈ indices, index < 70)
    (ran : parseWindowBins data arrayIndex lower upper indices = .ok entries) (binIndex : Nat)
    (member : binIndex ∈ indices) (above : lower ≤ arrayIndex * 70 + binIndex)
    (below : arrayIndex * 70 + binIndex ≤ upper) : Holds data entries binIndex := by
  induction indices generalizing entries with
  | nil => cases member
  | cons head rest ih =>
      have smaller (index : Nat) (inside : index ∈ rest) : index < 70 :=
        bounded index (List.mem_cons_of_mem _ inside)
      unfold parseWindowBins at ran
      simp only [bind_ok_iff, ok_or_eq_ok, checked_signed_some] at ran
      obtain ⟨_, ⟨rfl, _⟩, _, ⟨rfl, _⟩, ran⟩ := ran
      split at ran
      next visible =>
        simp only [bind_ok_iff, pure_ok, Except.ok.injEq] at ran
        obtain ⟨entry, parsed, later, restRan, rfl⟩ := ran
        refine holds_cons data entry later head binIndex parsed (bounded head List.mem_cons_self)
          (bounded binIndex member) ?_
        rcases List.mem_cons.mp member with same | inside
        · exact .inl same
        · exact .inr (ih later smaller restRan inside)
      next hidden =>
        rcases List.mem_cons.mp member with same | inside
        · rw [← same] at hidden
          exact absurd ⟨above, below⟩ hidden
        · exact ih entries smaller ran inside

theorem window_bins_read {data : Bytes} {arrayIndex : Int} (lower upper : Int) {indices : List Nat}
    {entries : List (UInt8 × Bin)} (low : -2 ^ 63 ≤ arrayIndex * 70) (high : arrayIndex * 70 + 70 ≤ 2 ^ 63)
    (bounded : ∀ index ∈ indices, index < 70)
    (parsed : List.Forall₂ (fun index entry => parseBinEntry data index = .ok entry) indices entries) :
    ∃ visible, parseWindowBins data arrayIndex lower upper indices = .ok visible := by
  induction parsed with
  | nil => exact ⟨[], rfl⟩
  | @cons head entry rest later headParsed _ ih =>
      have near := bounded head List.mem_cons_self
      obtain ⟨visible, restRan⟩ := ih fun index inside => bounded index (List.mem_cons_of_mem _ inside)
      have start : checkedSigned 64 (arrayIndex * 70) = some (arrayIndex * 70) :=
        (checked_signed_some _ _ _).mpr ⟨rfl, by omega, by omega⟩
      have position : checkedSigned 64 (arrayIndex * 70 + head) = some (arrayIndex * 70 + head) :=
        (checked_signed_some _ _ _).mpr ⟨rfl, by omega, by omega⟩
      unfold parseWindowBins
      rw [start, ok_or_some, ok_bind, position, ok_or_some, ok_bind]
      split
      · rw [headParsed, ok_bind, restRan, ok_bind]
        exact ⟨entry :: visible, rfl⟩
      · exact ⟨visible, restRan⟩

/-- A window reads no bin that the whole array does not read. -/
theorem window_readable {data : Bytes} {array : ParsedBinArray} (full : parseBinArray data = .ok array)
    (low : -2 ^ 63 ≤ array.index * 70) (high : array.index * 70 + 70 ≤ 2 ^ 63) (activeId : Int) :
    ∃ windowed, parseBinArrayWindow data activeId = .ok windowed := by
  unfold parseBinArray at full
  simp only [bind_ok_iff, pure_ok, Except.ok.injEq] at full
  obtain ⟨index, indexed, bins, ran, rfl⟩ := full
  obtain ⟨visible, windowRan⟩ := window_bins_read
    (saturatingSigned 32 (activeId - ((maxQuoteVisitedBinsPerDirection : Int) - 1)))
    (saturatingSigned 32 (activeId + ((maxQuoteVisitedBinsPerDirection : Int) - 1))) low high
    (fun index member => List.mem_range.mp member) (map_m_forall₂ _ _ _ ran)
  refine ⟨{ index := index, bins := visible }, ?_⟩
  unfold parseBinArrayWindow
  dsimp only at windowRan ⊢
  rw [indexed, ok_bind, windowRan, ok_bind]
  rfl

end Parsing

section Standing
variable (reach : Int → Prop)

/-- A parsed array that finds every bin within reach where the account has it. -/
def StandsFor (account : AccountInfo) (array : ParsedBinArray) : Prop :=
  parseBinArrayIndex account.data = .ok array.index ∧
    ∀ binId, reach binId → binArrayIndex binId = array.index → ∀ offset,
      binOffset binId array.index = .ok offset → Holds account.data array.bins offset

variable {reach} {accounts : List AccountInfo} {arrays : List ParsedBinArray}

theorem find_standing (standing : List.Forall₂ (StandsFor reach) accounts arrays) (arrayIndex : Int) :
    match findBinArray accounts arrayIndex with
    | none => arrays.find? (fun array => array.index == arrayIndex) = none
    | some account => ∃ array, arrays.find? (fun array => array.index == arrayIndex) = some array ∧
        array.index = arrayIndex ∧ StandsFor reach account array := by
  induction standing with
  | nil => rfl
  | @cons account array accounts arrays stands _ ih =>
      have key : (parseBinArrayIndex account.data).toOption = some array.index := by rw [stands.1]; rfl
      by_cases same : array.index = arrayIndex
      · have hit : findBinArray (account :: accounts) arrayIndex = some account := by
          unfold findBinArray
          rw [List.find?_cons, key, same, beq_self_eq_true]
        rw [hit]
        exact ⟨array, by rw [List.find?_cons, same, beq_self_eq_true], same, stands⟩
      · have miss : findBinArray (account :: accounts) arrayIndex = findBinArray accounts arrayIndex := by
          unfold findBinArray
          rw [List.find?_cons, key, show (some array.index == some arrayIndex) = false from by simpa using same]
        rw [miss, List.find?_cons, show (array.index == arrayIndex) = false from by simpa using same]
        exact ih

/-- Within a word the offset of a bin in its own array is its remainder. -/
theorem bin_offset_own {binId : Int} (low : -2 ^ 31 ≤ binId) (high : binId < 2 ^ 31) :
    binOffset binId (binArrayIndex binId) = .ok (binId % 70).toNat := by
  have whole := Int.emod_add_mul_ediv binId 70
  have least := Int.emod_nonneg binId (by decide : (70 : Int) ≠ 0)
  have most := Int.emod_lt_of_pos binId (by decide : (0 : Int) < 70)
  unfold binOffset binArrayIndex
  simp only [bind_ok_iff, ok_or_eq_ok, checked_signed_some]
  refine ⟨_, ⟨rfl, by omega, by omega⟩, _, ⟨rfl, by omega, by omega⟩, ?_⟩
  rw [if_pos (by omega), pure_ok, show binId - binId / 70 * 70 = binId % 70 by omega]

theorem bin_offset_some {binId arrayIndex : Int} {offset : Nat}
    (located : binOffset binId arrayIndex = .ok offset) :
    offset < 70 ∧ arrayIndex * 70 + offset = binId := by
  unfold binOffset at located
  simp only [bind_ok_iff, ok_or_eq_ok, checked_signed_some] at located
  obtain ⟨_, ⟨rfl, _⟩, _, ⟨rfl, _⟩, located⟩ := located
  split at located
  · cases located; omega
  · cases located

theorem full_stands (account : AccountInfo) (array : ParsedBinArray)
    (parsed : parseBinArray account.data = .ok array) : StandsFor reach account array := by
  unfold parseBinArray at parsed
  simp only [bind_ok_iff, pure_ok, Except.ok.injEq] at parsed
  obtain ⟨index, indexed, bins, ran, rfl⟩ := parsed
  refine ⟨indexed, fun binId _ _ offset located => ?_⟩
  have inside := (bin_offset_some located).1
  exact full_entries_hold account.data _ bins (fun index member => List.mem_range.mp member) ran
    offset (List.mem_range.mpr inside)

/-- The window of one active bin: every id a traversal can visit from it. -/
def Window (activeId binId : Int) : Prop :=
  saturatingSigned 32 (activeId - 15) ≤ binId ∧ binId ≤ saturatingSigned 32 (activeId + 15)

theorem window_stands (activeId : Int) (account : AccountInfo) (array : ParsedBinArray)
    (parsed : parseBinArrayWindow account.data activeId = .ok array) :
    StandsFor (Window activeId) account array := by
  unfold parseBinArrayWindow at parsed
  simp only [bind_ok_iff, pure_ok, Except.ok.injEq] at parsed
  obtain ⟨index, indexed, bins, ran, rfl⟩ := parsed
  refine ⟨indexed, fun binId reached _ offset located => ?_⟩
  obtain ⟨inside, position⟩ := bin_offset_some located
  change index * 70 + (offset : Int) = binId at position
  exact window_entries_hold account.data _ _ _ _ bins (fun index member => List.mem_range.mp member)
    ran offset (List.mem_range.mpr inside) (position ▸ reached.1) (position ▸ reached.2)

end Standing

section Fees

/-- The rounded-up tenth that a capped fee can be is at most a ninth of what it leaves. -/
theorem nine_fees_le (rate amount : Nat) (capped : rate ≤ maxFeeRate) :
    9 * feeOn rate amount ≤ net rate amount + 10 := by
  have tenth : feeOn rate amount ≤ (amount + 9) / 10 := by
    unfold feeOn
    rw [ceil_quotient_le_iff (by decide)]
    have covered : amount ≤ (amount + 9) / 10 * 10 := by omega
    calc amount * rate ≤ amount * maxFeeRate := Nat.mul_le_mul_left amount capped
      _ ≤ (amount + 9) / 10 * 10 * maxFeeRate := Nat.mul_le_mul_right maxFeeRate covered
      _ = (amount + 9) / 10 * feePrecision := by rw [Nat.mul_assoc]; rfl
  have left : net rate amount = amount - feeOn rate amount := by unfold net; rfl
  omega

theorem fill_fee (pricing : Pricing) (input : Nat) :
    if pricing.feeOnInput then (pricing.fill input).fee ≤ (pricing.fill input).amountIn
    else 9 * (pricing.fill input).fee ≤ (pricing.fill input).amountOut + 10 := by
  rcases fill_cases pricing input with
    empty | ⟨some, onInput, absorbed⟩ | ⟨some, onInput, beyond⟩ | ⟨some, onOutput⟩
  · rw [fill_empty pricing empty]
    split
    · exact le_rfl
    · exact Nat.zero_le _
  · rw [if_pos onInput, fill_absorbed pricing some onInput absorbed]
    exact fee_le pricing.capped input
  · rw [if_pos onInput, fill_overfull pricing some onInput beyond]
    exact Nat.sub_le _ _
  · rw [if_neg onOutput, fill_on_output pricing some onOutput]
    exact nine_fees_le _ _ pricing.capped

/-- Room for the fees still to come, by the side they are taken on. -/
def FeeRoom (feeOnInput : Bool) (visits totalFee remaining amountOut : Nat) : Prop :=
  if feeOnInput then totalFee + remaining < 2 ^ 64
  else 9 * totalFee + 10 * visits ≤ amountOut + 160

theorem fee_room_step {pricing : Pricing} {visits totalFee remaining amountOut : Nat}
    (room : FeeRoom pricing.feeOnInput (visits + 1) totalFee remaining amountOut)
    (fits : amountOut + (pricing.fill remaining).amountOut < 2 ^ 64) :
    totalFee + (pricing.fill remaining).fee < 2 ^ 64 ∧
      FeeRoom pricing.feeOnInput visits (totalFee + (pricing.fill remaining).fee)
        (remaining - (pricing.fill remaining).amountIn)
        (amountOut + (pricing.fill remaining).amountOut) := by
  have fee := fill_fee pricing remaining
  have taken := fill_input_le pricing remaining
  unfold FeeRoom at room ⊢
  split at room
  next onInput =>
    rw [if_pos onInput] at fee ⊢
    omega
  next onOutput =>
    rw [if_neg onOutput] at fee ⊢
    omega

theorem fee_room_fewer {onInput : Bool} {visits totalFee remaining amountOut : Nat}
    (room : FeeRoom onInput (visits + 1) totalFee remaining amountOut) :
    FeeRoom onInput visits totalFee remaining amountOut := by
  unfold FeeRoom at room ⊢
  split at room
  next onInput => rw [if_pos onInput]; exact room
  next onOutput => rw [if_neg onOutput]; omega

end Fees

section Traversal
variable (pair : LbPairState) (accounts : List AccountInfo) (arrays : List ParsedBinArray)
  (bitmapExtension : Option Bytes) (swapForY feeOnInput supportsLimitOrders : Bool)

def SnapshotFinishes (outcome : Except QuoteError SnapshotState) (amountOut : Nat)
    (used : List Int) : Prop :=
  ∃ final, outcome = .ok final ∧ final.remaining = 0 ∧ final.amountOut = amountOut ∧
    final.usedArrayIndices = used

theorem not_snapshot_error (error : QuoteError) (amountOut : Nat) (used : List Int) :
    ¬ SnapshotFinishes (.error error) amountOut used := by
  rintro ⟨_, failed, _⟩
  cases failed

/-- Both loops over the state they share; only the parsed one counts fees. -/
def withFee (state : AccountTraversal) (totalFee : Nat) : SnapshotState where
  variableParameters := state.variableParameters
  activeId := state.activeId
  remaining := state.remaining
  amountOut := state.amountOut
  totalFee := totalFee
  usedArrayIndices := state.usedIndices

theorem with_fee_finishes (final : AccountTraversal) (fee amountOut : Nat) (used : List Int) :
    SnapshotFinishes (.ok (withFee final fee)) amountOut used ↔
      Finishes (.ok final) amountOut used := by
  constructor
  · rintro ⟨_, same, finished, paid, arrived⟩
    cases same
    exact ⟨final, rfl, finished, paid, arrived⟩
  · rintro ⟨_, same, finished, paid, arrived⟩
    cases same
    exact ⟨_, rfl, finished, paid, arrived⟩

theorem neither_finishes (left : QuoteError) (right : ArbError) (amountOut : Nat) (used : List Int) :
    SnapshotFinishes (.error left) amountOut used ↔ Finishes (.error right) amountOut used :=
  iff_of_false (not_snapshot_error _ _ _) (not_finishes_error _ _ _)

/-- How far a traversal with some visits left can be from its active bin. -/
def Reached (visits : Nat) (binId : Int) : Prop :=
  (binId - pair.activeId.toInt).natAbs + visits ≤ maxQuoteVisitedBinsPerDirection ∧
    -2 ^ 31 ≤ binId ∧ binId < 2 ^ 31

theorem active_reached : Reached pair maxQuoteVisitedBinsPerDirection pair.activeId.toInt :=
  ⟨by omega, pair.activeId.le_toInt, pair.activeId.toInt_lt⟩

theorem reached_next (visits : Nat) (binId : Int) (reached : Reached pair (visits + 1) binId) :
    Reached pair visits (nextBin binId swapForY) := by
  obtain ⟨near, low, high⟩ := reached
  unfold Reached nextBin saturatingSigned
  split <;> omega

theorem reached_window (visits : Nat) (binId : Int) (reached : Reached pair (visits + 1) binId) :
    Window pair.activeId.toInt binId := by
  obtain ⟨near, low, high⟩ := reached
  unfold maxQuoteVisitedBinsPerDirection at near
  unfold Window saturatingSigned
  omega

theorem reached_stay {visits : Nat} {binId : Int} (reached : Reached pair (visits + 1) binId) :
    Reached pair visits binId := by
  obtain ⟨near, low, high⟩ := reached
  exact ⟨by omega, low, high⟩

variable {pair accounts arrays} in
/-- The bin a visit reads out of an account is the entry its parsed array has for it. -/
theorem standing_bin (standing : List.Forall₂ (StandsFor (Window pair.activeId.toInt)) accounts arrays)
    {visits : Nat} {binId : Int} (reached : Reached pair (visits + 1) binId) {account : AccountInfo}
    (located : findBinArray accounts (binArrayIndex binId) = some account) :
    ∃ array bin, arrays.find? (fun array => array.index == binArrayIndex binId) = some array ∧
      array.index = binArrayIndex binId ∧
      array.bins.find? (fun entry => entry.1 == UInt8.ofNat (binId % 70).toNat) =
        some (UInt8.ofNat (binId % 70).toNat, bin) ∧
      parseBinForId account.data binId (binArrayIndex binId) = .ok bin := by
  have found := find_standing standing (binArrayIndex binId)
  rw [located] at found
  obtain ⟨array, arrayFound, own, stands⟩ := found
  have offset := bin_offset_own reached.2.1 reached.2.2
  obtain ⟨bin, parsed, entryFound⟩ :=
    stands.2 binId (reached_window pair visits binId reached) own.symm _ (own ▸ offset)
  refine ⟨array, bin, arrayFound, own, entryFound, ?_⟩
  unfold parseBinForId
  rw [offset, ok_bind, parsed]

theorem snapshot_bins_agree (standing : List.Forall₂ (StandsFor (Window pair.activeId.toInt)) accounts
      arrays) (visits : Nat) (state : AccountTraversal) (totalFee : Nat)
    (reached : Reached pair visits state.activeId) (fits : state.remaining < 2 ^ 64)
    (room : FeeRoom feeOnInput visits totalFee state.remaining state.amountOut)
    (amountOut : Nat) (used : List Int) :
    SnapshotFinishes (quoteSnapshotBins pair arrays bitmapExtension swapForY feeOnInput
        supportsLimitOrders visits (withFee state totalFee)) amountOut used ↔
      Finishes (quoteAccountBins pair accounts bitmapExtension swapForY feeOnInput
        supportsLimitOrders visits state) amountOut used := by
  induction visits generalizing state totalFee with
  | zero => exact with_fee_finishes state totalFee amountOut used
  | succ visits ih =>
      have next := reached_next pair swapForY visits state.activeId reached
      unfold quoteSnapshotBins quoteAccountBins
      by_cases empty : state.remaining = 0
      · rw [if_pos empty, if_pos (show (withFee state totalFee).remaining = 0 from empty)]
        exact with_fee_finishes state totalFee amountOut used
      rw [if_neg empty, if_neg (show (withFee state totalFee).remaining ≠ 0 from empty)]
      dsimp only [withFee]
      -- Both loops ask the same questions in the same order and fail at the same one.
      cases initialized : arrayInitialized pair bitmapExtension (binArrayIndex state.activeId) with
      | error error => exact neither_finishes _ _ _ _
      | ok present =>
      cases present with
      | false =>
          simp only [incomplete, map_error_ok, ok_bind, Bool.not_false, if_true]
          exact ih { state with activeId := nextBin state.activeId swapForY } totalFee next fits
            (fee_room_fewer room)
      | true =>
      simp only [incomplete, map_error_ok, ok_bind, Bool.not_true, Bool.false_eq_true, if_false]
      cases located : findBinArray accounts (binArrayIndex state.activeId) with
      | none =>
          have found := find_standing standing (binArrayIndex state.activeId)
          rw [located] at found
          rw [found]
          exact neither_finishes _ _ _ _
      | some account =>
      obtain ⟨array, bin, arrayFound, own, entryFound, direct⟩ := standing_bin standing reached located
      rw [arrayFound]
      simp only [ok_or_some, ok_bind]
      cases entered : enterArray state.usedIndices (binArrayIndex state.activeId) with
      | none => exact neither_finishes _ _ _ _
      | some nextUsed =>
      have offset := bin_offset_own reached.2.1 reached.2.2
      simp only [ok_or_some, ok_bind, own, offset, entryFound, direct, map_error_ok]
      have positive : 0 < state.remaining := by omega
      cases priced : pricingOf (quotedBin supportsLimitOrders bin) swapForY feeOnInput
          (dlmmFeeParameters pair (updateVolatilityAccumulator state.activeId
            state.variableParameters pair.staticParameters)) with
      | none =>
          obtain ⟨error, _, failed⟩ := partial_unpriced _ priced positive fits
          rw [failed]
          exact neither_finishes _ _ _ _
      | some pricing =>
          have filled := partial_priced priced positive fits
          have taken := fill_input_le pricing state.remaining
          obtain ⟨rfl, rfl, _⟩ := pricing_of_some priced
          rw [filled]
          simp only [map_error_ok, ok_bind, checked_sub_fits taken, ok_or_some]
          by_cases overflow : state.amountOut + (pricing.fill state.remaining).amountOut < 2 ^ 64
          · -- The output fits, so the fee, which only the parsed loop adds, fits as well.
            obtain ⟨feeFits, left⟩ := fee_room_step room overflow
            rw [checked_add_fits overflow, ok_or_some, ok_bind, ok_or_some, ok_bind,
              checked_add_fits feeFits, ok_or_some, ok_bind]
            refine ih
              { variableParameters := updateVolatilityAccumulator state.activeId
                  state.variableParameters pair.staticParameters
                remaining := state.remaining - (pricing.fill state.remaining).amountIn
                amountOut := state.amountOut + (pricing.fill state.remaining).amountOut
                usedIndices := nextUsed
                activeId :=
                  if state.remaining - (pricing.fill state.remaining).amountIn ≠ 0 then
                    nextBin state.activeId pricing.swapForY
                  else state.activeId } _ ?_ (lt_of_le_of_lt (Nat.sub_le _ _) fits) left
            dsimp only
            split
            · exact next
            · exact reached_stay pair reached
          · have refused : checkedAdd 64 state.amountOut (pricing.fill state.remaining).amountOut = none :=
              if_neg overflow
            rw [refused]
            exact neither_finishes _ _ _ _

/-- What a completed traversal shows: its output and its arrays in order. -/
def observed (outcome : Except ArbError AccountDataQuote) : Option (Nat × List Int) :=
  outcome.toOption.map fun quote => (quote.amountOut, quote.usedIndices)

def snapshotObserved (outcome : Except QuoteError DlmmSnapshotQuote) : Option (Nat × List Int) :=
  outcome.toOption.map fun snapshot => (snapshot.quote.amountOut, snapshot.usedArrayIndices)

theorem snapshot_quote_agrees (amountIn : UInt64) (timestamp : Int64)
    (standing : List.Forall₂ (StandsFor (Window pair.activeId.toInt)) accounts arrays) :
    snapshotObserved (quoteDlmmSnapshotWithBitmap amountIn.toNat pair arrays bitmapExtension swapForY
        timestamp) =
      observed (quoteDlmmFromAccounts amountIn.toNat pair accounts bitmapExtension swapForY
        timestamp) := by
  unfold snapshotObserved observed
  ext ⟨amountOut, used⟩
  have room (onInput : Bool) :
      FeeRoom onInput maxQuoteVisitedBinsPerDirection 0 amountIn.toNat 0 := by
    unfold FeeRoom maxQuoteVisitedBinsPerDirection
    split
    · rw [Nat.zero_add]
      exact amountIn.toNat_lt
    · omega
  have agree (onInput supports : Bool) := snapshot_bins_agree pair accounts arrays bitmapExtension
    swapForY onInput supports standing maxQuoteVisitedBinsPerDirection
    { variableParameters :=
        updateReference pair.activeId pair.variableParameters pair.staticParameters timestamp
      activeId := pair.activeId.toInt, remaining := amountIn.toNat, amountOut := 0
      usedIndices := [] } 0 (active_reached pair) amountIn.toNat_lt (room onInput) amountOut used
  unfold quoteDlmmSnapshotWithBitmap quoteDlmmFromAccounts
  -- Both walks read the fee side and the pool kind first, so they refuse together before the loops start.
  cases side : feeOnInput pair swapForY with
  | error error => exact Iff.rfl
  | ok onInput =>
  cases kind : supportsLimitOrders pair with
  | error error => exact Iff.rfl
  | ok supports =>
  simp only [incomplete, map_error_ok, ok_bind, Option.map_eq_some_iff]
  have agreed := agree onInput supports
  unfold SnapshotFinishes Finishes withFee at agreed
  constructor
  · rintro ⟨snapshot, quoted, same⟩
    obtain ⟨final, ran, quoted⟩ := (bind_ok_iff _ _ _).mp ((to_option_some _ _).mp quoted)
    split at quoted
    · cases quoted
    next finished =>
      cases quoted
      rw [Prod.mk.injEq] at same
      obtain ⟨state, direct, empty, paid, arrived⟩ :=
        agreed.mp ⟨final, ran, by omega, same.1, same.2⟩
      refine ⟨{ amountOut := state.amountOut, usedIndices := state.usedIndices }, ?_, ?_⟩
      · rw [direct, ok_bind, empty, to_option_some]
        rfl
      · rw [Prod.mk.injEq]
        exact ⟨paid, arrived⟩
  · rintro ⟨quote, quoted, same⟩
    obtain ⟨final, ran, quoted⟩ := (bind_ok_iff _ _ _).mp ((to_option_some _ _).mp quoted)
    obtain ⟨_, finished, quoted⟩ := (bind_ok_iff _ _ _).mp quoted
    rw [require_ok, decide_eq_true_eq] at finished
    cases quoted
    rw [Prod.mk.injEq] at same
    obtain ⟨state, parsed, empty, paid, arrived⟩ :=
      agreed.mpr ⟨final, ran, finished, same.1, same.2⟩
    refine ⟨{ quote := { amountIn := amountIn.toNat, amountOut := state.amountOut, fee := state.totalFee }
              usedArrayIndices := state.usedArrayIndices }, ?_, ?_⟩
    · rw [parsed, ok_bind, if_neg (not_not.mpr empty), to_option_some]
      rfl
    · rw [Prod.mk.injEq]
      exact ⟨paid, arrived⟩

end Traversal

/-- The three traversals of the same accounts complete together, with the same
output and the same arrays in the same order. -/
theorem traversals_agree (pair : LbPairState) (accounts : List AccountInfo)
    (full windowed : List ParsedBinArray)
    (fullParsed : accounts.mapM (fun account => parseBinArray account.data) = .ok full)
    (windowParsed : accounts.mapM (fun account =>
      parseBinArrayWindow account.data pair.activeId.toInt) = .ok windowed)
    (bitmapExtension : Option Bytes) (swapForY : Bool) (timestamp : Int64) (amountIn : UInt64) :
    snapshotObserved (quoteDlmmSnapshotWithBitmap amountIn.toNat pair full bitmapExtension swapForY
        timestamp) =
      observed (quoteDlmmFromAccounts amountIn.toNat pair accounts bitmapExtension swapForY timestamp) ∧
    snapshotObserved (quoteDlmmSnapshotWithBitmap amountIn.toNat pair windowed bitmapExtension swapForY
        timestamp) =
      observed (quoteDlmmFromAccounts amountIn.toNat pair accounts bitmapExtension swapForY
        timestamp) := by
  have fullStanding : List.Forall₂ (StandsFor (Window pair.activeId.toInt)) accounts full :=
    (map_m_forall₂ _ _ _ fullParsed).imp full_stands
  have windowStanding := (map_m_forall₂ _ _ _ windowParsed).imp fun account array parsed =>
    window_stands pair.activeId.toInt account array parsed
  exact ⟨snapshot_quote_agrees pair accounts full bitmapExtension swapForY amountIn timestamp fullStanding,
    snapshot_quote_agrees pair accounts windowed bitmapExtension swapForY amountIn timestamp
      windowStanding⟩

section Dust

def dustParsed : ParsedBinArray where
  index := 0
  bins := (List.range 70).map fun index =>
    (UInt8.ofNat index, ([payingBin 1000, payingBin 1] ++ List.replicate 68 emptyBin).getD index emptyBin)

def dustWindow : List ParsedBinArray :=
  ([dustArray].mapM fun account =>
    parseBinArrayWindow account.data dustPair.activeId.toInt).toOption.getD []

theorem traversals_agree_dust :
    snapshotObserved (quoteDlmmSnapshotWithBitmap (10 : UInt64).toNat dustPair [dustParsed] none true
      0) = some (8, [0]) ∧
    snapshotObserved (quoteDlmmSnapshotWithBitmap (10 : UInt64).toNat dustPair dustWindow none true
      0) = some (8, [0]) := by
  have parsed : parseBinArray dustArray.data = .ok dustParsed :=
    parse_encoded_array meteoraDlmmProgramId 0
      ([payingBin 1000, payingBin 1] ++ List.replicate 68 emptyBin) (by simp)
  have full : [dustArray].mapM (fun account => parseBinArray account.data) = .ok [dustParsed] := by
    rw [List.mapM_cons, parsed, ok_bind, List.mapM_nil]
    rfl
  have window : [dustArray].mapM (fun account =>
      parseBinArrayWindow account.data dustPair.activeId.toInt) = .ok dustWindow := by
    obtain ⟨windowed, reads⟩ := window_readable parsed (by decide) (by decide) dustPair.activeId.toInt
    have mapped : [dustArray].mapM (fun account =>
        parseBinArrayWindow account.data dustPair.activeId.toInt) = .ok [windowed] := by
      rw [List.mapM_cons, reads, ok_bind, List.mapM_nil]
      rfl
    unfold dustWindow
    rw [mapped]
    rfl
  have direct : observed (quoteDlmmFromAccounts (10 : UInt64).toNat dustPair [dustArray] none true 0) =
      some (8, [0]) := dust_quotes.2
  have agreed := traversals_agree dustPair [dustArray] [dustParsed] dustWindow full window none true 0 10
  rw [direct] at agreed
  exact agreed

end Dust

end ArbExecutor.SnapshotAgreement
