import ArbExecutor.CurveMeasure

/-!
The bins at which the compact curve and the direct fill part ways, in the terms of
the bin alone: a bin with liquidity that measures no output, a bin whose fee
rounding hides one unit beyond its capacity, and a bin whose need with its fee
takes up the whole word. A list of bins is sound as stages exactly when it is free
of them where they matter.
-/

namespace ArbExecutor.BinDefects

open Checked QuoteMath BinPricing StagedFill BinWalk CurveMeasure

/-- The bin holds liquidity and its fill of the largest word pays nothing. -/
def Dust (pricing : Pricing) : Prop := pricing.available ≠ 0 ∧ pricing.capacity.amountOut = 0

/-- One unit more than the bin's need costs with its fee still nets no more than the need. -/
def Absorbs (pricing : Pricing) : Prop :=
  pricing.feeOnInput = true ∧ gross pricing.feeRate pricing.fullNeed + 1 < wordMax 64 ∧
    net pricing.feeRate (gross pricing.feeRate pricing.fullNeed + 1) = pricing.fullNeed

/-- The two largest words both net the bin's need, which by its price is not worth
exactly what the bin holds. -/
def Misreads (pricing : Pricing) : Prop :=
  pricing.feeOnInput = true ∧ net pricing.feeRate (wordMax 64 - 1) = pricing.fullNeed ∧
    net pricing.feeRate (wordMax 64) = pricing.fullNeed ∧
    give pricing.swapForY pricing.price pricing.fullNeed ≠ pricing.available

/-- A misread need whose worth fits a word, so that it is quoted. -/
def Overstates (pricing : Pricing) : Prop :=
  Misreads pricing ∧ give pricing.swapForY pricing.price pricing.fullNeed < 2 ^ 64

/-- What a bin with liquidity pays for a single unit. -/
def unitPay (pricing : Pricing) : Nat :=
  if pricing.feeOnInput then pricing.payout (net pricing.feeRate 1) else net pricing.feeRate (pricing.payout 1)

section Closed
variable {pricing : Pricing}

instance : Decidable (Dust pricing) := inferInstanceAs (Decidable (_ ∧ _))

instance : Decidable (Absorbs pricing) := inferInstanceAs (Decidable (_ ∧ _ ∧ _))

instance : Decidable (Misreads pricing) := inferInstanceAs (Decidable (_ ∧ _ ∧ _ ∧ _))

theorem dust_iff : (stage pricing).Dust ↔ Dust pricing := by
  constructor
  · rintro ⟨some, unpaid⟩
    refine ⟨fun empty => some ?_, unpaid⟩
    change (pricing.fill _).amountIn = 0
    rw [fill_empty pricing empty]
  · rintro ⟨some, unpaid⟩
    exact ⟨(capacity_positive pricing some).ne', unpaid⟩

theorem unit_paid (usable : (stage pricing).Usable) : (stage pricing).pay 1 = unitPay pricing := by
  have some := available_of_reward usable.2
  have needed := full_need_positive pricing some
  rw [(fill_fits_word (by decide)).2]
  unfold unitPay
  split
  next onInput =>
    have single : net pricing.feeRate 1 ≤ pricing.fullNeed := (net_le _ 1).trans needed
    rw [fill_absorbed pricing some onInput single]
  next onOutput => rw [fill_on_output pricing some onOutput, min_eq_left needed]

/-- A need that the largest word nets makes the whole word the capacity. -/
theorem whole_capacity (some : pricing.available ≠ 0) (onInput : pricing.feeOnInput = true)
    (whole : net pricing.feeRate (wordMax 64) ≤ pricing.fullNeed) :
    pricing.capacity.amountIn = wordMax 64 := by
  unfold Pricing.capacity
  rw [fill_absorbed pricing some onInput whole]

theorem short_capacity (some : pricing.available ≠ 0) (onInput : pricing.feeOnInput = true)
    (short : ¬ net pricing.feeRate (wordMax 64) ≤ pricing.fullNeed) :
    pricing.capacity.amountIn = gross pricing.feeRate pricing.fullNeed := by
  unfold Pricing.capacity
  rw [fill_overfull pricing some onInput short]

theorem absorbs_iff (usable : (stage pricing).Usable) : (stage pricing).Absorbs ↔ Absorbs pricing := by
  have some := available_of_reward usable.2
  have bounded := capacity_bounded pricing
  have takes : (stage pricing).Absorbs ↔
      (pricing.fill (min (pricing.capacity.amountIn + 1) (wordMax 64))).amountIn =
        pricing.capacity.amountIn + 1 := Iff.rfl
  rw [takes]
  by_cases onInput : pricing.feeOnInput = true
  · by_cases whole : net pricing.feeRate (wordMax 64) ≤ pricing.fullNeed
    · have full := whole_capacity some onInput whole
      rw [full, min_eq_right (Nat.le_succ _), fill_absorbed pricing some onInput whole]
      refine iff_of_false (by dsimp only; omega) ?_
      rintro ⟨_, further, _⟩
      -- Two units past the gross need net more than it, and the largest word is not below them.
      have grossed := net_gross pricing.capped pricing.fullNeed
      have twice := net_two_steps pricing.capped (gross pricing.feeRate pricing.fullNeed)
      have grown := net_mono pricing.capped
        (show gross pricing.feeRate pricing.fullNeed + 2 ≤ wordMax 64 by omega)
      omega
    · have exact := short_capacity some onInput whole
      have grossed := net_gross pricing.capped pricing.fullNeed
      have inside : gross pricing.feeRate pricing.fullNeed + 1 ≤ wordMax 64 := by
        by_contra beyond
        have top : gross pricing.feeRate pricing.fullNeed = wordMax 64 := by omega
        rw [top] at grossed
        omega
      rw [exact, min_eq_left inside]
      constructor
      · intro taken
        by_cases absorbed : net pricing.feeRate (gross pricing.feeRate pricing.fullNeed + 1) ≤ pricing.fullNeed
        · have met := (gross_hides pricing.capped (Nat.lt_succ_self _) absorbed).2
          refine ⟨onInput, lt_of_le_of_ne inside fun top => ?_, met⟩
          rw [top] at absorbed
          exact whole absorbed
        · rw [fill_overfull pricing some onInput absorbed] at taken
          dsimp only at taken
          omega
      · rintro ⟨_, _, met⟩
        rw [fill_absorbed pricing some onInput met.le]
  · refine iff_of_false ?_ fun absorbs => onInput absorbs.1
    have needed : pricing.capacity.amountIn = min (wordMax 64) pricing.fullNeed := by
      unfold Pricing.capacity
      rw [fill_on_output pricing some onInput]
    rw [fill_on_output pricing some onInput, needed]
    dsimp only
    omega

theorem misread_interior (usable : (stage pricing).Usable) (misreads : Misreads pricing) :
    pricing.capacity.amountIn = wordMax 64 ∧
      (stage pricing).pay (wordMax 64 - 1) = pricing.available ∧
      (stage pricing).interior (wordMax 64 - 1) =
        (amountOutForIn pricing.fullNeed pricing.price pricing.swapForY).toOption := by
  have some := available_of_reward usable.2
  obtain ⟨onInput, met, whole, _⟩ := misreads
  have full := whole_capacity some onInput whole.le
  have below : wordMax 64 - 1 < pricing.capacity.amountIn := by rw [full]; decide
  refine ⟨full, ?_, ?_⟩
  · rw [(fill_fits_word (by decide)).2, fill_absorbed pricing some onInput met.le, met, payout_full]
  · change (dlmmBinOutputWithinCapacity _ _ _ _ _ _ _).toOption = _
    have rewarded : pricing.capacity.amountOut ≠ 0 := usable.2
    unfold dlmmBinOutputWithinCapacity
    rw [if_neg (by rw [full]; unfold wordMax; omega), if_neg below.ne, if_pos onInput,
      excluded_fee_ok pricing.capped (by decide), ok_bind]
    change (amountOutForIn (net pricing.feeRate (wordMax 64 - 1)) _ _).toOption = _
    rw [met]

/-- Anywhere but one unit below the word of a misread bin the interpolation is the fill. -/
theorem interior_paid (usable : (stage pricing).Usable) {input : Nat} (positive : 0 < input)
    (within : input ≤ pricing.capacity.amountIn)
    (clean : ¬ (Misreads pricing ∧ input + 1 = wordMax 64)) :
    (stage pricing).interior input = some ((stage pricing).pay input) := by
  have offered := available_of_reward usable.2
  have bounded := capacity_bounded pricing
  rcases Nat.lt_or_eq_of_le within with below | full
  · have fits : input < 2 ^ 64 := by unfold wordMax at bounded; omega
    rw [(fill_fits_word fits).2]
    rcases interior_below positive usable.2 below with exact | ⟨clamped, interpolated⟩
    · exact (to_option_some _ _).mpr exact
    · obtain ⟨top, last⟩ := clamped_whole_word pricing clamped offered below
      obtain ⟨onInput, met⟩ := clamped
      have whole : net pricing.feeRate (wordMax 64) = pricing.fullNeed := by
        refine le_antisymm ?_ (met ▸ net_mono pricing.capped (by omega))
        by_contra more
        rw [short_capacity offered onInput more] at below
        exact absurd ((gross_le_iff pricing.capped _ _).mpr met.ge) (Nat.not_le.mpr below)
      have worth : give pricing.swapForY pricing.price pricing.fullNeed = pricing.available := by
        by_contra different
        exact clean ⟨⟨onInput, by rwa [show wordMax 64 - 1 = input by omega], whole, different⟩, last⟩
      have paid := amount_out_ok (pricing.payable offered).1 (worth ▸ pricing.availableFits)
      rw [fill_absorbed pricing offered onInput met.le, met, payout_full]
      exact (to_option_some _ _).mpr (interpolated.trans (worth ▸ paid))
  · rw [full]
    have paid := (stage pricing).pay_beyond pricing.capacity.amountIn le_rfl
    rw [paid]
    exact (stage pricing).interior_full usable.1 usable.2

theorem exact_iff (usable : (stage pricing).Usable) : (stage pricing).Exact ↔ ¬ Overstates pricing := by
  have offered := available_of_reward usable.2
  constructor
  · rintro exact ⟨misreads, fits⟩
    obtain ⟨full, paid, read⟩ := misread_interior usable misreads
    have worth := amount_out_ok (pricing.payable offered).1 fits
    have same := exact (wordMax 64 - 1) (give pricing.swapForY pricing.price pricing.fullNeed)
      (by decide) (by change _ ≤ pricing.capacity.amountIn; rw [full]; decide)
      (by rw [read, worth]; rfl)
    exact misreads.2.2.2 (same.trans paid)
  · intro clean input value positive within read
    by_cases last : Misreads pricing ∧ input + 1 = wordMax 64
    · obtain ⟨misreads, top⟩ := last
      obtain ⟨_, _, interpolated⟩ := misread_interior usable misreads
      rw [show input = wordMax 64 - 1 by omega, interpolated] at read
      have paid := (to_option_some _ _).mp read
      have fits := amount_out_fits paid
      rw [amount_out_given paid] at fits
      exact absurd ⟨misreads, fits⟩ clean
    · rw [interior_paid usable positive within last] at read
      exact (Option.some.inj read).symm

end Closed

section Lists

/-- The bins a curve visits until its total capacity reaches a limit. -/
def visitedBins (limit : Nat) : Nat → List PricedBin → List PricedBin
  | _, [] => []
  | total, bin :: rest =>
      if (stage bin.pricing).Usable then
        if limit ≤ total + bin.pricing.capacity.amountIn then [bin]
        else bin :: visitedBins limit (total + bin.pricing.capacity.amountIn) rest
      else bin :: visitedBins limit total rest

theorem visited_stages (limit total : Nat) (bins : List PricedBin) :
    measured limit total (stages bins) = stages (visitedBins limit total bins) := by
  induction bins generalizing total with
  | nil => rfl
  | cons bin rest ih =>
      rw [measured_cons, visitedBins]
      by_cases usable : (stage bin.pricing).Usable
      · rw [if_pos usable, if_pos usable]
        split
        · rfl
        · rw [ih]
          rfl
      · rw [if_neg usable, if_neg usable, ih]
        rfl

/-- The first bin that a curve has a segment for. -/
def firstMeasured (bins : List PricedBin) : Option PricedBin :=
  bins.find? fun bin => (stage bin.pricing).Usable

/-- No dust before a bin with a segment, no bin that overstates itself, and no absorbed
unit that the next bin with a segment would pay for. -/
def SoundBins : List PricedBin → Prop
  | [] => True
  | bin :: rest =>
      (Dust bin.pricing → firstMeasured rest = none) ∧
      ((stage bin.pricing).Usable → ¬ Overstates bin.pricing ∧
        (Absorbs bin.pricing → ∀ next, firstMeasured rest = some next → unitPay next.pricing = 0)) ∧
      SoundBins rest

theorem first_measured (bins : List PricedBin) :
    firstUsable (stages bins) =
      (firstMeasured bins).map fun bin => (stage bin.pricing, bin.usedIndices) := by
  unfold firstUsable firstMeasured stages
  rw [List.find?_map]
  rfl

theorem first_measured_usable {bins : List PricedBin} {bin : PricedBin}
    (first : firstMeasured bins = some bin) : (stage bin.pricing).Usable := by
  simpa using List.find?_some first

theorem idle_iff (bins : List PricedBin) : IdleAtOne (stages bins) ↔
    ∀ next, firstMeasured bins = some next → unitPay next.pricing = 0 := by
  unfold IdleAtOne
  rw [first_measured]
  constructor
  · intro idle next first
    rw [← unit_paid (first_measured_usable first)]
    exact idle (stage next.pricing, next.usedIndices) (by rw [first]; rfl)
  · intro unpaid entry found
    obtain ⟨next, first, rfl⟩ := Option.map_eq_some_iff.mp found
    rw [unit_paid (first_measured_usable first)]
    exact unpaid next first

/-- A list of bins is sound as stages exactly when none of its bins is at fault. -/
theorem sound_iff (bins : List PricedBin) : Sound (stages bins) ↔ SoundBins bins := by
  induction bins with
  | nil => exact Iff.rfl
  | cons bin rest ih =>
      change ((stage bin.pricing).Dust → firstUsable (stages rest) = none) ∧
        ((stage bin.pricing).Usable → (stage bin.pricing).Exact ∧
          ((stage bin.pricing).Absorbs → IdleAtOne (stages rest))) ∧ Sound (stages rest) ↔ _
      rw [SoundBins, ih, dust_iff, first_measured, Option.map_eq_none_iff, idle_iff]
      refine and_congr_right fun _ => and_congr_left fun _ => forall_congr' fun usable => ?_
      rw [exact_iff usable, absorbs_iff usable]

/-- An input that passes no dust, leaves no absorbed unit behind and does not end one
unit below the word of a misread bin. -/
def Clean : List PricedBin → Nat → Prop
  | [], _ => True
  | bin :: rest, remaining =>
      remaining = 0 ∨
        (if (stage bin.pricing).Usable then
          if remaining ≤ bin.pricing.capacity.amountIn then
            ¬ (Misreads bin.pricing ∧ remaining + 1 = wordMax 64)
          else ¬ (Absorbs bin.pricing ∧ remaining = bin.pricing.capacity.amountIn + 1)
        else ¬ Dust bin.pricing) ∧
        Clean rest (remaining - bin.pricing.capacity.amountIn)

instance decidableClean : ∀ (bins : List PricedBin) (remaining : Nat), Decidable (Clean bins remaining)
  | [], _ => isTrue trivial
  | bin :: rest, remaining =>
      have := decidableClean rest (remaining - bin.pricing.capacity.amountIn)
      inferInstanceAs (Decidable (_ ∨ _ ∧ _))

/-- A clean input is looked up as it is replayed. -/
theorem clean_faithful (bins : List PricedBin) {remaining : Nat} (clean : Clean bins remaining) :
    Faithful (stages bins) remaining := by
  induction bins generalizing remaining with
  | nil => trivial
  | cons bin rest ih =>
      rcases clean with finished | ⟨here, later⟩
      · exact .inl finished
      by_cases zero : remaining = 0
      · exact .inl zero
      split at here
      next usable =>
        have capacity : (stage bin.pricing).capacity = bin.pricing.capacity.amountIn := rfl
        by_cases within : remaining ≤ bin.pricing.capacity.amountIn
        · rw [if_pos within] at here
          have taken := (stage bin.pricing).take_within remaining within
          refine .inr ⟨?_, ?_⟩
          · rw [if_pos usable]
            exact ⟨fun _ => interior_paid usable (by omega) within here,
              fun beyond => absurd within (Nat.not_le.mpr beyond)⟩
          · rw [taken, Nat.sub_self, ← Nat.sub_eq_zero_of_le within]
            exact ih later
        · rw [if_neg within] at here
          have taken : (stage bin.pricing).take remaining = bin.pricing.capacity.amountIn := by
            rcases (stage bin.pricing).take_beyond remaining (Nat.lt_of_not_le within) with taken | ⟨next, taken⟩
            · exact taken
            -- The unit beyond the capacity is taken only by a bin that absorbs it.
            · refine absurd ⟨(absorbs_iff usable).mp ?_, next⟩ here
              unfold Stage.Absorbs
              rw [← next, taken]
          refine .inr ⟨?_, ?_⟩
          · rw [if_pos usable]
            exact ⟨fun inside => absurd inside within, fun _ => taken⟩
          · rw [taken]
            exact ih later
      next unusable =>
        have empty := idle_takes_nothing _ unusable fun dust => here (dust_iff.mp dust)
        have taken := (stage bin.pricing).take_empty remaining empty
        refine .inr ⟨by rw [if_neg unusable]; exact taken, ?_⟩
        have none : bin.pricing.capacity.amountIn = 0 := empty
        rw [none] at later
        rw [taken]
        exact ih later

end Lists

end ArbExecutor.BinDefects
