import ArbExecutor.BoundarySample
import ArbExecutor.CoverageCap

/-!
The candidate amounts of the two searches. Both push the range's ends and then,
segment by segment, a boundary sample and the neighbourhood of an interior root
into one bounded buffer. A reverse search samples every segment; a forward
search samples none before the first segment that opens, with both of its ends
sampled.
-/

namespace ArbExecutor.CandidateCoverage

open Checked QuoteMath QuoteAccounts AccountValidation BestDirection DynamicAmount BinPricing
  StagedFill BinWalk CurveMeasure BinArrayLayout DirectionOutcome MinimumProbe CurveShape CurveSoundness
  PumpQuotes BoundarySample

section Buffer

/-- While the buffer has room, pushing keeps what was there and adds the amount once. -/
theorem push_unique_room {candidates : List Nat} {amount : Nat} (nonzero : amount ≠ 0)
    (distinct : candidates.Nodup) (room : candidates.length < maxDynamicCandidates) :
    (pushUnique candidates amount).Nodup ∧
      (pushUnique candidates amount).length ≤ candidates.length + 1 ∧
      ∀ other, other ∈ pushUnique candidates amount ↔ other ∈ candidates ∨ other = amount := by
  unfold pushUnique
  by_cases present : amount ∈ candidates
  · rw [if_pos (.inr present)]
    refine ⟨distinct, Nat.le_succ _, fun other => ⟨.inl, ?_⟩⟩
    rintro (member | rfl)
    · exact member
    · exact present
  · rw [if_neg (by rintro (zero | member); exacts [nonzero zero, present member]), if_pos room]
    refine ⟨?_, by simp, fun other => by simp⟩
    rw [← List.concat_eq_append]
    exact distinct.concat present

theorem push_all (pushed candidates : List Nat) (nonzero : ∀ amount ∈ pushed, amount ≠ 0)
    (distinct : candidates.Nodup)
    (room : candidates.length + pushed.length ≤ maxDynamicCandidates) :
    (pushed.foldl pushUnique candidates).Nodup ∧
      ∀ amount, amount ∈ pushed.foldl pushUnique candidates ↔ amount ∈ candidates ∨ amount ∈ pushed := by
  induction pushed generalizing candidates with
  | nil => exact ⟨distinct, fun amount => by simp⟩
  | cons first rest ih =>
      rw [List.length_cons] at room
      obtain ⟨once, longer, members⟩ :=
        push_unique_room (nonzero first List.mem_cons_self) distinct (by omega)
      obtain ⟨final, all⟩ := ih (pushUnique candidates first)
        (fun amount member => nonzero amount (List.mem_cons_of_mem _ member)) once (by omega)
      refine ⟨final, fun amount => ?_⟩
      rw [List.foldl_cons, all, members, List.mem_cons, or_assoc]

end Buffer

section Pushes
variable (least greatest : Nat)

def inRange (amount : Nat) : Bool := decide (least ≤ amount ∧ amount ≤ greatest)

/-- What one sampled segment pushes. -/
def segmentPushes (boundary : Nat) (interior : Option Nat) : List Nat :=
  [boundary].filter (inRange least greatest) ++
    match interior with
    | some interior =>
        if least ≤ interior ∧ interior ≤ greatest then
          [interior - interiorNeighborhood, interior, saturatingAdd 64 interior interiorNeighborhood].filter
            (inRange least greatest)
        else []
    | none => []

theorem segment_pushes_few (boundary : Nat) (interior : Option Nat) :
    (segmentPushes least greatest boundary interior).length ≤ 4 := by
  unfold segmentPushes
  rw [List.length_append]
  have one := List.length_filter_le (inRange least greatest) [boundary]
  have three (left middle right : Nat) :=
    List.length_filter_le (inRange least greatest) [left, middle, right]
  simp only [List.length_cons, List.length_nil] at one three
  cases interior with
  | none => exact one.trans (by decide)
  | some interior =>
      dsimp only
      split
      · exact Nat.add_le_add one (three _ _ _)
      · exact one.trans (by decide)

theorem segment_pushes_range (boundary : Nat) (interior : Option Nat) :
    ∀ amount ∈ segmentPushes least greatest boundary interior, least ≤ amount ∧ amount ≤ greatest := by
  intro amount member
  unfold segmentPushes at member
  have filtered {amounts : List Nat} (inside : amount ∈ amounts.filter (inRange least greatest)) :
      least ≤ amount ∧ amount ≤ greatest := of_decide_eq_true (List.mem_filter.mp inside).2
  rcases List.mem_append.mp member with first | later
  · exact filtered first
  · cases interior with
    | none => cases later
    | some interior =>
        dsimp only at later
        split at later
        · exact filtered later
        · cases later

theorem boundary_pushed {boundary : Nat} (interior : Option Nat) (above : least ≤ boundary)
    (below : boundary ≤ greatest) : boundary ∈ segmentPushes least greatest boundary interior :=
  List.mem_append_left _ (List.mem_filter.mpr ⟨List.mem_singleton_self _,
    decide_eq_true ⟨above, below⟩⟩)

theorem fold_filter (amounts candidates : List Nat) :
    amounts.foldl (fun candidates candidate =>
        if least ≤ candidate ∧ candidate ≤ greatest then pushUnique candidates candidate
        else candidates) candidates =
      (amounts.filter (inRange least greatest)).foldl pushUnique candidates := by
  induction amounts generalizing candidates with
  | nil => rfl
  | cons first rest ih =>
      rw [List.foldl_cons, ih, List.filter_cons]
      unfold inRange
      by_cases inside : least ≤ first ∧ first ≤ greatest
      · rw [if_pos inside, if_pos (decide_eq_true inside)]
        rfl
      · rw [if_neg inside, if_neg (by simpa using inside)]

theorem push_segment_candidates (state : CandidateState) (boundary : Nat) (interior : Option Nat) :
    (pushSegment state boundary interior least greatest).candidates =
      (segmentPushes least greatest boundary interior).foldl pushUnique state.candidates := by
  have first := fold_filter least greatest [boundary] state.candidates
  unfold pushSegment segmentPushes
  rw [List.foldl_append, ← first]
  cases interior with
  | none =>
      dsimp only
      rw [List.foldl_nil, List.foldl_cons, List.foldl_nil]
      split <;> rfl
  | some interior =>
      dsimp only
      rw [List.foldl_cons, List.foldl_nil]
      by_cases within : least ≤ interior ∧ interior ≤ greatest
      · rw [if_pos within, if_pos within]
        unfold pushNeighborhood
        rw [fold_filter]
        split <;> rfl
      · rw [if_neg within, if_neg within, List.foldl_nil]
        split <;> rfl

end Pushes

section Searches
variable (market : MarketState) (least greatest : Nat)

/-- What a forward search pushes from a known previous end. -/
def forwardPushes : Option Nat → List DlmmSegment → List Nat
  | _, [] => []
  | previous, segment :: rest =>
      match pumpInputAtOrBelowTargetOut market segment.inputEnd with
      | none => forwardPushes previous rest
      | some segmentEnd =>
          match forwardSegmentStart market segment previous with
          | none => forwardPushes previous rest
          | some segmentStart =>
              (if segmentEnd < least ∨ greatest < segmentStart then []
                else segmentPushes least greatest segmentEnd
                  (forwardInteriorCandidate market segment segmentStart segmentEnd)) ++
                forwardPushes (some segmentEnd) rest

/-- Both ends of a segment have a sample; the start of the curve needs none. -/
def opens (segment : DlmmSegment) : Bool :=
  (segment.inputStart = 0 || (pumpInputAtOrBelowTargetOut market segment.inputStart).isSome) &&
    (pumpInputAtOrBelowTargetOut market segment.inputEnd).isSome

/-- The segments before the first one that opens. -/
def unopened (segments : List DlmmSegment) : List DlmmSegment :=
  segments.takeWhile fun segment => !opens market segment

/-- A lost sample is regained where the first segment that opens ends at it, or starts
at it and has its interior candidate one unit further. -/
def Regained (segments : List DlmmSegment) (sample : Nat) : Prop :=
  ∃ opening segmentEnd, segments.find? (opens market) = some opening ∧
    pumpInputAtOrBelowTargetOut market opening.inputEnd = some segmentEnd ∧
    (segmentEnd = sample ∨
      pumpInputAtOrBelowTargetOut market opening.inputStart = some sample ∧ sample < greatest ∧
        forwardInteriorCandidate market opening sample segmentEnd = some (sample + 1))

def reversePushes (segments : List DlmmSegment) : List Nat :=
  segments.flatMap fun segment =>
    if segment.inputEnd < least ∨ greatest < segment.inputStart then []
    else segmentPushes least greatest segment.inputEnd (reverseInteriorCandidate market segment)

theorem push_segment_previous (state : CandidateState) (boundary : Nat) (interior : Option Nat) :
    (pushSegment state boundary interior least greatest).previousSegmentEndInput =
      state.previousSegmentEndInput := by
  unfold pushSegment
  cases interior with
  | none => dsimp only; split <;> rfl
  | some interior => dsimp only; split <;> split <;> rfl

theorem forward_fold (segments : List DlmmSegment) (state : CandidateState) :
    (segments.foldl (pushForwardSegment market least greatest) state).candidates =
      (forwardPushes market least greatest state.previousSegmentEndInput segments).foldl pushUnique
        state.candidates := by
  induction segments generalizing state with
  | nil => rfl
  | cons segment rest ih =>
      rw [List.foldl_cons, ih]
      unfold pushForwardSegment
      rw [forwardPushes]
      cases pumpInputAtOrBelowTargetOut market segment.inputEnd with
      | none => cases forwardSegmentStart market segment state.previousSegmentEndInput <;> rfl
      | some segmentEnd =>
          cases forwardSegmentStart market segment state.previousSegmentEndInput with
          | none => rfl
          | some segmentStart =>
              dsimp only
              rw [List.foldl_append]
              by_cases outside : segmentEnd < least ∨ greatest < segmentStart
              · rw [if_pos outside, if_pos outside]
                rfl
              · rw [if_neg outside, if_neg outside, push_segment_previous, push_segment_candidates]

theorem reverse_fold (segments : List DlmmSegment) (state : CandidateState) :
    (segments.foldl (pushReverseSegment market least greatest) state).candidates =
      (reversePushes market least greatest segments).foldl pushUnique state.candidates := by
  induction segments generalizing state with
  | nil => rfl
  | cons segment rest ih =>
      rw [List.foldl_cons, ih]
      unfold pushReverseSegment reversePushes
      rw [List.flatMap_cons, List.foldl_append]
      split
      · rfl
      · rw [push_segment_candidates]

theorem forward_pushes_few (previous : Option Nat) (segments : List DlmmSegment) :
    (forwardPushes market least greatest previous segments).length ≤ segments.length * 4 := by
  induction segments generalizing previous with
  | nil => exact le_rfl
  | cons segment rest ih =>
      have shorter := ih previous
      unfold forwardPushes
      rw [List.length_cons]
      split
      next => omega
      next segmentEnd _ =>
      split
      next => omega
      next segmentStart _ =>
        have few := segment_pushes_few least greatest segmentEnd
          (forwardInteriorCandidate market segment segmentStart segmentEnd)
        have later := ih (some segmentEnd)
        rw [List.length_append]
        split
        · rw [List.length_nil]
          omega
        · omega

theorem reverse_pushes_few (segments : List DlmmSegment) :
    (reversePushes market least greatest segments).length ≤ segments.length * 4 := by
  induction segments with
  | nil => exact le_rfl
  | cons segment rest ih =>
      have few := segment_pushes_few least greatest segment.inputEnd (reverseInteriorCandidate market segment)
      unfold reversePushes at ih ⊢
      rw [List.flatMap_cons, List.length_append, List.length_cons]
      split
      · rw [List.length_nil]
        omega
      · omega

theorem forward_pushes_range (previous : Option Nat) (segments : List DlmmSegment) :
    ∀ amount ∈ forwardPushes market least greatest previous segments,
      least ≤ amount ∧ amount ≤ greatest := by
  induction segments generalizing previous with
  | nil => exact fun _ member => absurd member List.not_mem_nil
  | cons segment rest ih =>
      intro amount member
      unfold forwardPushes at member
      split at member
      · exact ih _ amount member
      split at member
      · exact ih _ amount member
      · rcases List.mem_append.mp member with first | later
        · split at first
          · cases first
          · exact segment_pushes_range least greatest _ _ amount first
        · exact ih _ amount later

theorem reverse_pushes_range (segments : List DlmmSegment) :
    ∀ amount ∈ reversePushes market least greatest segments, least ≤ amount ∧ amount ≤ greatest := by
  intro amount member
  obtain ⟨segment, _, pushed⟩ := List.mem_flatMap.mp member
  split at pushed
  · cases pushed
  · exact segment_pushes_range least greatest _ _ amount pushed

theorem gross_boundary_mono {fewer more : Nat} (ordered : fewer ≤ more)
    (below : more < market.pumpBaseReserve.toNat) : grossBoundary market fewer ≤ grossBoundary market more := by
  unfold grossBoundary boundaryInput
  exact Nat.div_le_div_right (Nat.mul_le_mul_right _ (ConstantProduct.curve_in_mono ordered below))

/-- A sampled segment starts at or below its end: its start is one, or the sample
of an earlier segment's end. -/
theorem forward_start_below {previous : Option Nat} {totalIn totalOut segmentStart segmentEnd : Nat}
    {segment : DlmmSegment} {rest : List DlmmSegment}
    (contiguous : Contiguous totalIn totalOut (segment :: rest))
    (known : ∀ sample, previous = some sample → ∃ target ≤ totalIn, sample = grossBoundary market target)
    (started : forwardSegmentStart market segment previous = some segmentStart)
    (ended : pumpInputAtOrBelowTargetOut market segment.inputEnd = some segmentEnd) :
    segmentStart ≤ segmentEnd := by
  obtain ⟨startIn, _, rises, _⟩ := contiguous
  obtain ⟨_, below, rfl, some, _⟩ := sample_some market ended
  unfold forwardSegmentStart at started
  split at started
  · cases started
    omega
  split at started
  next sample =>
    cases started
    obtain ⟨target, earlier, rfl⟩ := known _ rfl
    exact gross_boundary_mono market (by omega) below
  next =>
    obtain ⟨_, _, rfl, _⟩ := sample_some market started
    exact gross_boundary_mono market (by omega) below

theorem interior_between {segment : DlmmSegment} {segmentStart segmentEnd interior : Nat}
    (found : forwardInteriorCandidate market segment segmentStart segmentEnd = some interior) :
    segmentStart < interior ∧ interior < segmentEnd ∧ interior < 2 ^ 64 := by
  simp only [forwardInteriorCandidate, Option.bind_eq_bind, Option.bind_eq_some_iff] at found
  obtain ⟨_, _, _, _, _, _, _, _, _, _, _, _, _, _, _, _, _, _, found⟩ := found
  split at found
  · cases found
  obtain ⟨_, _, found⟩ := Option.bind_eq_some_iff.mp found
  split at found
  · cases found
  simp only [Option.bind_eq_some_iff, narrow_some] at found
  obtain ⟨_, _, _, _, _, ⟨rfl, fits⟩, found⟩ := found
  split at found
  next between =>
    cases found
    exact ⟨between.1, between.2, fits⟩
  next => cases found

/-- What a segment pushes is not below its start. -/
theorem segment_pushes_above {segment : DlmmSegment} {segmentStart segmentEnd : Nat}
    (ordered : segmentStart ≤ segmentEnd) :
    ∀ amount ∈ segmentPushes least greatest segmentEnd
      (forwardInteriorCandidate market segment segmentStart segmentEnd), segmentStart ≤ amount := by
  intro amount member
  unfold segmentPushes at member
  rcases List.mem_append.mp member with boundary | later
  · rw [List.mem_singleton.mp (List.mem_filter.mp boundary).1]
    exact ordered
  · cases found : forwardInteriorCandidate market segment segmentStart segmentEnd with
    | none =>
        rw [found] at later
        cases later
    | some interior =>
        obtain ⟨after, _, fits⟩ := interior_between market found
        rw [found] at later
        dsimp only at later
        split at later
        · have listed := (List.mem_filter.mp later).1
          unfold interiorNeighborhood saturatingAdd at listed
          simp only [List.mem_cons, List.not_mem_nil, or_false] at listed
          omega
        · cases later

/-- A segment pushes its own start only as its end or as the neighbour of its interior
candidate. -/
theorem start_pushed_iff {segment : DlmmSegment} {segmentStart segmentEnd : Nat}
    (above : least ≤ segmentStart) (within : segmentStart ≤ greatest) :
    segmentStart ∈ segmentPushes least greatest segmentEnd
        (forwardInteriorCandidate market segment segmentStart segmentEnd) ↔
      segmentEnd = segmentStart ∨ segmentStart < greatest ∧
        forwardInteriorCandidate market segment segmentStart segmentEnd = some (segmentStart + 1) := by
  have kept : inRange least greatest segmentStart = true := decide_eq_true ⟨above, within⟩
  unfold segmentPushes
  rw [List.mem_append, List.mem_filter, List.mem_singleton, and_iff_left kept]
  refine or_congr eq_comm ?_
  cases found : forwardInteriorCandidate market segment segmentStart segmentEnd with
  | none => simp
  | some interior =>
      obtain ⟨after, _, fits⟩ := interior_between market found
      dsimp only
      rw [Option.some.injEq]
      by_cases inside : least ≤ interior ∧ interior ≤ greatest
      · rw [if_pos inside, List.mem_filter, and_iff_left kept]
        unfold interiorNeighborhood saturatingAdd
        simp only [List.mem_cons, List.not_mem_nil, or_false]
        omega
      · rw [if_neg inside]
        refine iff_of_false List.not_mem_nil ?_
        omega

theorem opens_iff (segment : DlmmSegment) : opens market segment = true ↔
    ∃ segmentStart segmentEnd, forwardSegmentStart market segment none = some segmentStart ∧
      pumpInputAtOrBelowTargetOut market segment.inputEnd = some segmentEnd := by
  unfold opens forwardSegmentStart
  rw [Bool.and_eq_true, Bool.or_eq_true, decide_eq_true_iff, Option.isSome_iff_exists,
    Option.isSome_iff_exists]
  by_cases first : segment.inputStart = 0
  · rw [if_pos first]
    simp [first]
  · rw [if_neg first]
    simp [first]

/-- A segment that does not open pushes nothing and leaves no previous end. -/
theorem forward_pushes_unopened {segment : DlmmSegment} (rest : List DlmmSegment)
    (closed : opens market segment ≠ true) :
    forwardPushes market least greatest none (segment :: rest) =
      forwardPushes market least greatest none rest := by
  rw [forwardPushes]
  cases ended : pumpInputAtOrBelowTargetOut market segment.inputEnd with
  | none => rfl
  | some segmentEnd =>
      cases started : forwardSegmentStart market segment none with
      | none => rfl
      | some segmentStart => exact absurd ((opens_iff market segment).mpr ⟨_, _, started, ended⟩) closed

theorem opening_start_below {segment : DlmmSegment} {rest : List DlmmSegment} {totalIn totalOut : Nat}
    (contiguous : Contiguous totalIn totalOut (segment :: rest)) {segmentStart segmentEnd : Nat}
    (started : forwardSegmentStart market segment none = some segmentStart)
    (ended : pumpInputAtOrBelowTargetOut market segment.inputEnd = some segmentEnd) :
    segmentStart ≤ segmentEnd := by
  have unknown : ∀ sample, none = some sample →
      ∃ earlier ≤ totalIn, sample = grossBoundary market earlier := fun _ same => nomatch same
  exact forward_start_below market contiguous unknown started ended

theorem known_start {segment : DlmmSegment} {rest : List DlmmSegment} (previous : Nat)
    {totalIn totalOut : Nat} (contiguous : Contiguous totalIn totalOut (segment :: rest))
    (begun : totalIn ≠ 0) : forwardSegmentStart market segment (some previous) = some previous := by
  obtain ⟨startIn, _⟩ := contiguous
  unfold forwardSegmentStart
  rw [if_neg (by omega)]

/-- From a known previous end on, nothing below it is pushed. -/
theorem forward_pushes_above {previous totalIn totalOut : Nat} (segments : List DlmmSegment)
    (contiguous : Contiguous totalIn totalOut segments) (begun : totalIn ≠ 0)
    (known : ∃ target ≤ totalIn, previous = grossBoundary market target) :
    ∀ amount ∈ forwardPushes market least greatest (some previous) segments, previous ≤ amount := by
  induction segments generalizing previous totalIn totalOut with
  | nil => exact fun _ member => absurd member List.not_mem_nil
  | cons segment rest ih =>
      obtain ⟨target, earlier, sampled⟩ := known
      have started := known_start market previous contiguous begun
      have below (segmentEnd : Nat)
          (ended : pumpInputAtOrBelowTargetOut market segment.inputEnd = some segmentEnd) :
          previous ≤ segmentEnd :=
        forward_start_below market contiguous
          (fun sample same => ⟨target, earlier, Option.some.inj same ▸ sampled⟩) started ended
      obtain ⟨startIn, _, rises, _, later⟩ := contiguous
      intro amount member
      rw [forwardPushes] at member
      cases ended : pumpInputAtOrBelowTargetOut market segment.inputEnd with
      | none =>
          rw [ended] at member
          exact ih later (by omega) ⟨target, by omega, sampled⟩ amount member
      | some segmentEnd =>
          have ordered := below segmentEnd ended
          rw [ended, started] at member
          rcases List.mem_append.mp member with here | deeper
          · split at here
            · cases here
            · exact segment_pushes_above market least greatest ordered amount here
          · exact ordered.trans (ih later (by omega) ⟨_, le_rfl, (sample_some market ended).2.2.1⟩ amount deeper)

/-- From a known previous end on, every sample in range is pushed. -/
theorem known_samples {previous totalIn totalOut : Nat} (segments : List DlmmSegment)
    (contiguous : Contiguous totalIn totalOut segments) (begun : totalIn ≠ 0)
    (known : ∃ target ≤ totalIn, previous = grossBoundary market target) :
    ∀ segment ∈ segments, ∀ sample, pumpInputAtOrBelowTargetOut market segment.inputEnd = some sample →
      least ≤ sample → sample ≤ greatest → sample ∈ forwardPushes market least greatest (some previous) segments := by
  induction segments generalizing previous totalIn totalOut with
  | nil => exact fun _ member => absurd member List.not_mem_nil
  | cons segment rest ih =>
      have started := known_start market previous contiguous begun
      have below (segmentEnd : Nat)
          (ended : pumpInputAtOrBelowTargetOut market segment.inputEnd = some segmentEnd) :
          previous ≤ segmentEnd :=
        forward_start_below market contiguous (fun _ same => Option.some.inj same ▸ known) started ended
      obtain ⟨startIn, _, rises, _, later⟩ := contiguous
      obtain ⟨target, earlier, sampledThere⟩ := known
      intro wanted member sample sampled above within
      rw [forwardPushes, started]
      cases ended : pumpInputAtOrBelowTargetOut market segment.inputEnd with
      | none =>
          rcases List.mem_cons.mp member with rfl | deeper
          · cases ended.symm.trans sampled
          · exact ih later (by omega) ⟨target, by omega, sampledThere⟩ wanted deeper sample sampled above within
      | some segmentEnd =>
          rcases List.mem_cons.mp member with rfl | deeper
          · cases ended.symm.trans sampled
            have ordered := below _ ended
            dsimp only
            rw [if_neg (by omega)]
            exact List.mem_append_left _ (boundary_pushed least greatest _ above within)
          · exact List.mem_append_right _ (ih later (by omega) ⟨_, le_rfl, (sample_some market ended).2.2.1⟩
              wanted deeper sample sampled above within)

theorem unopened_cons {segment : DlmmSegment} (rest : List DlmmSegment)
    (closed : opens market segment ≠ true) :
    unopened market (segment :: rest) = segment :: unopened market rest :=
  List.takeWhile_cons_of_pos (by simpa using closed)

/-- Every sample in range is pushed, or its segment lies before the first that opens. -/
theorem forward_samples {totalIn totalOut : Nat} (segments : List DlmmSegment)
    (contiguous : Contiguous totalIn totalOut segments) :
    ∀ segment ∈ segments, ∀ sample, pumpInputAtOrBelowTargetOut market segment.inputEnd = some sample →
      least ≤ sample → sample ≤ greatest →
      sample ∈ forwardPushes market least greatest none segments ∨ segment ∈ unopened market segments := by
  induction segments generalizing totalIn totalOut with
  | nil => exact fun _ member => absurd member List.not_mem_nil
  | cons segment rest ih =>
      intro wanted member sample sampled above within
      by_cases opened : opens market segment = true
      · obtain ⟨segmentStart, segmentEnd, started, ended⟩ := (opens_iff market segment).mp opened
        have ordered := opening_start_below market contiguous started ended
        obtain ⟨_, _, rises, _, later⟩ := contiguous
        rw [forwardPushes, ended, started]
        rcases List.mem_cons.mp member with rfl | deeper
        · cases ended.symm.trans sampled
          dsimp only
          rw [if_neg (by omega)]
          exact .inl (List.mem_append_left _ (boundary_pushed least greatest _ above within))
        · exact .inl (List.mem_append_right _ (known_samples market least greatest rest later (by omega)
            ⟨_, le_rfl, (sample_some market ended).2.2.1⟩ wanted deeper sample sampled above within))
      · -- Without a start or an end the source skips the segment, and an end it has just sampled is lost.
        rw [forward_pushes_unopened market least greatest rest opened, unopened_cons market rest opened]
        rcases List.mem_cons.mp member with rfl | deeper
        · exact .inr List.mem_cons_self
        · exact (ih contiguous.2.2.2.2 wanted deeper sample sampled above within).imp_right
            (List.mem_cons_of_mem _)

theorem regained_unopened {segment : DlmmSegment} (rest : List DlmmSegment) (sample : Nat)
    (closed : opens market segment ≠ true) :
    Regained market greatest (segment :: rest) sample ↔ Regained market greatest rest sample := by
  unfold Regained
  rw [List.find?_cons_of_neg closed]

/-- Where the first segment opens, an earlier boundary is pushed exactly where that segment
regains it. -/
theorem opening_boundary_iff {target totalIn totalOut : Nat} {segment : DlmmSegment} (rest : List DlmmSegment)
    (contiguous : Contiguous totalIn totalOut (segment :: rest)) (begun : totalIn ≠ 0)
    (earlier : target ≤ totalIn) (opened : opens market segment = true)
    (above : least ≤ grossBoundary market target) (within : grossBoundary market target ≤ greatest) :
    grossBoundary market target ∈ forwardPushes market least greatest none (segment :: rest) ↔
      Regained market greatest (segment :: rest) (grossBoundary market target) := by
  obtain ⟨segmentStart, segmentEnd, started, ended⟩ := (opens_iff market segment).mp opened
  have ordered := opening_start_below market contiguous started ended
  obtain ⟨startIn, _, rises, _, later⟩ := contiguous
  have atStart : pumpInputAtOrBelowTargetOut market segment.inputStart = some segmentStart := by
    unfold forwardSegmentStart at started
    rwa [if_neg (by omega)] at started
  obtain ⟨_, priced, same, _⟩ := sample_some market atStart
  have least_start : grossBoundary market target ≤ segmentStart := by
    rw [same]
    exact gross_boundary_mono market (by omega) priced
  have first : (segment :: rest).find? (opens market) = some segment := List.find?_cons_of_pos opened
  rw [forwardPushes, ended, started]
  dsimp only
  constructor
  · intro member
    refine ⟨segment, segmentEnd, first, ended, ?_⟩
    rcases List.mem_append.mp member with here | deeper
    · split at here
      · cases here
      · have reached := segment_pushes_above market least greatest ordered _ here
        have same : segmentStart = grossBoundary market target := le_antisymm reached least_start
        rw [same] at here atStart
        rcases (start_pushed_iff market least greatest above within).mp here with atEnd | ⟨room, next⟩
        · exact .inl atEnd
        · exact .inr ⟨atStart, room, next⟩
    · -- What later segments push lies at or above the end of the one that opens.
      have reached := forward_pushes_above market least greatest rest later (by omega)
        ⟨_, le_rfl, (sample_some market ended).2.2.1⟩ _ deeper
      exact .inl (by omega)
  · rintro ⟨opening, openingEnd, found, endedThere, atEnd | ⟨startedThere, room, next⟩⟩
    · cases first.symm.trans found
      cases ended.symm.trans endedThere
      rw [if_neg (by omega), ← atEnd]
      exact List.mem_append_left _ (boundary_pushed least greatest _ (by omega) (by omega))
    · cases first.symm.trans found
      cases ended.symm.trans endedThere
      cases atStart.symm.trans startedThere
      rw [if_neg (by omega)]
      exact List.mem_append_left _
        ((start_pushed_iff market least greatest above within).mpr (.inr ⟨room, next⟩))

/-- The boundary of an output that comes before all segments is pushed exactly where it
is regained. -/
theorem boundary_regained_iff {target totalIn totalOut : Nat} (segments : List DlmmSegment)
    (contiguous : Contiguous totalIn totalOut segments) (begun : totalIn ≠ 0) (earlier : target ≤ totalIn)
    (above : least ≤ grossBoundary market target) (within : grossBoundary market target ≤ greatest) :
    grossBoundary market target ∈ forwardPushes market least greatest none segments ↔
      Regained market greatest segments (grossBoundary market target) := by
  induction segments generalizing totalIn totalOut with
  | nil => exact iff_of_false List.not_mem_nil fun ⟨_, _, found, _⟩ => nomatch found
  | cons segment rest ih =>
      by_cases opened : opens market segment = true
      · exact opening_boundary_iff market least greatest rest contiguous begun earlier opened above within
      · obtain ⟨_, _, rises, _, later⟩ := contiguous
        rw [forward_pushes_unopened market least greatest rest opened,
          regained_unopened market greatest rest _ opened]
        exact ih later (by omega) (by omega)

/-- A sample before the first segment that opens is pushed exactly where it is regained. -/
theorem unopened_pushed_iff {totalIn totalOut : Nat} (segments : List DlmmSegment)
    (contiguous : Contiguous totalIn totalOut segments) :
    ∀ segment ∈ unopened market segments, ∀ sample,
      pumpInputAtOrBelowTargetOut market segment.inputEnd = some sample →
      least ≤ sample → sample ≤ greatest →
      (sample ∈ forwardPushes market least greatest none segments ↔
        Regained market greatest segments sample) := by
  induction segments generalizing totalIn totalOut with
  | nil => exact fun _ member => absurd member List.not_mem_nil
  | cons head rest ih =>
      obtain ⟨_, _, rises, _, later⟩ := contiguous
      intro segment member sample sampled above within
      by_cases opened : opens market head = true
      · unfold unopened at member
        rw [List.takeWhile_cons_of_neg (by simpa using opened)] at member
        cases member
      · rw [unopened_cons market rest opened] at member
        rw [forward_pushes_unopened market least greatest rest opened,
          regained_unopened market greatest rest _ opened]
        rcases List.mem_cons.mp member with rfl | deeper
        · obtain ⟨_, _, rfl, _⟩ := sample_some market sampled
          exact boundary_regained_iff market least greatest rest later (by omega) le_rfl above within
        · exact ih later segment deeper sample sampled above within

theorem unopened_subset (segments : List DlmmSegment) :
    ∀ segment ∈ unopened market segments, segment ∈ segments :=
  fun _ member => (List.takeWhile_sublist _).subset member

end Searches

section Coverage
variable (market : MarketState)

/-- The amounts at which a direction's segments end, where it has a sample for them. -/
def samplesIn : SelectedDirection → List DlmmSegment → List Nat
  | .pumpToMeteora, segments =>
      segments.filterMap fun segment => pumpInputAtOrBelowTargetOut market segment.inputEnd
  | .meteoraToPump, segments => segments.map (·.inputEnd)

def pushesIn : SelectedDirection → Nat → Nat → List DlmmSegment → List Nat
  | .pumpToMeteora, least, greatest, segments => forwardPushes market least greatest none segments
  | .meteoraToPump, least, greatest, segments => reversePushes market least greatest segments

/-- The candidates of a range: both ends, every sample in it, nothing outside it,
nothing twice, and nothing lost to a full buffer. -/
structure Covers (candidates samples pushes : List Nat) (least greatest : Nat) : Prop where
  leastKept : least ∈ candidates
  greatestKept : greatest ∈ candidates
  sampled : ∀ sample ∈ samples, least ≤ sample → sample ≤ greatest → sample ∈ candidates
  ranged : ∀ amount ∈ candidates, least ≤ amount ∧ amount ≤ greatest
  distinct : candidates.Nodup
  kept : ∀ amount ∈ pushes, amount ∈ candidates

theorem candidates_eq (direction : SelectedDirection) (curve : DlmmCurve) (least greatest : Nat) :
    (candidatesIn market direction curve least greatest).candidates =
      (least :: greatest :: pushesIn market direction least greatest curve.segments).foldl pushUnique [] := by
  cases direction with
  | pumpToMeteora => exact forward_fold market least greatest curve.segments _
  | meteoraToPump => exact reverse_fold market least greatest curve.segments _

theorem pushes_in_few (direction : SelectedDirection) (least greatest : Nat) (segments : List DlmmSegment) :
    (pushesIn market direction least greatest segments).length ≤ segments.length * 4 := by
  cases direction with
  | pumpToMeteora => exact forward_pushes_few market least greatest none segments
  | meteoraToPump => exact reverse_pushes_few market least greatest segments

theorem pushes_in_range (direction : SelectedDirection) (least greatest : Nat)
    (segments : List DlmmSegment) :
    ∀ amount ∈ pushesIn market direction least greatest segments, least ≤ amount ∧ amount ≤ greatest := by
  cases direction with
  | pumpToMeteora => exact forward_pushes_range market least greatest none segments
  | meteoraToPump => exact reverse_pushes_range market least greatest segments

/-- The samples of a forward curve that lie strictly within a range and before its first
segment that opens are regained by that segment. -/
def LostRegained (direction : SelectedDirection) (least greatest : Nat) (segments : List DlmmSegment) : Prop :=
  direction = .pumpToMeteora → ∀ segment ∈ unopened market segments, ∀ sample,
    pumpInputAtOrBelowTargetOut market segment.inputEnd = some sample → least < sample →
      sample < greatest → Regained market greatest segments sample

/-- Every sample strictly in range is pushed exactly where the lost ones are regained. -/
theorem samples_pushed_iff (direction : SelectedDirection) (least greatest : Nat) {segments : List DlmmSegment}
    (contiguous : Contiguous 0 0 segments) :
    (∀ sample ∈ samplesIn market direction segments, least < sample → sample < greatest →
      sample ∈ pushesIn market direction least greatest segments) ↔
      LostRegained market direction least greatest segments := by
  cases direction with
  | pumpToMeteora =>
      constructor
      · intro pushed _ segment member sample sampled above within
        exact (unopened_pushed_iff market least greatest segments contiguous segment member sample sampled
          above.le within.le).mp (pushed sample
            (List.mem_filterMap.mpr ⟨segment, unopened_subset market segments segment member, sampled⟩)
            above within)
      · intro regained sample member above within
        obtain ⟨segment, inside, sampled⟩ := List.mem_filterMap.mp member
        rcases forward_samples market least greatest segments contiguous segment inside sample sampled
          above.le within.le with pushed | lost
        · exact pushed
        · exact (unopened_pushed_iff market least greatest segments contiguous segment lost sample sampled
            above.le within.le).mpr (regained (Eq.refl _) segment lost sample sampled above within)
  | meteoraToPump =>
      refine iff_of_true ?_ fun forward => nomatch forward
      intro sample member above within
      obtain ⟨segment, inside, rfl⟩ := List.mem_map.mp member
      obtain ⟨_, rises, _⟩ := reaching_own_end contiguous segment inside
      refine List.mem_flatMap.mpr ⟨segment, inside, ?_⟩
      rw [if_neg (by omega)]
      exact boundary_pushed least greatest _ above.le within.le

variable {pair : LbPairState} {arrays : List AccountInfo} {bitmapExtension : Option Bytes}
  {swapForY : Bool} {timestamp : Int64} {inputLimit : Nat} {curve : DlmmCurve}

/-- A search covers its range exactly when it is reverse, or regains the samples that it
loses before its first segment opens. -/
theorem candidates_cover_iff (direction : SelectedDirection)
    (built : buildCurve pair arrays bitmapExtension swapForY timestamp inputLimit = .ok curve)
    (least greatest : Nat) (positive : 0 < least) (ordered : least ≤ greatest) :
    Covers (candidatesIn market direction curve least greatest).candidates
        (samplesIn market direction curve.segments)
        (pushesIn market direction least greatest curve.segments) least greatest ↔
      LostRegained market direction least greatest curve.segments := by
  obtain ⟨contiguous, ⟨counted, visited⟩, _⟩ := built_shaped built
  have few := pushes_in_few market direction least greatest curve.segments
  have ranged := pushes_in_range market direction least greatest curve.segments
  have inside : ∀ amount ∈ least :: greatest :: pushesIn market direction least greatest curve.segments,
      least ≤ amount ∧ amount ≤ greatest := by
    intro amount member
    rcases List.mem_cons.mp member with rfl | member
    · exact ⟨le_rfl, ordered⟩
    rcases List.mem_cons.mp member with rfl | member
    · exact ⟨ordered, le_rfl⟩
    · exact ranged amount member
  -- All pushes fit below the cap, so none is dropped for want of room.
  obtain ⟨distinct, members⟩ := push_all
    (least :: greatest :: pushesIn market direction least greatest curve.segments) []
    (fun amount member => by have above := (inside amount member).1; omega) List.nodup_nil (by
      unfold maxDynamicCandidates
      simp only [List.length_cons, List.length_nil]
      omega)
  rw [← candidates_eq] at distinct members
  have held (amount : Nat) : amount ∈ (candidatesIn market direction curve least greatest).candidates ↔
      amount = least ∨ amount = greatest ∨
        amount ∈ pushesIn market direction least greatest curve.segments := by
    rw [members, List.mem_cons, List.mem_cons]
    simp
  rw [← samples_pushed_iff market direction least greatest contiguous]
  constructor
  · intro covers sample member above within
    rcases (held sample).mp (covers.sampled sample member above.le within.le) with same | same | pushed
    · omega
    · omega
    · exact pushed
  · intro pushed
    refine ⟨(held _).mpr (.inl rfl), (held _).mpr (.inr (.inl rfl)), ?_, ?_, distinct, ?_⟩
    · intro sample member above within
      rcases Nat.lt_or_eq_of_le above with higher | same
      · rcases Nat.lt_or_eq_of_le within with lower | same
        · exact (held sample).mpr (.inr (.inr (pushed sample member higher lower)))
        · exact (held sample).mpr (.inr (.inl same))
      · exact (held sample).mpr (.inl same.symm)
    · intro amount member
      rcases (members amount).mp member with empty | listed
      · cases empty
      · exact inside amount listed
    · exact fun amount kept => (held amount).mpr (.inr (.inr kept))

end Coverage

/-! Where WSOL buys thousands of the base token, a bin of two has no sample, and
the segment after it is passed over although its end has one. -/
section TinySegment

theorem tiny_segment_candidates :
    ((buildCurve steepMarket.pair [tinyBinArray] none true 0 (wordMax 64)).toOption.map fun curve =>
      (coverage steepMarket .pumpToMeteora curve 1000,
        samplesIn steepMarket .pumpToMeteora curve.segments,
        (candidatesIn steepMarket .pumpToMeteora curve 50
          (coverage steepMarket .pumpToMeteora curve 1000)).candidates)) =
      some (104, [101], [50, 104]) := by
  decide +kernel

theorem tiny_segment_hides_sample :
    ∃ curve, buildCurve steepMarket.pair [tinyBinArray] none true 0 (wordMax 64) = .ok curve ∧
      ¬ Covers (candidatesIn steepMarket .pumpToMeteora curve 50
            (coverage steepMarket .pumpToMeteora curve 1000)).candidates
          (samplesIn steepMarket .pumpToMeteora curve.segments)
          (pushesIn steepMarket .pumpToMeteora 50 (coverage steepMarket .pumpToMeteora curve 1000)
            curve.segments)
          50 (coverage steepMarket .pumpToMeteora curve 1000) := by
  obtain ⟨curve, built, same⟩ := Option.map_eq_some_iff.mp tiny_segment_candidates
  simp only [Prod.mk.injEq] at same
  obtain ⟨largest, samples, candidates⟩ := same
  refine ⟨curve, (to_option_some _ _).mp built, fun covers => ?_⟩
  rw [samples, candidates, largest] at covers
  exact absurd (covers.sampled 101 List.mem_cons_self (by decide) (by decide)) (by decide)

/-- With thirty thousand in front both ends have a sample. -/
def openingBinArray : AccountInfo :=
  binArrayAccount meteoraDlmmProgramId meteoraDlmmProgramId 0 [payingBin 300000, payingBin 30000]

theorem opening_curve :
    ((buildCurve steepMarket.pair [openingBinArray] none true 0 (wordMax 64)).toOption.map fun curve =>
      (coverage steepMarket .pumpToMeteora curve 1000,
        samplesIn steepMarket .pumpToMeteora curve.segments,
        (unopened steepMarket curve.segments).length)) = some (114, [11, 111], 0) := by
  decide +kernel

theorem candidates_cover_opening :
    ∃ curve, buildCurve steepMarket.pair [openingBinArray] none true 0 (wordMax 64) = .ok curve ∧
      samplesIn steepMarket .pumpToMeteora curve.segments = [11, 111] ∧
      coverage steepMarket .pumpToMeteora curve 1000 = 114 ∧
      Covers (candidatesIn steepMarket .pumpToMeteora curve 5 114).candidates
        (samplesIn steepMarket .pumpToMeteora curve.segments)
        (pushesIn steepMarket .pumpToMeteora 5 114 curve.segments) 5 114 := by
  obtain ⟨curve, built, same⟩ := Option.map_eq_some_iff.mp opening_curve
  simp only [Prod.mk.injEq] at same
  obtain ⟨largest, samples, opened⟩ := same
  have built := (to_option_some _ _).mp built
  refine ⟨curve, built, samples, largest, (candidates_cover_iff steepMarket .pumpToMeteora built 5 114
    (by decide) (by decide)).mpr fun _ segment lost => ?_⟩
  rw [List.eq_nil_of_length_eq_zero opened] at lost
  cases lost

example : ((buildCurve steepMarket.pair [openingBinArray] none true 0 (wordMax 64)).toOption.map fun curve =>
    (candidatesIn steepMarket .pumpToMeteora curve 5 114).candidates) = some [5, 114, 11, 111] := by
  decide +kernel

end TinySegment

end ArbExecutor.CandidateCoverage
