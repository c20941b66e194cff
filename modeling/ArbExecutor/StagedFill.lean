import Mathlib.Tactic

/-!
Two readings of a chain of saturating stages. `replay` feeds an input through
the stages one after another; `lookup` knows only what each stage measures at
its capacity and interpolates in the stage the input ends in. A stage may take
an input and pay nothing for it, and may take one unit beyond its capacity: the
theorems say exactly when the two readings agree nevertheless.
-/

namespace ArbExecutor.StagedFill

/-- A saturating stage: within its capacity it takes everything, beyond it at
most one unit more, and it never pays less for more. `interior` is its own
interpolation, which may overstate or refuse what the stage pays. -/
structure Stage where
  capacity : Nat
  reward : Nat
  take : Nat → Nat
  pay : Nat → Nat
  interior : Nat → Option Nat
  take_empty : ∀ input, capacity = 0 → take input = 0
  take_within : ∀ input, input ≤ capacity → take input = input
  take_beyond : ∀ input, capacity < input →
    take input = capacity ∨ input = capacity + 1 ∧ take input = input
  pay_zero : pay 0 = 0
  pay_mono : ∀ left right, left ≤ right → pay left ≤ pay right
  pay_beyond : ∀ input, capacity ≤ input → pay input = reward
  interior_full : capacity ≠ 0 → reward ≠ 0 → interior capacity = some reward
  interior_above : ∀ input value, reward ≠ 0 → 0 < input → input ≤ capacity →
    interior input = some value → pay input ≤ value
  interior_refuses : ∀ input, reward ≠ 0 → 0 < input → input ≤ capacity →
    interior input = none → 0 < pay (input - 1)

variable {Label : Type}

/-- A measured stage: one that a lookup sees. -/
def Stage.Usable (stage : Stage) : Prop := stage.capacity ≠ 0 ∧ stage.reward ≠ 0

instance (stage : Stage) : Decidable stage.Usable := inferInstanceAs (Decidable (_ ∧ _))

/-- A stage that takes input, pays nothing and is not seen by a lookup. -/
def Stage.Dust (stage : Stage) : Prop := stage.capacity ≠ 0 ∧ stage.reward = 0

/-- A stage that takes one unit beyond its capacity. -/
def Stage.Absorbs (stage : Stage) : Prop := stage.take (stage.capacity + 1) = stage.capacity + 1

/-- A stage whose interpolation never overstates what it pays. -/
def Stage.Exact (stage : Stage) : Prop :=
  ∀ input value, 0 < input → input ≤ stage.capacity → stage.interior input = some value →
    value = stage.pay input

def replay : List (Stage × Label) → Nat → Label → Option (Nat × Label)
  | [], remaining, label => if remaining = 0 then some (0, label) else none
  | (stage, next) :: rest, remaining, label =>
      if remaining = 0 then some (0, label)
      else (replay rest (remaining - stage.take remaining) next).map
        fun result => (stage.pay remaining + result.1, result.2)

def lookup : List (Stage × Label) → Nat → Option (Nat × Label)
  | [], _ => none
  | (stage, label) :: rest, input =>
      if stage.Usable then
        if input ≤ stage.capacity then (stage.interior input).map fun value => (value, label)
        else (lookup rest (input - stage.capacity)).map
          fun result => (stage.reward + result.1, result.2)
      else lookup rest input

/-- The stages a measurement visits until its total capacity reaches a limit. -/
def measured (limit : Nat) : Nat → List (Stage × Label) → List (Stage × Label)
  | _, [] => []
  | total, (stage, label) :: rest =>
      if stage.Usable then
        if limit ≤ total + stage.capacity then [(stage, label)]
        else (stage, label) :: measured limit (total + stage.capacity) rest
      else (stage, label) :: measured limit total rest

section Stages
variable (stage : Stage)

theorem take_le (input : Nat) : stage.take input ≤ input := by
  by_cases within : input ≤ stage.capacity
  · exact (stage.take_within input within).le
  · rcases stage.take_beyond input (by omega) with taken | ⟨_, taken⟩ <;> omega

theorem le_take (input : Nat) : min input stage.capacity ≤ stage.take input := by
  by_cases within : input ≤ stage.capacity
  · have taken := stage.take_within input within
    omega
  · rcases stage.take_beyond input (by omega) with taken | ⟨_, taken⟩ <;> omega

theorem pay_le_reward (input : Nat) : stage.pay input ≤ stage.reward := by
  rw [← stage.pay_beyond (max input stage.capacity) (le_max_right _ _)]
  exact stage.pay_mono _ _ (le_max_left _ _)

theorem unrewarded_pays_nothing (unrewarded : stage.reward = 0) (input : Nat) :
    stage.pay input = 0 := by
  have bounded := pay_le_reward stage input
  omega

theorem unusable_pays_nothing (unusable : ¬ stage.Usable) (input : Nat) : stage.pay input = 0 := by
  apply unrewarded_pays_nothing
  by_contra rewarded
  have empty : stage.capacity = 0 := by
    by_contra some
    exact unusable ⟨some, rewarded⟩
  have full := stage.pay_beyond 0 (by omega)
  rw [stage.pay_zero] at full
  omega

theorem idle_takes_nothing (unusable : ¬ stage.Usable) (clean : ¬ stage.Dust) :
    stage.capacity = 0 := by
  by_contra some
  by_cases unrewarded : stage.reward = 0
  · exact clean ⟨some, unrewarded⟩
  · exact unusable ⟨some, unrewarded⟩

end Stages

section Lookup
variable (stage : Stage) (label : Label) (rest : List (Stage × Label)) {input : Nat}

theorem lookup_inside (usable : stage.Usable) (within : input ≤ stage.capacity) :
    lookup ((stage, label) :: rest) input = (stage.interior input).map fun value => (value, label) := by
  rw [lookup, if_pos usable, if_pos within]

theorem lookup_outside (usable : stage.Usable) (beyond : stage.capacity < input) :
    lookup ((stage, label) :: rest) input =
      (lookup rest (input - stage.capacity)).map fun result => (stage.reward + result.1, result.2) := by
  rw [lookup, if_pos usable, if_neg (by omega)]

theorem lookup_skip (unusable : ¬ stage.Usable) :
    lookup ((stage, label) :: rest) input = lookup rest input := by
  rw [lookup, if_neg unusable]

end Lookup

section Replay

@[simp] theorem replay_finished (stages : List (Stage × Label)) (label : Label) :
    replay stages 0 label = some (0, label) := by
  cases stages <;> simp [replay]

theorem replay_step (stage : Stage) (next label : Label) (rest : List (Stage × Label))
    {remaining : Nat} (positive : remaining ≠ 0) :
    replay ((stage, next) :: rest) remaining label =
      (replay rest (remaining - stage.take remaining) next).map
        fun result => (stage.pay remaining + result.1, result.2) := if_neg positive

/-- While input remains, the label it arrives with does not matter. -/
theorem replay_label (stages : List (Stage × Label)) {remaining : Nat} (positive : remaining ≠ 0)
    (left right : Label) : replay stages remaining left = replay stages remaining right := by
  cases stages with
  | nil => simp [replay, positive]
  | cons head rest => rw [replay_step _ _ _ _ positive, replay_step _ _ _ _ positive]

/-- Stages after those that finish a replay play no part in it. -/
theorem replay_append (stages more : List (Stage × Label)) (remaining : Nat) (label : Label)
    (result : Nat × Label) (finished : replay stages remaining label = some result) :
    replay (stages ++ more) remaining label = some result := by
  induction stages generalizing remaining label result with
  | nil =>
      unfold replay at finished
      split at finished
      next zero => rw [zero, replay_finished]; exact finished
      next => cases finished
  | cons head rest ih =>
      by_cases zero : remaining = 0
      · rw [zero, replay_finished] at finished ⊢; exact finished
      · rw [List.cons_append, replay_step _ _ _ _ zero]
        rw [replay_step _ _ _ _ zero] at finished
        obtain ⟨inner, ran, rfl⟩ := Option.map_eq_some_iff.mp finished
        rw [ih _ _ _ ran]
        rfl

/-- What a stage leaves over grows with what arrives. -/
theorem left_mono (stage : Stage) {fewer more : Nat} (ordered : fewer ≤ more) :
    fewer - stage.take fewer ≤ more - stage.take more := by
  by_cases within : fewer ≤ stage.capacity
  · rw [stage.take_within fewer within, Nat.sub_self]
    exact Nat.zero_le _
  rcases Nat.eq_or_lt_of_le ordered with rfl | strict
  · exact le_rfl
  · have less := stage.take_beyond fewer (by omega)
    have greater := stage.take_beyond more (by omega)
    omega

/-- A replay ends at a label it starts with or passes. -/
theorem replay_reaches (before : Label → Label → Prop)
    (stages : List (Stage × Label)) (remaining : Nat) (start first : Label) (result : Nat × Label)
    (below : before first start) (above : ∀ entry ∈ stages, before first entry.2)
    (ran : replay stages remaining start = some result) : before first result.2 := by
  induction stages generalizing remaining start result with
  | nil =>
      unfold replay at ran
      split at ran
      · cases ran; exact below
      · cases ran
  | cons head rest ih =>
      by_cases zero : remaining = 0
      · rw [zero, replay_finished] at ran
        cases ran
        exact below
      · rw [replay_step _ _ _ _ zero] at ran
        obtain ⟨inner, later, rfl⟩ := Option.map_eq_some_iff.mp ran
        exact ih _ head.2 inner (above head List.mem_cons_self)
          (fun entry member => above entry (List.mem_cons_of_mem _ member)) later

/-- Less input finishes too, with no more output and no later. -/
theorem replay_mono (before : Label → Label → Prop) (reflexive : ∀ label, before label label)
    (stages : List (Stage × Label)) (start : Label)
    (ordered : stages.Pairwise fun left right => before left.2 right.2)
    (above : ∀ entry ∈ stages, before start entry.2) {fewer more : Nat} (less : fewer ≤ more)
    (result : Nat × Label) (ran : replay stages more start = some result) :
    ∃ earlier, replay stages fewer start = some earlier ∧ earlier.1 ≤ result.1 ∧
      before earlier.2 result.2 := by
  induction stages generalizing fewer more start result with
  | nil =>
      unfold replay at ran
      split at ran
      next zero =>
        cases ran
        obtain rfl : fewer = 0 := by omega
        exact ⟨(0, start), replay_finished _ _, le_rfl, reflexive start⟩
      next => cases ran
  | cons head rest ih =>
      obtain ⟨stage, next⟩ := head
      by_cases zero : fewer = 0
      · refine ⟨(0, start), by rw [zero, replay_finished], Nat.zero_le _, ?_⟩
        exact replay_reaches before _ more start start result (reflexive start) above ran
      · rw [replay_step _ _ _ _ (by omega)] at ran
        obtain ⟨inner, later, rfl⟩ := Option.map_eq_some_iff.mp ran
        obtain ⟨follows, ordered⟩ := List.pairwise_cons.mp ordered
        obtain ⟨earlier, finished, bounded, reached⟩ :=
          ih next ordered follows (left_mono stage less) inner later
        -- The smaller input leaves less to the later stages, so the induction bounds them too.
        have paid := stage.pay_mono fewer more less
        exact ⟨(stage.pay fewer + earlier.1, earlier.2), by rw [replay_step _ _ _ _ zero, finished]; rfl,
          Nat.add_le_add paid bounded, reached⟩

/-- Less input finishes whenever more input does. -/
theorem lookup_covers_replay (stages : List (Stage × Label)) (input fewer : Nat) (label : Label)
    (found : (lookup stages input).isSome) (bounded : fewer ≤ input) :
    (replay stages fewer label).isSome := by
  induction stages generalizing input fewer label with
  | nil => cases found
  | cons head rest ih =>
      obtain ⟨stage, next⟩ := head
      by_cases zero : fewer = 0
      · rw [zero, replay_finished]; rfl
      rw [replay_step _ _ _ _ zero, Option.isSome_map]
      have taken := take_le stage fewer
      have enough := le_take stage fewer
      unfold lookup at found
      split at found
      next usable =>
        split at found
        next within =>
          have whole := stage.take_within fewer (bounded.trans within)
          rw [whole, Nat.sub_self, replay_finished]
          rfl
        next beyond =>
          rw [Option.isSome_map] at found
          exact ih _ _ _ found (by omega)
      next unusable => exact ih _ _ _ found (by omega)

end Replay

section Agreement
variable (before : Label → Label → Prop)

/-- Whatever a lookup quotes, a replay pays, at the same or an earlier label. -/
def Agrees (stages : List (Stage × Label)) : Prop :=
  ∀ input value label start, 0 < input → lookup stages input = some (value, label) →
    ∃ reached, replay stages input start = some (value, reached) ∧ before reached label

def firstUsable (stages : List (Stage × Label)) : Option (Stage × Label) :=
  stages.find? fun entry => entry.1.Usable

/-- The first measured stage pays nothing for a single unit. -/
def IdleAtOne (stages : List (Stage × Label)) : Prop :=
  ∀ entry, firstUsable stages = some entry → entry.1.pay 1 = 0

/-- No dust before a measured stage, no stage that absorbs a unit which the next
measured stage would pay for, and no stage that overstates itself. -/
def Sound : List (Stage × Label) → Prop
  | [] => True
  | (stage, _) :: rest =>
      (stage.Dust → firstUsable rest = none) ∧
      (stage.Usable → stage.Exact ∧ (stage.Absorbs → IdleAtOne rest)) ∧ Sound rest

theorem first_usable_cons (stage : Stage) (label : Label) (rest : List (Stage × Label)) :
    firstUsable ((stage, label) :: rest) =
      if stage.Usable then some (stage, label) else firstUsable rest := by
  unfold firstUsable
  rw [List.find?_cons]
  by_cases usable : stage.Usable <;> simp [usable]

theorem lookup_none (stages : List (Stage × Label)) (none : firstUsable stages = none)
    (input : Nat) : lookup stages input = Option.none := by
  induction stages with
  | nil => rfl
  | cons head rest ih =>
      obtain ⟨stage, label⟩ := head
      rw [first_usable_cons] at none
      split at none
      next usable => cases none
      next unusable => rw [lookup_skip _ _ _ unusable]; exact ih none

theorem lookup_first (stages : List (Stage × Label)) (stage : Stage) (label : Label)
    (first : firstUsable stages = some (stage, label)) (input : Nat)
    (within : input ≤ stage.capacity) :
    lookup stages input = (stage.interior input).map fun value => (value, label) := by
  induction stages with
  | nil => cases first
  | cons head rest ih =>
      obtain ⟨current, currentLabel⟩ := head
      rw [first_usable_cons] at first
      split at first
      next usable => cases first; exact lookup_inside stage label rest usable within
      next unusable => rw [lookup_skip _ _ _ unusable]; exact ih first

theorem first_usable_usable (stages : List (Stage × Label)) (entry : Stage × Label)
    (first : firstUsable stages = some entry) : entry.1.Usable := by
  have found := List.find?_some first
  simpa using found

theorem lookup_label_mem (stages : List (Stage × Label)) (input value : Nat) (label : Label)
    (found : lookup stages input = some (value, label)) : ∃ entry ∈ stages, entry.2 = label := by
  induction stages generalizing input value with
  | nil => cases found
  | cons head rest ih =>
      obtain ⟨stage, current⟩ := head
      unfold lookup at found
      split at found
      · split at found
        · obtain ⟨_, _, same⟩ := Option.map_eq_some_iff.mp found
          cases same
          exact ⟨_, List.mem_cons_self, rfl⟩
        · obtain ⟨⟨_, _⟩, inner, same⟩ := Option.map_eq_some_iff.mp found
          cases same
          obtain ⟨entry, member, same⟩ := ih _ _ inner
          exact ⟨entry, List.mem_cons_of_mem _ member, same⟩
      · obtain ⟨entry, member, same⟩ := ih _ _ found
        exact ⟨entry, List.mem_cons_of_mem _ member, same⟩

/-- Before the first measured stage nothing is paid, and that stage is reached
with at most the whole input. -/
theorem replay_to_first (stages : List (Stage × Label)) (stage : Stage) (label : Label)
    (first : firstUsable stages = some (stage, label)) (input : Nat) (within : input ≤ stage.capacity)
    (start : Label) (result : Nat × Label) (ran : replay stages input start = some result) :
    ∃ left ≤ input, result.1 = stage.pay left := by
  induction stages generalizing input start result with
  | nil => cases first
  | cons head rest ih =>
      obtain ⟨current, next⟩ := head
      by_cases zero : input = 0
      · rw [zero, replay_finished] at ran
        cases ran
        exact ⟨0, Nat.zero_le _, stage.pay_zero.symm⟩
      rw [replay_step _ _ _ _ zero] at ran
      obtain ⟨inner, later, rfl⟩ := Option.map_eq_some_iff.mp ran
      rw [first_usable_cons] at first
      split at first
      next usable =>
        cases first
        rw [stage.take_within input within, Nat.sub_self, replay_finished] at later
        cases later
        exact ⟨input, le_rfl, rfl⟩
      next unusable =>
        obtain ⟨left, bounded, paid⟩ := ih first _ (by omega) _ _ later
        refine ⟨left, by omega, ?_⟩
        change current.pay input + inner.1 = _
        rw [unusable_pays_nothing current unusable, paid, Nat.zero_add]

/-- Dust in front of a measured stage makes some lookup overstate its replay: if
all agreed, the stage would pay nothing at every input up to its capacity. -/
theorem dust_disagrees (stage : Stage) (label : Label) (rest : List (Stage × Label))
    (dust : stage.Dust) (entry : Stage × Label) (first : firstUsable rest = some entry) :
    ¬ Agrees before ((stage, label) :: rest) := by
  intro agrees
  obtain ⟨measured, found⟩ := entry
  have usable : measured.Usable := first_usable_usable _ _ first
  have unusable : ¬ stage.Usable := fun both => both.2 dust.2
  have shifted (input value : Nat) (positive : 0 < input) (within : input ≤ measured.capacity)
      (read : measured.interior input = some value) : ∃ left < input, value = measured.pay left := by
    have quoted : lookup ((stage, label) :: rest) input = some (value, found) := by
      rw [lookup_skip _ _ _ unusable, lookup_first rest measured found first input within, read]
      rfl
    obtain ⟨reached, ran, _⟩ := agrees input value found label positive quoted
    rw [replay_step _ _ _ _ (by omega)] at ran
    obtain ⟨inner, ran, same⟩ := Option.map_eq_some_iff.mp ran
    have taken := le_take stage input
    have dusty := dust.1
    obtain ⟨left, bounded, paid⟩ := replay_to_first rest measured found first _ (by omega) _ _ ran
    refine ⟨left, by omega, ?_⟩
    have total : stage.pay input + inner.1 = value := congrArg Prod.fst same
    rw [unusable_pays_nothing stage unusable, Nat.zero_add] at total
    rw [← total, paid]
  -- By strong induction: an input the dust bin has shortened pays what a smaller one does, down to zero.
  have nothing (input : Nat) : input ≤ measured.capacity → measured.pay input = 0 := by
    induction input using Nat.strong_induction_on with
    | _ input ih =>
      intro within
      by_cases zero : input = 0
      · rw [zero]; exact measured.pay_zero
      cases read : measured.interior input with
      | none =>
          have paid := measured.interior_refuses input usable.2 (by omega) within read
          rw [ih (input - 1) (by omega) (by omega)] at paid
          cases paid
      | some value =>
          have bounded := measured.interior_above input value usable.2 (by omega) within read
          obtain ⟨left, less, same⟩ := shifted input value (by omega) within read
          rw [ih left less (by omega)] at same
          omega
  have nonzero := usable.1
  obtain ⟨left, less, same⟩ := shifted measured.capacity measured.reward (by omega) le_rfl
    (measured.interior_full usable.1 usable.2)
  rw [nothing left less.le] at same
  exact usable.2 same

/-- One unit that a lookup pays nothing for is also replayed for nothing. -/
theorem replay_unit (stages : List (Stage × Label)) (label start : Label)
    (reflexive : ∀ label, before label label)
    (ordered : stages.Pairwise fun left right => before left.2 right.2)
    (quoted : lookup stages 1 = some (0, label)) :
    ∃ reached, replay stages 1 start = some (0, reached) ∧ before reached label := by
  induction stages generalizing start with
  | nil => cases quoted
  | cons head rest ih =>
      obtain ⟨stage, current⟩ := head
      obtain ⟨below, ordered⟩ := List.pairwise_cons.mp ordered
      have taken := take_le stage 1
      rw [replay_step _ _ _ _ one_ne_zero]
      unfold lookup at quoted
      split at quoted
      next usable =>
        have within : 1 ≤ stage.capacity := Nat.one_le_iff_ne_zero.mpr usable.1
        rw [if_pos within] at quoted
        obtain ⟨value, read, same⟩ := Option.map_eq_some_iff.mp quoted
        cases same
        -- The fill pays no more than the interior formula reads, and that is nothing.
        have bounded := stage.interior_above 1 0 usable.2 one_pos within read
        rw [stage.take_within 1 within, Nat.sub_self, replay_finished]
        refine ⟨label, ?_, reflexive label⟩
        rw [Nat.le_zero.mp bounded]
        rfl
      next unusable =>
        rw [unusable_pays_nothing stage unusable]
        obtain ⟨entry, member, same⟩ := lookup_label_mem rest 1 0 label quoted
        -- A unit either passes the unusable stage or is lost in it; both leave an output of zero.
        cases size : stage.take 1 with
        | zero =>
            obtain ⟨reached, ran, earlier⟩ := ih current ordered quoted
            exact ⟨reached, by rw [Nat.sub_zero, ran]; rfl, earlier⟩
        | succ more =>
            refine ⟨current, ?_, same ▸ below entry member⟩
            rw [show 1 - (more + 1) = 0 by omega, replay_finished]
            rfl

theorem replay_unit_idle (stages : List (Stage × Label)) (start : Label) (result : Nat × Label)
    (idle : IdleAtOne stages) (ran : replay stages 1 start = some result) : result.1 = 0 := by
  cases first : firstUsable stages with
  | none =>
      induction stages generalizing start result with
      | nil => simp [replay] at ran
      | cons head rest ih =>
          obtain ⟨stage, current⟩ := head
          rw [first_usable_cons] at first
          split at first
          next usable => cases first
          next unusable =>
            rw [replay_step _ _ _ _ one_ne_zero] at ran
            obtain ⟨inner, later, rfl⟩ := Option.map_eq_some_iff.mp ran
            change stage.pay 1 + inner.1 = 0
            rw [unusable_pays_nothing stage unusable, Nat.zero_add]
            have taken := take_le stage 1
            cases size : stage.take 1 with
            | zero =>
                rw [size] at later
                exact ih current inner (fun entry found => by rw [first] at found; cases found) later first
            | succ more =>
                rw [show 1 - stage.take 1 = 0 by omega, replay_finished] at later
                cases later
                rfl
  | some entry =>
      have usable := first_usable_usable stages entry first
      obtain ⟨left, bounded, paid⟩ := replay_to_first stages entry.1 entry.2 first 1
        (Nat.one_le_iff_ne_zero.mpr usable.1) start result ran
      have monotone := entry.1.pay_mono left 1 bounded
      rw [idle entry first] at monotone
      omega

theorem agrees_cons_idle (stage : Stage) (label : Label) (rest : List (Stage × Label))
    (unusable : ¬ stage.Usable) (clean : ¬ stage.Dust) :
    Agrees before ((stage, label) :: rest) ↔ Agrees before rest := by
  have empty := idle_takes_nothing stage unusable clean
  have same (input : Nat) (start : Label) (positive : 0 < input) :
      replay ((stage, label) :: rest) input start = replay rest input start := by
    rw [replay_step _ _ _ _ (by omega), stage.take_empty input empty, Nat.sub_zero,
      unusable_pays_nothing stage unusable, replay_label rest (by omega) label start]
    simp
  have quoted (input : Nat) : lookup ((stage, label) :: rest) input = lookup rest input :=
    lookup_skip stage label rest unusable
  unfold Agrees
  refine forall₄_congr fun input value found start => ?_
  rw [quoted]
  exact forall_congr' fun positive => by rw [same input start positive]

theorem lookup_past (stage : Stage) (label : Label) (rest : List (Stage × Label)) (usable : stage.Usable)
    {input : Nat} (positive : 0 < input) :
    lookup ((stage, label) :: rest) (stage.capacity + input) =
      (lookup rest input).map fun result => (stage.reward + result.1, result.2) := by
  rw [lookup_outside stage label rest usable (by omega), Nat.add_sub_cancel_left]

theorem replay_past (stage : Stage) (label : Label) (rest : List (Stage × Label)) (start : Label)
    {input : Nat} (positive : 0 < input) :
    replay ((stage, label) :: rest) (stage.capacity + input) start =
      (replay rest (stage.capacity + input - stage.take (stage.capacity + input)) label).map
        fun result => (stage.reward + result.1, result.2) := by
  rw [replay_step _ _ _ _ (by omega), stage.pay_beyond _ (by omega)]

section Usable
variable {before} {stage : Stage} {label : Label} {rest : List (Stage × Label)} (usable : stage.Usable)
include usable

theorem agrees_exact (agrees : Agrees before ((stage, label) :: rest)) : stage.Exact := by
  intro input value positive within read
  have inside := lookup_first ((stage, label) :: rest) stage label (by rw [first_usable_cons, if_pos usable])
    input within
  obtain ⟨reached, ran, _⟩ := agrees input value label label positive (by rw [inside, read]; rfl)
  rw [replay_step _ _ _ _ (by omega), stage.take_within input within, Nat.sub_self, replay_finished] at ran
  exact (congrArg Prod.fst (Option.some.inj ran)).symm

/-- An absorbed unit is paid nothing, so the next stage must quote nothing for it. -/
theorem agrees_absorbs (agrees : Agrees before ((stage, label) :: rest)) (absorbs : stage.Absorbs) :
    IdleAtOne rest := by
  intro entry first
  have measured := first_usable_usable rest entry first
  have nonzero := measured.1
  have next := lookup_first rest entry.1 entry.2 first 1 (by omega)
  cases read : entry.1.interior 1 with
  | none =>
      have paid := entry.1.interior_refuses 1 measured.2 one_pos (by omega) read
      rw [Nat.sub_self, entry.1.pay_zero] at paid
      cases paid
  | some value =>
      obtain ⟨reached, ran, _⟩ := agrees (stage.capacity + 1) (stage.reward + value) entry.2 label
        (by omega) (by rw [lookup_past stage label rest usable one_pos, next, read]; rfl)
      rw [replay_past stage label rest label one_pos, absorbs, Nat.sub_self, replay_finished] at ran
      have total : stage.reward + 0 = stage.reward + value :=
        congrArg Prod.fst (Option.some.inj ran)
      have bounded := entry.1.interior_above 1 value measured.2 one_pos (by omega) read
      omega

theorem agrees_rest (reflexive : ∀ label, before label label)
    (ordered : rest.Pairwise fun left right => before left.2 right.2)
    (agrees : Agrees before ((stage, label) :: rest)) : Agrees before rest := by
  intro input value found start positive quoted
  obtain ⟨reached, ran, earlier⟩ := agrees (stage.capacity + input) (stage.reward + value) found
    start (by omega) (by rw [lookup_past stage label rest usable positive, quoted]; rfl)
  rw [replay_past stage label rest start positive] at ran
  obtain ⟨inner, later, same⟩ := Option.map_eq_some_iff.mp ran
  have total : stage.reward + inner.1 = stage.reward + value := congrArg Prod.fst same
  have arrived : inner.2 = reached := congrArg Prod.snd same
  rcases stage.take_beyond (stage.capacity + input) (by omega) with taken | ⟨unit, taken⟩
  · rw [taken, Nat.add_sub_cancel_left, replay_label rest (by omega) label start] at later
    exact ⟨reached, by rw [later, ← arrived, ← Nat.add_left_cancel total], earlier⟩
  · rw [taken, Nat.sub_self, replay_finished] at later
    have single : input = 1 := by omega
    have unpaid : value = 0 := by cases later; exact (Nat.add_left_cancel total).symm
    rw [single, unpaid] at quoted ⊢
    exact replay_unit before rest found start reflexive ordered quoted

theorem agrees_cons (reflexive : ∀ label, before label label) (below : ∀ entry ∈ rest, before label entry.2)
    (exact : stage.Exact) (idle : stage.Absorbs → IdleAtOne rest) (agrees : Agrees before rest) :
    Agrees before ((stage, label) :: rest) := by
  intro input value found start positive quoted
  by_cases within : input ≤ stage.capacity
  · rw [lookup_first _ stage label (by rw [first_usable_cons, if_pos usable]) input within] at quoted
    obtain ⟨_, read, same⟩ := Option.map_eq_some_iff.mp quoted
    cases same
    refine ⟨label, ?_, reflexive label⟩
    rw [replay_step _ _ _ _ (by omega), stage.take_within input within, Nat.sub_self,
      replay_finished, exact input value positive within read]
    rfl
  obtain ⟨more, rfl⟩ : ∃ more, input = stage.capacity + more := ⟨input - stage.capacity, by omega⟩
  rw [lookup_past stage label rest usable (by omega)] at quoted
  obtain ⟨inner, later, same⟩ := Option.map_eq_some_iff.mp quoted
  cases same
  obtain ⟨reached, ran, earlier⟩ := agrees more inner.1 inner.2 label (by omega) later
  rw [replay_past stage label rest start (by omega)]
  rcases stage.take_beyond (stage.capacity + more) (by omega) with taken | ⟨unit, taken⟩
  · rw [taken, Nat.add_sub_cancel_left, ran]
    exact ⟨reached, rfl, earlier⟩
  · -- The stage absorbs the one unit left over, and the rest is idle at one.
    have single : more = 1 := by omega
    rw [taken, Nat.sub_self, replay_finished]
    rw [single] at ran later taken
    have unpaid : inner.1 = 0 := replay_unit_idle rest label (inner.1, reached) (idle taken) ran
    obtain ⟨entry, member, arrived⟩ := lookup_label_mem rest 1 inner.1 inner.2 later
    exact ⟨label, by rw [unpaid]; rfl, arrived ▸ below entry member⟩

end Usable

theorem agrees_cons_usable (stage : Stage) (label : Label) (rest : List (Stage × Label))
    (reflexive : ∀ label, before label label)
    (ordered : ((stage, label) :: rest).Pairwise fun left right => before left.2 right.2)
    (usable : stage.Usable) :
    Agrees before ((stage, label) :: rest) ↔
      (stage.Exact ∧ (stage.Absorbs → IdleAtOne rest)) ∧ Agrees before rest := by
  obtain ⟨below, ordered⟩ := List.pairwise_cons.mp ordered
  constructor
  · intro agrees
    exact ⟨⟨agrees_exact usable agrees, agrees_absorbs usable agrees⟩,
      agrees_rest usable reflexive ordered agrees⟩
  · rintro ⟨⟨exact, idle⟩, agrees⟩
    exact agrees_cons usable reflexive below exact idle agrees

/-- The exact condition under which every lookup is paid by the replay. -/
theorem agrees_iff_sound (stages : List (Stage × Label)) (reflexive : ∀ label, before label label)
    (ordered : stages.Pairwise fun left right => before left.2 right.2) :
    Agrees before stages ↔ Sound stages := by
  induction stages with
  | nil => exact ⟨fun _ => trivial, fun _ _ _ _ _ _ found => nomatch found⟩
  | cons head rest ih =>
      obtain ⟨stage, label⟩ := head
      have inner := ih (List.pairwise_cons.mp ordered).2
      by_cases usable : stage.Usable
      · have clean : ¬ stage.Dust := fun dust => usable.2 dust.2
        rw [agrees_cons_usable before stage label rest reflexive ordered usable, inner]
        exact ⟨fun sound => ⟨fun dust => absurd dust clean, fun _ => sound.1, sound.2⟩,
          fun sound => ⟨sound.2.1 usable, sound.2.2⟩⟩
      -- A dust stage is harmless only when nothing usable follows it.
      by_cases dust : stage.Dust
      · cases first : firstUsable rest with
        | some entry =>
            exact ⟨fun agrees => absurd agrees (dust_disagrees before stage label rest dust entry first),
              fun sound => nomatch first ▸ sound.1 dust⟩
        | none =>
            have vacuous : Agrees before rest := fun input value found start positive quoted => by
              rw [lookup_none rest first] at quoted
              cases quoted
            refine ⟨fun _ => ⟨fun _ => first, fun both => absurd both usable, inner.mp vacuous⟩,
              fun _ input value found start positive quoted => ?_⟩
            rw [lookup_skip _ _ _ usable, lookup_none rest first] at quoted
            cases quoted
      · rw [agrees_cons_idle before stage label rest usable dust, inner]
        exact ⟨fun sound => ⟨fun dusty => absurd dusty dust, fun both => absurd both usable, sound⟩,
          fun sound => sound.2.2⟩

end Agreement

/-! One input at a time: the two readings coincide on an input whose replay meets
no dust, no absorbed unit and no overstated interpolation. -/
section Faithful

def Faithful : List (Stage × Label) → Nat → Prop
  | [], _ => True
  | (stage, _) :: rest, remaining =>
      remaining = 0 ∨
        (if stage.Usable then
          (remaining ≤ stage.capacity → stage.interior remaining = some (stage.pay remaining)) ∧
            (stage.capacity < remaining → stage.take remaining = stage.capacity)
        else stage.take remaining = 0) ∧
        Faithful rest (remaining - stage.take remaining)

theorem faithful_agrees (stages : List (Stage × Label)) (remaining : Nat) (start : Label)
    (positive : 0 < remaining) (faithful : Faithful stages remaining) :
    lookup stages remaining = replay stages remaining start := by
  induction stages generalizing remaining start with
  | nil => simp [lookup, replay]; omega
  | cons head rest ih =>
      obtain ⟨stage, label⟩ := head
      obtain zero | ⟨local_, later⟩ := faithful
      · omega
      rw [replay_step _ _ _ _ (by omega), lookup]
      split at local_
      next usable =>
        rw [if_pos usable]
        split
        next within =>
          rw [local_.1 within, stage.take_within remaining within, Nat.sub_self, replay_finished]
          rfl
        next beyond =>
          rw [local_.2 (by omega)] at later ⊢
          rw [ih _ label (by omega) later, stage.pay_beyond remaining (by omega)]
      next unusable =>
        rw [if_neg unusable]
        rw [local_, Nat.sub_zero] at later ⊢
        rw [ih _ label positive later, unusable_pays_nothing stage unusable]
        simp

end Faithful

section Measured

def totalCapacity : List (Stage × Label) → Nat
  | [] => 0
  | (stage, _) :: rest => if stage.Usable then stage.capacity + totalCapacity rest else totalCapacity rest

def totalReward : List (Stage × Label) → Nat
  | [] => 0
  | (stage, _) :: rest => if stage.Usable then stage.reward + totalReward rest else totalReward rest

theorem measured_split (limit total : Nat) (stages : List (Stage × Label)) :
    ∃ more, stages = measured limit total stages ++ more := by
  induction stages generalizing total with
  | nil => exact ⟨[], rfl⟩
  | cons head rest ih =>
      obtain ⟨stage, label⟩ := head
      unfold measured
      split
      · split
        · exact ⟨rest, rfl⟩
        · obtain ⟨more, split⟩ := ih (total + stage.capacity)
          exact ⟨more, congrArg _ split⟩
      · obtain ⟨more, split⟩ := ih total
        exact ⟨more, congrArg _ split⟩

/-- Within the limit, the unvisited stages play no part in a lookup. -/
theorem lookup_measured (limit total : Nat) (stages : List (Stage × Label)) (input : Nat)
    (within : total + input ≤ limit) :
    lookup (measured limit total stages) input = lookup stages input := by
  induction stages generalizing total input with
  | nil => rfl
  | cons head rest ih =>
      obtain ⟨stage, label⟩ := head
      unfold measured
      split
      next usable =>
        split
        next reached =>
          rw [lookup_inside _ _ _ usable (by omega), lookup_inside _ _ _ usable (by omega)]
        next short =>
          by_cases inside : input ≤ stage.capacity
          · rw [lookup_inside _ _ _ usable inside, lookup_inside _ _ _ usable inside]
          · rw [lookup_outside _ _ _ usable (by omega), lookup_outside _ _ _ usable (by omega),
              ih (total + stage.capacity) _ (by omega)]
      next unusable =>
        rw [lookup_skip _ _ _ unusable, lookup_skip _ _ _ unusable]
        exact ih total input within

/-- A later limit measures more of the same stages. -/
theorem measured_prefix (limit larger total : Nat) (stages : List (Stage × Label))
    (ordered : limit ≤ larger) :
    ∃ more, measured larger total stages = measured limit total stages ++ more := by
  induction stages generalizing total with
  | nil => exact ⟨[], rfl⟩
  | cons head rest ih =>
      obtain ⟨stage, label⟩ := head
      unfold measured
      split
      next usable =>
        obtain ⟨more, split⟩ := ih (total + stage.capacity)
        by_cases reached : limit ≤ total + stage.capacity
        · rw [if_pos reached]
          split
          · exact ⟨[], rfl⟩
          · exact ⟨_, rfl⟩
        · rw [if_neg reached, if_neg (by omega)]
          exact ⟨more, congrArg _ split⟩
      next unusable =>
        obtain ⟨more, split⟩ := ih total
        exact ⟨more, congrArg _ split⟩

/-- A measurement that a later limit would extend has measured something. -/
theorem measured_positive (limit larger total : Nat) (stages : List (Stage × Label)) :
    measured larger total stages = measured limit total stages ∨
      0 < totalCapacity (measured limit total stages) := by
  induction stages generalizing total with
  | nil => exact .inl rfl
  | cons head rest ih =>
      obtain ⟨stage, label⟩ := head
      by_cases usable : stage.Usable
      · have some := usable.1
        refine .inr ?_
        unfold measured
        rw [if_pos usable]
        split
        · rw [totalCapacity, if_pos usable]
          omega
        · rw [totalCapacity, if_pos usable]
          omega
      · unfold measured
        rw [if_neg usable, if_neg usable, totalCapacity, if_neg usable]
        rcases ih total with same | positive
        · exact .inl (congrArg _ same)
        · exact .inr positive

theorem total_capacity_append (front more : List (Stage × Label)) :
    totalCapacity (front ++ more) = totalCapacity front + totalCapacity more := by
  induction front with
  | nil => exact (Nat.zero_add _).symm
  | cons head rest ih =>
      obtain ⟨stage, label⟩ := head
      rw [List.cons_append, totalCapacity, totalCapacity, ih]
      split <;> omega

/-- Stages after those that cover an input play no part in its lookup. -/
theorem lookup_append (front more : List (Stage × Label)) (input : Nat) (positive : 0 < input)
    (within : input ≤ totalCapacity front) : lookup (front ++ more) input = lookup front input := by
  induction front generalizing input with
  | nil => exact absurd within (by unfold totalCapacity; omega)
  | cons head rest ih =>
      obtain ⟨stage, label⟩ := head
      rw [List.cons_append]
      unfold totalCapacity at within
      by_cases usable : stage.Usable
      · rw [if_pos usable] at within
        by_cases inside : input ≤ stage.capacity
        · rw [lookup_inside _ _ _ usable inside, lookup_inside _ _ _ usable inside]
        · rw [lookup_outside _ _ _ usable (by omega), lookup_outside _ _ _ usable (by omega),
            ih _ (by omega) (by omega)]
      · rw [if_neg usable] at within
        rw [lookup_skip _ _ _ usable, lookup_skip _ _ _ usable]
        exact ih input positive within

theorem lookup_within (stages : List (Stage × Label)) (input : Nat)
    (found : (lookup stages input).isSome) : input ≤ totalCapacity stages := by
  induction stages generalizing input with
  | nil => cases found
  | cons head rest ih =>
      obtain ⟨stage, label⟩ := head
      unfold totalCapacity
      unfold lookup at found
      split at found
      next usable =>
        rw [if_pos usable]
        split at found
        next within => omega
        next beyond =>
          rw [Option.isSome_map] at found
          have bounded := ih _ found
          omega
      next unusable => rw [if_neg unusable]; exact ih _ found

end Measured

/-! Stages whose interpolation is what they pay, over all of their capacity. -/
section Total

def Stage.Total (stage : Stage) : Prop :=
  ∀ input, 0 < input → input ≤ stage.capacity → stage.interior input = some (stage.pay input)

/-- The same for the inputs up to a bound only. -/
def Stage.TotalUpTo (stage : Stage) (bound : Nat) : Prop :=
  ∀ input, 0 < input → input ≤ bound → input ≤ stage.capacity →
    stage.interior input = some (stage.pay input)

theorem Stage.Total.up_to {stage : Stage} (total : stage.Total) (bound : Nat) :
    stage.TotalUpTo bound := fun input positive _ within => total input positive within

theorem Stage.TotalUpTo.mono {stage : Stage} {bound smaller : Nat} (total : stage.TotalUpTo bound)
    (ordered : smaller ≤ bound) : stage.TotalUpTo smaller :=
  fun input positive below within => total input positive (below.trans ordered) within

theorem capacity_le_total (stages : List (Stage × Label)) :
    ∀ entry ∈ stages, entry.1.Usable → entry.1.capacity ≤ totalCapacity stages := by
  induction stages with
  | nil => exact fun _ member => absurd member List.not_mem_nil
  | cons head rest ih =>
      intro entry member usable
      unfold totalCapacity
      rcases List.mem_cons.mp member with rfl | later
      · rw [if_pos usable]
        exact Nat.le_add_right _ _
      · have bounded := ih entry later usable
        split <;> omega

theorem lookup_total (stages : List (Stage × Label)) (input : Nat)
    (total : ∀ entry ∈ stages, entry.1.Usable → entry.1.TotalUpTo input) (positive : 0 < input)
    (within : input ≤ totalCapacity stages) :
    ∃ value label, lookup stages input = some (value, label) ∧ value ≤ totalReward stages := by
  induction stages generalizing input with
  | nil => exact absurd within (by unfold totalCapacity; omega)
  | cons head rest ih =>
      obtain ⟨stage, label⟩ := head
      have later (entry : Stage × Label) (member : entry ∈ rest) :=
        total entry (List.mem_cons_of_mem _ member)
      unfold totalCapacity at within
      unfold totalReward
      by_cases usable : stage.Usable
      · rw [if_pos usable] at within ⊢
        by_cases inside : input ≤ stage.capacity
        · have read := total (stage, label) List.mem_cons_self usable input positive le_rfl inside
          have paid := pay_le_reward stage input
          exact ⟨stage.pay input, label, by rw [lookup_inside _ _ _ usable inside, read]; rfl, by omega⟩
        · obtain ⟨value, found, quoted, bounded⟩ :=
            ih (input - stage.capacity)
              (fun entry member usable => (later entry member usable).mono (Nat.sub_le _ _))
              (by omega) (by omega)
          exact ⟨_, found, by rw [lookup_outside _ _ _ usable (by omega), quoted]; rfl, by
            dsimp only; omega⟩
      · rw [if_neg usable] at within ⊢
        rw [lookup_skip _ _ _ usable]
        exact ih input later positive within

/-- More input never looks up less. -/
theorem lookup_mono (stages : List (Stage × Label))
    (total : ∀ entry ∈ stages, entry.1.Usable → entry.1.Total) {fewer input less more : Nat}
    {left right : Label} (positive : 0 < fewer) (ordered : fewer ≤ input)
    (first : lookup stages fewer = some (less, left))
    (second : lookup stages input = some (more, right)) : less ≤ more := by
  induction stages generalizing fewer input less more with
  | nil => cases first
  | cons head rest ih =>
      obtain ⟨stage, label⟩ := head
      by_cases usable : stage.Usable
      · have exact := total (stage, label) List.mem_cons_self usable
        have later (entry : Stage × Label) (member : entry ∈ rest) :=
          total entry (List.mem_cons_of_mem _ member)
        -- Two inputs in one stage compare by its fill; in different ones the first has paid its whole reward.
        by_cases inside : fewer ≤ stage.capacity
        · rw [lookup_inside _ _ _ usable inside, exact fewer positive inside] at first
          cases first
          by_cases within : input ≤ stage.capacity
          · rw [lookup_inside _ _ _ usable within, exact input (by omega) within] at second
            cases second
            exact stage.pay_mono _ _ ordered
          · rw [lookup_outside _ _ _ usable (by omega)] at second
            obtain ⟨inner, _, same⟩ := Option.map_eq_some_iff.mp second
            cases same
            exact (pay_le_reward stage fewer).trans (Nat.le_add_right _ _)
        · rw [lookup_outside _ _ _ usable (by omega)] at first second
          obtain ⟨⟨leftInner, _⟩, leftFound, leftSame⟩ := Option.map_eq_some_iff.mp first
          obtain ⟨⟨rightInner, _⟩, rightFound, rightSame⟩ := Option.map_eq_some_iff.mp second
          cases leftSame
          cases rightSame
          exact Nat.add_le_add_left (ih later (by omega) (by omega) leftFound rightFound) _
      · rw [lookup_skip _ _ _ usable] at first second
        exact ih (fun entry member => total entry (List.mem_cons_of_mem _ member)) positive ordered first
          second

end Total

end ArbExecutor.StagedFill
