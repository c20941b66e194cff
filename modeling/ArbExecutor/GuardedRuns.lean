import Mathlib.Algebra.Ring.Nat
import Mathlib.Data.List.Basic

/-!
Finite runs of a partial step function over events. An invariant that every
allowed event preserves holds wherever a run of allowed events arrives; a
relation that every step respects holds between the ends of a run; a measure that
every step lowers bounds its length.
-/

namespace ArbExecutor.GuardedRuns

variable {State Event : Type}

/-- The state a sequence of events leads to; none when one of them is not enabled. -/
def run (step : State → Event → Option State) : State → List Event → Option State
  | state, [] => some state
  | state, event :: rest => (step state event).bind fun next => run step next rest

/-- Every event of the sequence is allowed in the state it is taken in. -/
def AllowedAlong (step : State → Event → Option State) (allowed : State → Event → Prop) :
    State → List Event → Prop
  | _, [] => True
  | state, event :: rest =>
      allowed state event ∧ ∀ next, step state event = some next → AllowedAlong step allowed next rest

instance decidableAllowedAlong (step : State → Event → Option State) (allowed : State → Event → Prop)
    [∀ state event, Decidable (allowed state event)] :
    ∀ (events : List Event) (state : State), Decidable (AllowedAlong step allowed state events)
  | [], _ => isTrue trivial
  | event :: rest, state =>
      match taken : step state event with
      | none => decidable_of_iff (allowed state event)
          ⟨fun here => ⟨here, fun _ same => nomatch taken.symm.trans same⟩, And.left⟩
      | some next =>
          have : Decidable (AllowedAlong step allowed next rest) :=
            decidableAllowedAlong step allowed rest next
          decidable_of_iff (allowed state event ∧ AllowedAlong step allowed next rest)
            ⟨fun both => ⟨both.1, fun _ same => Option.some.inj (taken.symm.trans same) ▸ both.2⟩,
              fun along => ⟨along.1, along.2 next taken⟩⟩

variable {step : State → Event → Option State} {allowed : State → Event → Prop}

theorem run_cons_some (state final : State) (event : Event) (rest : List Event) :
    run step state (event :: rest) = some final ↔
      ∃ next, step state event = some next ∧ run step next rest = some final :=
  Option.bind_eq_some_iff

theorem run_append {events more : List Event} {state reached final : State}
    (ran : run step state events = some reached) (ranOn : run step reached more = some final) :
    run step state (events ++ more) = some final := by
  induction events generalizing state with
  | nil =>
      cases ran
      exact ranOn
  | cons event rest ih =>
      obtain ⟨next, taken, later⟩ := (run_cons_some state reached event rest).mp ran
      exact (run_cons_some state final event (rest ++ more)).mpr ⟨next, taken, ih later⟩

/-- What every allowed event preserves, a run of allowed events preserves. -/
theorem run_invariant (invariant : State → Prop)
    (preserves : ∀ state event next, allowed state event → invariant state →
      step state event = some next → invariant next)
    (events : List Event) (state final : State) (initial : invariant state)
    (along : AllowedAlong step allowed state events) (ran : run step state events = some final) :
    invariant final := by
  induction events generalizing state with
  | nil =>
      cases ran
      exact initial
  | cons event rest ih =>
      obtain ⟨next, taken, later⟩ := (run_cons_some state final event rest).mp ran
      exact ih next (preserves state event next along.1 initial taken) (along.2 next taken) later

theorem always_allowed (events : List Event) (state : State) :
    AllowedAlong step (fun _ _ => True) state events := by
  induction events generalizing state with
  | nil => trivial
  | cons event rest ih => exact ⟨trivial, fun next _ => ih next⟩

theorem allowed_of_events {ordinary : Event → Prop} (events : List Event) (state : State)
    (all : ∀ event ∈ events, ordinary event) :
    AllowedAlong step (fun _ event => ordinary event) state events := by
  induction events generalizing state with
  | nil => trivial
  | cons event rest ih =>
      exact ⟨all event List.mem_cons_self, fun next _ =>
        ih next fun other member => all other (List.mem_cons_of_mem event member)⟩

theorem allowed_and {other : State → Event → Prop} (events : List Event) (state : State)
    (one : AllowedAlong step allowed state events) (two : AllowedAlong step other state events) :
    AllowedAlong step (fun state event => allowed state event ∧ other state event) state events := by
  induction events generalizing state with
  | nil => trivial
  | cons event rest ih =>
      exact ⟨⟨one.1, two.1⟩, fun next taken => ih next (one.2 next taken) (two.2 next taken)⟩

theorem run_preserves (invariant : State → Prop)
    (preserves : ∀ state event next, invariant state → step state event = some next → invariant next)
    {events : List Event} {state final : State} (initial : invariant state)
    (ran : run step state events = some final) : invariant final :=
  run_invariant invariant (fun state event next _ => preserves state event next) events state final
    initial (always_allowed events state) ran

/-- A relation to the events taken so far that every step carries on holds for the
events of a whole run. -/
theorem run_traced (traced : List Event → State → Prop)
    (carries : ∀ past state event next, traced past state → step state event = some next →
      traced (past ++ [event]) next)
    (past events : List Event) {state final : State} (initial : traced past state)
    (ran : run step state events = some final) : traced (past ++ events) final := by
  induction events generalizing past state with
  | nil =>
      cases ran
      rw [List.append_nil]
      exact initial
  | cons event rest ih =>
      obtain ⟨next, taken, later⟩ := (run_cons_some state final event rest).mp ran
      rw [List.append_cons]
      exact ih (past ++ [event]) (carries past state event next initial taken) later

/-- A reflexive and transitive relation that every step respects, every run respects. -/
theorem run_respects (invariant : State → Prop) (relation : State → State → Prop)
    (refl : ∀ state, relation state state)
    (trans : ∀ first second third, relation first second → relation second third → relation first third)
    (preserves : ∀ state event next, invariant state → step state event = some next →
      invariant next ∧ relation state next)
    (events : List Event) {state final : State} (initial : invariant state)
    (ran : run step state events = some final) : relation state final := by
  induction events generalizing state with
  | nil =>
      cases ran
      exact refl _
  | cons event rest ih =>
      obtain ⟨next, taken, later⟩ := (run_cons_some state final event rest).mp ran
      obtain ⟨kept, related⟩ := preserves state event next initial taken
      exact trans state next final related (ih kept later)

/-- A run of events that all lower a measure is no longer than the measure it starts with. -/
theorem run_length_le (invariant : State → Prop) (counted : Event → Prop) (measure : State → Nat)
    (preserves : ∀ state event next, invariant state → step state event = some next → invariant next)
    (lowers : ∀ state event next, invariant state → counted event → step state event = some next →
      measure next < measure state)
    (events : List Event) (all : ∀ event ∈ events, counted event) {state final : State}
    (initial : invariant state) (ran : run step state events = some final) :
    events.length ≤ measure state := by
  induction events generalizing state with
  | nil => exact Nat.zero_le _
  | cons event rest ih =>
      obtain ⟨next, taken, later⟩ := (run_cons_some state final event rest).mp ran
      have lower := lowers state event next initial (all event List.mem_cons_self) taken
      have bounded := ih (fun other member => all other (List.mem_cons_of_mem event member))
        (preserves state event next initial taken) later
      rw [List.length_cons]
      omega

/-- Events that pay for themselves out of a measure cost no more than it and what
other events add to it, along a run that keeps an invariant. -/
theorem run_budget (invariant : State → Prop) (cost credit : Event → Nat) (measure : State → Nat)
    (moves : ∀ state event next, allowed state event → invariant state →
      step state event = some next →
        invariant next ∧ measure next + cost event ≤ measure state + credit event)
    (events : List Event) {state final : State} (initial : invariant state)
    (along : AllowedAlong step allowed state events) (ran : run step state events = some final) :
    invariant final ∧
      (events.map cost).sum + measure final ≤ measure state + (events.map credit).sum := by
  induction events generalizing state with
  | nil =>
      cases ran
      exact ⟨initial, Nat.le_of_eq (Nat.add_comm _ _)⟩
  | cons event rest ih =>
      obtain ⟨next, taken, later⟩ := (run_cons_some state final event rest).mp ran
      obtain ⟨kept, moved⟩ := moves state event next along.1 initial taken
      obtain ⟨final, bounded⟩ := ih kept (along.2 next taken) later
      refine ⟨final, ?_⟩
      rw [List.map_cons, List.map_cons, List.sum_cons, List.sum_cons]
      omega

/-- A price per counted event adds up by their number. -/
theorem sum_counted (counted : Event → Bool) (price : Nat) (events : List Event) :
    (events.map fun event => if counted event then price else 0).sum =
      price * (events.filter counted).length := by
  induction events with
  | nil => rfl
  | cons event rest ih =>
      rw [List.map_cons, List.sum_cons, ih, List.filter_cons]
      cases counted event with
      | true => exact (Nat.add_comm _ _).trans (Nat.mul_succ _ _).symm
      | false => exact Nat.zero_add _

/-- Counted events that lower a measure are no more than it allows, among allowed
events of which none raises it. -/
theorem run_counted_le (counted : Event → Bool) (measure : State → Nat)
    (moves : ∀ state event next, allowed state event → step state event = some next →
      measure next + (if counted event then 1 else 0) ≤ measure state)
    (events : List Event) {state final : State} (along : AllowedAlong step allowed state events)
    (ran : run step state events = some final) :
    (events.filter counted).length + measure final ≤ measure state := by
  have bounded := (run_budget (fun _ => True) (fun event => if counted event then 1 else 0)
    (fun _ => 0) measure (fun state event next allowed _ taken =>
      ⟨trivial, moves state event next allowed taken⟩) events trivial along ran).2
  have none : (events.map fun _ => 0).sum = 0 := by simp
  rw [sum_counted, Nat.one_mul, none] at bounded
  exact bounded

end ArbExecutor.GuardedRuns
