import ArbExecutor.GuardedRuns

/-!
One job at a time for everyone who asks. A call joins the flight under way or
starts a new one; a flight works on a shared state, settles, and is out of the way
once its last callback has run. The flights are numbered in the order they start.
What a desk looks like is told by the results so far and the one flight that may
be open, and what a job preserves on its own, told by the events so far, is preserved
with any calls between.
-/

namespace ArbExecutor.SingleFlight

open GuardedRuns

variable {Shared Work Value Input : Type}

/-- A flight at work, one that settled and still counts as in flight, one that is through. -/
inductive Stage (Work Value : Type) where
  | working (work : Work)
  | settled (result : Option Value)
  | cleared (result : Option Value)

def Stage.result : Stage Work Value → Option Value
  | .working _ => none
  | .settled result | .cleared result => result

def Stage.isOpen : Stage Work Value → Bool
  | .working _ | .settled _ => true
  | .cleared _ => false

structure Desk (Shared Work Value : Type) where
  shared : Shared
  flights : List (Stage Work Value)
  inFlight : Option Nat

/-- What the job starts with, and what it makes of an input: more work or a result,
none when it failed. -/
structure Job (Shared Work Value Input : Type) where
  start : Work
  advance : Shared → Work → Input → Option (Shared × (Work ⊕ Option Value))

def stageOf : Work ⊕ Option Value → Stage Work Value
  | .inl work => .working work
  | .inr result => .settled result

section Steps
variable (job : Job Shared Work Value Input)

/-- A call and the flight whose result it gets. -/
def call (desk : Desk Shared Work Value) : Desk Shared Work Value × Nat :=
  match desk.inFlight with
  | some flight => (desk, flight)
  | none =>
      ({ desk with flights := desk.flights ++ [.working job.start]
                   inFlight := some desk.flights.length }, desk.flights.length)

def proceed (desk : Desk Shared Work Value) (flight : Nat) (input : Input) :
    Option (Desk Shared Work Value) :=
  match desk.flights[flight]? with
  | some (.working work) =>
      (job.advance desk.shared work input).map fun (shared, next) =>
        { desk with shared, flights := desk.flights.set flight (stageOf next) }
  | _ => none

/-- The last callback of a flight, which lets the next call start another. -/
def clear (desk : Desk Shared Work Value) (flight : Nat) : Option (Desk Shared Work Value) :=
  match desk.flights[flight]? with
  | some (.settled result) =>
      some { desk with flights := desk.flights.set flight (.cleared result), inFlight := none }
  | _ => none

def opened (shared : Shared) : Desk Shared Work Value := { shared, flights := [], inFlight := none }

end Steps

inductive Event (Input : Type) where
  | call
  | proceed (flight : Nat) (input : Input)
  | clear (flight : Nat)

def step (job : Job Shared Work Value Input) (desk : Desk Shared Work Value) :
    Event Input → Option (Desk Shared Work Value)
  | .call => some (call job desk).1
  | .proceed flight input => proceed job desk flight input
  | .clear flight => clear desk flight

/-! What a desk amounts to: the results in order, and at most one flight open. -/
section Serving

structure Served (Shared Work Value : Type) where
  shared : Shared
  results : List (Option Value)
  current : Option (Work ⊕ Option Value)

def Served.desk (served : Served Shared Work Value) : Desk Shared Work Value where
  shared := served.shared
  flights := served.results.map .cleared ++ (served.current.map stageOf).toList
  inFlight := served.current.map fun _ => served.results.length

variable {job : Job Shared Work Value Input}

theorem served_call (served : Served Shared Work Value) :
    call job served.desk =
      ({ served with current := some (served.current.getD (.inl job.start)) : Served _ _ _ }.desk,
        served.results.length) := by
  obtain ⟨shared, results, current⟩ := served
  cases current with
  | none => simp [call, Served.desk, stageOf]
  | some current => rfl

theorem served_flight (served : Served Shared Work Value) (flight : Nat) (stage : Stage Work Value)
    (isOpen : stage.isOpen = true) :
    served.desk.flights[flight]? = some stage ↔
      flight = served.results.length ∧ served.current.map stageOf = some stage := by
  unfold Served.desk
  dsimp only
  rcases Nat.lt_or_ge flight served.results.length with earlier | later
  · rw [List.getElem?_append_left (by rwa [List.length_map]), List.getElem?_map]
    constructor
    · intro found
      obtain ⟨result, _, rfl⟩ := Option.map_eq_some_iff.mp found
      cases isOpen
    · rintro ⟨rfl, _⟩
      omega
  · rw [List.getElem?_append_right (by rwa [List.length_map]), List.length_map]
    cases served.current with
    | none => simp
    | some current =>
        cases atLast : flight - served.results.length with
        | zero => simp; omega
        | succ beyond => simp; omega

/-- The flight in flight is the one that is open. -/
theorem served_in_flight (served : Served Shared Work Value) (flight : Nat) :
    served.desk.inFlight = some flight ↔
      ∃ stage, served.desk.flights[flight]? = some stage ∧ stage.isOpen = true := by
  constructor
  · intro current
    obtain ⟨here, found, rfl⟩ := Option.map_eq_some_iff.mp current
    have isOpen : (stageOf here).isOpen = true := by cases here <;> rfl
    exact ⟨stageOf here, (served_flight served _ _ isOpen).mpr ⟨rfl, by rw [found]; rfl⟩, isOpen⟩
  · rintro ⟨stage, found, isOpen⟩
    obtain ⟨rfl, here⟩ := (served_flight served flight stage isOpen).mp found
    obtain ⟨current, present, _⟩ := Option.map_eq_some_iff.mp here
    exact Option.map_eq_some_iff.mpr ⟨current, present, rfl⟩

/-- What has come of each flight that has settled. -/
def Served.outcomes (served : Served Shared Work Value) : List (Option Value) :=
  match served.current with
  | some (.inr result) => served.results ++ [result]
  | _ => served.results

/-- The values so far, in the order of their flights. -/
def Served.values (served : Served Shared Work Value) : List Value := served.outcomes.filterMap id

theorem served_results (served : Served Shared Work Value) :
    served.desk.flights.filterMap Stage.result = served.values := by
  have cleared : (served.results.map fun result =>
      (Stage.cleared result : Stage Work Value)).filterMap Stage.result =
      served.results.filterMap id := by
    rw [List.filterMap_map]
    rfl
  unfold Served.desk Served.values Served.outcomes
  rw [List.filterMap_append, cleared]
  rcases served.current with _ | (work | result)
  · exact List.append_nil _
  · exact List.append_nil _
  · rw [List.filterMap_append]
    cases result <;> rfl

/-- A flight with a value is one whose outcome is that value. -/
theorem served_outcome (served : Served Shared Work Value) {flight : Nat} {stage : Stage Work Value}
    {value : Value} (found : served.desk.flights[flight]? = some stage) (shows : stage.result = some value) :
    served.outcomes[flight]? = some (some value) := by
  obtain ⟨shared, results, current⟩ := served
  have earlier (cleared : (results.map Stage.cleared)[flight]? = some stage) :
      results[flight]? = some (some value) := by
    rw [List.getElem?_map] at cleared
    obtain ⟨result, held, rfl⟩ := Option.map_eq_some_iff.mp cleared
    exact held.trans (congrArg some shows)
  have last (only : Work ⊕ Option Value)
      (split : (results.map Stage.cleared ++ [stageOf only])[flight]? = some stage) :
      results[flight]? = some (some value) ∨ flight = results.length ∧ stageOf only = stage := by
    rcases Nat.lt_or_ge flight (results.map fun result => (Stage.cleared result : Stage Work Value)).length with before | after
    · rw [List.getElem?_append_left before] at split
      exact .inl (earlier split)
    · rw [List.getElem?_append_right after, List.length_map] at split
      obtain ⟨inside, same⟩ := List.getElem?_eq_some_iff.mp split
      rw [List.length_map] at after
      rw [List.length_singleton] at inside
      exact .inr ⟨by omega, by rw [← same, List.getElem_singleton]⟩
  cases current with
  | none => exact earlier ((List.append_nil (results.map Stage.cleared)) ▸ found)
  | some only =>
      cases only with
      | inl work =>
          rcases last _ found with held | ⟨_, rfl⟩
          · exact held
          · cases shows
      | inr result =>
          rcases last _ found with held | ⟨rfl, rfl⟩
          · exact (List.getElem?_append_left (List.getElem?_eq_some_iff.mp held).1).trans held
          · rw [show result = some value from shows]
            exact List.getElem?_concat_length

theorem served_set (served : Served Shared Work Value) (current : Work ⊕ Option Value)
    (here : served.current = some current) (stage : Stage Work Value) :
    served.desk.flights.set served.results.length stage =
      served.results.map .cleared ++ [stage] := by
  unfold Served.desk
  dsimp only
  rw [here, List.set_append_right _ _ (Nat.le_of_eq (List.length_map _)), List.length_map, Nat.sub_self]
  rfl

/-- A flight proceeds exactly when it is the one open and at work. -/
theorem served_proceed (served : Served Shared Work Value) (flight : Nat) (input : Input)
    (next : Desk Shared Work Value) :
    proceed job served.desk flight input = some next ↔
      flight = served.results.length ∧ ∃ work shared current, served.current = some (.inl work) ∧
        job.advance served.shared work input = some (shared, current) ∧
        next = { served with shared, current := some current : Served _ _ _ }.desk := by
  have working (work : Work) : served.desk.flights[flight]? = some (.working work) ↔
      flight = served.results.length ∧ served.current = some (.inl work) := by
    rw [served_flight served flight _ rfl]
    obtain ⟨shared, results, _ | (other | result)⟩ := served <;> simp [stageOf]
  have further (work : Work) (shared : Shared) (current : Work ⊕ Option Value)
      (here : served.current = some (.inl work)) :
      { served.desk with shared, flights := served.desk.flights.set served.results.length (stageOf current) } =
        { served with shared, current := some current : Served _ _ _ }.desk := by
    rw [served_set served _ here]
    unfold Served.desk
    rw [here]
    rfl
  unfold proceed
  constructor
  · intro taken
    split at taken
    · rename_i work found
      obtain ⟨⟨shared, current⟩, advanced, same⟩ := Option.map_eq_some_iff.mp taken
      obtain ⟨rfl, here⟩ := (working work).mp found
      exact ⟨rfl, work, shared, current, here, advanced, same.symm.trans (further work shared current here)⟩
    · cases taken
  · rintro ⟨rfl, work, shared, current, here, advanced, rfl⟩
    rw [(working work).mpr ⟨rfl, here⟩]
    exact Option.map_eq_some_iff.mpr ⟨_, advanced, further work shared current here⟩

theorem served_clear (served : Served Shared Work Value) (flight : Nat) (next : Desk Shared Work Value) :
    clear served.desk flight = some next ↔
      flight = served.results.length ∧ ∃ result, served.current = some (.inr result) ∧
        next = { served with results := served.results ++ [result], current := none : Served _ _ _ }.desk := by
  have settled (result : Option Value) : served.desk.flights[flight]? = some (.settled result) ↔
      flight = served.results.length ∧ served.current = some (.inr result) := by
    rw [served_flight served flight _ rfl]
    obtain ⟨shared, results, _ | (work | other)⟩ := served <;> simp [stageOf]
  have through (result : Option Value) (here : served.current = some (.inr result)) :
      { served.desk with flights := served.desk.flights.set served.results.length (.cleared result)
                         inFlight := none } =
        { served with results := served.results ++ [result], current := none : Served _ _ _ }.desk := by
    rw [served_set served _ here]
    unfold Served.desk
    simp
  unfold clear
  constructor
  · intro taken
    split at taken
    · rename_i result found
      obtain ⟨rfl, here⟩ := (settled result).mp found
      exact ⟨rfl, result, here, (Option.some.inj taken).symm.trans (through result here)⟩
    · cases taken
  · rintro ⟨rfl, result, here, rfl⟩
    rw [(settled result).mpr ⟨rfl, here⟩]
    exact congrArg some (through result here)

/-- One step, in terms of the results and the flight that may be open. -/
inductive Moves (job : Job Shared Work Value Input) :
    Event Input → Served Shared Work Value → Served Shared Work Value → Prop
  | start {shared : Shared} {results : List (Option Value)} :
      Moves job .call ⟨shared, results, none⟩ ⟨shared, results, some (.inl job.start)⟩
  | join {shared : Shared} {results : List (Option Value)} {current : Work ⊕ Option Value} :
      Moves job .call ⟨shared, results, some current⟩ ⟨shared, results, some current⟩
  | work {shared after : Shared} {results : List (Option Value)} {work : Work} {input : Input}
      {current : Work ⊕ Option Value} (advanced : job.advance shared work input = some (after, current)) :
      Moves job (.proceed results.length input) ⟨shared, results, some (.inl work)⟩
        ⟨after, results, some current⟩
  | clear {shared : Shared} {results : List (Option Value)} {result : Option Value} :
      Moves job (.clear results.length) ⟨shared, results, some (.inr result)⟩
        ⟨shared, results ++ [result], none⟩

theorem step_moves (served : Served Shared Work Value) (event : Event Input)
    (next : Desk Shared Work Value) (taken : step job served.desk event = some next) :
    ∃ after : Served Shared Work Value, next = after.desk ∧ Moves job event served after := by
  cases event with
  | call =>
      obtain rfl : (call job served.desk).1 = next := Option.some.inj taken
      rw [served_call]
      obtain ⟨shared, results, _ | current⟩ := served
      · exact ⟨_, rfl, .start⟩
      · exact ⟨_, rfl, .join⟩
  | proceed flight input =>
      obtain ⟨rfl, work, after, current, here, advanced, rfl⟩ :=
        (served_proceed served flight input next).mp taken
      obtain ⟨shared, results, _⟩ := served
      cases here
      exact ⟨_, rfl, .work advanced⟩
  | clear flight =>
      obtain ⟨rfl, result, here, rfl⟩ := (served_clear served flight next).mp taken
      obtain ⟨shared, results, _⟩ := served
      cases here
      exact ⟨_, rfl, .clear⟩

/-- A step adds a value at the end or leaves the values as they are. -/
theorem moves_values {event : Event Input} {served after : Served Shared Work Value}
    (moves : Moves job event served after) :
    after.values = served.values ∨ ∃ value, after.values = served.values ++ [value] := by
  cases moves with
  | start => exact .inl rfl
  | join => exact .inl rfl
  | @work _ _ results _ _ current _ =>
      unfold Served.values Served.outcomes
      cases current with
      | inl more => exact .inl rfl
      | inr result =>
          cases result with
          | none => exact .inl (by simp)
          | some value => exact .inr ⟨value, by simp⟩
  | clear => exact .inl rfl

end Serving

/-! What a job keeps when nothing else works on the shared state, told by the events so far. -/
section Exclusive
variable {job : Job Shared Work Value Input} {idle : List (Event Input) → Shared → List (Option Value) → Prop}
  {busy : List (Event Input) → Shared → List (Option Value) → Work → Prop}
  {done : List (Event Input) → Shared → List (Option Value) → Option Value → Prop}

/-- A job's invariant before, during and after a flight, with the results of the earlier
ones and all events so far. A call that joins a flight changes nothing else. -/
structure Exclusive (job : Job Shared Work Value Input)
    (idle : List (Event Input) → Shared → List (Option Value) → Prop)
    (busy : List (Event Input) → Shared → List (Option Value) → Work → Prop)
    (done : List (Event Input) → Shared → List (Option Value) → Option Value → Prop) : Prop where
  starts : ∀ past shared results, idle past shared results →
    busy (past ++ [.call]) shared results job.start
  joins : ∀ past shared results,
    (∀ work, busy past shared results work → busy (past ++ [.call]) shared results work) ∧
      ∀ result, done past shared results result → done (past ++ [.call]) shared results result
  works : ∀ past shared results work input after more, busy past shared results work →
    job.advance shared work input = some (after, .inl more) →
      busy (past ++ [.proceed results.length input]) after results more
  settles : ∀ past shared results work input after result, busy past shared results work →
    job.advance shared work input = some (after, .inr result) →
      done (past ++ [.proceed results.length input]) after results result
  clears : ∀ past shared results result, done past shared results result →
    idle (past ++ [.clear results.length]) shared (results ++ [result])

variable (idle busy done) in
def Kept (past : List (Event Input)) (served : Served Shared Work Value) : Prop :=
  match served.current with
  | none => idle past served.shared served.results
  | some (.inl work) => busy past served.shared served.results work
  | some (.inr result) => done past served.shared served.results result

theorem moves_kept (exclusive : Exclusive job idle busy done) {past : List (Event Input)}
    {event : Event Input} {served after : Served Shared Work Value} (moves : Moves job event served after)
    (kept : Kept idle busy done past served) : Kept idle busy done (past ++ [event]) after := by
  cases moves with
  | start => exact exclusive.starts _ _ _ kept
  | @join shared results current =>
      obtain ⟨atWork, atEnd⟩ := exclusive.joins past shared results
      cases current with
      | inl work => exact atWork work kept
      | inr result => exact atEnd result kept
  | @work _ _ _ _ _ current advanced =>
      cases current with
      | inl more => exact exclusive.works _ _ _ _ _ _ _ kept advanced
      | inr result => exact exclusive.settles _ _ _ _ _ _ _ kept advanced
  | clear => exact exclusive.clears _ _ _ _ kept

/-- Whatever is called in between, a desk keeps what the job keeps on its own. -/
theorem run_exclusive (exclusive : Exclusive job idle busy done) (events : List (Event Input))
    {shared : Shared} (initial : idle [] shared []) {desk : Desk Shared Work Value}
    (ran : run (step job) (opened shared) events = some desk) :
    ∃ served : Served Shared Work Value, desk = served.desk ∧ Kept idle busy done events served := by
  refine run_traced (fun past desk => ∃ served : Served Shared Work Value, desk = served.desk ∧
    Kept idle busy done past served) ?_ [] events ⟨⟨shared, [], none⟩, rfl, initial⟩ ran
  rintro past _ event next ⟨served, rfl, kept⟩ taken
  obtain ⟨after, rfl, moves⟩ := step_moves served event next taken
  exact ⟨after, rfl, moves_kept exclusive moves kept⟩

end Exclusive

end ArbExecutor.SingleFlight
