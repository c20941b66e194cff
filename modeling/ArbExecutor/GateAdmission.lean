import ArbExecutor.GuardedRuns
import ArbExecutor.SenderPipeline
import ArbExecutor.StageTable

/-!
The concurrency gate of scripts/sender-pipeline.ts under any interleaving. A call
of `run` asks for a slot at once; its task starts when its continuation does, its
finally block runs some time after the task has settled, and new calls may come
in between any two of these. The calls are numbered in the order they are made;
`grants` and `releases` are kept for the statements only.
-/

namespace ArbExecutor.GateAdmission

open GuardedRuns SenderPipeline StageTable

/-- Where a call of `run` stands: queued, holding a slot before its task, during it
and after it, or past its finally block. -/
inductive CallStage where
  | waiting
  | granted
  | running
  | settled (fulfilled : Bool)
  | finished (fulfilled : Bool)
  deriving DecidableEq

structure GateState where
  gate : ConcurrencyGate Nat
  stages : List CallStage
  grants : List Nat
  releases : List Nat
  deriving DecidableEq

def GateState.idle : GateState := { gate := .opened, stages := [], grants := [], releases := [] }

inductive GateEvent where
  | run
  | start (call : Nat)
  | settle (call : Nat) (fulfilled : Bool)
  | leave (call : Nat)
  deriving DecidableEq

section Steps
variable (limit : Nat)

/-- A call up to its first await. -/
def callRun (state : GateState) : GateState :=
  let call := state.stages.length
  let (granted, gate) := state.gate.acquire limit call
  if granted then
    { state with gate, stages := state.stages ++ [.granted], grants := state.grants ++ [call] }
  else { state with gate, stages := state.stages ++ [.waiting] }

def setStage (state : GateState) (call : Nat) (stage : CallStage) : GateState :=
  { state with stages := state.stages.set call stage }

/-- A finally block, with the hand-over of the slot to the first waiter. -/
def leaveGate (state : GateState) (call : Nat) (fulfilled : Bool) : GateState :=
  let (woken, gate) := state.gate.release
  let left := { setStage state call (.finished fulfilled) with gate, releases := state.releases ++ [call] }
  match woken with
  | none => left
  | some next => { setStage left next .granted with grants := left.grants ++ [next] }

def step (state : GateState) : GateEvent → Option GateState
  | .run => some (callRun limit state)
  | .start call =>
      if state.stages[call]? = some .granted then some (setStage state call .running) else none
  | .settle call fulfilled =>
      if state.stages[call]? = some .running then some (setStage state call (.settled fulfilled)) else none
  | .leave call =>
      match state.stages[call]? with
      | some (.settled fulfilled) => some (leaveGate state call fulfilled)
      | _ => none

end Steps

/-- A stage in which a call holds a slot. -/
def CallStage.holds : CallStage → Bool
  | .granted | .running | .settled _ => true
  | .waiting | .finished _ => false

/-- What every interleaving keeps. -/
structure Admits (limit : Nat) (state : GateState) : Prop where
  counted : state.grants.length = state.releases.length + state.gate.active
  capped : state.gate.active ≤ limit
  full : state.gate.waiters ≠ [] → state.gate.active = limit
  ordered : state.grants ++ state.gate.waiters = List.range state.stages.length
  waiting : ∀ call, state.stages[call]? = some .waiting ↔ call ∈ state.gate.waiters
  finished : ∀ call, (∃ fulfilled, state.stages[call]? = some (.finished fulfilled)) ↔
    call ∈ state.releases
  distinct : state.releases.Nodup

theorem idle_admits (limit : Nat) : Admits limit .idle where
  counted := rfl
  capped := Nat.zero_le limit
  full := fun waits => absurd rfl waits
  ordered := rfl
  waiting := by simp [GateState.idle, ConcurrencyGate.opened]
  finished := by simp [GateState.idle]
  distinct := List.nodup_nil

section Equations
variable {limit : Nat} {state : GateState}

theorem call_granted (free : state.gate.active < limit) :
    callRun limit state =
      { gate := { active := state.gate.active + 1, waiters := state.gate.waiters }
        stages := state.stages ++ [.granted], grants := state.grants ++ [state.stages.length]
        releases := state.releases } := by
  simp only [callRun, ConcurrencyGate.acquire, if_pos free, if_true]

theorem call_queued (busy : ¬ state.gate.active < limit) :
    callRun limit state =
      { gate := { active := state.gate.active, waiters := state.gate.waiters ++ [state.stages.length] }
        stages := state.stages ++ [.waiting], grants := state.grants
        releases := state.releases } := by
  simp only [callRun, ConcurrencyGate.acquire, if_neg busy, Bool.false_eq_true, if_false]

theorem leave_last (call : Nat) (fulfilled : Bool) (none : state.gate.waiters = []) :
    leaveGate state call fulfilled =
      { gate := { active := state.gate.active - 1, waiters := [] }
        stages := state.stages.set call (.finished fulfilled), grants := state.grants
        releases := state.releases ++ [call] } := by
  simp only [leaveGate, ConcurrencyGate.release, none, setStage]

theorem leave_woken (call : Nat) (fulfilled : Bool) {next : Nat} {rest : List Nat}
    (some : state.gate.waiters = next :: rest) :
    leaveGate state call fulfilled =
      { gate := { active := state.gate.active - 1 + 1, waiters := rest }
        stages := (state.stages.set call (.finished fulfilled)).set next .granted
        grants := state.grants ++ [next], releases := state.releases ++ [call] } := by
  simp only [leaveGate, ConcurrencyGate.release, some, setStage]

end Equations

section Invariant
variable {limit : Nat} {state : GateState} (admits : Admits limit state)

include admits

theorem run_admits : Admits limit (callRun limit state) := by
  obtain ⟨counted, capped, full, ordered, waiting, finished, distinct⟩ := admits
  -- With a permit free nobody waits, so the newcomer keeps the order of arrival by starting at once.
  by_cases free : state.gate.active < limit
  · have idle : state.gate.waiters = [] := by
      by_contra waits
      exact absurd (full waits) free.ne
    rw [idle, List.append_nil] at ordered
    rw [call_granted free]
    refine ⟨?_, free, fun waits => absurd idle waits, ?_, fun call => ?_, fun call => ?_, distinct⟩
    · dsimp only
      rw [List.length_append, List.length_singleton, counted]
      omega
    · dsimp only
      rw [idle, List.append_nil, ordered, List.length_append, List.length_singleton, List.range_succ]
    · dsimp only
      rw [stage_appended, waiting]
      simp
    · dsimp only
      rw [← finished]
      simp only [stage_appended, reduceCtorEq, and_false, or_false]
  · rw [call_queued free]
    refine ⟨counted, capped, fun _ => by dsimp only; omega, ?_, fun call => ?_, fun call => ?_, distinct⟩
    · dsimp only
      rw [← List.append_assoc, ordered, List.length_append, List.length_singleton, List.range_succ]
    · dsimp only
      rw [stage_appended, waiting, List.mem_append, List.mem_singleton]
      simp
    · dsimp only
      rw [← finished]
      simp only [stage_appended, reduceCtorEq, and_false, or_false]

/-- A call that goes on keeps its slot, so the gate stays as it is. -/
theorem stage_admits {call : Nat} {old new : CallStage} (here : state.stages[call]? = some old)
    (held : old.holds = true) (holds : new.holds = true) : Admits limit (setStage state call new) := by
  obtain ⟨counted, capped, full, ordered, waiting, finished, distinct⟩ := admits
  obtain ⟨inside, _⟩ := List.getElem?_eq_some_iff.mp here
  have kept (stage : CallStage) (idle : stage.holds = false) (other : Nat) :
      (setStage state call new).stages[other]? = some stage ↔ state.stages[other]? = some stage := by
    unfold setStage
    rw [stage_set inside]
    by_cases same : other = call
    · rw [same, here]
      grind
    · simp [same]
  refine ⟨counted, capped, full, ?_, fun other => ?_, fun other => ?_, distinct⟩
  · unfold setStage
    rw [List.length_set]
    exact ordered
  · rw [kept _ rfl]
    exact waiting other
  · exact (exists_congr fun fulfilled => kept _ rfl other).trans (finished other)

/-- Who holds a slot has been granted one and has not given it back. -/
theorem holder_granted {call : Nat} {stage : CallStage} (here : state.stages[call]? = some stage)
    (held : stage.holds = true) : call ∈ state.grants ∧ call ∉ state.releases := by
  obtain ⟨inside, _⟩ := List.getElem?_eq_some_iff.mp here
  have known : call ∈ state.grants ++ state.gate.waiters := by
    rw [admits.ordered]
    exact List.mem_range.mpr inside
  constructor
  · rcases List.mem_append.mp known with granted | waits
    · exact granted
    · rw [← admits.waiting, here] at waits
      cases waits
      cases held
  · intro released
    obtain ⟨fulfilled, ended⟩ := (admits.finished call).mpr released
    rw [here] at ended
    cases ended
    cases held

theorem grants_ordered : state.grants = List.range state.grants.length := by
  have front := congrArg (List.take state.grants.length) admits.ordered
  rw [List.take_left, List.take_range] at front
  have bounded : state.grants.length ≤ state.stages.length := by
    have total := congrArg List.length admits.ordered
    rw [List.length_append, List.length_range] at total
    omega
  rwa [Nat.min_eq_left bounded] at front

theorem released_granted {call : Nat} (released : call ∈ state.releases) : call ∈ state.grants := by
  obtain ⟨fulfilled, ended⟩ := (admits.finished call).mpr released
  obtain ⟨inside, _⟩ := List.getElem?_eq_some_iff.mp ended
  have known : call ∈ state.grants ++ state.gate.waiters := by
    rw [admits.ordered]
    exact List.mem_range.mpr inside
  refine (List.mem_append.mp known).elim id fun waits => ?_
  rw [← admits.waiting, ended] at waits
  cases waits

end Invariant

/-- The slots granted and not yet given back. -/
def GateState.held (state : GateState) : List Nat :=
  state.grants.filter fun call => call ∉ state.releases

/-- Those are the slots of the calls between their grant and their finally block. -/
theorem held_iff {limit : Nat} {state : GateState} (admits : Admits limit state) (call : Nat) :
    call ∈ state.held ↔ ∃ stage, state.stages[call]? = some stage ∧ stage.holds = true := by
  unfold GateState.held
  rw [List.mem_filter, decide_eq_true_iff]
  constructor
  · rintro ⟨granted, kept⟩
    have known : call ∈ List.range state.stages.length := by
      rw [← admits.ordered]
      exact List.mem_append_left _ granted
    have disjoint := (List.nodup_append.mp (admits.ordered ▸ List.nodup_range)).2.2
    obtain ⟨stage, here⟩ : ∃ stage, state.stages[call]? = some stage :=
      ⟨_, List.getElem?_eq_getElem (List.mem_range.mp known)⟩
    refine ⟨stage, here, ?_⟩
    cases stage with
    | granted => rfl
    | running => rfl
    | settled fulfilled => rfl
    | waiting =>
        rw [admits.waiting] at here
        exact absurd rfl (disjoint call granted call here)
    | finished fulfilled => exact absurd ((admits.finished call).mp ⟨fulfilled, here⟩) kept
  · rintro ⟨stage, here, held⟩
    exact holder_granted admits here held

theorem held_counted {limit : Nat} {state : GateState} (admits : Admits limit state) :
    state.held.length = state.gate.active := by
  have distinct : state.grants.Nodup := by
    rw [grants_ordered admits]
    exact List.nodup_range
  have back : (state.grants.filter fun call => call ∈ state.releases).Perm state.releases := by
    rw [List.perm_ext_iff_of_nodup (distinct.filter _) admits.distinct]
    intro call
    rw [List.mem_filter, decide_eq_true_iff]
    exact ⟨And.right, fun released => ⟨released_granted admits released, released⟩⟩
  have total := List.length_eq_length_filter_add (l := state.grants) fun call =>
    decide (call ∈ state.releases)
  have counted := admits.counted
  have same := back.length_eq
  unfold GateState.held
  simp only [decide_not] at total ⊢
  omega

theorem held_positive {limit : Nat} {state : GateState} (admits : Admits limit state) {call : Nat}
    {stage : CallStage} (here : state.stages[call]? = some stage) (held : stage.holds = true) :
    0 < state.gate.active := by
  rw [← held_counted admits]
  exact List.length_pos_of_mem ((held_iff admits call).mpr ⟨stage, here, held⟩)

/-- A call that leaves is finished and released; the queue is as it was. -/
theorem left_tables {limit : Nat} {state : GateState} (admits : Admits limit state) {call : Nat}
    {fulfilled : Bool} (here : state.stages[call]? = some (.settled fulfilled)) :
    (∀ other, (state.stages.set call (.finished fulfilled))[other]? = some .waiting ↔
      other ∈ state.gate.waiters) ∧
    (∀ other, (∃ outcome, (state.stages.set call (.finished fulfilled))[other]? = some (.finished outcome)) ↔
      other ∈ state.releases ++ [call]) ∧
    (state.releases ++ [call]).Nodup := by
  obtain ⟨_, kept⟩ := holder_granted admits here rfl
  obtain ⟨inside, _⟩ := List.getElem?_eq_some_iff.mp here
  refine ⟨fun other => ?_, fun other => ?_, ?_⟩
  · rw [stage_set inside, ← admits.waiting]
    by_cases same : other = call
    · rw [same, here]
      simp
    · simp [same]
  · rw [List.mem_append, List.mem_singleton, ← admits.finished]
    simp only [stage_set inside]
    by_cases same : other = call
    · simp [same]
    · simp [same]
  · rw [List.nodup_append]
    exact ⟨admits.distinct, List.nodup_singleton call, fun other member last single =>
      fun same => kept (by rw [List.mem_singleton.mp single] at same; exact same ▸ member)⟩

theorem leave_admits {limit : Nat} {state : GateState} (admits : Admits limit state) {call : Nat}
    {fulfilled : Bool} (here : state.stages[call]? = some (.settled fulfilled)) :
    Admits limit (leaveGate state call fulfilled) := by
  have positive := held_positive admits here rfl
  obtain ⟨waits, ends, once⟩ := left_tables admits here
  obtain ⟨counted, capped, full, ordered, waiting, _, _⟩ := admits
  cases queue : state.gate.waiters with
  | nil =>
      rw [leave_last call fulfilled queue]
      rw [queue] at ordered waits
      refine ⟨?_, ?_, fun waits => absurd rfl waits, ?_, waits, ends, once⟩
      · dsimp only
        rw [List.length_append, List.length_singleton]
        omega
      · dsimp only
        omega
      · dsimp only
        rw [List.length_set]
        exact ordered
  | cons next rest =>
      have queued : state.stages[next]? = some .waiting := by
        rw [waiting, queue]
        exact List.mem_cons_self
      have within : next < (state.stages.set call (.finished fulfilled)).length := by
        rw [List.length_set]
        exact (List.getElem?_eq_some_iff.mp queued).1
      have fresh : next ∉ rest := by
        have distinct := (List.nodup_append.mp (ordered ▸ List.nodup_range)).2.1
        rw [queue] at distinct
        exact (List.nodup_cons.mp distinct).1
      have busy := full (by rw [queue]; simp)
      rw [leave_woken call fulfilled queue]
      refine ⟨?_, ?_, ?_, ?_, fun other => ?_, fun other => ?_, once⟩
      · dsimp only
        rw [List.length_append, List.length_append, List.length_singleton, List.length_singleton]
        omega
      · dsimp only
        omega
      · dsimp only
        omega
      · dsimp only
        rw [List.append_assoc, List.singleton_append, ← queue, List.length_set, List.length_set]
        exact ordered
      · dsimp only
        rw [stage_set within, waits, queue, List.mem_cons]
        by_cases same : other = next
        · rw [same]
          simpa using fresh
        · simp [same]
      · dsimp only
        rw [← ends]
        simp only [stage_set within]
        by_cases same : other = next
        · have stays := (waits next).mpr (by rw [queue]; exact List.mem_cons_self)
          rw [same, stays]
          simp
        · simp [same]

/-- The steps a call has before it. -/
def CallStage.ahead : CallStage → Nat
  | .waiting => 4
  | .granted => 3
  | .running => 2
  | .settled _ => 1
  | .finished _ => 0

/-- An event is a new call, or brings a holder of a slot further, or gives its slot back. -/
theorem step_cases {limit : Nat} {state next : GateState} {event : GateEvent}
    (taken : step limit state event = some next) :
    event = .run ∧ next = callRun limit state ∨
    (∃ call old new, state.stages[call]? = some old ∧ old.holds = true ∧ new.holds = true ∧
      new.ahead < old.ahead ∧ next = setStage state call new) ∨
    ∃ call fulfilled, state.stages[call]? = some (.settled fulfilled) ∧
      next = leaveGate state call fulfilled := by
  cases event with
  | run => exact .inl ⟨rfl, (Option.some.inj taken).symm⟩
  | start call =>
      obtain ⟨here, same⟩ := Option.ite_none_right_eq_some.mp taken
      exact .inr (.inl ⟨call, _, _, here, rfl, rfl, by decide, (Option.some.inj same).symm⟩)
  | settle call fulfilled =>
      obtain ⟨here, same⟩ := Option.ite_none_right_eq_some.mp taken
      exact .inr (.inl ⟨call, _, _, here, rfl, rfl, by simp [CallStage.ahead], (Option.some.inj same).symm⟩)
  | leave call =>
      simp only [step] at taken
      split at taken
      next fulfilled here => exact .inr (.inr ⟨call, fulfilled, here, (Option.some.inj taken).symm⟩)
      next => cases taken

theorem step_admits {limit : Nat} (state : GateState) (event : GateEvent) (next : GateState)
    (admits : Admits limit state) (taken : step limit state event = some next) : Admits limit next := by
  rcases step_cases taken with
    ⟨_, rfl⟩ | ⟨call, old, new, here, held, holds, _, rfl⟩ | ⟨call, fulfilled, here, rfl⟩
  · exact run_admits admits
  · exact stage_admits admits here held holds
  · exact leave_admits admits here

/-! A step that is no new call brings some call closer to its end, so that the gate
comes to rest, and it rests only when every call has had its slot. -/
section Progress
variable {limit : Nat} {state : GateState}

def GateState.ahead (state : GateState) : Nat := (state.stages.map CallStage.ahead).sum

theorem ahead_le (state : GateState) : state.ahead ≤ 4 * state.stages.length := by
  have bounded : ∀ steps ∈ state.stages.map CallStage.ahead, steps ≤ 4 := by
    intro steps member
    obtain ⟨stage, _, rfl⟩ := List.mem_map.mp member
    cases stage <;> simp [CallStage.ahead]
  have total := List.sum_le_card_nsmul _ 4 bounded
  rw [List.length_map, smul_eq_mul] at total
  unfold GateState.ahead
  omega

theorem leave_ahead (admits : Admits limit state) {call : Nat} {fulfilled : Bool}
    (here : state.stages[call]? = some (.settled fulfilled)) :
    (leaveGate state call fulfilled).ahead < state.ahead := by
  have moved := weight_set CallStage.ahead here (.finished fulfilled)
  cases queue : state.gate.waiters with
  | nil =>
      rw [leave_last call fulfilled queue]
      simp only [GateState.ahead, CallStage.ahead] at moved ⊢
      omega
  | cons next rest =>
      have queued : state.stages[next]? = some .waiting := by
        rw [admits.waiting, queue]
        exact List.mem_cons_self
      have apart : call ≠ next := by
        rintro rfl
        rw [here] at queued
        cases queued
      have still : (state.stages.set call (.finished fulfilled))[next]? = some .waiting := by
        rw [List.getElem?_set_ne apart]
        exact queued
      have woken := weight_set CallStage.ahead still .granted
      rw [leave_woken call fulfilled queue]
      simp only [GateState.ahead, CallStage.ahead] at moved woken ⊢
      omega

theorem step_ahead (state : GateState) (event : GateEvent) (next : GateState)
    (admits : Admits limit state) (old : event ≠ .run) (taken : step limit state event = some next) :
    next.ahead < state.ahead := by
  rcases step_cases taken with
    ⟨new, _⟩ | ⟨call, before, after, here, _, _, closer, rfl⟩ | ⟨call, fulfilled, here, rfl⟩
  · exact absurd new old
  · have moved := weight_set CallStage.ahead here after
    simp only [GateState.ahead, setStage]
    omega
  · exact leave_ahead admits here

/-- Nothing is left to happen but new calls. -/
def Quiet (limit : Nat) (state : GateState) : Prop :=
  ∀ event, event ≠ .run → step limit state event = none

/-- At rest nobody holds a slot. -/
theorem quiet_holds (quiet : Quiet limit state) {call : Nat} {stage : CallStage}
    (here : state.stages[call]? = some stage) : stage.holds = false := by
  cases stage with
  | waiting => rfl
  | finished fulfilled => rfl
  | granted =>
      have stuck := quiet (.start call) (by simp)
      simp [step, here] at stuck
  | running =>
      have stuck := quiet (.settle call true) (by simp)
      simp [step, here] at stuck
  | settled fulfilled =>
      have stuck := quiet (.leave call) (by simp)
      simp [step, here] at stuck

/-- At rest every slot is back, so nobody waits for one either. -/
theorem quiet_served (positive : 1 ≤ limit) (admits : Admits limit state) (quiet : Quiet limit state)
    {call : Nat} (made : call < state.stages.length) : call ∈ state.releases := by
  have nobody : state.gate.active = 0 := by
    rw [← held_counted admits, List.length_eq_zero_iff, List.eq_nil_iff_forall_not_mem]
    intro other member
    obtain ⟨stage, here, held⟩ := (held_iff admits other).mp member
    rw [quiet_holds quiet here] at held
    cases held
  obtain ⟨stage, here⟩ : ∃ stage, state.stages[call]? = some stage :=
    ⟨_, List.getElem?_eq_getElem made⟩
  have idle := quiet_holds quiet here
  cases stage with
  | waiting =>
      rw [admits.waiting] at here
      have busy := admits.full (List.ne_nil_of_mem here)
      omega
  | finished fulfilled => exact (admits.finished call).mp ⟨fulfilled, here⟩
  | granted => cases idle
  | running => cases idle
  | settled fulfilled => cases idle

end Progress

/-- Only a call of run makes a call, and each makes one. -/
theorem step_calls (limit : Nat) (past : List GateEvent) (state : GateState) (event : GateEvent)
    (next : GateState) (counted : state.stages.length = past.count .run)
    (taken : step limit state event = some next) :
    next.stages.length = (past ++ [event]).count .run := by
  rw [List.count_append, ← counted]
  cases event with
  | run =>
      cases taken
      by_cases free : state.gate.active < limit
      · rw [call_granted free, List.length_append]
        rfl
      · rw [call_queued free, List.length_append]
        rfl
  | start call =>
      simp only [step] at taken
      split at taken <;> cases taken
      exact List.length_set
  | settle call fulfilled =>
      simp only [step] at taken
      split at taken <;> cases taken
      exact List.length_set
  | leave call =>
      simp only [step] at taken
      split at taken <;> cases taken
      cases waiters : state.gate.waiters with
      | nil =>
          rw [leave_last _ _ waiters]
          exact List.length_set
      | cons woken rest =>
          rw [leave_woken _ _ waiters]
          exact List.length_set.trans List.length_set

/-- Admission under every interleaving: every call made is in the table, the slots out
are the counter and never more than the limit, calls wait only at the limit, slots go
out once each in the order of the calls, and when nothing but a new call can happen,
which is soon, every call has had its slot and given it back. -/
theorem gate_admission (limit : Nat) (positive : 1 ≤ limit) (events : List GateEvent)
    (state : GateState) (ran : run (step limit) .idle events = some state) :
    state.stages.length = events.count .run ∧
    state.held.length = state.gate.active ∧ state.gate.active ≤ limit ∧
    (state.gate.waiters ≠ [] → state.gate.active = limit) ∧
    state.grants = List.range state.grants.length ∧
    state.releases.Nodup ∧ (∀ call ∈ state.releases, call ∈ state.grants) ∧
    (Quiet limit state → ∀ call < events.count .run,
      state.grants.count call = 1 ∧ state.releases.count call = 1) ∧
    ∀ more final, GateEvent.run ∉ more → run (step limit) state more = some final →
      more.length ≤ 4 * events.count .run := by
  have admits : Admits limit state := run_preserves (Admits limit) step_admits (idle_admits limit) ran
  have made : state.stages.length = events.count .run :=
    run_traced (fun past state => state.stages.length = past.count .run) (step_calls limit) [] events rfl ran
  refine ⟨made, held_counted admits, admits.capped, admits.full, grants_ordered admits, admits.distinct,
    fun call => released_granted admits, ?_, ?_⟩
  · intro quiet call called
    have released := quiet_served positive admits quiet (made ▸ called)
    have distinct : state.grants.Nodup := by
      rw [grants_ordered admits]
      exact List.nodup_range
    exact ⟨List.count_eq_one_of_mem distinct (released_granted admits released),
      List.count_eq_one_of_mem admits.distinct released⟩
  · intro more final old continued
    have bounded := run_length_le (Admits limit) (· ≠ .run) GateState.ahead step_admits step_ahead more
      (fun event member same => old (same ▸ member)) admits continued
    exact made ▸ bounded.trans (ahead_le state)

/-- Three calls at a gate of one slot; the second one is rejected. -/
def queuedCalls : List GateEvent :=
  [.run, .run, .start 0, .run, .settle 0 true, .leave 0, .start 1, .settle 1 false, .leave 1, .start 2,
    .settle 2 true, .leave 2]

def queuedState : GateState where
  gate := { active := 0, waiters := [] }
  stages := [.finished true, .finished false, .finished true]
  grants := [0, 1, 2]
  releases := [0, 1, 2]

theorem queued_quiet : Quiet 1 queuedState := by
  intro event other
  cases event with
  | run => exact absurd rfl other
  | start call | settle call fulfilled | leave call => rcases call with _ | _ | _ | call <;> rfl

theorem gate_admission_queued :
    run (step 1) .idle queuedCalls = some queuedState ∧
      queuedState.held.length = queuedState.gate.active ∧
      ∀ call < 3, queuedState.grants.count call = 1 ∧ queuedState.releases.count call = 1 := by
  have ran : run (step 1) .idle queuedCalls = some queuedState := by decide
  obtain ⟨_, counted, _, _, _, _, _, served, _⟩ := gate_admission 1 le_rfl queuedCalls queuedState ran
  exact ⟨ran, counted, served queued_quiet⟩

end ArbExecutor.GateAdmission
