import ArbExecutor.SignedBatch

/-!
Why the sender of scripts/mainnet-smoke.ts comes to an end. The gate's counter is
the number of the tasks inside it and nobody waits at a gate with a free slot, so
that some task can always go on; every step that is no failure brings the batch
closer to its end.
-/

namespace ArbExecutor.SenderProgress

open GuardedRuns SenderPipeline
open BatchResume (TaskPhase MainStage BatchConfig ordinalsToSend)

/-! A weight summed over numbered entries. -/
section Totals
variable {Stage : Type} (weight : Stage → Nat)

def total (entries : List Nat) (stages : Nat → Stage) : Nat :=
  (entries.map fun entry => weight (stages entry)).sum

variable {entries : List Nat} (stages : Nat → Stage) {entry : Nat}

theorem total_untouched (absent : entry ∉ entries) (stage : Stage) :
    total weight entries (Function.update stages entry stage) = total weight entries stages := by
  unfold total
  refine congrArg List.sum (List.map_congr_left fun other member => ?_)
  have apart : other ≠ entry := fun same => absent (same ▸ member)
  rw [Function.update_of_ne apart]

/-- A move changes the sum by what it changes at its entry. -/
theorem total_update (distinct : entries.Nodup) (member : entry ∈ entries) (stage : Stage) :
    total weight entries (Function.update stages entry stage) + weight (stages entry) =
      total weight entries stages + weight stage := by
  induction entries with
  | nil => cases member
  | cons first rest ih =>
      obtain ⟨absent, distinct⟩ := List.nodup_cons.mp distinct
      have parts (stages : Nat → Stage) :
          total weight (first :: rest) stages = weight (stages first) + total weight rest stages :=
        List.sum_cons
      rw [parts, parts]
      rcases List.mem_cons.mp member with rfl | later
      · rw [Function.update_self, total_untouched weight stages absent]
        omega
      · have apart : first ≠ entry := fun same => absent (same ▸ later)
        rw [Function.update_of_ne apart]
        have moved := ih distinct later
        omega

variable {stages} in
theorem total_zero : total weight entries stages = 0 ↔ ∀ entry ∈ entries, weight (stages entry) = 0 := by
  unfold total
  rw [List.sum_eq_zero_iff]
  simp

variable {stages} in
theorem total_le {bound : Nat} (bounded : ∀ stage, weight stage ≤ bound) :
    total weight entries stages ≤ bound * entries.length := by
  induction entries with
  | nil => exact Nat.zero_le _
  | cons first rest ih =>
      have here := bounded (stages first)
      unfold total at ih ⊢
      rw [List.map_cons, List.sum_cons, List.length_cons, Nat.mul_succ]
      omega

end Totals

/-! The gate of the batch. -/
section Admission
open BatchResume (Process enterGate leaveGate setPhase requestManifest)

/-- A slot for each running task. -/
def slots : TaskPhase → Nat
  | .running => 1
  | _ => 0

structure Admitted (config : BatchConfig) (process : Process) : Prop where
  started : ∀ ordinal, process.tasks ordinal ≠ .scheduled → ordinal ∈ ordinalsToSend config process
  distinct : process.gate.waiters.Nodup
  waiting : ∀ ordinal, process.tasks ordinal = .waiting ↔ ordinal ∈ process.gate.waiters
  counted : process.gate.active = total slots (ordinalsToSend config process) process.tasks
  full : process.gate.waiters ≠ [] → config.senderMaxInFlight ≤ process.gate.active

variable {config : BatchConfig} {process next : Process}

theorem to_send_distinct (process : Process) : (ordinalsToSend config process).Nodup := List.nodup_range'

theorem admitted_frame (admitted : Admitted config process)
    (first : next.firstOrdinal = process.firstOrdinal) (tasks : next.tasks = process.tasks)
    (gate : next.gate = process.gate) : Admitted config next := by
  have sent : ordinalsToSend config next = ordinalsToSend config process := by
    unfold ordinalsToSend
    rw [first]
  constructor
  · rw [tasks, sent]
    exact admitted.started
  · rw [gate]
    exact admitted.distinct
  · rw [tasks, gate]
    exact admitted.waiting
  · rw [gate, sent, tasks]
    exact admitted.counted
  · rw [gate]
    exact admitted.full

/-- Outside the gate a task moves freely. -/
theorem set_admitted (admitted : Admitted config process) {ordinal : Nat} {phase : TaskPhase}
    (moving : process.tasks ordinal ≠ .scheduled) (outside : slots (process.tasks ordinal) = 0)
    (unqueued : process.tasks ordinal ≠ .waiting) (after : slots phase = 0) (apart : phase ≠ .waiting) :
    Admitted config (setPhase process ordinal phase) := by
  have sent := admitted.started ordinal moving
  refine ⟨fun other => ?_, admitted.distinct, fun other => ?_, ?_, admitted.full⟩
  · unfold setPhase
    dsimp only
    by_cases same : other = ordinal
    · exact fun _ => same ▸ sent
    · rw [Function.update_of_ne same]
      exact admitted.started other
  · unfold setPhase
    dsimp only
    by_cases same : other = ordinal
    · subst same
      rw [Function.update_self, ← admitted.waiting other]
      exact ⟨fun waits => absurd waits apart, fun waits => absurd waits unqueued⟩
    · rw [Function.update_of_ne same]
      exact admitted.waiting other
  · have moved := total_update slots process.tasks (to_send_distinct process) sent phase
    rw [outside, after] at moved
    exact admitted.counted.trans moved.symm

theorem enter_admitted (admitted : Admitted config process) {ordinal : Nat}
    (sent : ordinal ∈ ordinalsToSend config process) (scheduled : process.tasks ordinal = .scheduled) :
    Admitted config (enterGate config process ordinal) := by
  have absent : ordinal ∉ process.gate.waiters := by
    rw [← admitted.waiting, scheduled]
    decide
  have moved (phase : TaskPhase) := total_update slots process.tasks (to_send_distinct process) sent phase
  have begun (phase : TaskPhase) (other : Nat)
      (moving : Function.update process.tasks ordinal phase other ≠ .scheduled) :
      other ∈ ordinalsToSend config process := by
    by_cases same : other = ordinal
    · exact same ▸ sent
    · rw [Function.update_of_ne same] at moving
      exact admitted.started other moving
  unfold enterGate ConcurrencyGate.acquire
  by_cases free : process.gate.active < config.senderMaxInFlight
  · rw [if_pos free]
    have empty : process.gate.waiters = [] := by
      by_contra waits
      have full := admitted.full waits
      omega
    refine ⟨begun _, admitted.distinct, fun other => ?_, ?_, fun waits => absurd empty waits⟩
    · unfold setPhase
      dsimp only
      by_cases same : other = ordinal
      · subst same
        rw [Function.update_self]
        exact ⟨fun running => (nomatch running), fun waits => absurd waits absent⟩
      · rw [Function.update_of_ne same]
        exact admitted.waiting other
    · have here := moved .running
      have counted := admitted.counted
      rw [scheduled] at here
      unfold setPhase
      dsimp only [slots] at here ⊢
      change _ = total slots (ordinalsToSend config process) _
      simp only [if_true]
      omega
  · rw [if_neg free]
    refine ⟨begun _, ?_, fun other => ?_, ?_, fun _ => by dsimp only [setPhase]; omega⟩
    · exact List.nodup_append.mpr ⟨admitted.distinct, List.nodup_singleton _,
        fun left member right single equal => absent
          ((List.mem_singleton.mp single) ▸ equal ▸ member)⟩
    · unfold setPhase
      dsimp only
      rw [List.mem_append, List.mem_singleton]
      by_cases same : other = ordinal
      · subst same
        rw [Function.update_self]
        simp
      · rw [Function.update_of_ne same, admitted.waiting other]
        simp [same]
    · have here := moved .waiting
      have counted := admitted.counted
      rw [scheduled] at here
      unfold setPhase
      dsimp only [slots] at here ⊢
      change _ = total slots (ordinalsToSend config process) _
      simp only [Bool.false_eq_true, if_false]
      omega

/-- A slot given back is free or the first waiter's. -/
theorem leave_admitted (admitted : Admitted config process) {ordinal : Nat} {phase : TaskPhase}
    (running : process.tasks ordinal = .running) (after : slots phase = 0) (apart : phase ≠ .waiting) :
    Admitted config (leaveGate process ordinal phase) := by
  have sent := admitted.started ordinal (by rw [running]; decide)
  have unqueued : ordinal ∉ process.gate.waiters := by
    rw [← admitted.waiting, running]
    decide
  have counted := admitted.counted
  have left := total_update slots process.tasks (to_send_distinct process) sent phase
  rw [running, after] at left
  have holds : slots .running = 1 := rfl
  unfold leaveGate ConcurrencyGate.release
  cases queue : process.gate.waiters with
  | nil =>
      refine ⟨fun other moving => ?_, List.nodup_nil, fun other => ?_, ?_, fun waits => absurd rfl waits⟩
      · dsimp only [setPhase] at moving
        by_cases same : other = ordinal
        · exact same ▸ sent
        · rw [Function.update_of_ne same] at moving
          exact admitted.started other moving
      · dsimp only [setPhase]
        by_cases same : other = ordinal
        · subst same
          rw [Function.update_self]
          exact ⟨fun waits => absurd waits apart, fun waits => absurd waits List.not_mem_nil⟩
        · rw [Function.update_of_ne same, admitted.waiting other, queue]
      · change process.gate.active - 1 =
          total slots (ordinalsToSend config process) (Function.update process.tasks ordinal phase)
        omega
  | cons woken waiters =>
      have unique : (woken :: waiters).Nodup := queue ▸ admitted.distinct
      have waits : process.tasks woken = .waiting := by
        rw [admitted.waiting, queue]
        exact List.mem_cons_self
      have different : woken ≠ ordinal := fun same => unqueued (same ▸ queue ▸ List.mem_cons_self)
      have still : Function.update process.tasks ordinal phase woken = .waiting := by
        rw [Function.update_of_ne different]
        exact waits
      have moved := total_update slots (Function.update process.tasks ordinal phase)
        (to_send_distinct process) (admitted.started woken (by rw [waits]; decide)) .running
      rw [still] at moved
      have idle : slots .waiting = 0 := rfl
      refine ⟨fun other moving => ?_, (List.nodup_cons.mp unique).2, fun other => ?_, ?_, fun _ => ?_⟩
      · dsimp only [setPhase] at moving
        by_cases first : other = woken
        · exact first ▸ admitted.started woken (by rw [waits]; decide)
        · rw [Function.update_of_ne first] at moving
          by_cases same : other = ordinal
          · exact same ▸ sent
          · rw [Function.update_of_ne same] at moving
            exact admitted.started other moving
      · dsimp only [setPhase]
        by_cases first : other = woken
        · subst first
          rw [Function.update_self]
          exact ⟨fun running => (nomatch running), fun again => absurd again (List.nodup_cons.mp unique).1⟩
        · rw [Function.update_of_ne first]
          by_cases same : other = ordinal
          · subst same
            rw [Function.update_self]
            exact ⟨fun waits => absurd waits apart, fun member =>
              absurd (queue ▸ List.mem_cons_of_mem _ member) unqueued⟩
          · rw [Function.update_of_ne same, admitted.waiting other, queue, List.mem_cons]
            simp [first]
      · change process.gate.active - 1 + 1 = total slots (ordinalsToSend config process)
          (Function.update (Function.update process.tasks ordinal phase) woken .running)
        omega
      · have busy := admitted.full (by rw [queue]; exact List.cons_ne_nil _ _)
        dsimp only [setPhase]
        omega

theorem advance_admitted {event : BatchResume.Event} (admitted : Admitted config process)
    (taken : BatchResume.advance config process event = some next) : Admitted config next := by
  unfold BatchResume.advance at taken
  cases event with
  | start | renamed | crash => cases taken
  | opened | complete | closed =>
      simp only [Option.ite_none_right_eq_some, Option.some.injEq] at taken
      obtain ⟨_, rfl⟩ := taken
      exact admitted_frame admitted rfl rfl rfl
  | acquire ordinal =>
      simp only [Option.ite_none_right_eq_some, Option.some.injEq] at taken
      obtain ⟨⟨_, sent, scheduled⟩, rfl⟩ := taken
      exact enter_admitted admitted sent scheduled
  | broadcast ordinal rpcError =>
      simp only [Option.ite_none_right_eq_some, Option.some.injEq] at taken
      obtain ⟨running, rfl⟩ := taken
      have left : Admitted config (leaveGate process ordinal .prepared) :=
        leave_admitted admitted running rfl (by decide)
      exact admitted_frame left rfl rfl rfl
  | fail ordinal =>
      simp only [Option.ite_none_right_eq_some, Option.some.injEq] at taken
      obtain ⟨running, rfl⟩ := taken
      exact leave_admitted admitted running rfl (by decide)
  | record ordinal =>
      simp only [Option.ite_none_right_eq_some, Option.some.injEq] at taken
      obtain ⟨prepared, rfl⟩ := taken
      have recorded : Admitted config (setPhase process ordinal .recorded) :=
        set_admitted admitted (by rw [prepared]; decide) (by rw [prepared]; rfl)
          (by rw [prepared]; decide) rfl (by decide)
      exact admitted_frame recorded rfl rfl rfl
  | retry ordinal =>
      simp only [Option.ite_none_right_eq_some, Option.some.injEq] at taken
      obtain ⟨failed, rfl⟩ := taken
      have scheduled : Admitted config (setPhase process ordinal .scheduled) :=
        set_admitted admitted (by rw [failed]; decide) (by rw [failed]; rfl) (by rw [failed]; decide)
          rfl (by decide)
      exact admitted_frame scheduled rfl rfl rfl
  | written =>
      dsimp only at taken
      split at taken
      · cases taken
        exact admitted_frame admitted rfl rfl rfl
      · cases taken

end Admission

/-! The signing batch: what each of its parts still has before it. -/
section Measure
open SignedBatch

def taskAhead : TaskState → Nat
  | .failed => 11
  | .scheduled => 8
  | .waiting => 7
  | .running => 6
  | .built _ _ => 5
  | .signed _ => 4
  | .prepared _ _ _ => 3
  | .recorded => 0

def stageAhead : MainStage → Nat
  | .opening => 5
  | .sending => 4
  | .closing => 1
  | .done => 0

def writesAhead (writer : AsyncManifestWriter Manifest) : Nat :=
  (if writer.dirty then 2 else 0) +
    match writer.writing with
    | none => 0
    | some (.writeFile _) => 2
    | some (.rename _) => 1

def remaining (config : BatchConfig) (process : Process) : Nat :=
  total taskAhead (SignedBatch.ordinalsToSend config process) process.tasks +
    stageAhead process.stage + writesAhead process.manifestWriter

/-- The steps that bring a batch to its end; signing may be refused. -/
def isProgress : Event → Bool
  | .opened _ | .acquire _ | .build _ | .broadcast _ _ _ | .record _ _ | .retry _ | .written
  | .renamed | .complete | .closed => true
  | .start _ | .sign _ | .fail _ | .refreshBlockhash _ | .refreshRouteSnapshot _ | .crash => false

def isFailure : Event → Bool
  | .fail _ => true
  | _ => false

structure Ready (config : BatchConfig) (process : Process) : Prop where
  admitted : Admitted config process.erase
  first : 1 ≤ process.firstOrdinal
  busy : process.manifestWriter.Busy
  snapshot : ∃ version instruction, process.routeSnapshot = snapshotOf config version instruction

variable {config : BatchConfig} {sign : String → String → String} {process next : Process}

theorem request_ahead (writer : AsyncManifestWriter Manifest) (render : Manifest) :
    writesAhead (writer.request render) ≤ writesAhead writer + 2 := by
  rcases request_cases writer render with ⟨idle, requested⟩ | ⟨_, requested⟩
  · rw [requested]
    unfold writesAhead
    rw [idle]
    simp
  · rw [requested]
    unfold writesAhead
    dsimp only
    rw [if_pos rfl]
    split <;> omega

theorem request_busy (writer : AsyncManifestWriter Manifest) (render : Manifest) :
    (writer.request render).Busy := by
  rcases request_cases writer render with ⟨_, requested⟩ | ⟨writing, requested⟩
  · rw [requested]
    exact fun _ => rfl
  · rw [requested]
    exact fun _ => writing

theorem drain_ahead {writer : AsyncManifestWriter Manifest} {manifest : Manifest} (render : Manifest)
    (last : writer.writing = some (.rename manifest)) :
    writesAhead (writer.drain render) + 1 ≤ writesAhead writer := by
  rcases drain_cases writer render with ⟨dirty, drained⟩ | ⟨clean, drained⟩
  · rw [drained]
    unfold writesAhead
    rw [dirty, last]
    exact le_rfl
  · rw [drained]
    unfold writesAhead
    rw [clean, last]
    exact le_rfl

theorem sent_distinct (process : Process) : (SignedBatch.ordinalsToSend config process).Nodup :=
  List.nodup_range'

theorem state_ahead {ordinal : Nat} (state : TaskState)
    (sent : ordinal ∈ SignedBatch.ordinalsToSend config process) :
    total taskAhead (SignedBatch.ordinalsToSend config process)
        (Function.update process.tasks ordinal state) + taskAhead (process.tasks ordinal) =
      total taskAhead (SignedBatch.ordinalsToSend config process) process.tasks +
        taskAhead state :=
  total_update taskAhead process.tasks (sent_distinct process) sent state

theorem started_state (ready : Ready config process) {ordinal : Nat}
    (moving : (process.tasks ordinal).phase ≠ .scheduled) :
    ordinal ∈ SignedBatch.ordinalsToSend config process :=
  ready.admitted.started ordinal moving

theorem waiting_state (ready : Ready config process) {ordinal : Nat}
    (queued : ordinal ∈ process.gate.waiters) : process.tasks ordinal = .waiting := by
  have waits : (process.tasks ordinal).phase = .waiting := (ready.admitted.waiting ordinal).mpr queued
  cases state : process.tasks ordinal with
  | waiting => rfl
  | _ => rw [state] at waits; cases waits

/-- A task that leaves the gate may wake another one, which is then further too. -/
theorem leave_ahead (ready : Ready config process) {ordinal : Nat} (state : TaskState)
    (inside : (process.tasks ordinal).phase = .running) :
    total taskAhead (SignedBatch.ordinalsToSend config process)
        (leaveGate process ordinal state).tasks + taskAhead (process.tasks ordinal) ≤
      total taskAhead (SignedBatch.ordinalsToSend config process) process.tasks +
        taskAhead state := by
  have sent := started_state ready (by rw [inside]; decide)
  have left := state_ahead state sent
  unfold leaveGate ConcurrencyGate.release
  cases queue : process.gate.waiters with
  | nil => exact left.le
  | cons woken waiters =>
      have waits := waiting_state ready (queue ▸ List.mem_cons_self)
      have different : woken ≠ ordinal := by
        rintro rfl
        rw [waits] at inside
        cases inside
      have still : Function.update process.tasks ordinal state woken = .waiting := by
        rw [Function.update_of_ne different]
        exact waits
      have wokenSent : woken ∈ SignedBatch.ordinalsToSend config process :=
        started_state ready (by rw [waits]; decide)
      have moved := total_update taskAhead (Function.update process.tasks ordinal state)
        (sent_distinct process) wokenSent .running
      rw [still] at moved
      have closer : taskAhead .running + 1 = taskAhead .waiting := rfl
      change total taskAhead (SignedBatch.ordinalsToSend config process)
        (Function.update (Function.update process.tasks ordinal state) woken .running) + _ ≤ _
      omega

/-- What signing and writing leave alone is as ready as before. -/
theorem ready_frame (ready : Ready config process) (admitted : Admitted config next.erase)
    (first : next.firstOrdinal = process.firstOrdinal) (busy : next.manifestWriter.Busy)
    (snapshot : next.routeSnapshot = process.routeSnapshot) : Ready config next :=
  ⟨admitted, first ▸ ready.first, busy, snapshot ▸ ready.snapshot⟩

/-- A signing step is admitted because the control step behind it is. -/
theorem erased_admitted (ready : Ready config process) {event : Event}
    (taken : advance config sign process event = some next) : Admitted config next.erase := by
  have follows := advance_erases taken
  cases forgotten : eraseEvent event with
  | none =>
      rw [forgotten] at follows
      exact (show next.erase = process.erase from follows) ▸ ready.admitted
  | some control =>
      rw [forgotten] at follows
      exact advance_admitted ready.admitted follows

theorem left_parts (process : Process) (ordinal : Nat) (state : TaskState) :
    (leaveGate process ordinal state).firstOrdinal = process.firstOrdinal ∧
      (leaveGate process ordinal state).stage = process.stage ∧
      (leaveGate process ordinal state).routeSnapshot = process.routeSnapshot := by
  unfold leaveGate
  cases process.gate.release with
  | mk woken gate => cases woken <;> exact ⟨rfl, rfl, rfl⟩

theorem advance_ready {event : Event} (ready : Ready config process)
    (taken : advance config sign process event = some next) : Ready config next := by
  have admitted := erased_admitted ready taken
  unfold advance at taken
  cases event with
  | start | renamed | crash => cases taken
  | opened blockhash =>
      simp only [Option.ite_none_right_eq_some, Option.some.injEq] at taken
      obtain ⟨_, rfl⟩ := taken
      exact ready_frame ready admitted rfl ready.busy rfl
  | acquire ordinal =>
      simp only [Option.ite_none_right_eq_some, Option.some.injEq] at taken
      obtain ⟨_, rfl⟩ := taken
      exact ready_frame ready admitted rfl ready.busy rfl
  | build ordinal =>
      simp only [Option.ite_none_right_eq_some, Option.map_eq_some_iff] at taken
      obtain ⟨_, _, _, rfl⟩ := taken
      exact ready_frame ready admitted rfl ready.busy rfl
  | sign ordinal =>
      dsimp only at taken
      split at taken
      · split at taken <;> cases taken
        · exact ready
        · exact ready_frame ready admitted rfl ready.busy rfl
      · cases taken
  | broadcast ordinal scheduleDelayMs rpcError =>
      dsimp only at taken
      split at taken
      next transaction _ =>
        cases taken
        obtain ⟨first, _, snapshot⟩ :=
          left_parts process ordinal (.prepared transaction scheduleDelayMs rpcError)
        obtain ⟨_, _, _, writer⟩ :=
          left_frame process ordinal (.prepared transaction scheduleDelayMs rpcError)
        exact ready_frame ready admitted first (writer ▸ ready.busy) snapshot
      · cases taken
  | fail ordinal =>
      simp only [Option.ite_none_right_eq_some, Option.some.injEq] at taken
      obtain ⟨_, rfl⟩ := taken
      obtain ⟨first, _, snapshot⟩ := left_parts process ordinal .failed
      obtain ⟨_, _, _, writer⟩ := left_frame process ordinal .failed
      exact ready_frame ready admitted first (writer ▸ ready.busy) snapshot
  | record ordinal broadcastObservedSlot =>
      dsimp only at taken
      split at taken
      · cases taken
        exact ready_frame ready admitted rfl (request_busy _ _) rfl
      · cases taken
  | retry ordinal =>
      simp only [Option.ite_none_right_eq_some, Option.some.injEq] at taken
      obtain ⟨_, rfl⟩ := taken
      exact ready_frame ready admitted rfl (request_busy _ _) rfl
  | refreshBlockhash blockhash =>
      dsimp only at taken
      split at taken <;> cases taken
      exact ready_frame ready admitted rfl ready.busy rfl
  | refreshRouteSnapshot instruction =>
      cases taken
      exact ⟨admitted, ready.first, ready.busy, ⟨_, instruction, rfl⟩⟩
  | complete =>
      simp only [Option.ite_none_right_eq_some, Option.some.injEq] at taken
      obtain ⟨_, rfl⟩ := taken
      exact ready_frame ready admitted rfl (request_busy _ _) rfl
  | closed =>
      simp only [Option.ite_none_right_eq_some, Option.some.injEq] at taken
      obtain ⟨_, rfl⟩ := taken
      exact ready_frame ready admitted rfl ready.busy rfl
  | written =>
      dsimp only at taken
      split at taken
      · cases taken
        exact ready_frame ready admitted rfl (fun _ => rfl) rfl
      · cases taken

def cost (event : Event) : Nat := if isProgress event then 1 else 0

def credit (event : Event) : Nat := if isFailure event then 8 else 0

theorem inside_ahead {state : TaskState} (running : state.phase = .running) : 4 ≤ taskAhead state := by
  cases state with
  | running => exact (by decide : 4 ≤ 6)
  | built direction instruction => exact (by decide : 4 ≤ 5)
  | signed transaction => exact le_rfl
  | _ => cases running

/-- The parts of a step: what its task and its stage lose must pay for what its task
and the writer gain and for the step itself. -/
theorem parts_pay {event : Event} (down up stageDown writes : Nat)
    (first : next.firstOrdinal = process.firstOrdinal)
    (tasks : total taskAhead (SignedBatch.ordinalsToSend config process) next.tasks + down ≤
      total taskAhead (SignedBatch.ordinalsToSend config process) process.tasks + up)
    (stage : stageAhead next.stage + stageDown ≤ stageAhead process.stage)
    (writer : writesAhead next.manifestWriter ≤ writesAhead process.manifestWriter + writes)
    (enough : up + writes + cost event ≤ down + stageDown + credit event) :
    remaining config next + cost event ≤ remaining config process + credit event := by
  have same : SignedBatch.ordinalsToSend config next = SignedBatch.ordinalsToSend config process := by
    unfold SignedBatch.ordinalsToSend
    rw [first]
  unfold remaining
  rw [same]
  omega

/-- Every step pays for itself, and a failure is paid for with eight. -/
theorem advance_pays {event : Event} (ready : Ready config process)
    (taken : advance config sign process event = some next) :
    remaining config next + cost event ≤ remaining config process + credit event := by
  have sent {ordinal : Nat} {state : TaskState} (held : process.tasks ordinal = state)
      (moving : state.phase ≠ .scheduled) : ordinal ∈ SignedBatch.ordinalsToSend config process :=
    started_state ready (held ▸ moving)
  unfold advance at taken
  cases event with
  | start | renamed | crash => cases taken
  | opened blockhash =>
      simp only [Option.ite_none_right_eq_some, Option.some.injEq] at taken
      obtain ⟨⟨opening, _⟩, rfl⟩ := taken
      exact parts_pay 0 0 1 0 rfl le_rfl (by rw [opening]; exact le_rfl) le_rfl le_rfl
  | acquire ordinal =>
      simp only [Option.ite_none_right_eq_some, Option.some.injEq] at taken
      obtain ⟨⟨_, sent, scheduled⟩, rfl⟩ := taken
      unfold enterGate
      cases acquired : process.gate.acquire config.senderMaxInFlight ordinal with
      | mk granted gate =>
          have moved := state_ahead (if granted then .running else .waiting) sent
          have entered : taskAhead (if granted then .running else .waiting) ≤ 7 := by
            cases granted <;> decide
          rw [scheduled] at moved
          refine parts_pay 8 7 0 0 rfl ?_ le_rfl le_rfl le_rfl
          exact moved.le.trans (Nat.add_le_add_left entered _)
  | build ordinal =>
      simp only [Option.ite_none_right_eq_some, Option.map_eq_some_iff] at taken
      obtain ⟨running, instruction, _, rfl⟩ := taken
      have moved := state_ahead (.built (directionFor config ordinal) instruction)
        (sent running (by decide))
      rw [running] at moved
      exact parts_pay 6 5 0 0 rfl moved.le le_rfl le_rfl le_rfl
  | sign ordinal =>
      dsimp only at taken
      split at taken
      next direction instruction blockhash built _ =>
        split at taken <;> cases taken
        · exact parts_pay 0 0 0 0 rfl le_rfl le_rfl le_rfl le_rfl
        · have moved := state_ahead (.signed (signWith sign blockhash direction instruction))
            (sent built nofun)
          rw [built] at moved
          exact parts_pay 5 4 0 0 rfl moved.le le_rfl le_rfl (Nat.le_succ _)
      · cases taken
  | broadcast ordinal scheduleDelayMs rpcError =>
      dsimp only at taken
      split at taken
      next transaction signed =>
        cases taken
        have moved := leave_ahead ready (.prepared transaction scheduleDelayMs rpcError)
          (show (process.tasks ordinal).phase = .running by rw [signed]; rfl)
        obtain ⟨first, stage, _⟩ :=
          left_parts process ordinal (.prepared transaction scheduleDelayMs rpcError)
        obtain ⟨_, _, _, writer⟩ :=
          left_frame process ordinal (.prepared transaction scheduleDelayMs rpcError)
        rw [signed] at moved
        exact parts_pay 4 3 0 0 first moved (congrArg stageAhead stage).le (congrArg writesAhead writer).le
          le_rfl
      · cases taken
  | fail ordinal =>
      simp only [Option.ite_none_right_eq_some, Option.some.injEq] at taken
      obtain ⟨running, rfl⟩ := taken
      have moved := leave_ahead ready .failed running
      have held := inside_ahead running
      obtain ⟨first, stage, _⟩ := left_parts process ordinal .failed
      obtain ⟨_, _, _, writer⟩ := left_frame process ordinal .failed
      refine parts_pay 4 11 0 0 first ?_ (congrArg stageAhead stage).le (congrArg writesAhead writer).le
        (Nat.le_succ _)
      have failed : taskAhead .failed = 11 := rfl
      omega
  | record ordinal broadcastObservedSlot =>
      dsimp only at taken
      split at taken
      next prepared =>
        cases taken
        have moved := state_ahead .recorded (sent prepared nofun)
        rw [prepared] at moved
        exact parts_pay 3 0 0 2 rfl moved.le le_rfl (request_ahead _ _) le_rfl
      · cases taken
  | retry ordinal =>
      simp only [Option.ite_none_right_eq_some, Option.some.injEq] at taken
      obtain ⟨failed, rfl⟩ := taken
      have moved := state_ahead .scheduled (sent failed (by decide))
      rw [failed] at moved
      exact parts_pay 11 8 0 2 rfl moved.le le_rfl (request_ahead _ _) le_rfl
  | refreshBlockhash blockhash =>
      dsimp only at taken
      split at taken <;> cases taken
      exact le_rfl
  | refreshRouteSnapshot instruction =>
      cases taken
      exact le_rfl
  | complete =>
      simp only [Option.ite_none_right_eq_some, Option.some.injEq] at taken
      obtain ⟨⟨sending, _⟩, rfl⟩ := taken
      exact parts_pay 0 0 3 2 rfl le_rfl (by rw [sending]; exact le_rfl) (request_ahead _ _) le_rfl
  | closed =>
      simp only [Option.ite_none_right_eq_some, Option.some.injEq] at taken
      obtain ⟨⟨closing, _⟩, rfl⟩ := taken
      exact parts_pay 0 0 1 0 rfl le_rfl (by rw [closing]; exact le_rfl) le_rfl le_rfl
  | written =>
      dsimp only at taken
      split at taken
      next manifest writing =>
        cases taken
        unfold remaining writesAhead
        rw [writing]
        exact le_rfl
      · cases taken

theorem opened_ready (instruction : String → String) (records : List BatchMonitor.BroadcastRecord)
    (sendErrors : Nat) : Ready config (openBatch config instruction records sendErrors) := by
  refine ⟨⟨fun ordinal moving => absurd rfl moving, List.nodup_nil, fun ordinal => ?_, ?_,
    fun waits => absurd rfl waits⟩, Nat.le_add_left 1 _, request_busy _ _, ⟨1, instruction, rfl⟩⟩
  · exact ⟨fun waits => (nomatch waits), fun waits => absurd waits List.not_mem_nil⟩
  · exact ((total_zero slots).mpr fun _ _ => rfl).symm

theorem remaining_le (ready : Ready config process) :
    remaining config process ≤ 11 * config.requestedBroadcasts + 9 := by
  have tasks : total taskAhead (SignedBatch.ordinalsToSend config process) process.tasks ≤
      11 * (SignedBatch.ordinalsToSend config process).length :=
    total_le taskAhead fun state => by cases state <;> simp [taskAhead]
  have first := ready.first
  have counted : (SignedBatch.ordinalsToSend config process).length ≤ config.requestedBroadcasts := by
    unfold SignedBatch.ordinalsToSend
    rw [List.length_range']
    omega
  have stage : stageAhead process.stage ≤ 5 := by cases process.stage <;> decide
  have writes : writesAhead process.manifestWriter ≤ 4 := by
    unfold writesAhead
    split <;> split <;> decide
  unfold remaining
  omega

end Measure

section Completion
open SignedBatch
variable {config : BatchConfig} {sign : String → String → String}

def SystemReady (config : BatchConfig) (system : System) : Prop :=
  ∀ process, system.process = some process → Ready config process

def systemRemaining (config : BatchConfig) (system : System) : Nat :=
  (system.process.map (remaining config)).getD 0

theorem renamed_ready {process : Process} {manifest : Manifest} (ready : Ready config process)
    (last : process.manifestWriter.writing = some (.rename manifest)) :
    Ready config { process with
        manifestWriter := process.manifestWriter.drain (renderManifest config process) } ∧
      remaining config { process with
        manifestWriter := process.manifestWriter.drain (renderManifest config process) } + 1 ≤
          remaining config process :=
  ⟨ready_frame ready (admitted_frame ready.admitted rfl rfl rfl) rfl (drain_busy _ _) rfl,
    Nat.add_le_add_left (drain_ahead (renderManifest config process) last) _⟩

/-- A step other than a crash keeps a running batch running, ready and paid for. -/
theorem step_pays {system next : System} {event : Event} (uninterrupted : event ≠ .crash)
    (alive : system.process.isSome = true) (ready : SystemReady config system)
    (taken : step config sign system event = some next) :
    (next.process.isSome = true ∧ SystemReady config next) ∧
      systemRemaining config next + cost event ≤ systemRemaining config system + credit event := by
  obtain ⟨process, running⟩ := Option.isSome_iff_exists.mp alive
  have here := ready process running
  have only (after : Process) (ready : Ready config after) (published : Option Manifest) :
      SystemReady config ⟨published, some after⟩ := fun other same => Option.some.inj same ▸ ready
  have advances (taken : (system.process.bind fun process =>
      (advance config sign process event).map fun process => { system with process := some process }) =
        some next) : (next.process.isSome = true ∧ SystemReady config next) ∧
          systemRemaining config next + cost event ≤ systemRemaining config system + credit event := by
    rw [running] at taken
    obtain ⟨later, advanced, rfl⟩ := Option.map_eq_some_iff.mp taken
    refine ⟨⟨rfl, only later (advance_ready here advanced) _⟩, ?_⟩
    unfold systemRemaining
    rw [running]
    exact advance_pays here advanced
  cases event with
  | start instruction =>
      unfold step at taken
      dsimp only at taken
      rw [running] at taken
      cases taken
  | crash => exact absurd rfl uninterrupted
  | renamed =>
      unfold step at taken
      dsimp only at taken
      rw [running] at taken
      dsimp only [Option.bind_some] at taken
      split at taken
      next manifest last =>
        cases taken
        obtain ⟨after, paid⟩ := renamed_ready here last
        refine ⟨⟨rfl, only _ after _⟩, ?_⟩
        unfold systemRemaining
        rw [running]
        exact paid
      · cases taken
  | _ => exact advances taken

theorem step_ready {system next : System} {event : Event} (ready : SystemReady config system)
    (taken : step config sign system event = some next) : SystemReady config next := by
  cases found : system.process with
  | some process =>
      by_cases crashed : event = .crash
      · subst crashed
        cases taken
        exact nofun
      · exact (step_pays crashed (by rw [found]; rfl) ready taken).1.2
  | none =>
      cases event with
      | start instruction =>
          unfold step at taken
          dsimp only at taken
          rw [found] at taken
          obtain ⟨process, loaded, rfl⟩ := Option.map_eq_some_iff.mp taken
          intro other same
          cases same
          unfold loadBatch at loaded
          split at loaded
          · cases loaded
            exact opened_ready instruction [] 0
          · split at loaded <;> cases loaded
            exact opened_ready instruction _ _
      | crash =>
          cases taken
          exact nofun
      | _ =>
          unfold step at taken
          dsimp only at taken
          rw [found] at taken
          cases taken

/-- The build of every ordinal is in the snapshot. -/
theorem build_present {process : Process} (ready : Ready config process) (ordinal : Nat) :
    ∃ instruction, process.routeSnapshot.builds.lookup (directionFor config ordinal) = some instruction := by
  obtain ⟨version, instruction, snapshot⟩ := ready.snapshot
  rw [snapshot]
  exact snapshot_has_build config version instruction ordinal

theorem process_step {process later : Process} {event : Event} {published : Option Manifest}
    (advanced : advance config sign process event = some later) :
    step config sign ⟨published, some process⟩ event = some ⟨published, some later⟩ := by
  have moved : ((advance config sign process event).map fun process =>
      (⟨published, some process⟩ : System)) = some ⟨published, some later⟩ := by
    rw [advanced]
    rfl
  cases event with
  | start | renamed | crash => cases advanced
  | _ => exact moved

variable (config sign) in
/-- At most two steps lie before one that counts. -/
def GoesOn (system : System) : Prop :=
  ∃ path event, path.length ≤ 2 ∧ isProgress event = true ∧
    (run (step config sign) system (path ++ [event])).isSome = true

theorem goes_on_at_once {process : Process} {published : Option Manifest} (event : Event)
    (counts : isProgress event = true) (advances : (advance config sign process event).isSome = true) :
    GoesOn config sign ⟨published, some process⟩ := by
  obtain ⟨later, advanced⟩ := Option.isSome_iff_exists.mp advances
  exact ⟨[], event, Nat.zero_le _, counts, Option.isSome_iff_exists.mpr
    ⟨_, (run_cons_some _ _ event []).mpr ⟨_, process_step advanced, rfl⟩⟩⟩

/-- Nobody waits at an empty gate. -/
theorem waiting_served {process : Process} {ordinal : Nat} (positive : 1 ≤ config.senderMaxInFlight)
    (ready : Ready config process) (waits : process.tasks ordinal = .waiting) :
    ∃ holder, (process.tasks holder).phase = .running := by
  have queued : ordinal ∈ process.gate.waiters :=
    (ready.admitted.waiting ordinal).mp (congrArg TaskState.phase waits)
  have full : config.senderMaxInFlight ≤ process.gate.active :=
    ready.admitted.full (List.ne_nil_of_mem queued)
  by_contra nobody
  push Not at nobody
  have empty : process.gate.active = 0 := by
    refine ready.admitted.counted.trans ((total_zero slots).mpr fun holder _ => ?_)
    have outside : process.erase.tasks holder ≠ .running := nobody holder
    unfold slots
    split
    · contradiction
    · rfl
  omega

/-- A task inside the gate takes its build, a new signature, or leaves. -/
theorem inside_goes_on {process : Process} {ordinal : Nat}
    (fresh : ∀ (instruction : String) (issued : List String), ∃ blockhash, sign instruction blockhash ∉ issued)
    (ready : Ready config process) (sending : process.stage = .sending) (published : Option Manifest)
    (inside : (process.tasks ordinal).phase = .running) : GoesOn config sign ⟨published, some process⟩ := by
  cases held : process.tasks ordinal with
  | running =>
      obtain ⟨instruction, present⟩ := build_present ready ordinal
      refine goes_on_at_once (.build ordinal) rfl ?_
      unfold advance
      dsimp only
      rw [if_pos held, present]
      rfl
  | built direction instruction =>
      obtain ⟨blockhash, unused⟩ := fresh instruction process.issuedSignatures
      let cached : CachedBlockhash := ⟨0, blockhash, 0⟩
      let transaction := signWith sign cached direction instruction
      have refreshed : advance config sign process (.refreshBlockhash cached) =
          some { process with blockhashCache := some cached } :=
        if_neg (by rw [sending]; decide)
      have reserved : reserveUniqueSignature process.issuedSignatures transaction.signature =
          (true, transaction.signature :: process.issuedSignatures) := if_neg unused
      have signed : advance config sign { process with blockhashCache := some cached } (.sign ordinal) =
          some { setState { process with blockhashCache := some cached } ordinal (.signed transaction) with
                 issuedSignatures := transaction.signature :: process.issuedSignatures } := by
        unfold advance
        dsimp only
        rw [held]
        dsimp only
        rw [reserved]
      have ready : (advance config sign
          { setState { process with blockhashCache := some cached } ordinal (.signed transaction) with
            issuedSignatures := transaction.signature :: process.issuedSignatures }
          (.broadcast ordinal 0 none)).isSome = true := by
        unfold advance setState
        dsimp only
        rw [Function.update_self]
        rfl
      obtain ⟨later, broadcast⟩ := Option.isSome_iff_exists.mp ready
      exact ⟨[.refreshBlockhash cached, .sign ordinal], .broadcast ordinal 0 none, le_rfl, rfl,
        Option.isSome_iff_exists.mpr ⟨_, (run_cons_some _ _ _ _).mpr ⟨_, process_step refreshed,
          (run_cons_some _ _ _ _).mpr ⟨_, process_step signed,
            (run_cons_some _ _ _ _).mpr ⟨_, process_step broadcast, rfl⟩⟩⟩⟩⟩
  | signed transaction =>
      refine goes_on_at_once (.broadcast ordinal 0 none) rfl ?_
      unfold advance
      dsimp only
      rw [held]
      rfl
  | _ => rw [held] at inside; cases inside

/-- A running batch that is not done can go on. -/
theorem batch_goes_on {process : Process} (positive : 1 ≤ config.senderMaxInFlight)
    (fresh : ∀ (instruction : String) (issued : List String), ∃ blockhash, sign instruction blockhash ∉ issued)
    (ready : Ready config process) (unfinished : process.stage ≠ .done) (published : Option Manifest) :
    GoesOn config sign ⟨published, some process⟩ := by
  have at_once (event : Event) (counts : isProgress event = true)
      (advances : (advance config sign process event).isSome = true) :
      GoesOn config sign ⟨published, some process⟩ := goes_on_at_once event counts advances
  -- A stage that waits for the writer goes on when it is idle, and the writer itself goes on until then.
  have writes (stage : process.manifestWriter.writing ≠ none) :
      GoesOn config sign ⟨published, some process⟩ := by
    cases writing : process.manifestWriter.writing with
    | none => exact absurd writing stage
    | some current =>
        cases current with
        | writeFile manifest =>
            refine at_once .written rfl ?_
            unfold advance
            dsimp only
            rw [writing]
            rfl
        | rename manifest =>
            have renames : (step config sign ⟨published, some process⟩ .renamed).isSome = true := by
              unfold step
              dsimp only
              rw [Option.bind_some, writing]
              rfl
            obtain ⟨later, renamed⟩ := Option.isSome_iff_exists.mp renames
            exact ⟨[], .renamed, Nat.zero_le _, rfl, Option.isSome_iff_exists.mpr
              ⟨_, (run_cons_some _ _ _ []).mpr ⟨_, renamed, rfl⟩⟩⟩
  cases stage : process.stage with
  | done => exact absurd stage unfinished
  | opening =>
      by_cases idle : process.manifestWriter.writing = none
      · refine at_once (.opened ⟨0, "", 0⟩) rfl ?_
        unfold advance
        dsimp only
        rw [if_pos ⟨stage, idle⟩]
        rfl
      · exact writes idle
  | closing =>
      by_cases idle : process.manifestWriter.writing = none
      · refine at_once .closed rfl ?_
        unfold advance
        dsimp only
        rw [if_pos ⟨stage, idle⟩]
        rfl
      · exact writes idle
  | sending =>
      by_cases recorded : ∀ ordinal ∈ SignedBatch.ordinalsToSend config process,
          process.tasks ordinal = .recorded
      · refine at_once .complete rfl ?_
        unfold advance
        dsimp only
        rw [if_pos ⟨stage, recorded⟩]
        rfl
      · push Not at recorded
        obtain ⟨ordinal, sent, unrecorded⟩ := recorded
        cases held : process.tasks ordinal with
        | recorded => exact absurd held unrecorded
        | scheduled =>
            refine at_once (.acquire ordinal) rfl ?_
            unfold advance
            dsimp only
            rw [if_pos ⟨stage, sent, held⟩]
            rfl
        | waiting =>
            obtain ⟨holder, inside⟩ := waiting_served positive ready held
            exact inside_goes_on fresh ready stage published inside
        | running | built direction instruction | signed transaction =>
            exact inside_goes_on fresh ready stage published (by rw [held]; rfl)
        | prepared transaction scheduleDelayMs rpcError =>
            refine at_once (.record ordinal none) rfl ?_
            unfold advance
            dsimp only
            rw [held]
            rfl
        | failed =>
            refine at_once (.retry ordinal) rfl ?_
            unfold advance
            dsimp only
            rw [if_pos held]
            rfl

/-- Whatever crashes and restarts came before: a batch that is not interrupted again
takes a bounded number of steps of progress, eight more for each failed attempt, and
until it is done another one is in reach: it never gets stuck, at its gate, its
signatures or its file. -/
theorem batch_finishes (positive : 1 ≤ config.senderMaxInFlight)
    (fresh : ∀ (instruction : String) (issued : List String), ∃ blockhash, sign instruction blockhash ∉ issued)
    (before during : List Event) (reached final : System)
    (ran : run (step config sign) initial before = some reached) (alive : reached.process.isSome = true)
    (uninterrupted : .crash ∉ during) (ranOn : run (step config sign) reached during = some final) :
    (during.filter isProgress).length ≤
        11 * config.requestedBroadcasts + 9 + 8 * (during.filter isFailure).length ∧
      ∃ process, final.process = some process ∧
        (process.stage = .done ∨ GoesOn config sign final) := by
  have ready : SystemReady config reached :=
    run_preserves (SystemReady config) (fun _ _ _ => step_ready) (fun _ same => (by cases same)) ran
  have going : AllowedAlong (step config sign) (fun _ event => event ≠ .crash) reached during :=
    allowed_of_events during reached fun event member same => uninterrupted (same ▸ member)
  obtain ⟨⟨running, readyAtEnd⟩, bounded⟩ := run_budget
    (fun system => system.process.isSome = true ∧ SystemReady config system) cost credit
    (systemRemaining config)
    (fun _ _ _ going kept taken => step_pays going kept.1 kept.2 taken) during ⟨alive, ready⟩ going ranOn
  obtain ⟨process, found⟩ := Option.isSome_iff_exists.mp running
  refine ⟨?_, process, found, ?_⟩
  · obtain ⟨first, there⟩ := Option.isSome_iff_exists.mp alive
    have most := remaining_le (ready first there)
    have counted := sum_counted isProgress 1 during
    have failed := sum_counted isFailure 8 during
    unfold systemRemaining at bounded
    rw [there] at bounded
    unfold cost credit at bounded
    rw [counted, failed] at bounded
    dsimp only [Option.map_some, Option.getD_some] at bounded
    omega
  · by_cases done : process.stage = .done
    · exact .inl done
    · have goes := batch_goes_on positive fresh (readyAtEnd process found) done final.published
      rw [← found] at goes
      exact .inr goes

theorem sample_fresh (instruction : String) (issued : List String) :
    ∃ blockhash, sampleSign instruction blockhash ∉ issued := by
  by_contra exhausted
  push Not at exhausted
  have injective : Function.Injective (sampleSign instruction) := fun _ _ => (String.append_right_inj instruction).mp
  have unbounded := Set.infinite_range_of_injective injective
  refine unbounded (issued.toFinset.finite_toSet.subset ?_)
  rintro _ ⟨blockhash, rfl⟩
  exact List.mem_toFinset.mpr (exhausted blockhash)

/-- An attempt fails and is made again. -/
def sampleAttempt : List Event := [.build 1, .fail 1, .retry 1, .written, .renamed]

theorem batch_finishes_sample : ∃ final process,
    run (step BatchResume.twoBroadcasts sampleSign) initial
        ([.start id, .written, .renamed, .opened ⟨5, "first", 9⟩, .acquire 1] ++ sampleAttempt) = some final ∧
      final.process = some process ∧
      (process.stage = .done ∨ GoesOn BatchResume.twoBroadcasts sampleSign final) := by
  have opened : ((run (step BatchResume.twoBroadcasts sampleSign) initial
      [.start id, .written, .renamed, .opened ⟨5, "first", 9⟩, .acquire 1]).bind fun reached =>
        reached.process.bind fun _ =>
          run (step BatchResume.twoBroadcasts sampleSign) reached sampleAttempt).isSome = true := by
    decide +kernel
  obtain ⟨final, arrived⟩ := Option.isSome_iff_exists.mp opened
  obtain ⟨reached, ran, arrived⟩ := Option.bind_eq_some_iff.mp arrived
  obtain ⟨there, alive, ranOn⟩ := Option.bind_eq_some_iff.mp arrived
  obtain ⟨_, process, found, goes⟩ := batch_finishes (by decide) sample_fresh _ sampleAttempt reached final
    ran (Option.isSome_iff_exists.mpr ⟨there, alive⟩) (by simp [sampleAttempt]) ranOn
  exact ⟨final, process, run_append ran ranOn, found, goes⟩

end Completion

end ArbExecutor.SenderProgress
