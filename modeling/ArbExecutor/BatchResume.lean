import ArbExecutor.GuardedRuns
import ArbExecutor.SenderPipeline
import Mathlib.Data.List.Sort
import Mathlib.Tactic

/-!
The batch broadcaster of scripts/mainnet-smoke.ts with its crashes and restarts.
Tasks of all ordinals run at once behind the gate, a record is appended when its
own broadcast is done, and the manifest file is all that survives a crash. Time
is left out: any task may go on whenever its phase allows it. A failed write
rejects a promise that main awaits or that nobody handles, so it is a crash.
-/

namespace ArbExecutor.BatchResume

open GuardedRuns SenderPipeline

/-- What a restart compares with the manifest it finds. -/
structure BatchConfig where
  targetMint : String
  pumpPool : String
  meteoraPool : String
  requestedBroadcasts : Nat
  direction : String
  intervalMs : Nat
  wsolAmountIn : Nat
  minProfitLamports : Nat
  computeUnitLimit : Nat
  computeUnitPriceMicroLamports : Nat
  senderMaxInFlight : Nat
  deriving DecidableEq

/-- Of a record only the ordinal takes part in the resumption. -/
structure BatchRecord where
  ordinal : Nat
  deriving DecidableEq

structure Manifest where
  config : BatchConfig
  sendErrors : Nat
  sendingComplete : Bool
  records : List BatchRecord
  deriving DecidableEq

def ordinals (records : List BatchRecord) : List Nat := records.map (·.ordinal)

/-- Where the task of an ordinal stands: before its gate, queued at it, inside it,
past it with a broadcast or with an error, or recorded. -/
inductive TaskPhase where
  | scheduled
  | waiting
  | running
  | prepared
  | failed
  | recorded
  deriving DecidableEq

/-- What main awaits: its first flush, the tasks, its last flush, or nothing. -/
inductive MainStage where
  | opening
  | sending
  | closing
  | done
  deriving DecidableEq

structure Process where
  stage : MainStage
  records : List BatchRecord
  sendErrors : Nat
  sendingComplete : Bool
  firstOrdinal : Nat
  tasks : Nat → TaskPhase
  gate : ConcurrencyGate Nat
  manifestWriter : AsyncManifestWriter Manifest

structure System where
  published : Option Manifest
  process : Option Process

inductive Event where
  | start
  | opened
  | acquire (ordinal : Nat)
  | broadcast (ordinal : Nat) (rpcError : Bool)
  | fail (ordinal : Nat)
  | record (ordinal : Nat)
  | retry (ordinal : Nat)
  | written
  | renamed
  | complete
  | closed
  | crash
  deriving DecidableEq

section Steps
variable (config : BatchConfig)

def renderManifest (process : Process) : Manifest where
  config
  sendErrors := process.sendErrors
  sendingComplete := process.sendingComplete
  records := process.records.insertionSort fun left right => left.ordinal ≤ right.ordinal

def requestManifest (process : Process) : Process :=
  { process with manifestWriter := process.manifestWriter.request (renderManifest config process) }

/-- Main up to its first flush. The records do not change before the first task
starts, so the first ordinal is already known. -/
def openBatch (records : List BatchRecord) (sendErrors : Nat) : Process :=
  requestManifest config
    { stage := .opening, records, sendErrors, sendingComplete := false
      firstOrdinal := records.length + 1, tasks := fun _ => .scheduled
      gate := .opened, manifestWriter := .idle }

/-- A manifest of another configuration is refused. -/
def loadBatch (published : Option Manifest) : Option Process :=
  match published with
  | none => some (openBatch config [] 0)
  | some manifest =>
      if manifest.config = config then some (openBatch config manifest.records manifest.sendErrors)
      else none

def ordinalsToSend (process : Process) : List Nat :=
  List.range' process.firstOrdinal (config.requestedBroadcasts + 1 - process.firstOrdinal)

def setPhase (process : Process) (ordinal : Nat) (phase : TaskPhase) : Process :=
  { process with tasks := Function.update process.tasks ordinal phase }

/-- A task leaves the gate and the first waiter, if any, takes its slot. -/
def leaveGate (process : Process) (ordinal : Nat) (phase : TaskPhase) : Process :=
  let (woken, gate) := process.gate.release
  let process := { setPhase process ordinal phase with gate }
  match woken with
  | none => process
  | some next => setPhase process next .running

def enterGate (process : Process) (ordinal : Nat) : Process :=
  let (granted, gate) := process.gate.acquire config.senderMaxInFlight ordinal
  { setPhase process ordinal (if granted then .running else .waiting) with gate }

/-- One step of main or of a task; none when it cannot be taken. -/
def advance (process : Process) : Event → Option Process
  | .opened =>
      if process.stage = .opening ∧ process.manifestWriter.writing = none then
        some { process with stage := .sending }
      else none
  | .acquire ordinal =>
      if process.stage = .sending ∧ ordinal ∈ ordinalsToSend config process ∧
          process.tasks ordinal = .scheduled then
        some (enterGate config process ordinal)
      else none
  | .broadcast ordinal rpcError =>
      if process.tasks ordinal = .running then
        some { leaveGate process ordinal .prepared with
               sendErrors := process.sendErrors + if rpcError then 1 else 0 }
      else none
  | .fail ordinal =>
      if process.tasks ordinal = .running then some (leaveGate process ordinal .failed) else none
  | .record ordinal =>
      if process.tasks ordinal = .prepared then
        some (requestManifest config
          { setPhase process ordinal .recorded with records := process.records ++ [{ ordinal := ordinal }] })
      else none
  | .retry ordinal =>
      if process.tasks ordinal = .failed then
        some (requestManifest config
          { setPhase process ordinal .scheduled with sendErrors := process.sendErrors + 1 })
      else none
  | .complete =>
      if process.stage = .sending ∧
          ∀ ordinal ∈ ordinalsToSend config process, process.tasks ordinal = .recorded then
        some (requestManifest config { process with stage := .closing, sendingComplete := true })
      else none
  | .closed =>
      if process.stage = .closing ∧ process.manifestWriter.writing = none then
        some { process with stage := .done }
      else none
  | .written =>
      match process.manifestWriter.writing with
      | some (.writeFile manifest) =>
          some { process with
                 manifestWriter := { process.manifestWriter with writing := some (.rename manifest) } }
      | _ => none
  | _ => none

/-- One step of the system: a process starts, goes on or dies; a rename publishes. -/
def step (system : System) : Event → Option System
  | .start =>
      match system.process with
      | none => (loadBatch config system.published).map fun process => { system with process := some process }
      | some _ => none
  | .crash => some { system with process := none }
  | .renamed =>
      system.process.bind fun process =>
        match process.manifestWriter.writing with
        | some (.rename manifest) =>
            some { published := some manifest
                   process := some { process with
                     manifestWriter := process.manifestWriter.drain (renderManifest config process) } }
        | _ => none
  | event =>
      system.process.bind fun process =>
        (advance config process event).map fun process => { system with process := some process }

end Steps

def initial : System := { published := none, process := none }

section Invariants
variable (config : BatchConfig)

/-- A manifest that is marked complete has one record for each ordinal. -/
structure ManifestSound (manifest : Manifest) : Prop where
  within : ∀ ordinal ∈ ordinals manifest.records, ordinal ≤ config.requestedBroadcasts
  exact : manifest.sendingComplete = true →
    (ordinals manifest.records).Perm (List.range' 1 config.requestedBroadcasts)

/-- The records are those below the first ordinal and those of the recorded tasks. -/
structure Tracks (process : Process) : Prop where
  first : 1 ≤ process.firstOrdinal
  within : process.firstOrdinal ≤ config.requestedBroadcasts + 1
  nodup : (ordinals process.records).Nodup
  members : ∀ ordinal, ordinal ∈ ordinals process.records ↔
    1 ≤ ordinal ∧ ordinal < process.firstOrdinal ∨
      ordinal ∈ ordinalsToSend config process ∧ process.tasks ordinal = .recorded
  started : ∀ ordinal, process.tasks ordinal ≠ .scheduled → ordinal ∈ ordinalsToSend config process
  finished : process.sendingComplete = true →
    ∀ ordinal ∈ ordinalsToSend config process, process.tasks ordinal = .recorded

/-- Exactly the tasks in the queue may be woken. -/
structure Queued (process : Process) : Prop where
  nodup : process.gate.waiters.Nodup
  waiting : ∀ ordinal ∈ process.gate.waiters, process.tasks ordinal = .waiting

/-- Whatever is being written is sound, and a complete batch is published, being
written or still pending. -/
structure WriterSound (process : Process) (published : Option Manifest) : Prop where
  busy : process.manifestWriter.Busy
  inFlight : ∀ stage, process.manifestWriter.writing = some stage → ManifestSound config stage.rendering
  marked : process.stage = .closing ∨ process.stage = .done → process.sendingComplete = true
  saved : process.sendingComplete = true →
    (process.manifestWriter.writing = none →
      ∃ manifest, published = some manifest ∧ manifest.sendingComplete = true) ∧
    ∀ stage, process.manifestWriter.writing = some stage →
      process.manifestWriter.dirty = true ∨ stage.rendering.sendingComplete = true
  idle : process.stage = .done → process.manifestWriter.writing = none

structure ProcessSound (process : Process) (published : Option Manifest) : Prop where
  tracks : Tracks config process
  queued : Queued process
  writer : WriterSound config process published

def Consistent (system : System) : Prop :=
  (∀ manifest, system.published = some manifest → ManifestSound config manifest) ∧
    ∀ process, system.process = some process → ProcessSound config process system.published

variable {config} {process : Process} {published : Option Manifest}

theorem to_send_iff (ordinal : Nat) :
    ordinal ∈ ordinalsToSend config process ↔
      process.firstOrdinal ≤ ordinal ∧ ordinal ≤ config.requestedBroadcasts := by
  unfold ordinalsToSend
  rw [List.mem_range'_1]
  omega

theorem rendered_perm :
    (ordinals (renderManifest config process).records).Perm (ordinals process.records) :=
  (List.perm_insertionSort _ _).map _

/-- A process renders a sound manifest. -/
theorem render_sound (tracked : Tracks config process) :
    ManifestSound config (renderManifest config process) := by
  have reach (ordinal : Nat) (member : ordinal ∈ ordinals process.records) :
      1 ≤ ordinal ∧ ordinal ≤ config.requestedBroadcasts := by
    have low := tracked.first
    have high := tracked.within
    rcases (tracked.members ordinal).mp member with below | ⟨sent, _⟩
    · omega
    · rw [to_send_iff] at sent
      omega
  constructor
  · intro ordinal member
    exact (reach ordinal (rendered_perm.mem_iff.mp member)).2
  · intro complete
    refine rendered_perm.trans ((List.perm_ext_iff_of_nodup tracked.nodup List.nodup_range').mpr
      fun ordinal => ?_)
    rw [List.mem_range'_1]
    refine ⟨fun member => by have bounds := reach ordinal member; omega, fun bounds => ?_⟩
    rw [tracked.members]
    by_cases early : ordinal < process.firstOrdinal
    · exact .inl ⟨bounds.1, early⟩
    · have sent : ordinal ∈ ordinalsToSend config process := (to_send_iff ordinal).mpr (by omega)
      exact .inr ⟨sent, tracked.finished complete ordinal sent⟩

/-- What the records and the tasks leave alone is tracked as before. -/
theorem tracks_frame {next : Process} (tracked : Tracks config process)
    (first : next.firstOrdinal = process.firstOrdinal) (records : next.records = process.records)
    (tasks : next.tasks = process.tasks) (complete : next.sendingComplete = process.sendingComplete) :
    Tracks config next := by
  have sent : ordinalsToSend config next = ordinalsToSend config process := by
    unfold ordinalsToSend
    rw [first]
  refine ⟨?_, ?_, ?_, fun ordinal => ?_, fun ordinal => ?_, ?_⟩
  · rw [first]
    exact tracked.first
  · rw [first]
    exact tracked.within
  · rw [records]
    exact tracked.nodup
  · rw [records, first, sent, tasks]
    exact tracked.members ordinal
  · rw [tasks, sent]
    exact tracked.started ordinal
  · rw [complete, sent, tasks]
    exact tracked.finished

theorem queued_frame {next : Process} (queued : Queued process)
    (waiters : next.gate.waiters = process.gate.waiters) (tasks : next.tasks = process.tasks) :
    Queued next := by
  constructor
  · rw [waiters]
    exact queued.nodup
  · rw [waiters, tasks]
    exact queued.waiting

theorem writer_frame {next : Process} (writer : WriterSound config process published)
    (same : next.manifestWriter = process.manifestWriter) (stage : next.stage = process.stage)
    (complete : next.sendingComplete = process.sendingComplete) : WriterSound config next published := by
  constructor
  · rw [same]
    exact writer.busy
  · rw [same]
    exact writer.inFlight
  · rw [stage, complete]
    exact writer.marked
  · rw [same, complete]
    exact writer.saved
  · rw [stage, same]
    exact writer.idle

theorem request_tracks (tracked : Tracks config process) : Tracks config (requestManifest config process) :=
  tracks_frame tracked rfl rfl rfl rfl

/-- A request keeps the writer sound, whatever was saved before. -/
theorem request_writer_sound (tracked : Tracks config process)
    (inFlight : ∀ stage, process.manifestWriter.writing = some stage → ManifestSound config stage.rendering)
    (marked : process.stage = .closing ∨ process.stage = .done → process.sendingComplete = true)
    (running : process.stage ≠ .done) :
    WriterSound config (requestManifest config process) published := by
  have rendered := render_sound tracked
  rcases request_cases process.manifestWriter (renderManifest config process) with
    ⟨_, requested⟩ | ⟨writing, requested⟩
  · have writer : (requestManifest config process).manifestWriter =
        { dirty := false, writing := some (.writeFile (renderManifest config process)) } := requested
    constructor
    · rw [writer]
      exact fun pending => nomatch pending
    · rw [writer]
      intro stage same
      cases same
      exact rendered
    · exact marked
    · intro complete
      rw [writer]
      refine ⟨fun none => (nomatch none), fun stage same => .inr ?_⟩
      cases same
      exact complete
    · exact fun ended => absurd ended running
  · have writer : (requestManifest config process).manifestWriter =
        { process.manifestWriter with dirty := true } := requested
    constructor
    · rw [writer]
      exact fun _ => writing
    · rw [writer]
      exact inFlight
    · exact marked
    · intro _
      rw [writer]
      refine ⟨fun none => ?_, fun _ _ => .inl rfl⟩
      have idle : process.manifestWriter.writing = Option.none := none
      rw [idle] at writing
      cases writing
    · exact fun ended => absurd ended running

/-- Moving a task between phases that are not `recorded` changes no record. -/
theorem set_phase_tracks (tracked : Tracks config process) {ordinal : Nat} {phase : TaskPhase}
    (sent : ordinal ∈ ordinalsToSend config process) (before : process.tasks ordinal ≠ .recorded)
    (after : phase ≠ .recorded) : Tracks config (setPhase process ordinal phase) := by
  have kept (other : Nat) : (setPhase process ordinal phase).tasks other = .recorded ↔
      process.tasks other = .recorded := by
    by_cases same : other = ordinal
    · subst same
      exact ⟨fun reached => absurd ((Function.update_self ..).symm.trans reached) after,
        fun reached => absurd reached before⟩
    · have untouched : (setPhase process ordinal phase).tasks other = process.tasks other :=
        Function.update_of_ne same _ _
      rw [untouched]
  refine ⟨tracked.first, tracked.within, tracked.nodup, fun other => ?_, fun other moved => ?_,
    fun complete => absurd (tracked.finished complete ordinal sent) before⟩
  · rw [kept]
    exact tracked.members other
  · by_cases same : other = ordinal
    · subst same
      exact sent
    · have untouched : (setPhase process ordinal phase).tasks other = process.tasks other :=
        Function.update_of_ne same _ _
      exact tracked.started other (untouched ▸ moved)

/-- A task that is not queued can move without disturbing the queue. -/
theorem set_phase_queued (queued : Queued process) {ordinal : Nat} {phase : TaskPhase}
    (outside : process.tasks ordinal ≠ .waiting) : Queued (setPhase process ordinal phase) := by
  refine ⟨queued.nodup, fun other member => ?_⟩
  have waits := queued.waiting other member
  have different : other ≠ ordinal := fun same => outside (same ▸ waits)
  exact (Function.update_of_ne different _ _).trans waits

theorem leave_gate_cases (ordinal : Nat) (phase : TaskPhase) :
    (∃ gate, gate.waiters = process.gate.waiters ∧
        leaveGate process ordinal phase = { setPhase process ordinal phase with gate }) ∨
      ∃ next gate, process.gate.waiters = next :: gate.waiters ∧
        leaveGate process ordinal phase =
          setPhase { setPhase process ordinal phase with gate } next .running := by
  unfold leaveGate ConcurrencyGate.release
  cases queue : process.gate.waiters with
  | nil => exact .inl ⟨{ active := process.gate.active - 1, waiters := [] }, rfl, rfl⟩
  | cons next waiters => exact .inr ⟨next, { active := process.gate.active - 1 + 1, waiters }, rfl, rfl⟩

/-- Leaving the gate moves the task and at most one waiter, and nothing else. -/
theorem leave_gate_sound {ordinal : Nat} {phase : TaskPhase} (sound : ProcessSound config process published)
    (running : process.tasks ordinal = .running) (kept : phase ≠ .recorded) :
    ProcessSound config (leaveGate process ordinal phase) published := by
  have sent := sound.tracks.started ordinal (by rw [running]; decide)
  have moved := set_phase_tracks sound.tracks sent (by rw [running]; decide) kept
  have requeued : Queued (setPhase process ordinal phase) :=
    set_phase_queued sound.queued (by rw [running]; decide)
  rcases leave_gate_cases ordinal phase with ⟨gate, queue, left⟩ | ⟨next, gate, queue, left⟩
  · rw [left]
    exact ⟨tracks_frame moved rfl rfl rfl rfl, queued_frame requeued queue rfl,
      writer_frame sound.writer rfl rfl rfl⟩
  · rw [left]
    have unique : (next :: gate.waiters).Nodup := queue ▸ requeued.nodup
    have waits (other : Nat) (member : other ∈ next :: gate.waiters) :
        (setPhase process ordinal phase).tasks other = .waiting :=
      requeued.waiting other (queue ▸ member)
    have shifted : Tracks config { setPhase process ordinal phase with gate } :=
      tracks_frame moved rfl rfl rfl rfl
    -- The first waiter runs at once, and no other waiter is that task.
    have woken := waits next List.mem_cons_self
    refine ⟨set_phase_tracks shifted ?_ ?_ (by decide), ⟨?_, ?_⟩,
      writer_frame sound.writer rfl rfl rfl⟩
    · exact moved.started next (by rw [woken]; decide)
    · change (setPhase process ordinal phase).tasks next ≠ .recorded
      rw [woken]
      decide
    · exact (List.nodup_cons.mp unique).2
    · intro other member
      have different : other ≠ next := fun same => (List.nodup_cons.mp unique).1 (same ▸ member)
      exact (Function.update_of_ne different _ _).trans (waits other (List.mem_cons_of_mem _ member))

theorem enter_gate_sound {ordinal : Nat} (sound : ProcessSound config process published)
    (sent : ordinal ∈ ordinalsToSend config process) (scheduled : process.tasks ordinal = .scheduled) :
    ProcessSound config (enterGate config process ordinal) published := by
  have writer := sound.writer
  have fresh : process.tasks ordinal ≠ .recorded := by rw [scheduled]; decide
  have outside : process.tasks ordinal ≠ .waiting := by rw [scheduled]; decide
  unfold enterGate ConcurrencyGate.acquire
  -- A free slot is taken at once; otherwise the task joins the queue, where it was not before.
  by_cases free : process.gate.active < config.senderMaxInFlight
  · rw [if_pos free]
    have moved : Tracks config (setPhase process ordinal .running) :=
      set_phase_tracks sound.tracks sent fresh (by decide)
    have requeued : Queued (setPhase process ordinal .running) := set_phase_queued sound.queued outside
    exact ⟨tracks_frame moved rfl rfl rfl rfl, queued_frame requeued rfl rfl,
      writer_frame writer rfl rfl rfl⟩
  · rw [if_neg free]
    have moved : Tracks config (setPhase process ordinal .waiting) :=
      set_phase_tracks sound.tracks sent fresh (by decide)
    have requeued : Queued (setPhase process ordinal .waiting) := set_phase_queued sound.queued outside
    refine ⟨tracks_frame moved rfl rfl rfl rfl, ⟨?_, ?_⟩, writer_frame writer rfl rfl rfl⟩
    · have absent : ordinal ∉ process.gate.waiters :=
        fun member => outside (sound.queued.waiting ordinal member)
      exact List.nodup_append.mpr ⟨sound.queued.nodup, List.nodup_singleton _, fun left member right same => by
        rw [List.mem_singleton] at same
        rintro rfl
        exact absent (same ▸ member)⟩
    · intro other member
      rcases List.mem_append.mp member with earlier | last
      · exact requeued.waiting other earlier
      · rw [List.mem_singleton] at last
        rw [last]
        exact Function.update_self ..

/-- A task on its way keeps the batch open. -/
theorem open_while_moving {ordinal : Nat} (sound : ProcessSound config process published)
    (moving : process.tasks ordinal ≠ .scheduled) (unrecorded : process.tasks ordinal ≠ .recorded) :
    process.sendingComplete ≠ true ∧ process.stage ≠ .done := by
  have unfinished : process.sendingComplete ≠ true := fun complete =>
    unrecorded (sound.tracks.finished complete ordinal (sound.tracks.started ordinal moving))
  exact ⟨unfinished, fun ended => unfinished (sound.writer.marked (.inr ended))⟩

/-- The record of a task extends the tracked ordinals by its own. -/
theorem record_tracks {ordinal : Nat} (tracked : Tracks config process)
    (prepared : process.tasks ordinal = .prepared) :
    Tracks config { setPhase process ordinal .recorded with
      records := process.records ++ [{ ordinal := ordinal }] } := by
  have sent := tracked.started ordinal (by rw [prepared]; decide)
  have above := ((to_send_iff ordinal).mp sent).1
  -- A prepared task is not recorded yet, so the new record repeats no ordinal.
  have absent : ordinal ∉ ordinals process.records := by
    rw [tracked.members]
    rintro (⟨_, below⟩ | ⟨_, recorded⟩)
    · omega
    · rw [prepared] at recorded
      cases recorded
  have extended : ordinals (process.records ++ [{ ordinal := ordinal }]) =
      ordinals process.records ++ [ordinal] := List.map_append
  have here : (setPhase process ordinal .recorded).tasks ordinal = .recorded := Function.update_self ..
  have elsewhere (other : Nat) (different : other ≠ ordinal) :
      (setPhase process ordinal .recorded).tasks other = process.tasks other :=
    Function.update_of_ne different _ _
  refine ⟨tracked.first, tracked.within, ?_, fun other => ?_, fun other moved => ?_, fun complete => ?_⟩
  · change (ordinals (process.records ++ [{ ordinal := ordinal }])).Nodup
    rw [extended]
    exact List.nodup_append.mpr ⟨tracked.nodup, List.nodup_singleton _, fun left member right same => by
      rw [List.mem_singleton] at same
      rintro rfl
      exact absent (same ▸ member)⟩
  · change other ∈ ordinals (process.records ++ [{ ordinal := ordinal }]) ↔
      1 ≤ other ∧ other < process.firstOrdinal ∨
        other ∈ ordinalsToSend config process ∧ (setPhase process ordinal .recorded).tasks other = .recorded
    rw [extended, List.mem_append, List.mem_singleton, tracked.members]
    by_cases same : other = ordinal
    · subst same
      exact ⟨fun _ => .inr ⟨sent, here⟩, fun _ => .inr rfl⟩
    · rw [elsewhere other same]
      exact ⟨fun member => member.resolve_right same, .inl⟩
  · by_cases same : other = ordinal
    · subst same
      exact sent
    · exact tracked.started other (elsewhere other same ▸ moved)
  · have recorded := tracked.finished complete ordinal sent
    rw [prepared] at recorded
    cases recorded

/-- Every step of a process keeps it sound. -/
theorem advance_sound (sound : ProcessSound config process published) (event : Event) (next : Process)
    (taken : advance config process event = some next) : ProcessSound config next published := by
  have tracks := sound.tracks
  have writer := sound.writer
  -- Most events leave the records and the task phases alone; the frame lemmas carry those over.
  cases event with
  | opened =>
      simp only [advance, Option.ite_none_right_eq_some, Option.some.injEq] at taken
      obtain ⟨_, rfl⟩ := taken
      exact ⟨tracks_frame tracks rfl rfl rfl rfl, queued_frame sound.queued rfl rfl,
        ⟨writer.busy, writer.inFlight, fun ended => ended.elim nofun nofun, writer.saved, nofun⟩⟩
  | acquire ordinal =>
      simp only [advance, Option.ite_none_right_eq_some, Option.some.injEq] at taken
      obtain ⟨⟨_, sent, scheduled⟩, rfl⟩ := taken
      exact enter_gate_sound sound sent scheduled
  | broadcast ordinal rpcError =>
      simp only [advance, Option.ite_none_right_eq_some, Option.some.injEq] at taken
      obtain ⟨running, rfl⟩ := taken
      have left := leave_gate_sound sound running (show TaskPhase.prepared ≠ .recorded by decide)
      exact ⟨tracks_frame left.tracks rfl rfl rfl rfl, queued_frame left.queued rfl rfl,
        writer_frame left.writer rfl rfl rfl⟩
  | fail ordinal =>
      simp only [advance, Option.ite_none_right_eq_some, Option.some.injEq] at taken
      obtain ⟨running, rfl⟩ := taken
      exact leave_gate_sound sound running (by decide)
  | record ordinal =>
      simp only [advance, Option.ite_none_right_eq_some, Option.some.injEq] at taken
      obtain ⟨prepared, rfl⟩ := taken
      have recorded := record_tracks tracks prepared
      have requeued : Queued (setPhase process ordinal .recorded) :=
        set_phase_queued sound.queued (by rw [prepared]; decide)
      have still := (open_while_moving sound (by rw [prepared]; decide) (by rw [prepared]; decide)).2
      exact ⟨request_tracks recorded, queued_frame requeued rfl rfl,
        request_writer_sound recorded writer.inFlight writer.marked still⟩
  | retry ordinal =>
      simp only [advance, Option.ite_none_right_eq_some, Option.some.injEq] at taken
      obtain ⟨failed, rfl⟩ := taken
      have sent := tracks.started ordinal (by rw [failed]; decide)
      have moved : Tracks config (setPhase process ordinal .scheduled) :=
        set_phase_tracks tracks sent (by rw [failed]; decide) (by decide)
      have counted : Tracks config
          { setPhase process ordinal .scheduled with sendErrors := process.sendErrors + 1 } :=
        tracks_frame moved rfl rfl rfl rfl
      have requeued : Queued (setPhase process ordinal .scheduled) :=
        set_phase_queued sound.queued (by rw [failed]; decide)
      have still := (open_while_moving sound (by rw [failed]; decide) (by rw [failed]; decide)).2
      exact ⟨request_tracks counted, queued_frame requeued rfl rfl,
        request_writer_sound counted writer.inFlight writer.marked still⟩
  | complete =>
      simp only [advance, Option.ite_none_right_eq_some, Option.some.injEq] at taken
      obtain ⟨⟨_, recorded⟩, rfl⟩ := taken
      have finished : Tracks config { process with stage := .closing, sendingComplete := true } :=
        ⟨tracks.first, tracks.within, tracks.nodup, tracks.members, tracks.started, fun _ => recorded⟩
      exact ⟨request_tracks finished, queued_frame sound.queued rfl rfl,
        request_writer_sound finished writer.inFlight (fun _ => rfl)
          (show MainStage.closing ≠ MainStage.done by decide)⟩
  | closed =>
      simp only [advance, Option.ite_none_right_eq_some, Option.some.injEq] at taken
      obtain ⟨⟨closing, idle⟩, rfl⟩ := taken
      exact ⟨tracks_frame tracks rfl rfl rfl rfl, queued_frame sound.queued rfl rfl,
        ⟨writer.busy, writer.inFlight, fun _ => writer.marked (.inl closing), writer.saved, fun _ => idle⟩⟩
  | written =>
      simp only [advance] at taken
      split at taken
      next manifest writing =>
        cases taken
        refine ⟨tracks_frame tracks rfl rfl rfl rfl, queued_frame sound.queued rfl rfl,
          ⟨fun _ => rfl, fun stage same => ?_, writer.marked, fun complete => ⟨nofun, fun stage same => ?_⟩,
            fun ended => ?_⟩⟩
        · cases same
          exact writer.inFlight (.writeFile manifest) writing
        · cases same
          exact (writer.saved complete).2 (.writeFile manifest) writing
        · have idle := writer.idle ended
          rw [writing] at idle
          cases idle
      next => cases taken
  | start => cases taken
  | renamed => cases taken
  | crash => cases taken

/-- A batch opened on the first ordinals is sound. -/
theorem open_batch_sound (records : List BatchRecord) (sendErrors : Nat)
    (resumed : ordinals records = List.range' 1 records.length)
    (within : ∀ ordinal ∈ ordinals records, ordinal ≤ config.requestedBroadcasts) :
    ProcessSound config (openBatch config records sendErrors) published := by
  let fresh : Process :=
    { stage := .opening, records, sendErrors, sendingComplete := false
      firstOrdinal := records.length + 1, tasks := fun _ => .scheduled
      gate := .opened, manifestWriter := .idle }
  have tracked : Tracks config fresh := by
    refine ⟨Nat.le_add_left 1 _, ?_, ?_, fun ordinal => ?_, fun _ moved => absurd rfl moved, nofun⟩
    · rcases Nat.eq_zero_or_pos records.length with none | some
      · change records.length + 1 ≤ _
        omega
      · have last := within records.length (by rw [resumed, List.mem_range'_1]; omega)
        exact Nat.add_le_add_right last 1
    · change (ordinals records).Nodup
      rw [resumed]
      exact List.nodup_range'
    · change ordinal ∈ ordinals records ↔ 1 ≤ ordinal ∧ ordinal < records.length + 1 ∨ _
      rw [resumed, List.mem_range'_1]
      exact ⟨fun bounds => .inl (by omega), fun member => member.elim (fun bounds => by omega)
        fun recorded => nomatch recorded.2⟩
  exact ⟨request_tracks tracked, ⟨List.nodup_nil, nofun⟩,
    request_writer_sound tracked nofun (fun ended => ended.elim nofun nofun)
      (show MainStage.opening ≠ MainStage.done by decide)⟩

/-- A rename publishes what was written and goes on to a pending update. -/
theorem renamed_sound {manifest : Manifest} (sound : ProcessSound config process published)
    (writing : process.manifestWriter.writing = some (.rename manifest)) :
    ProcessSound config { process with
      manifestWriter := process.manifestWriter.drain (renderManifest config process) } (some manifest) := by
  have tracks := sound.tracks
  have writer := sound.writer
  have rendered := render_sound tracks
  have unended : process.stage ≠ .done := fun ended => by
    have idle := writer.idle ended
    rw [writing] at idle
    cases idle
  refine ⟨tracks_frame tracks rfl rfl rfl rfl, queued_frame sound.queued rfl rfl, ?_⟩
  -- The rename may be the one that publishes the finished batch; a pending change is rendered anew.
  rcases drain_cases process.manifestWriter (renderManifest config process) with
    ⟨_, drained⟩ | ⟨clean, drained⟩
  · rw [drained]
    refine ⟨nofun, fun stage same => ?_, writer.marked, fun complete => ⟨nofun, fun stage same => ?_⟩,
      fun ended => absurd ended unended⟩
    · cases same
      exact rendered
    · cases same
      exact .inr complete
  · rw [drained]
    refine ⟨nofun, nofun, writer.marked, fun complete => ⟨fun _ => ?_, nofun⟩, fun ended => absurd ended unended⟩
    rcases (writer.saved complete).2 (.rename manifest) writing with pending | whole
    · rw [clean] at pending
      cases pending
    · exact ⟨manifest, rfl, whole⟩

end Invariants

section Runs
variable {config : BatchConfig}

/-- A restart finds exactly the first ordinals recorded. -/
def ResumesPrefix (system : System) (event : Event) : Prop :=
  event = .start → ∀ manifest, system.published = some manifest →
    ordinals manifest.records = List.range' 1 manifest.records.length

instance (system : System) (event : Event) : Decidable (ResumesPrefix system event) :=
  match found : system.published with
  | none => isTrue fun _ _ same => nomatch found.symm.trans same
  | some manifest =>
      decidable_of_iff
        (event = .start → ordinals manifest.records = List.range' 1 manifest.records.length)
        ⟨fun resumes starts _ same => Option.some.inj (found.symm.trans same) ▸ resumes starts,
          fun resumes starts => resumes starts manifest found⟩

/-- One step preserves consistency unless it is a restart on a set of records with a gap. -/
theorem step_consistent (system next : System) (event : Event) (resumes : ResumesPrefix system event)
    (consistent : Consistent config system) (taken : step config system event = some next) :
    Consistent config next := by
  obtain ⟨sound, alive⟩ := consistent
  -- Every event but start, crash and rename is a step of the process alone, and the disk stays as it was.
  have advances (taken : (system.process.bind fun process =>
      (advance config process event).map fun process => { system with process := some process }) =
        some next) : Consistent config next := by
    obtain ⟨process, running, moved⟩ := Option.bind_eq_some_iff.mp taken
    obtain ⟨later, advanced, rfl⟩ := Option.map_eq_some_iff.mp moved
    refine ⟨sound, fun other same => ?_⟩
    cases same
    exact advance_sound (alive process running) event later advanced
  cases event with
  | start =>
      simp only [step] at taken
      split at taken
      next =>
        obtain ⟨process, loaded, rfl⟩ := Option.map_eq_some_iff.mp taken
        refine ⟨sound, fun other same => ?_⟩
        cases same
        unfold loadBatch at loaded
        split at loaded
        next =>
          cases loaded
          exact open_batch_sound [] 0 rfl nofun
        next manifest found =>
          split at loaded
          · cases loaded
            exact open_batch_sound manifest.records manifest.sendErrors (resumes rfl manifest found)
              (sound manifest found).within
          · cases loaded
      next => cases taken
  | crash =>
      cases taken
      exact ⟨sound, nofun⟩
  | renamed =>
      simp only [step] at taken
      obtain ⟨process, running, moved⟩ := Option.bind_eq_some_iff.mp taken
      split at moved
      next manifest writing =>
        cases moved
        refine ⟨fun other same => ?_, fun other same => ?_⟩
        · cases same
          exact (alive process running).writer.inFlight (.rename manifest) writing
        · cases same
          exact renamed_sound (alive process running) writing
      next => cases moved
  | opened => exact advances taken
  | acquire ordinal => exact advances taken
  | broadcast ordinal rpcError => exact advances taken
  | fail ordinal => exact advances taken
  | record ordinal => exact advances taken
  | retry ordinal => exact advances taken
  | written => exact advances taken
  | complete => exact advances taken
  | closed => exact advances taken

/-- A manifest with exactly one record for each requested ordinal. -/
def ExactBatch (config : BatchConfig) (manifest : Manifest) : Prop :=
  (ordinals manifest.records).Perm (List.range' 1 config.requestedBroadcasts)

/-- Batch resumption: a process that ends leaves a complete and exact manifest, and
no complete manifest is inexact. -/
def ResumeExact (config : BatchConfig) (system : System) : Prop :=
  (∀ process, system.process = some process → process.stage = .done →
    ∃ manifest, system.published = some manifest ∧ manifest.sendingComplete = true ∧
      ExactBatch config manifest) ∧
  ∀ manifest, system.published = some manifest → manifest.sendingComplete = true →
    ExactBatch config manifest

/-- Any run whose restarts all find the first ordinals recorded resumes exactly. -/
theorem resume_exact (events : List Event) (final : System)
    (ran : run (step config) initial events = some final)
    (resumed : AllowedAlong (step config) ResumesPrefix initial events) : ResumeExact config final := by
  have consistent : Consistent config final :=
    run_invariant (Consistent config) (fun system event next allowed consistent taken =>
      step_consistent system next event allowed consistent taken) events initial final
      ⟨nofun, nofun⟩ resumed ran
  obtain ⟨sound, alive⟩ := consistent
  refine ⟨fun process running ended => ?_, fun manifest found complete => (sound manifest found).exact complete⟩
  have writer := (alive process running).writer
  obtain ⟨manifest, found, complete⟩ := (writer.saved (writer.marked (.inr ended))).1 (writer.idle ended)
  exact ⟨manifest, found, complete, (sound manifest found).exact complete⟩

end Runs

/-! Two broadcasts at once. -/
section Crashes

def twoBroadcasts : BatchConfig where
  targetMint := "mint"
  pumpPool := "pump"
  meteoraPool := "meteora"
  requestedBroadcasts := 2
  direction := "pump-to-meteora"
  intervalMs := 1000
  wsolAmountIn := 100
  minProfitLamports := 1
  computeUnitLimit := 300000
  computeUnitPriceMicroLamports := 1
  senderMaxInFlight := 2

def flushed : List Event := [.written, .renamed]

def started : List Event := .start :: flushed ++ [.opened]

def sent (ordinal : Nat) : List Event := [.acquire ordinal, .broadcast ordinal false, .record ordinal]

def finished : List Event := .complete :: flushed ++ flushed ++ [.closed]

/-- The second broadcast overtakes the first and is on file when the process dies. -/
def overtakenCrash : List Event :=
  started ++ .acquire 1 :: sent 2 ++ flushed ++ .crash :: started ++ sent 2 ++ finished

theorem overtaken_crash_inexact :
    ∃ final, run (step twoBroadcasts) initial overtakenCrash = some final ∧
      ¬ ResumeExact twoBroadcasts final := by
  have ran : (run (step twoBroadcasts) initial overtakenCrash).bind (fun final => final.published.map
      fun manifest => (manifest.sendingComplete, ordinals manifest.records)) = some (true, [2, 2]) := by
    decide
  obtain ⟨final, arrived, published⟩ := Option.bind_eq_some_iff.mp ran
  obtain ⟨manifest, found, same⟩ := Option.map_eq_some_iff.mp published
  rw [Prod.mk.injEq] at same
  refine ⟨final, arrived, fun exact => ?_⟩
  have perm := exact.2 manifest found same.1
  unfold ExactBatch at perm
  rw [same.2] at perm
  exact absurd perm (by decide)

/-- The first broadcast is on file when the process dies. -/
def orderedCrash : List Event :=
  started ++ .acquire 2 :: sent 1 ++ flushed ++ .crash :: started ++ sent 2 ++ finished

theorem ordered_crash_exact :
    ∃ final, run (step twoBroadcasts) initial orderedCrash = some final ∧
      ResumeExact twoBroadcasts final := by
  have ran : (run (step twoBroadcasts) initial orderedCrash).isSome = true := by decide
  obtain ⟨final, arrived⟩ := Option.isSome_iff_exists.mp ran
  exact ⟨final, arrived, resume_exact orderedCrash final arrived (by decide)⟩

end Crashes

end ArbExecutor.BatchResume
