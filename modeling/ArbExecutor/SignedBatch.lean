import ArbExecutor.BatchMonitor
import ArbExecutor.BatchResume

/-!
The sender of scripts/mainnet-smoke.ts down to what it signs. Route snapshots and
blockhashes are refreshed behind the tasks' backs; a task takes the build of the
snapshot it finds, signs it with the blockhash it finds, starts over while the
signature has been issued before, and records what it sent. With the signatures
forgotten this is the batch of control steps, which it refines.
-/

namespace ArbExecutor.SignedBatch

open GuardedRuns SenderPipeline
open BatchResume (TaskPhase MainStage BatchConfig BatchRecord)
open BatchMonitor (BroadcastRecord)

/-- The sender's manifest with its records in full. -/
structure Manifest where
  config : BatchConfig
  sendErrors : Nat
  sendingComplete : Bool
  records : List BroadcastRecord
  deriving DecidableEq

structure CachedBlockhash where
  contextSlot : Nat
  blockhash : String
  lastValidBlockHeight : Nat
  deriving DecidableEq

/-- The builds of a snapshot by mode, each kept as its instruction. -/
structure RouteSnapshot where
  version : Nat
  builds : List (String × String)
  deriving DecidableEq

structure SignedTransaction where
  direction : String
  signature : String
  lastValidBlockHeight : Nat
  blockhashContextSlot : Nat
  deriving DecidableEq

/-- A running task has nothing yet, a build, or a transaction with a reserved signature. -/
inductive TaskState where
  | scheduled
  | waiting
  | running
  | built (direction instruction : String)
  | signed (transaction : SignedTransaction)
  | prepared (transaction : SignedTransaction) (scheduleDelayMs : Int) (rpcError : Option String)
  | failed
  | recorded
  deriving DecidableEq

structure Process where
  stage : MainStage
  records : List BroadcastRecord
  sendErrors : Nat
  sendingComplete : Bool
  firstOrdinal : Nat
  tasks : Nat → TaskState
  gate : ConcurrencyGate Nat
  manifestWriter : AsyncManifestWriter Manifest
  routeSnapshot : RouteSnapshot
  blockhashCache : Option CachedBlockhash
  issuedSignatures : List String

structure System where
  published : Option Manifest
  process : Option Process

inductive Event where
  | start (instruction : String → String)
  | opened (blockhash : CachedBlockhash)
  | acquire (ordinal : Nat)
  | build (ordinal : Nat)
  | sign (ordinal : Nat)
  | broadcast (ordinal : Nat) (scheduleDelayMs : Int) (rpcError : Option String)
  | fail (ordinal : Nat)
  | record (ordinal : Nat) (broadcastObservedSlot : Option Nat)
  | retry (ordinal : Nat)
  | refreshBlockhash (blockhash : CachedBlockhash)
  | refreshRouteSnapshot (instruction : String → String)
  | written
  | renamed
  | complete
  | closed
  | crash

section Steps
variable (config : BatchConfig) (sign : String → String → String)

def directionFor (ordinal : Nat) : String :=
  if config.direction = "alternate" then
    if ordinal % 2 = 1 then "pump-to-meteora" else "meteora-to-pump"
  else config.direction

/-- The modes of a batch, whose count is positive. -/
def initialModes : List String :=
  if config.direction = "alternate" then ["pump-to-meteora", "meteora-to-pump"]
  else [config.direction]

/-- A refresh builds every mode or fails as a whole. -/
def snapshotOf (version : Nat) (instruction : String → String) : RouteSnapshot where
  version := version
  builds := (initialModes config).map fun mode => (mode, instruction mode)

def renderManifest (process : Process) : Manifest where
  config := config
  sendErrors := process.sendErrors
  sendingComplete := process.sendingComplete
  records := process.records.insertionSort fun left right => left.ordinal ≤ right.ordinal

def requestManifest (process : Process) : Process :=
  { process with manifestWriter := process.manifestWriter.request (renderManifest config process) }

def openBatch (instruction : String → String) (records : List BroadcastRecord) (sendErrors : Nat) :
    Process :=
  requestManifest config
    { stage := .opening, records, sendErrors, sendingComplete := false
      firstOrdinal := records.length + 1, tasks := fun _ => .scheduled
      gate := .opened, manifestWriter := .idle
      routeSnapshot := snapshotOf config 1 instruction, blockhashCache := none
      issuedSignatures := records.map (·.signature) }

def loadBatch (instruction : String → String) (published : Option Manifest) : Option Process :=
  match published with
  | none => some (openBatch config instruction [] 0)
  | some manifest =>
      if manifest.config = config then
        some (openBatch config instruction manifest.records manifest.sendErrors)
      else none

def ordinalsToSend (process : Process) : List Nat :=
  List.range' process.firstOrdinal (config.requestedBroadcasts + 1 - process.firstOrdinal)

def setState (process : Process) (ordinal : Nat) (state : TaskState) : Process :=
  { process with tasks := Function.update process.tasks ordinal state }

def leaveGate (process : Process) (ordinal : Nat) (state : TaskState) : Process :=
  let (woken, gate) := process.gate.release
  let process := { setState process ordinal state with gate }
  match woken with
  | none => process
  | some next => setState process next .running

def enterGate (process : Process) (ordinal : Nat) : Process :=
  let (granted, gate) := process.gate.acquire config.senderMaxInFlight ordinal
  { setState process ordinal (if granted then .running else .waiting) with gate }

/-- `reserveUniqueSignature`. -/
def reserveUniqueSignature (issued : List String) (signature : String) : Bool × List String :=
  if signature ∈ issued then (false, issued) else (true, signature :: issued)

def signWith (blockhash : CachedBlockhash) (direction instruction : String) : SignedTransaction where
  direction := direction
  signature := sign instruction blockhash.blockhash
  lastValidBlockHeight := blockhash.lastValidBlockHeight
  blockhashContextSlot := blockhash.contextSlot

def recordOf (ordinal : Nat) (transaction : SignedTransaction) (scheduleDelayMs : Int)
    (rpcError : Option String) (broadcastObservedSlot : Option Nat) : BroadcastRecord where
  ordinal := ordinal
  direction := transaction.direction
  signature := transaction.signature
  lastValidBlockHeight := transaction.lastValidBlockHeight
  blockhashContextSlot := some transaction.blockhashContextSlot
  broadcastObservedSlot := broadcastObservedSlot
  scheduleDelayMs := some scheduleDelayMs
  rpcError := rpcError

def TaskState.phase : TaskState → TaskPhase
  | .scheduled => .scheduled
  | .waiting => .waiting
  | .running | .built _ _ | .signed _ => .running
  | .prepared _ _ _ => .prepared
  | .failed => .failed
  | .recorded => .recorded

def advance (process : Process) : Event → Option Process
  | .opened blockhash =>
      if process.stage = .opening ∧ process.manifestWriter.writing = none then
        some { process with stage := .sending, blockhashCache := some blockhash }
      else none
  | .acquire ordinal =>
      if process.stage = .sending ∧ ordinal ∈ ordinalsToSend config process ∧
          process.tasks ordinal = .scheduled then
        some (enterGate config process ordinal)
      else none
  | .build ordinal =>
      if process.tasks ordinal = .running then
        (process.routeSnapshot.builds.lookup (directionFor config ordinal)).map fun instruction =>
          setState process ordinal (.built (directionFor config ordinal) instruction)
      else none
  | .sign ordinal =>
      match process.tasks ordinal, process.blockhashCache with
      | .built direction instruction, some blockhash =>
          let transaction := signWith sign blockhash direction instruction
          match reserveUniqueSignature process.issuedSignatures transaction.signature with
          | (false, _) => some process
          | (true, issuedSignatures) =>
              some { setState process ordinal (.signed transaction) with issuedSignatures }
      | _, _ => none
  | .broadcast ordinal scheduleDelayMs rpcError =>
      match process.tasks ordinal with
      | .signed transaction =>
          some { leaveGate process ordinal (.prepared transaction scheduleDelayMs rpcError) with
                 sendErrors := process.sendErrors + if rpcError.isSome then 1 else 0 }
      | _ => none
  | .fail ordinal =>
      if (process.tasks ordinal).phase = .running then some (leaveGate process ordinal .failed) else none
  | .record ordinal broadcastObservedSlot =>
      match process.tasks ordinal with
      | .prepared transaction scheduleDelayMs rpcError =>
          some (requestManifest config
            { setState process ordinal .recorded with
              records := process.records ++
                [recordOf ordinal transaction scheduleDelayMs rpcError broadcastObservedSlot] })
      | _ => none
  | .retry ordinal =>
      if process.tasks ordinal = .failed then
        some (requestManifest config
          { setState process ordinal .scheduled with sendErrors := process.sendErrors + 1 })
      else none
  | .refreshBlockhash blockhash =>
      if process.stage = .opening then none else some { process with blockhashCache := some blockhash }
  | .refreshRouteSnapshot instruction =>
      some { process with
             routeSnapshot := snapshotOf config (process.routeSnapshot.version + 1) instruction }
  | .complete =>
      if process.stage = .sending ∧
          ∀ ordinal ∈ ordinalsToSend config process, process.tasks ordinal = .recorded then
        some (requestManifest config { process with stage := .closing, sendingComplete := true })
      else none
  | .closed =>
      if process.stage = .closing ∧ process.manifestWriter.writing = none then
        some { process with stage := .done }
      else none
  | .written =>
      match process.manifestWriter.writing with
      | some (.writeFile manifest) =>
          some { process with
                 manifestWriter := { process.manifestWriter with writing := some (.rename manifest) } }
      | _ => none
  | _ => none

def step (system : System) : Event → Option System
  | .start instruction =>
      match system.process with
      | none =>
          (loadBatch config instruction system.published).map fun process =>
            { system with process := some process }
      | some _ => none
  | .crash => some { system with process := none }
  | .renamed =>
      system.process.bind fun process =>
        match process.manifestWriter.writing with
        | some (.rename manifest) =>
            some { published := some manifest
                   process := some { process with
                     manifestWriter := process.manifestWriter.drain (renderManifest config process) } }
        | _ => none
  | event =>
      system.process.bind fun process =>
        (advance config sign process event).map fun process => { system with process := some process }

def initial : System := { published := none, process := none }

end Steps

/-- A snapshot has a build for the direction of every ordinal. -/
theorem snapshot_has_build (config : BatchConfig) (version : Nat) (instruction : String → String)
    (ordinal : Nat) : ∃ built, (snapshotOf config version instruction).builds.lookup
      (directionFor config ordinal) = some built := by
  unfold snapshotOf initialModes directionFor
  dsimp only
  split
  · split <;> exact ⟨_, rfl⟩
  · exact ⟨instruction config.direction, by simp⟩

/-! Forgetting the signatures. -/
section Erasure

def eraseRecord (record : BroadcastRecord) : BatchRecord := ⟨record.ordinal⟩

def Manifest.erase (manifest : Manifest) : BatchResume.Manifest where
  config := manifest.config
  sendErrors := manifest.sendErrors
  sendingComplete := manifest.sendingComplete
  records := manifest.records.map eraseRecord

def eraseStage : WriteStage Manifest → WriteStage BatchResume.Manifest
  | .writeFile rendering => .writeFile rendering.erase
  | .rename rendering => .rename rendering.erase

def eraseWriter (writer : AsyncManifestWriter Manifest) : AsyncManifestWriter BatchResume.Manifest where
  dirty := writer.dirty
  writing := writer.writing.map eraseStage

def Process.erase (process : Process) : BatchResume.Process where
  stage := process.stage
  records := process.records.map eraseRecord
  sendErrors := process.sendErrors
  sendingComplete := process.sendingComplete
  firstOrdinal := process.firstOrdinal
  tasks := fun ordinal => (process.tasks ordinal).phase
  gate := process.gate
  manifestWriter := eraseWriter process.manifestWriter

def System.erase (system : System) : BatchResume.System where
  published := system.published.map Manifest.erase
  process := system.process.map Process.erase

/-- The control step behind an event; none where only the signing goes on. -/
def eraseEvent : Event → Option BatchResume.Event
  | .start _ => some .start
  | .opened _ => some .opened
  | .acquire ordinal => some (.acquire ordinal)
  | .broadcast ordinal _ rpcError => some (.broadcast ordinal rpcError.isSome)
  | .fail ordinal => some (.fail ordinal)
  | .record ordinal _ => some (.record ordinal)
  | .retry ordinal => some (.retry ordinal)
  | .written => some .written
  | .renamed => some .renamed
  | .complete => some .complete
  | .closed => some .closed
  | .crash => some .crash
  | .build _ | .sign _ | .refreshBlockhash _ | .refreshRouteSnapshot _ => none

variable {config : BatchConfig} {sign : String → String → String}

theorem erase_render (process : Process) :
    (renderManifest config process).erase = BatchResume.renderManifest config process.erase := by
  unfold renderManifest Manifest.erase BatchResume.renderManifest
  congr 1
  exact List.map_insertionSort _ _ eraseRecord _ fun _ _ _ _ => Iff.rfl

theorem erase_request (writer : AsyncManifestWriter Manifest) (render : Manifest) :
    eraseWriter (writer.request render) = (eraseWriter writer).request render.erase := by
  obtain ⟨dirty, writing⟩ := writer
  cases writing <;> rfl

theorem erase_drain (writer : AsyncManifestWriter Manifest) (render : Manifest) :
    eraseWriter (writer.drain render) = (eraseWriter writer).drain render.erase := by
  obtain ⟨dirty, writing⟩ := writer
  cases dirty <;> rfl

theorem erase_requested (process : Process) :
    (requestManifest config process).erase = BatchResume.requestManifest config process.erase := by
  unfold requestManifest BatchResume.requestManifest
  rw [← erase_render, Process.erase, erase_request]
  rfl

theorem erase_state (process : Process) (ordinal : Nat) (state : TaskState) :
    (setState process ordinal state).erase =
      BatchResume.setPhase process.erase ordinal state.phase := by
  unfold setState BatchResume.setPhase Process.erase
  congr 1
  exact Function.comp_update TaskState.phase process.tasks ordinal state

theorem erase_left (process : Process) (ordinal : Nat) (state : TaskState) :
    (leaveGate process ordinal state).erase =
      BatchResume.leaveGate process.erase ordinal state.phase := by
  have moved := erase_state process ordinal state
  unfold leaveGate BatchResume.leaveGate
  cases released : process.gate.release with
  | mk woken gate =>
      have same : process.erase.gate.release = (woken, gate) := released
      rw [same]
      dsimp only
      cases woken with
      | none => exact congrArg (fun process : BatchResume.Process => { process with gate }) moved
      | some next =>
          rw [erase_state]
          exact congrArg (fun process : BatchResume.Process =>
            BatchResume.setPhase { process with gate } next .running) moved

theorem erase_entered (process : Process) (ordinal : Nat) :
    (enterGate config process ordinal).erase = BatchResume.enterGate config process.erase ordinal := by
  unfold enterGate BatchResume.enterGate
  cases acquired : process.gate.acquire config.senderMaxInFlight ordinal with
  | mk granted gate =>
      have same : process.erase.gate.acquire config.senderMaxInFlight ordinal = (granted, gate) := acquired
      have moved := erase_state process ordinal (if granted then .running else .waiting)
      rw [same]
      dsimp only
      cases granted <;>
        exact congrArg (fun process : BatchResume.Process => { process with gate }) moved

/-- What a signing step is to the control: the step it forgets to, or no step. -/
def Follows (config : BatchConfig) (before after : BatchResume.Process) :
    Option BatchResume.Event → Prop
  | some control => BatchResume.advance config before control = some after
  | none => after = before

theorem advance_erases {process next : Process} {event : Event}
    (taken : advance config sign process event = some next) :
    Follows config process.erase next.erase (eraseEvent event) := by
  have phaseOf {ordinal : Nat} {state : TaskState} (held : process.tasks ordinal = state) :
      process.erase.tasks ordinal = state.phase := congrArg TaskState.phase held
  unfold advance at taken
  cases event with
  | start | renamed | crash => cases taken
  | opened blockhash =>
      simp only [Option.ite_none_right_eq_some, Option.some.injEq] at taken
      obtain ⟨⟨opening, idle⟩, rfl⟩ := taken
      exact if_pos ⟨opening, congrArg (Option.map eraseStage) idle⟩
  | acquire ordinal =>
      simp only [Option.ite_none_right_eq_some, Option.some.injEq] at taken
      obtain ⟨⟨sending, sent, scheduled⟩, rfl⟩ := taken
      rw [erase_entered]
      exact if_pos ⟨sending, sent, phaseOf scheduled⟩
  | build ordinal =>
      simp only [Option.ite_none_right_eq_some, Option.map_eq_some_iff] at taken
      obtain ⟨running, instruction, _, rfl⟩ := taken
      change (setState process ordinal _).erase = process.erase
      rw [erase_state]
      unfold BatchResume.setPhase
      rw [TaskState.phase, show TaskPhase.running = process.erase.tasks ordinal from (phaseOf running).symm,
        Function.update_eq_self]
  | sign ordinal =>
      dsimp only at taken
      split at taken
      next direction instruction blockhash built _ =>
        split at taken <;> cases taken
        · exact rfl
        · change Process.erase (setState process ordinal _) = process.erase
          rw [erase_state]
          unfold BatchResume.setPhase
          rw [TaskState.phase, show TaskPhase.running = process.erase.tasks ordinal from
            (phaseOf built).symm, Function.update_eq_self]
      next => cases taken
  | broadcast ordinal scheduleDelayMs rpcError =>
      dsimp only at taken
      split at taken
      next transaction signed =>
        cases taken
        have left := erase_left process ordinal (.prepared transaction scheduleDelayMs rpcError)
        refine (if_pos (phaseOf signed)).trans (congrArg some ?_)
        exact congrArg (fun after : BatchResume.Process =>
          { after with sendErrors := process.sendErrors + if rpcError.isSome then 1 else 0 }) left.symm
      next => cases taken
  | fail ordinal =>
      simp only [Option.ite_none_right_eq_some, Option.some.injEq] at taken
      obtain ⟨running, rfl⟩ := taken
      rw [erase_left]
      exact if_pos running
  | record ordinal broadcastObservedSlot =>
      dsimp only at taken
      split at taken
      next transaction scheduleDelayMs rpcError prepared =>
        cases taken
        have appended : Process.erase { setState process ordinal .recorded with
              records := process.records ++
                [recordOf ordinal transaction scheduleDelayMs rpcError broadcastObservedSlot] } =
            { (setState process ordinal .recorded).erase with
              records := process.erase.records ++ [⟨ordinal⟩] } := by
          unfold Process.erase
          rw [List.map_append]
          rfl
        rw [erase_requested, appended, erase_state]
        exact if_pos (phaseOf prepared)
      next => cases taken
  | retry ordinal =>
      simp only [Option.ite_none_right_eq_some, Option.some.injEq] at taken
      obtain ⟨failed, rfl⟩ := taken
      have moved := erase_state process ordinal .scheduled
      rw [erase_requested]
      refine (if_pos (phaseOf failed)).trans (congrArg some ?_)
      exact congrArg (fun after : BatchResume.Process => BatchResume.requestManifest config
        { after with sendErrors := process.sendErrors + 1 }) moved.symm
  | refreshBlockhash blockhash =>
      dsimp only at taken
      split at taken <;> cases taken
      exact rfl
  | refreshRouteSnapshot instruction => cases taken; exact rfl
  | complete =>
      simp only [Option.ite_none_right_eq_some, Option.some.injEq] at taken
      obtain ⟨⟨sending, recorded⟩, rfl⟩ := taken
      rw [erase_requested]
      exact if_pos ⟨sending, fun ordinal sent => phaseOf (recorded ordinal sent)⟩
  | closed =>
      simp only [Option.ite_none_right_eq_some, Option.some.injEq] at taken
      obtain ⟨⟨closing, idle⟩, rfl⟩ := taken
      exact if_pos ⟨closing, congrArg (Option.map eraseStage) idle⟩
  | written =>
      dsimp only at taken
      split at taken
      next manifest writing =>
        cases taken
        change BatchResume.advance config process.erase .written = some _
        unfold BatchResume.advance
        have erased : process.erase.manifestWriter.writing = some (.writeFile manifest.erase) :=
          congrArg (Option.map eraseStage) writing
        rw [erased]
        rfl
      next => cases taken

theorem erase_opened (instruction : String → String) (records : List BroadcastRecord)
    (sendErrors : Nat) :
    (openBatch config instruction records sendErrors).erase =
      BatchResume.openBatch config (records.map eraseRecord) sendErrors := by
  unfold openBatch
  rw [erase_requested]
  unfold BatchResume.openBatch Process.erase
  rw [List.length_map]
  rfl

theorem erase_loaded {instruction : String → String} {published : Option Manifest} {process : Process}
    (loaded : loadBatch config instruction published = some process) :
    BatchResume.loadBatch config (published.map Manifest.erase) = some process.erase := by
  unfold loadBatch at loaded
  unfold BatchResume.loadBatch
  cases published with
  | none =>
      cases loaded
      exact congrArg some (erase_opened instruction [] 0).symm
  | some manifest =>
      dsimp only [Option.map_some] at loaded ⊢
      split at loaded
      next same =>
        cases loaded
        exact (if_pos same).trans (congrArg some (erase_opened instruction _ _).symm)
      next => cases loaded

theorem control_step {system : BatchResume.System} {before after : BatchResume.Process}
    {control : BatchResume.Event} (running : system.process = some before)
    (moved : BatchResume.advance config before control = some after) :
    BatchResume.step config system control = some { system with process := some after } := by
  have stepped : (system.process.bind fun process =>
      (BatchResume.advance config process control).map fun process =>
        { system with process := some process }) = some { system with process := some after } := by
    rw [running]
    exact congrArg (Option.map _) moved
  cases control with
  | start | renamed | crash => cases moved
  | _ => exact stepped

/-- Every step of the sender is a control step with the signatures forgotten, or none. -/
theorem step_erases {system next : System} {event : Event}
    (taken : step config sign system event = some next) :
    match eraseEvent event with
    | some control => BatchResume.step config system.erase control = some next.erase
    | none => next.erase = system.erase := by
  have advances (taken : (system.process.bind fun process =>
      (advance config sign process event).map fun process => { system with process := some process }) =
        some next) : ∃ process later, system.process = some process ∧
          Follows config process.erase later.erase (eraseEvent event) ∧
          next = { system with process := some later } := by
    obtain ⟨process, running, moved⟩ := Option.bind_eq_some_iff.mp taken
    obtain ⟨later, advanced, same⟩ := Option.map_eq_some_iff.mp moved
    exact ⟨process, later, running, advance_erases advanced, same.symm⟩
  cases event with
  | start instruction =>
      unfold step at taken
      dsimp only at taken
      split at taken
      next idle =>
        obtain ⟨process, loaded, rfl⟩ := Option.map_eq_some_iff.mp taken
        change BatchResume.step config system.erase .start = _
        unfold BatchResume.step System.erase
        rw [idle]
        exact congrArg (Option.map _) (erase_loaded loaded)
      next => cases taken
  | crash => cases taken; rfl
  | renamed =>
      unfold step at taken
      dsimp only at taken
      obtain ⟨process, running, moved⟩ := Option.bind_eq_some_iff.mp taken
      split at moved
      next manifest writing =>
        cases moved
        change BatchResume.step config system.erase .renamed = _
        have erased : process.erase.manifestWriter.writing = some (.rename manifest.erase) :=
          congrArg (Option.map eraseStage) writing
        unfold BatchResume.step System.erase
        rw [running]
        dsimp only [Option.map_some, Option.bind_some]
        rw [erased]
        refine congrArg some ?_
        congr 2
        unfold Process.erase
        rw [erase_drain, erase_render]
        rfl
      next => cases moved
  | build | sign | refreshBlockhash | refreshRouteSnapshot =>
      obtain ⟨process, later, running, follows, rfl⟩ := advances taken
      have same : later.erase = process.erase := follows
      change System.erase { system with process := some later } = system.erase
      unfold System.erase
      rw [running]
      dsimp only [Option.map_some]
      rw [same]
  | _ =>
      obtain ⟨process, later, running, follows, rfl⟩ := advances taken
      exact control_step (congrArg (Option.map Process.erase) running) follows

end Erasure

/-! No signature is recorded twice, and each record tells until when it was valid. -/
section Signatures
variable (sign : String → String → String) (validUntil : String → Nat)

def TaskState.transaction : TaskState → Option SignedTransaction
  | .signed transaction => some transaction
  | .prepared transaction _ _ => some transaction
  | _ => none

/-- A blockhash whose answer says truly how long what is signed with it stays valid. -/
def Truthful (blockhash : CachedBlockhash) : Prop :=
  ∀ instruction, validUntil (sign instruction blockhash.blockhash) = blockhash.lastValidBlockHeight

structure Signed (process : Process) : Prop where
  distinct : (process.records.map (·.signature)).Nodup
  recorded : ∀ record ∈ process.records, record.signature ∈ process.issuedSignatures
  issued : ∀ ordinal transaction, (process.tasks ordinal).transaction = some transaction →
    transaction.signature ∈ process.issuedSignatures
  unrecorded : ∀ ordinal transaction, (process.tasks ordinal).transaction = some transaction →
    transaction.signature ∉ process.records.map (·.signature)
  separate : ∀ one other transaction another, (process.tasks one).transaction = some transaction →
    (process.tasks other).transaction = some another →
    transaction.signature = another.signature → one = other
  cached : ∀ blockhash, process.blockhashCache = some blockhash → Truthful sign validUntil blockhash
  heldTruly : ∀ ordinal transaction, (process.tasks ordinal).transaction = some transaction →
    transaction.lastValidBlockHeight = validUntil transaction.signature
  recordedTruly : ∀ record ∈ process.records,
    record.lastValidBlockHeight = validUntil record.signature

/-- A manifest on its way to the file has all that is on file, once. -/
structure Written (process : Process) (published : Option Manifest) : Prop where
  onFile : ∀ manifest, published = some manifest → manifest.records ⊆ process.records
  inFlight : ∀ stage, process.manifestWriter.writing = some stage →
    stage.rendering.records ⊆ process.records ∧
      (stage.rendering.records.map (·.signature)).Nodup ∧
      ∀ manifest, published = some manifest → manifest.records ⊆ stage.rendering.records

variable {sign validUntil} {config : BatchConfig} {process next : Process}
  {published : Option Manifest}

/-- What issues and records nothing leaves the signatures as they were. -/
theorem signed_frame (signed : Signed sign validUntil process) (records : next.records = process.records)
    (issued : next.issuedSignatures = process.issuedSignatures)
    (held : ∀ ordinal transaction, (next.tasks ordinal).transaction = some transaction →
      (process.tasks ordinal).transaction = some transaction)
    (cached : ∀ blockhash, next.blockhashCache = some blockhash → Truthful sign validUntil blockhash) :
    Signed sign validUntil next := by
  refine ⟨?_, ?_, fun ordinal transaction holds => ?_, fun ordinal transaction holds => ?_,
    fun one other transaction another first second => ?_, cached,
    fun ordinal transaction holds => signed.heldTruly ordinal transaction (held _ _ holds), ?_⟩
  · rw [records]
    exact signed.distinct
  · rw [records, issued]
    exact signed.recorded
  · rw [issued]
    exact signed.issued ordinal transaction (held _ _ holds)
  · rw [records]
    exact signed.unrecorded ordinal transaction (held _ _ holds)
  · exact signed.separate one other transaction another (held _ _ first) (held _ _ second)
  · rw [records]
    exact signed.recordedTruly

theorem state_transaction {ordinal other : Nat} {state : TaskState} {transaction : SignedTransaction}
    (holds : ((setState process ordinal state).tasks other).transaction = some transaction) :
    (other = ordinal ∧ state.transaction = some transaction) ∨
      (other ≠ ordinal ∧ (process.tasks other).transaction = some transaction) := by
  dsimp only [setState] at holds
  by_cases same : other = ordinal
  · subst same
    rw [Function.update_self] at holds
    exact .inl ⟨rfl, holds⟩
  · rw [Function.update_of_ne same] at holds
    exact .inr ⟨same, holds⟩

/-- A task that holds at most what it held leaves the signatures as they were. -/
theorem state_held {ordinal : Nat} {state : TaskState}
    (kept : ∀ transaction, state.transaction = some transaction →
      (process.tasks ordinal).transaction = some transaction) (other : Nat)
    (transaction : SignedTransaction)
    (holds : ((setState process ordinal state).tasks other).transaction = some transaction) :
    (process.tasks other).transaction = some transaction := by
  rcases state_transaction holds with ⟨rfl, own⟩ | ⟨_, earlier⟩
  · exact kept transaction own
  · exact earlier

theorem left_held {ordinal : Nat} {state : TaskState}
    (kept : ∀ transaction, state.transaction = some transaction →
      (process.tasks ordinal).transaction = some transaction) (other : Nat)
    (transaction : SignedTransaction)
    (holds : ((leaveGate process ordinal state).tasks other).transaction = some transaction) :
    (process.tasks other).transaction = some transaction := by
  unfold leaveGate at holds
  cases released : process.gate.release with
  | mk woken gate =>
      rw [released] at holds
      cases woken with
      | none => exact state_held kept other transaction holds
      | some next =>
          have running (transaction : SignedTransaction)
              (holds : TaskState.running.transaction = some transaction) :
              (({ setState process ordinal state with gate } : Process).tasks next).transaction =
                some transaction := nomatch holds
          exact state_held kept other transaction (state_held running other transaction holds)

theorem left_frame (process : Process) (ordinal : Nat) (state : TaskState) :
    (leaveGate process ordinal state).records = process.records ∧
      (leaveGate process ordinal state).issuedSignatures = process.issuedSignatures ∧
      (leaveGate process ordinal state).blockhashCache = process.blockhashCache ∧
      (leaveGate process ordinal state).manifestWriter = process.manifestWriter := by
  unfold leaveGate
  cases process.gate.release with
  | mk woken gate => cases woken <;> exact ⟨rfl, rfl, rfl, rfl⟩

/-- A writer left alone stays behind records that only grow. -/
theorem written_frame (written : Written process published) (grown : process.records ⊆ next.records)
    (writer : next.manifestWriter = process.manifestWriter) : Written next published := by
  refine ⟨fun manifest found => List.Subset.trans (written.onFile manifest found) grown,
    fun stage writing => ?_⟩
  obtain ⟨behind, once, ahead⟩ := written.inFlight stage (writer ▸ writing)
  exact ⟨List.Subset.trans behind grown, once, ahead⟩

theorem rendered_records (config : BatchConfig) (signed : Signed sign validUntil process) :
    (renderManifest config process).records.Perm process.records ∧
      ((renderManifest config process).records.map (·.signature)).Nodup := by
  have same : (renderManifest config process).records.Perm process.records :=
    List.perm_insertionSort _ _
  exact ⟨same, (same.map _).nodup_iff.mpr signed.distinct⟩

/-- A request renders what is recorded or leaves the write that is going on. -/
theorem request_written (signed : Signed sign validUntil process) (written : Written process published) :
    Written (requestManifest config process) published := by
  obtain ⟨same, once⟩ := rendered_records config signed
  refine ⟨written.onFile, fun stage writing => ?_⟩
  rcases request_cases process.manifestWriter (renderManifest config process) with
    ⟨_, requested⟩ | ⟨_, requested⟩
  · unfold requestManifest at writing
    rw [requested] at writing
    cases writing
    exact ⟨same.subset, once, fun manifest found =>
      List.Subset.trans (written.onFile manifest found) same.symm.subset⟩
  · unfold requestManifest at writing
    rw [requested] at writing
    exact written.inFlight stage writing

/-- A signature not issued before is reserved for one task. -/
theorem reserved_signed (signed : Signed sign validUntil process) {ordinal : Nat}
    {direction instruction : String} {blockhash : CachedBlockhash}
    (cached : process.blockhashCache = some blockhash)
    (fresh : (signWith sign blockhash direction instruction).signature ∉ process.issuedSignatures) :
    Signed sign validUntil
      { setState process ordinal (.signed (signWith sign blockhash direction instruction)) with
        issuedSignatures := (signWith sign blockhash direction instruction).signature ::
          process.issuedSignatures } := by
  have truthful := signed.cached blockhash cached instruction
  generalize reserved : signWith sign blockhash direction instruction = transaction at fresh ⊢
  have truly : transaction.lastValidBlockHeight = validUntil transaction.signature := by
    rw [← reserved]
    exact truthful.symm
  have known {other : Nat} {another : SignedTransaction}
      (held : (process.tasks other).transaction = some another) :
      another.signature ≠ transaction.signature :=
    fun same => fresh (same ▸ signed.issued other another held)
  refine ⟨signed.distinct, fun record member => List.mem_cons_of_mem _ (signed.recorded record member),
    fun other another holds => ?_, fun other another holds => ?_,
    fun one other first second firstHolds secondHolds same => ?_, signed.cached,
    fun other another holds => ?_, signed.recordedTruly⟩
  · rcases state_transaction holds with ⟨_, own⟩ | ⟨_, earlier⟩
    · cases own
      exact List.mem_cons_self
    · exact List.mem_cons_of_mem _ (signed.issued other another earlier)
  · rcases state_transaction holds with ⟨_, own⟩ | ⟨_, earlier⟩
    · cases own
      intro listed
      obtain ⟨record, member, same⟩ := List.mem_map.mp listed
      exact fresh (same ▸ signed.recorded record member)
    · exact signed.unrecorded other another earlier
  · rcases state_transaction firstHolds with ⟨rfl, own⟩ | ⟨_, earlier⟩
    · rcases state_transaction secondHolds with ⟨rfl, _⟩ | ⟨_, later⟩
      · rfl
      · cases own
        exact absurd same.symm (known later)
    · rcases state_transaction secondHolds with ⟨rfl, own⟩ | ⟨_, later⟩
      · cases own
        exact absurd same (known earlier)
      · exact signed.separate one other first second earlier later same
  · rcases state_transaction holds with ⟨_, own⟩ | ⟨_, earlier⟩
    · cases own
      exact truly
    · exact signed.heldTruly other another earlier

/-- A record takes over the transaction its task held. -/
theorem recorded_signed (signed : Signed sign validUntil process) {ordinal : Nat}
    {transaction : SignedTransaction} (scheduleDelayMs : Int) (rpcError : Option String)
    (broadcastObservedSlot : Option Nat)
    (holds : (process.tasks ordinal).transaction = some transaction) :
    Signed sign validUntil
      { setState process ordinal .recorded with
        records := process.records ++
          [recordOf ordinal transaction scheduleDelayMs rpcError broadcastObservedSlot] } := by
  have elsewhere {other : Nat} {another : SignedTransaction}
      (held : ((setState process ordinal .recorded).tasks other).transaction = some another) :
      other ≠ ordinal ∧ (process.tasks other).transaction = some another := by
    rcases state_transaction held with ⟨_, none⟩ | earlier
    · cases none
    · exact earlier
  refine ⟨?_, fun record member => ?_, fun other another held =>
      signed.issued other another (elsewhere held).2, fun other another held listed => ?_,
    fun one other first second firstHolds secondHolds same =>
      signed.separate one other first second (elsewhere firstHolds).2 (elsewhere secondHolds).2 same,
    signed.cached, fun other another held => signed.heldTruly other another (elsewhere held).2,
    fun record member => ?_⟩
  · rw [List.map_append, List.map_singleton]
    refine List.nodup_append.mpr ⟨signed.distinct, List.nodup_singleton _,
      fun left listed right single equal => signed.unrecorded ordinal transaction holds ?_⟩
    have same : left = transaction.signature := equal.trans (List.mem_singleton.mp single)
    exact same ▸ listed
  · rcases List.mem_append.mp member with earlier | new
    · exact signed.recorded record earlier
    · rw [List.mem_singleton.mp new]
      exact signed.issued ordinal transaction holds
  · obtain ⟨apart, earlier⟩ := elsewhere held
    rw [List.map_append, List.mem_append] at listed
    rcases listed with before | own
    · exact signed.unrecorded other another earlier before
    · have same : another.signature = transaction.signature := List.mem_singleton.mp own
      exact apart (signed.separate other ordinal another transaction earlier holds same)
  · rcases List.mem_append.mp member with earlier | new
    · exact signed.recordedTruly record earlier
    · rw [List.mem_singleton.mp new]
      exact signed.heldTruly ordinal transaction holds

variable (sign validUntil) in
/-- The blockhash requests are answered truthfully. -/
def TruthfulAnswer : Event → Prop
  | .opened blockhash => Truthful sign validUntil blockhash
  | .refreshBlockhash blockhash => Truthful sign validUntil blockhash
  | _ => True

theorem advance_signed {event : Event} (truthful : TruthfulAnswer sign validUntil event)
    (signed : Signed sign validUntil process) (written : Written process published)
    (taken : advance config sign process event = some next) :
    Signed sign validUntil next ∧ Written next published := by
  have answered (blockhash : CachedBlockhash) (truthful : Truthful sign validUntil blockhash)
      (other : CachedBlockhash) (same : some blockhash = some other) : Truthful sign validUntil other :=
    Option.some.inj same ▸ truthful
  unfold advance at taken
  cases event with
  | start | renamed | crash => cases taken
  | opened blockhash =>
      simp only [Option.ite_none_right_eq_some, Option.some.injEq] at taken
      obtain ⟨_, rfl⟩ := taken
      exact ⟨signed_frame signed rfl rfl (fun _ _ holds => holds) (answered blockhash truthful),
        written_frame written (List.Subset.refl _) rfl⟩
  | acquire ordinal =>
      simp only [Option.ite_none_right_eq_some, Option.some.injEq] at taken
      obtain ⟨_, rfl⟩ := taken
      unfold enterGate
      have idle (granted : Bool) (transaction : SignedTransaction)
          (holds : (if granted then TaskState.running else .waiting).transaction = some transaction) :
          (process.tasks ordinal).transaction = some transaction := by
        cases granted <;> cases holds
      exact ⟨signed_frame signed rfl rfl (state_held (idle _)) signed.cached,
        written_frame written (List.Subset.refl _) rfl⟩
  | build ordinal =>
      simp only [Option.ite_none_right_eq_some, Option.map_eq_some_iff] at taken
      obtain ⟨_, instruction, _, rfl⟩ := taken
      exact ⟨signed_frame signed rfl rfl (state_held fun _ holds => nomatch holds) signed.cached,
        written_frame written (List.Subset.refl _) rfl⟩
  | sign ordinal =>
      dsimp only at taken
      split at taken
      next direction instruction blockhash _ cached =>
        unfold reserveUniqueSignature at taken
        split at taken
        next known =>
          split at known <;> cases known
          cases taken
          exact ⟨signed, written⟩
        next reserved =>
          split at reserved <;> cases reserved
          next fresh =>
            cases taken
            exact ⟨reserved_signed signed cached fresh, written_frame written (List.Subset.refl _) rfl⟩
      next => cases taken
  | broadcast ordinal scheduleDelayMs rpcError =>
      dsimp only at taken
      split at taken
      next transaction holds =>
        cases taken
        obtain ⟨records, issued, cache, writer⟩ :=
          left_frame process ordinal (.prepared transaction scheduleDelayMs rpcError)
        have kept : ∀ another, (TaskState.prepared transaction scheduleDelayMs rpcError).transaction =
            some another → (process.tasks ordinal).transaction = some another :=
          fun another same => by rw [holds]; exact same
        exact ⟨signed_frame signed records issued (left_held kept)
            fun blockhash same => signed.cached blockhash (cache ▸ same),
          written_frame written (fun _ member => records ▸ member) writer⟩
      next => cases taken
  | fail ordinal =>
      simp only [Option.ite_none_right_eq_some, Option.some.injEq] at taken
      obtain ⟨_, rfl⟩ := taken
      obtain ⟨records, issued, cache, writer⟩ := left_frame process ordinal .failed
      exact ⟨signed_frame signed records issued (left_held fun _ holds => nomatch holds)
          fun blockhash same => signed.cached blockhash (cache ▸ same),
        written_frame written (fun _ member => records ▸ member) writer⟩
  | record ordinal broadcastObservedSlot =>
      dsimp only at taken
      split at taken
      next transaction scheduleDelayMs rpcError prepared =>
        cases taken
        have holds : (process.tasks ordinal).transaction = some transaction := by rw [prepared]; rfl
        have recorded := recorded_signed signed scheduleDelayMs rpcError broadcastObservedSlot holds
        refine ⟨signed_frame recorded rfl rfl (fun _ _ holds => holds) recorded.cached, ?_⟩
        exact request_written recorded (written_frame written (List.subset_append_left _ _) rfl)
      next => cases taken
  | retry ordinal =>
      simp only [Option.ite_none_right_eq_some, Option.some.injEq] at taken
      obtain ⟨_, rfl⟩ := taken
      have retried : Signed sign validUntil
          { setState process ordinal .scheduled with sendErrors := process.sendErrors + 1 } :=
        signed_frame signed rfl rfl (state_held fun _ holds => nomatch holds) signed.cached
      exact ⟨signed_frame retried rfl rfl (fun _ _ holds => holds) retried.cached,
        request_written retried (written_frame written (List.Subset.refl _) rfl)⟩
  | refreshBlockhash blockhash =>
      dsimp only at taken
      split at taken <;> cases taken
      exact ⟨signed_frame signed rfl rfl (fun _ _ holds => holds) (answered blockhash truthful),
        written_frame written (List.Subset.refl _) rfl⟩
  | refreshRouteSnapshot instruction =>
      cases taken
      exact ⟨signed_frame signed rfl rfl (fun _ _ holds => holds) signed.cached,
        written_frame written (List.Subset.refl _) rfl⟩
  | complete =>
      simp only [Option.ite_none_right_eq_some, Option.some.injEq] at taken
      obtain ⟨_, rfl⟩ := taken
      have finished : Signed sign validUntil
          { process with stage := .closing, sendingComplete := true } :=
        signed_frame signed rfl rfl (fun _ _ holds => holds) signed.cached
      exact ⟨signed_frame finished rfl rfl (fun _ _ holds => holds) finished.cached,
        request_written finished (written_frame written (List.Subset.refl _) rfl)⟩
  | closed =>
      simp only [Option.ite_none_right_eq_some, Option.some.injEq] at taken
      obtain ⟨_, rfl⟩ := taken
      exact ⟨signed_frame signed rfl rfl (fun _ _ holds => holds) signed.cached,
        written_frame written (List.Subset.refl _) rfl⟩
  | written =>
      dsimp only at taken
      split at taken
      next manifest writing =>
        cases taken
        refine ⟨signed_frame signed rfl rfl (fun _ _ holds => holds) signed.cached,
          ⟨written.onFile, fun stage same => ?_⟩⟩
        cases same
        exact written.inFlight (.writeFile manifest) writing
      next => cases taken

theorem opened_signed (instruction : String → String) (sendErrors : Nat) (records : List BroadcastRecord)
    (distinct : (records.map (·.signature)).Nodup)
    (truly : ∀ record ∈ records, record.lastValidBlockHeight = validUntil record.signature)
    (onFile : ∀ manifest, published = some manifest → manifest.records ⊆ records) :
    Signed sign validUntil (openBatch config instruction records sendErrors) ∧
      Written (openBatch config instruction records sendErrors) published := by
  let fresh : Process :=
    { stage := .opening, records, sendErrors, sendingComplete := false
      firstOrdinal := records.length + 1, tasks := fun _ => .scheduled
      gate := .opened, manifestWriter := .idle
      routeSnapshot := snapshotOf config 1 instruction, blockhashCache := none
      issuedSignatures := records.map (·.signature) }
  have signed : Signed sign validUntil fresh :=
    { distinct := distinct
      recorded := fun _ member => List.mem_map_of_mem member
      issued := fun _ _ holds => nomatch holds
      unrecorded := fun _ _ holds => nomatch holds
      separate := fun _ _ _ _ holds => nomatch holds
      cached := fun _ none => nomatch none
      heldTruly := fun _ _ holds => nomatch holds
      recordedTruly := truly }
  have written : Written fresh published := ⟨onFile, fun _ writing => nomatch writing⟩
  exact ⟨signed_frame signed rfl rfl (fun _ _ holds => holds) signed.cached,
    request_written signed written⟩

/-- A rename publishes what the next rendering still has. -/
theorem renamed_written {manifest : Manifest} (signed : Signed sign validUntil process)
    (written : Written process published)
    (writing : process.manifestWriter.writing = some (.rename manifest)) :
    Written { process with
      manifestWriter := process.manifestWriter.drain (renderManifest config process) }
      (some manifest) := by
  obtain ⟨behind, _, _⟩ := written.inFlight (.rename manifest) writing
  obtain ⟨same, once⟩ := rendered_records config signed
  have newest (other : Manifest) (found : some manifest = some other) :
      other.records ⊆ process.records := Option.some.inj found ▸ behind
  refine ⟨newest, fun stage drained => ?_⟩
  dsimp only at drained
  rcases drain_cases process.manifestWriter (renderManifest config process) with
    ⟨_, rendered⟩ | ⟨_, rendered⟩
  · rw [rendered] at drained
    cases drained
    exact ⟨same.subset, once, fun other found =>
      List.Subset.trans (newest other found) same.symm.subset⟩
  · rw [rendered] at drained
    cases drained

variable (sign validUntil) in
/-- What is on file is signed once and truly, and the process goes on from it. -/
structure Accounted (system : System) : Prop where
  distinct : ∀ manifest, system.published = some manifest →
    (manifest.records.map (·.signature)).Nodup
  truly : ∀ manifest, system.published = some manifest → ∀ record ∈ manifest.records,
    record.lastValidBlockHeight = validUntil record.signature
  running : ∀ process, system.process = some process →
    Signed sign validUntil process ∧ Written process system.published

/-- Nothing on file is lost or altered. -/
def Keeps (before after : System) : Prop :=
  ∀ manifest, before.published = some manifest →
    ∃ later, after.published = some later ∧ manifest.records ⊆ later.records

theorem keeps_same {before after : System} (same : after.published = before.published) :
    Keeps before after :=
  fun manifest found => ⟨manifest, same.trans found, List.Subset.refl _⟩

theorem keeps_trans {first second third : System} (one : Keeps first second)
    (two : Keeps second third) : Keeps first third := by
  intro manifest found
  obtain ⟨later, present, kept⟩ := one manifest found
  obtain ⟨last, shown, further⟩ := two later present
  exact ⟨last, shown, List.Subset.trans kept further⟩

theorem step_accounted {system after : System} {event : Event}
    (truthful : TruthfulAnswer sign validUntil event) (accounted : Accounted sign validUntil system)
    (taken : step config sign system event = some after) :
    Accounted sign validUntil after ∧ Keeps system after := by
  have advances (taken : (system.process.bind fun process =>
      (advance config sign process event).map fun process => { system with process := some process }) =
        some after) : Accounted sign validUntil after ∧ Keeps system after := by
    obtain ⟨process, running, moved⟩ := Option.bind_eq_some_iff.mp taken
    obtain ⟨later, advanced, rfl⟩ := Option.map_eq_some_iff.mp moved
    obtain ⟨signed, written⟩ := accounted.running process running
    refine ⟨⟨accounted.distinct, accounted.truly, fun other same => ?_⟩, keeps_same rfl⟩
    cases same
    exact advance_signed truthful signed written advanced
  cases event with
  | start instruction =>
      unfold step at taken
      dsimp only at taken
      split at taken
      next =>
        obtain ⟨process, loaded, rfl⟩ := Option.map_eq_some_iff.mp taken
        refine ⟨⟨accounted.distinct, accounted.truly, fun other same => ?_⟩, keeps_same rfl⟩
        cases same
        unfold loadBatch at loaded
        split at loaded
        next absent =>
          cases loaded
          refine opened_signed instruction 0 [] List.nodup_nil
            (fun _ member => absurd member List.not_mem_nil) fun manifest found => ?_
          cases absent.symm.trans found
        next manifest found =>
          split at loaded <;> cases loaded
          refine opened_signed instruction _ manifest.records (accounted.distinct manifest found)
            (accounted.truly manifest found) fun other shown => ?_
          cases found.symm.trans shown
          exact List.Subset.refl _
      next => cases taken
  | crash =>
      cases taken
      exact ⟨⟨accounted.distinct, accounted.truly, nofun⟩, keeps_same rfl⟩
  | renamed =>
      unfold step at taken
      dsimp only at taken
      obtain ⟨process, running, moved⟩ := Option.bind_eq_some_iff.mp taken
      split at moved
      next manifest writing =>
        cases moved
        obtain ⟨signed, written⟩ := accounted.running process running
        obtain ⟨behind, once, ahead⟩ := written.inFlight (.rename manifest) writing
        refine ⟨⟨fun other same => ?_, fun other same record member => ?_, fun other same => ?_⟩,
          fun earlier found => ⟨manifest, rfl, ahead earlier found⟩⟩
        · cases same
          exact once
        · cases same
          exact signed.recordedTruly record (behind member)
        · cases same
          exact ⟨signed_frame signed rfl rfl (fun _ _ holds => holds) signed.cached,
            renamed_written signed written writing⟩
      next => cases moved
  | _ => exact advances taken

theorem initial_accounted : Accounted sign validUntil initial := ⟨nofun, nofun, nofun⟩

theorem run_accounted (events : List Event) {start final : System}
    (accounted : Accounted sign validUntil start)
    (truthful : ∀ event ∈ events, TruthfulAnswer sign validUntil event)
    (ran : run (step config sign) start events = some final) :
    Accounted sign validUntil final ∧ Keeps start final :=
  run_invariant (fun system => Accounted sign validUntil system ∧ Keeps start system)
    (fun _ _ _ truthful kept taken => by
      obtain ⟨after, grown⟩ := step_accounted truthful kept.1 taken
      exact ⟨after, keeps_trans kept.2 grown⟩)
    events start final ⟨accounted, keeps_same rfl⟩ (allowed_of_events events start truthful) ran

/-- Through crashes, restarts, refused reservations and refreshes at any time, what is
once on file stays on file as it is, no signature is filed twice, and each record tells
truly until when its transaction can land. -/
theorem filed_once_for_all (events more : List Event) (reached final : System) (manifest : Manifest)
    (truthful : ∀ event ∈ events, TruthfulAnswer sign validUntil event)
    (ran : run (step config sign) initial events = some reached)
    (found : reached.published = some manifest)
    (truthfulAfter : ∀ event ∈ more, TruthfulAnswer sign validUntil event)
    (ranOn : run (step config sign) reached more = some final) :
    ∃ later, final.published = some later ∧ manifest.records ⊆ later.records ∧
      (later.records.map (·.signature)).Nodup ∧
      ∀ record ∈ later.records, record.lastValidBlockHeight = validUntil record.signature := by
  obtain ⟨accounted, _⟩ := run_accounted events initial_accounted truthful ran
  obtain ⟨after, kept⟩ := run_accounted more accounted truthfulAfter ranOn
  obtain ⟨later, shown, grown⟩ := kept manifest found
  exact ⟨later, shown, grown, after.distinct later shown, after.truly later shown⟩

/-! Two broadcasts whose first signatures collide; the process then dies and restarts. -/
def sampleSign (instruction blockhash : String) : String := instruction ++ blockhash

def sampleBroadcasts : List Event :=
  [.start id, .written, .renamed, .opened ⟨5, "first", 9⟩, .acquire 1, .acquire 2, .build 1, .build 2,
   .sign 1, .sign 2, .refreshBlockhash ⟨6, "second", 9⟩, .sign 2, .broadcast 1 3 none,
   .broadcast 2 1 none, .record 1 none, .written, .record 2 (some 7), .renamed]

def sampleRestart : List Event :=
  [.written, .renamed, .crash, .start id, .written, .renamed]

def sampleReached : System :=
  (run (step BatchResume.twoBroadcasts sampleSign) initial sampleBroadcasts).getD initial

def sampleFinal : System :=
  (run (step BatchResume.twoBroadcasts sampleSign) sampleReached sampleRestart).getD initial

theorem sample_truthful :
    ∀ event ∈ sampleBroadcasts, TruthfulAnswer sampleSign (fun _ => 9) event := by
  simp [sampleBroadcasts, TruthfulAnswer, Truthful]

theorem filed_once_for_all_sample : ∃ manifest later, sampleReached.published = some manifest ∧
    sampleFinal.published = some later ∧ manifest.records.length = 1 ∧ later.records.length = 2 ∧
      (later.records.map (·.signature)).Nodup := by
  have filed : sampleReached.published.map (·.records.length) = some 1 := by decide +kernel
  have refiled : sampleFinal.published.map (·.records.length) = some 2 := by decide +kernel
  have ran : (run (step BatchResume.twoBroadcasts sampleSign) initial sampleBroadcasts).isSome := by
    decide +kernel
  have ranOn : (run (step BatchResume.twoBroadcasts sampleSign) sampleReached sampleRestart).isSome := by
    decide +kernel
  obtain ⟨manifest, found, one⟩ := Option.map_eq_some_iff.mp filed
  obtain ⟨later, shown, _, distinct, _⟩ := filed_once_for_all _ _ sampleReached sampleFinal manifest
    sample_truthful (Option.some_get ran).symm found (by simp [sampleRestart, TruthfulAnswer])
    (Option.some_get ranOn).symm
  obtain ⟨same, present, two⟩ := Option.map_eq_some_iff.mp refiled
  cases shown.symm.trans present
  exact ⟨manifest, later, found, shown, one, two, distinct⟩

end Signatures

section Runs
variable {config : BatchConfig} {sign : String → String → String}

/-- A run of the sender is a run of the control steps it forgets to. -/
theorem sender_refines_control (events : List Event) (start final : System)
    (ran : run (step config sign) start events = some final) :
    run (BatchResume.step config) start.erase (events.filterMap eraseEvent) = some final.erase := by
  induction events generalizing start with
  | nil => cases ran; rfl
  | cons event rest ih =>
      obtain ⟨next, taken, later⟩ := (run_cons_some start final event rest).mp ran
      have erased := step_erases taken
      have further := ih next later
      cases forgotten : eraseEvent event with
      | none =>
          rw [forgotten] at erased
          rw [List.filterMap_cons_none forgotten, ← erased]
          exact further
      | some control =>
          rw [forgotten] at erased
          rw [List.filterMap_cons_some forgotten]
          exact (run_cons_some _ _ _ _).mpr ⟨next.erase, erased, further⟩

theorem sender_refines_control_sample : ∃ final,
    run (BatchResume.step BatchResume.twoBroadcasts) BatchResume.initial
      [.start, .written, .renamed, .opened, .acquire 1, .acquire 2, .broadcast 1 false,
       .broadcast 2 false, .record 1, .written, .record 2, .renamed] = some final := by
  have ran : (run (step BatchResume.twoBroadcasts sampleSign) initial sampleBroadcasts).isSome := by
    decide +kernel
  exact ⟨_, sender_refines_control sampleBroadcasts initial _ (Option.some_get ran).symm⟩

end Runs

end ArbExecutor.SignedBatch
