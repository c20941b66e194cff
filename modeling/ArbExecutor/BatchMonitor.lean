import ArbExecutor.GuardedRuns
import Mathlib.Data.List.Sort
import Mathlib.Tactic

/-!
The monitor of scripts/mainnet-smoke-monitor.ts next to the chain it asks. A poll
reads the manifest, then the block height, then the statuses of the records that
have none yet, and for each landed one its transaction and its block; every await
is a step of its own, between which blocks are produced and manifests published.
A failed request ends the poll. Times of day, averages and percentiles are left out.
-/

namespace ArbExecutor.BatchMonitor

open GuardedRuns

inductive Status where
  | broadcast
  | success
  | reverted
  | expired
  deriving DecidableEq, Repr

/-- What the monitor reads of a record of the manifest. -/
structure BroadcastRecord where
  ordinal : Nat
  direction : String
  signature : String
  lastValidBlockHeight : Nat
  blockhashContextSlot : Option Nat
  broadcastObservedSlot : Option Nat
  scheduleDelayMs : Option Int
  rpcError : Option String
  deriving DecidableEq

structure Manifest where
  sendingComplete : Bool
  records : List BroadcastRecord
  deriving DecidableEq

/-- An error is kept as its JSON text. -/
structure MonitoredRecord where
  source : BroadcastRecord
  status : Status
  landedSlot : Option Nat
  blockhashContextToLandedSlotDelta : Option Int
  broadcastToLandedSlotDelta : Option Int
  transactionPosition : Option Nat
  confirmationStatus : Option String
  errorType : Option String
  error : Option String
  computeUnitsConsumed : Option Nat
  feeLamports : Option Nat
  deriving DecidableEq

def MonitoredRecord.signature (record : MonitoredRecord) : String := record.source.signature

structure SignatureStatus where
  slot : Nat
  err : Option String
  confirmationStatus : Option String
  deriving DecidableEq

structure TransactionDetails where
  logMessages : Option (List String)
  computeUnitsConsumed : Option Nat
  fee : Nat
  deriving DecidableEq

/-- The answer of getTransaction, whose details may be missing. -/
structure TransactionAnswer where
  details : Option TransactionDetails
  deriving DecidableEq

section Logs

/-- The capture of `[^.]+` before a dot. -/
def codeBeforeDot (text : List Char) : Option String :=
  let code := text.takeWhile (· ≠ '.')
  if code ≠ [] ∧ code.length < text.length then some (String.ofList code) else none

/-- The first match of `Error Code: ([^.]+)\.` in a line. -/
def matchErrorCode : List Char → Option String
  | [] => none
  | letter :: rest =>
      match if "Error Code: ".toList <+: letter :: rest then
          codeBeforeDot ((letter :: rest).drop "Error Code: ".length)
        else none with
      | some code => some code
      | none => matchErrorCode rest

def includes (line text : String) : Bool := decide (text.toList <:+: line.toList)

def errorTypeFromLogs (logs : List String) (error : Option String) : Option String :=
  match (logs.find? (includes · "Error Code:")).bind fun line => matchErrorCode line.toList with
  | some anchorCode => some anchorCode
  | none =>
      match logs.find? (includes · " failed:") with
      | some failedProgram => some failedProgram
      | none => error

end Logs

section Report

structure Summary where
  observed : Nat
  manifestRecords : Nat
  uniqueManifestSignatures : Nat
  duplicateManifestRecords : Nat
  pending : Nat
  succeeded : Nat
  reverted : Nat
  expired : Nat
  rpcErrors : Nat
  maxScheduleDelayMs : Option Int
  totalFeeLamports : Nat
  deriving DecidableEq

structure Report where
  manifest : Option Manifest
  summary : Summary
  records : List MonitoredRecord

def signatures (records : List BroadcastRecord) : List String := records.map (·.signature)

def withStatus (status : Status) (records : List MonitoredRecord) : List MonitoredRecord :=
  records.filter fun record => record.status = status

/-- `persist`, as the report it writes. -/
def reportOf (manifest : Option Manifest) (records : List MonitoredRecord) : Report :=
  let values := records.insertionSort fun left right => left.source.ordinal ≤ right.source.ordinal
  let listed := (manifest.map (·.records)).getD []
  let unique := (signatures listed).dedup.length
  { manifest
    summary :=
      { observed := values.length
        manifestRecords := listed.length
        uniqueManifestSignatures := unique
        duplicateManifestRecords := listed.length - unique
        pending := (withStatus .broadcast values).length
        succeeded := (withStatus .success values).length
        reverted := (withStatus .reverted values).length
        expired := (withStatus .expired values).length
        rpcErrors := (values.filter fun record => record.source.rpcError.getD "" ≠ "").length
        maxScheduleDelayMs := (values.filterMap (·.source.scheduleDelayMs)).max?
        totalFeeLamports := (values.map fun record => record.feeLamports.getD 0).sum }
    records := values }

end Report

section Monitor

/-- What the monitor awaits. The rest of a poll is carried along: the answered
statuses not looked at yet, and the signatures not asked about yet. -/
inductive Phase where
  | reading
  | height (pending : List String)
  | statuses (currentBlockHeight : Nat) (pending : List String)
  | transaction (currentBlockHeight : Nat) (signature : String) (status : SignatureStatus)
      (group : List (String × Option SignatureStatus)) (pending : List String)
  | block (currentBlockHeight : Nat) (signature : String) (status : SignatureStatus)
      (answer : TransactionAnswer) (group : List (String × Option SignatureStatus))
      (pending : List String)
  | complete
  deriving DecidableEq

structure Monitor where
  records : List MonitoredRecord
  blockPositions : Nat → Option (List String)
  manifest : Option Manifest
  report : Option Report
  phase : Phase

def unresolved (source : BroadcastRecord) : MonitoredRecord where
  source := source
  status := .broadcast
  landedSlot := none
  blockhashContextToLandedSlotDelta := none
  broadcastToLandedSlotDelta := none
  transactionPosition := none
  confirmationStatus := none
  errorType := none
  error := none
  computeUnitsConsumed := none
  feeLamports := none

/-- A signature seen before keeps the record it has. -/
def observe (records : List MonitoredRecord) (source : BroadcastRecord) : List MonitoredRecord :=
  if source.signature ∈ records.map (·.signature) then records else records ++ [unresolved source]

def pendingSignatures (records : List MonitoredRecord) : List String :=
  (withStatus .broadcast records).map (·.signature)

def isComplete (manifest : Manifest) (records : List MonitoredRecord) : Bool :=
  manifest.sendingComplete && decide ((signatures manifest.records).dedup.length ≤ records.length) &&
    records.all (·.status ≠ .broadcast)

/-- The end of a poll: the report, then the next poll or none. -/
def finishPoll (monitor : Monitor) (manifest : Manifest) : Monitor :=
  { monitor with
    report := some (reportOf (some manifest) monitor.records)
    phase := if isComplete manifest monitor.records then .complete else .reading }

def updateRecord (signature : String) (change : MonitoredRecord → MonitoredRecord)
    (records : List MonitoredRecord) : List MonitoredRecord :=
  records.map fun record => if record.signature = signature then change record else record

def expireAbove (currentBlockHeight : Nat) (record : MonitoredRecord) : MonitoredRecord :=
  if record.source.lastValidBlockHeight < currentBlockHeight then
    { record with status := .expired, errorType := some "BlockhashExpiredWithoutLanding" }
  else record

/-- The position a map from signatures to positions, counted from one, gives. -/
def positionIn (block : List String) (signature : String) : Option Nat :=
  ((block.zipIdx.filter fun entry => entry.1 = signature).getLast?).map (·.2 + 1)

def slotDelta (landed : Nat) (since : Option Nat) : Option Int := since.map fun slot => landed - slot

def settle (status : SignatureStatus) (answer : TransactionAnswer) (block : List String)
    (record : MonitoredRecord) : MonitoredRecord :=
  { record with
    status := if status.err = none then .success else .reverted
    landedSlot := some status.slot
    blockhashContextToLandedSlotDelta := slotDelta status.slot record.source.blockhashContextSlot
    broadcastToLandedSlotDelta := slotDelta status.slot record.source.broadcastObservedSlot
    transactionPosition := positionIn block record.signature
    confirmationStatus := status.confirmationStatus
    error := status.err
    errorType := errorTypeFromLogs ((answer.details.bind (·.logMessages)).getD []) status.err
    computeUnitsConsumed := some ((answer.details.bind (·.computeUnitsConsumed)).getD 0)
    feeLamports := answer.details.map (·.fee) }

/-- The loop of a group up to its next await, or past its end. -/
def continueGroup (manifest : Manifest) (currentBlockHeight : Nat) (pending : List String) :
    List (String × Option SignatureStatus) → Monitor → Monitor
  | [], monitor =>
      if pending = [] then finishPoll monitor manifest
      else { monitor with phase := .statuses currentBlockHeight pending }
  | (signature, none) :: group, monitor =>
      continueGroup manifest currentBlockHeight pending group
        { monitor with
          records := updateRecord signature (expireAbove currentBlockHeight) monitor.records }
  | (signature, some status) :: group, monitor =>
      { monitor with phase := .transaction currentBlockHeight signature status group pending }

def maxGroup : Nat := 256

def readManifest (manifest : Manifest) (monitor : Monitor) : Monitor :=
  let records := manifest.records.foldl observe monitor.records
  let monitor := { monitor with manifest := some manifest, records }
  let pending := pendingSignatures records
  if pending = [] then finishPoll monitor manifest else { monitor with phase := .height pending }

end Monitor

section System

structure Landing where
  slot : Nat
  err : Option String
  deriving DecidableEq

/-- The chain as the asked node shows it; what has landed stays. -/
structure Chain where
  blockHeight : Nat
  landed : String → Option Landing

structure System where
  chain : Chain
  published : Option Manifest
  monitor : Monitor

inductive Event where
  | mined (slot : Nat) (transactions : List (String × Option String))
  | publish (manifest : Manifest)
  | read
  | height
  | statuses (confirmation : String → Option String)
  | transaction (answer : Option TransactionAnswer)
  | block (signatures : List String)
  | rpcError

def land (slot : Nat) (landed : String → Option Landing) (transaction : String × Option String) :
    String → Option Landing :=
  Function.update landed transaction.1 (some ⟨slot, transaction.2⟩)

def statusOf (chain : Chain) (confirmation : String → Option String) (signature : String) :
    Option SignatureStatus :=
  (chain.landed signature).map fun landing => ⟨landing.slot, landing.err, confirmation signature⟩

def advance (chain : Chain) (monitor : Monitor) (manifest : Manifest) : Event → Option Monitor
  | .height =>
      match monitor.phase with
      | .height pending => some { monitor with phase := .statuses chain.blockHeight pending }
      | _ => none
  | .statuses confirmation =>
      match monitor.phase with
      | .statuses currentBlockHeight pending =>
          some (continueGroup manifest currentBlockHeight (pending.drop maxGroup)
            ((pending.take maxGroup).map fun signature =>
              (signature, statusOf chain confirmation signature)) monitor)
      | _ => none
  | .transaction answer =>
      match monitor.phase with
      | .transaction currentBlockHeight signature status group pending =>
          match answer with
          | none => some (continueGroup manifest currentBlockHeight pending group monitor)
          | some answer =>
              match monitor.blockPositions status.slot with
              | none =>
                  some { monitor with
                         phase := .block currentBlockHeight signature status answer group pending }
              | some block =>
                  some (continueGroup manifest currentBlockHeight pending group
                    { monitor with
                      records := updateRecord signature (settle status answer block) monitor.records })
      | _ => none
  | .block block =>
      match monitor.phase with
      | .block currentBlockHeight signature status answer group pending =>
          some (continueGroup manifest currentBlockHeight pending group
            { monitor with
              blockPositions := Function.update monitor.blockPositions status.slot (some block)
              records := updateRecord signature (settle status answer block) monitor.records })
      | _ => none
  | .rpcError =>
      match monitor.phase with
      | .reading | .complete => none
      | _ => some (finishPoll monitor manifest)
  | _ => none

def step (system : System) : Event → Option System
  | .mined slot transactions =>
      some { system with
             chain := { blockHeight := system.chain.blockHeight + 1
                        landed := transactions.foldl (land slot) system.chain.landed } }
  | .publish manifest => some { system with published := some manifest }
  | .read =>
      match system.monitor.phase with
      | .reading =>
          match system.published with
          | none => some system
          | some manifest => some { system with monitor := readManifest manifest system.monitor }
      | _ => none
  | event =>
      system.monitor.manifest.bind fun manifest =>
        (advance system.chain system.monitor manifest event).map fun monitor => { system with monitor }

def initial : System where
  chain := { blockHeight := 0, landed := fun _ => none }
  published := none
  monitor :=
    { records := [], blockPositions := fun _ => none, manifest := none, report := none, phase := .reading }

end System

/-! What a phase leaves of its poll. -/
section Ahead

/-- An upper bound of the steps a poll still takes. -/
def Phase.steps : Phase → Nat
  | .reading | .complete => 0
  | .height pending => 3 * pending.length + 2
  | .statuses _ pending => 3 * pending.length + 1
  | .transaction _ _ _ group pending => 3 * (group.length + pending.length) + 3
  | .block _ _ _ _ group pending => 3 * (group.length + pending.length) + 2

/-- The signatures a poll will still come to. -/
def Phase.remaining : Phase → List String
  | .reading | .complete => []
  | .height pending => pending
  | .statuses _ pending => pending
  | .transaction _ signature _ group pending => signature :: (group.map Prod.fst ++ pending)
  | .block _ signature _ _ group pending => signature :: (group.map Prod.fst ++ pending)

/-- The answered statuses a poll has not come to yet. -/
def Phase.answered : Phase → List (String × Option SignatureStatus)
  | .transaction _ _ _ group _ => group
  | .block _ _ _ _ group _ => group
  | _ => []

def Phase.AskedFrom (height : Nat) : Phase → Prop
  | .statuses currentBlockHeight _ => height ≤ currentBlockHeight
  | .transaction currentBlockHeight _ _ _ _ => height ≤ currentBlockHeight
  | .block currentBlockHeight _ _ _ _ _ => height ≤ currentBlockHeight
  | _ => True

end Ahead

section Records
variable {records : List MonitoredRecord} {signature other : String}
  {change : MonitoredRecord → MonitoredRecord}

theorem mem_update_record {record : MonitoredRecord} :
    record ∈ updateRecord signature change records ↔
      ∃ earlier ∈ records, record = if earlier.signature = signature then change earlier else earlier := by
  unfold updateRecord
  rw [List.mem_map]
  exact exists_congr fun _ => and_congr_right fun _ => eq_comm

theorem update_sources (keeps : ∀ record, (change record).source = record.source) :
    (updateRecord signature change records).map (·.source) = records.map (·.source) := by
  unfold updateRecord
  rw [List.map_map]
  refine List.map_congr_left fun record _ => ?_
  rw [Function.comp_apply]
  split
  · exact keeps record
  · rfl

theorem signatures_of_sources {left right : List MonitoredRecord}
    (same : left.map (·.source) = right.map (·.source)) :
    left.map (·.signature) = right.map (·.signature) := by
  have mapped := congrArg (List.map BroadcastRecord.signature) same
  rwa [List.map_map, List.map_map] at mapped

theorem mem_pending {records : List MonitoredRecord} {signature : String} :
    signature ∈ pendingSignatures records ↔
      ∃ record ∈ records, record.status = .broadcast ∧ record.signature = signature := by
  unfold pendingSignatures withStatus
  simp only [List.mem_map, List.mem_filter, decide_eq_true_eq, and_assoc]

theorem pending_update (apart : other ≠ signature) (pending : other ∈ pendingSignatures records) :
    other ∈ pendingSignatures (updateRecord signature change records) := by
  obtain ⟨record, member, waits, rfl⟩ := mem_pending.mp pending
  exact mem_pending.mpr ⟨record, mem_update_record.mpr ⟨record, member, (if_neg apart).symm⟩, waits, rfl⟩

theorem pending_distinct (distinct : (records.map (·.signature)).Nodup) :
    (pendingSignatures records).Nodup :=
  distinct.sublist (List.filter_sublist.map _)

theorem expire_source (currentBlockHeight : Nat) (record : MonitoredRecord) :
    (expireAbove currentBlockHeight record).source = record.source := by
  unfold expireAbove
  split <;> rfl

/-- What a manifest adds: records not seen before, without a verdict, at the end. -/
theorem observe_appends (records : List MonitoredRecord) (sources : List BroadcastRecord) :
    ∃ added : List BroadcastRecord,
      sources.foldl observe records = records ++ added.map unresolved ∧ added ⊆ sources ∧
      ((records.map (·.signature)).Nodup →
        ((records ++ added.map unresolved).map (·.signature)).Nodup) ∧
      ∀ source ∈ sources,
        source.signature ∈ (records ++ added.map unresolved).map (·.signature) := by
  induction sources generalizing records with
  | nil => exact ⟨[], by simp, List.nil_subset _, by simp, by simp⟩
  | cons source rest ih =>
      obtain ⟨added, folded, listed, distinct, covered⟩ := ih (observe records source)
      rw [List.foldl_cons, folded]
      unfold observe at distinct covered ⊢
      split at distinct
      next seen =>
        rw [if_pos seen] at covered ⊢
        refine ⟨added, rfl, List.subset_cons_of_subset _ listed, distinct, fun wanted member => ?_⟩
        rcases List.mem_cons.mp member with rfl | later
        · rw [List.map_append]
          exact List.mem_append_left _ seen
        · exact covered wanted later
      next fresh =>
        rw [if_neg fresh] at covered ⊢
        have same : records ++ [unresolved source] ++ added.map unresolved =
            records ++ (source :: added).map unresolved := by simp
        rw [same] at distinct covered ⊢
        refine ⟨source :: added, rfl, List.cons_subset_cons _ listed, fun earlier => distinct ?_,
          fun wanted member => ?_⟩
        · rw [List.map_append, List.map_singleton]
          refine List.nodup_append.mpr ⟨earlier, List.nodup_singleton _,
            fun left inRecords right single equal => ?_⟩
          have same : left = source.signature := equal.trans (List.mem_singleton.mp single)
          exact fresh (same ▸ inRecords)
        · rcases List.mem_cons.mp member with rfl | later
          · simp [unresolved, MonitoredRecord.signature]
          · exact covered wanted later

end Records

/-! What the chain can do: a transaction lands in a block no higher than the last
one its blockhash is valid for, and what has landed stays as it landed. -/
section Chain
variable (validUntil : String → Nat)

def Honest (system : System) : Event → Prop
  | .mined _ transactions => (transactions.map Prod.fst).Nodup ∧
      ∀ transaction ∈ transactions, system.chain.landed transaction.1 = none ∧
        system.chain.blockHeight + 1 ≤ validUntil transaction.1
  | .publish manifest => ∀ record ∈ manifest.records,
      record.lastValidBlockHeight = validUntil record.signature
  | _ => True

instance (system : System) (event : Event) : Decidable (Honest validUntil system event) :=
  match event with
  | .mined _ transactions => inferInstanceAs (Decidable ((transactions.map Prod.fst).Nodup ∧
      ∀ transaction ∈ transactions, system.chain.landed transaction.1 = none ∧
        system.chain.blockHeight + 1 ≤ validUntil transaction.1))
  | .publish manifest => inferInstanceAs (Decidable (∀ record ∈ manifest.records,
      record.lastValidBlockHeight = validUntil record.signature))
  | .read | .height | .statuses _ | .transaction _ | .block _ | .rpcError => isTrue trivial

structure Later (before after : Chain) : Prop where
  higher : before.blockHeight ≤ after.blockHeight
  kept : ∀ signature landing, before.landed signature = some landing →
    after.landed signature = some landing
  lapsed : ∀ signature, before.landed signature = none → validUntil signature ≤ before.blockHeight →
    after.landed signature = none

variable {validUntil}

theorem later_refl (chain : Chain) : Later validUntil chain chain :=
  ⟨le_rfl, fun _ _ landed => landed, fun _ absent _ => absent⟩

theorem later_trans {first second third : Chain} (one : Later validUntil first second)
    (two : Later validUntil second third) : Later validUntil first third :=
  ⟨one.higher.trans two.higher, fun signature landing landed =>
      two.kept signature landing (one.kept signature landing landed),
    fun signature absent over_ =>
      two.lapsed signature (one.lapsed signature absent over_) (over_.trans one.higher)⟩

theorem landed_elsewhere (slot : Nat) (transactions : List (String × Option String))
    (landed : String → Option Landing) (signature : String)
    (apart : signature ∉ transactions.map Prod.fst) :
    transactions.foldl (land slot) landed signature = landed signature := by
  induction transactions generalizing landed with
  | nil => rfl
  | cons transaction rest ih =>
      rw [List.map_cons, List.mem_cons, not_or] at apart
      rw [List.foldl_cons, ih _ apart.2]
      exact Function.update_of_ne apart.1 _ _

theorem mined_later {system : System} {slot : Nat} {transactions : List (String × Option String)}
    (honest : Honest validUntil system (.mined slot transactions)) :
    Later validUntil system.chain
      { blockHeight := system.chain.blockHeight + 1
        landed := transactions.foldl (land slot) system.chain.landed } := by
  have absent {signature : String} (included : signature ∈ transactions.map Prod.fst) :
      system.chain.landed signature = none ∧ system.chain.blockHeight + 1 ≤ validUntil signature := by
    obtain ⟨transaction, member, rfl⟩ := List.mem_map.mp included
    exact honest.2 transaction member
  refine ⟨Nat.le_succ _, fun signature landing landed => ?_, fun signature unlanded lapsed => ?_⟩
  · have apart : signature ∉ transactions.map Prod.fst := by
      intro included
      rw [(absent included).1] at landed
      cases landed
    exact (landed_elsewhere slot transactions _ signature apart).trans landed
  · have apart : signature ∉ transactions.map Prod.fst := by
      intro included
      have late := (absent included).2
      omega
    exact (landed_elsewhere slot transactions _ signature apart).trans unlanded

theorem step_later {system next : System} {event : Event} (honest : Honest validUntil system event)
    (taken : step system event = some next) : Later validUntil system.chain next.chain := by
  cases event with
  | mined slot transactions =>
      cases taken
      exact mined_later honest
  | publish manifest =>
      cases taken
      exact later_refl _
  | read =>
      unfold step at taken
      dsimp only at taken
      split at taken
      · split at taken <;> cases taken <;> exact later_refl _
      · cases taken
  | _ =>
      unfold step at taken
      dsimp only at taken
      obtain ⟨manifest, _, taken⟩ := Option.bind_eq_some_iff.mp taken
      obtain ⟨monitor, _, rfl⟩ := Option.map_eq_some_iff.mp taken
      exact later_refl _

end Chain

end ArbExecutor.BatchMonitor
