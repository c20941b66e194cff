import ArbExecutor.MonitorSoundness

/-!
The report of a finished batch. The monitor stops when its manifest is final and
every signature of it has a verdict; the report of that moment files each
signature once and its counts are those of the chain.
-/

namespace ArbExecutor.MonitorReport

open GuardedRuns BatchMonitor MonitorSoundness

section Completion
variable {validUntil : String → Nat}

theorem continue_sources (manifest : Manifest) (currentBlockHeight : Nat) (pending : List String)
    (group : List (String × Option SignatureStatus)) (monitor : Monitor) :
    (continueGroup manifest currentBlockHeight pending group monitor).records.map (·.source) =
      monitor.records.map (·.source) := by
  induction group generalizing monitor with
  | nil =>
      unfold continueGroup
      split <;> rfl
  | cons entry rest ih =>
      obtain ⟨signature, answer⟩ := entry
      cases answer with
      | none => exact (ih _).trans (update_sources (expire_source currentBlockHeight))
      | some status => rfl

/-- Only reading the manifest adds records. -/
theorem advance_sources {chain : Chain} {monitor next : Monitor} {manifest : Manifest} {event : Event}
    (taken : advance chain monitor manifest event = some next) :
    next.records.map (·.source) = monitor.records.map (·.source) := by
  unfold advance at taken
  cases event with
  | mined | publish | read => cases taken
  | height =>
      dsimp only at taken
      split at taken <;> cases taken
      rfl
  | statuses confirmation =>
      dsimp only at taken
      split at taken <;> cases taken
      exact continue_sources _ _ _ _ _
  | transaction answer =>
      dsimp only at taken
      split at taken
      · cases answer with
        | none =>
            cases taken
            exact continue_sources _ _ _ _ _
        | some answer =>
            dsimp only at taken
            split at taken <;> cases taken
            · rfl
            · exact (continue_sources _ _ _ _ _).trans (update_sources fun _ => rfl)
      · cases taken
  | block block =>
      dsimp only at taken
      split at taken <;> cases taken
      exact (continue_sources _ _ _ _ _).trans (update_sources fun _ => rfl)
  | rpcError =>
      dsimp only at taken
      split at taken <;> cases taken
      rfl

/-- A monitor that is done has reported on exactly what it holds. -/
def Closed (manifest : Manifest) (monitor : Monitor) : Prop :=
  monitor.manifest = some manifest ∧ (monitor.phase = .complete →
    isComplete manifest monitor.records = true ∧
      monitor.report = some (reportOf (some manifest) monitor.records))

theorem finish_closed (manifest : Manifest) (monitor : Monitor)
    (own : monitor.manifest = some manifest) : Closed manifest (finishPoll monitor manifest) := by
  refine ⟨own, fun done => ?_⟩
  unfold finishPoll at done ⊢
  dsimp only at done ⊢
  split at done
  next complete => exact ⟨complete, rfl⟩
  next => cases done

theorem continue_closed (manifest : Manifest) (currentBlockHeight : Nat) (pending : List String)
    (group : List (String × Option SignatureStatus)) (monitor : Monitor)
    (own : monitor.manifest = some manifest) :
    Closed manifest (continueGroup manifest currentBlockHeight pending group monitor) := by
  induction group generalizing monitor with
  | nil =>
      unfold continueGroup
      split
      · exact finish_closed manifest monitor own
      · exact ⟨own, fun done => by cases done⟩
  | cons entry rest ih =>
      obtain ⟨signature, answer⟩ := entry
      cases answer with
      | none => exact ih _ own
      | some status => exact ⟨own, fun done => by cases done⟩

theorem advance_closed {chain : Chain} {monitor next : Monitor} {manifest : Manifest} {event : Event}
    (own : monitor.manifest = some manifest)
    (taken : advance chain monitor manifest event = some next) : Closed manifest next := by
  unfold advance at taken
  cases event with
  | mined | publish | read => cases taken
  | height =>
      dsimp only at taken
      split at taken <;> cases taken
      exact ⟨own, fun done => by cases done⟩
  | statuses confirmation =>
      dsimp only at taken
      split at taken <;> cases taken
      exact continue_closed _ _ _ _ _ own
  | transaction answer =>
      dsimp only at taken
      split at taken
      · cases answer with
        | none =>
            cases taken
            exact continue_closed _ _ _ _ _ own
        | some answer =>
            dsimp only at taken
            split at taken <;> cases taken
            · exact ⟨own, fun done => by cases done⟩
            · exact continue_closed _ _ _ _ _ own
      · cases taken
  | block block =>
      dsimp only at taken
      split at taken <;> cases taken
      exact continue_closed _ _ _ _ _ own
  | rpcError =>
      dsimp only at taken
      split at taken <;> cases taken
      exact finish_closed _ _ own

/-- A step that publishes nothing reads what is on file or goes on with what it has. -/
theorem step_reads {system next : System} {event : Event} (silent : ∀ manifest, event ≠ .publish manifest)
    (taken : step system event = some next) :
    next.published = system.published ∧
      ((next.monitor.manifest = system.monitor.manifest ∧
          next.monitor.records.map (·.source) = system.monitor.records.map (·.source)) ∨
        ∃ manifest, system.published = some manifest ∧
          next.monitor = readManifest manifest system.monitor) := by
  cases event with
  | mined =>
      cases taken
      exact ⟨rfl, .inl ⟨rfl, rfl⟩⟩
  | publish manifest => exact absurd rfl (silent manifest)
  | read =>
      unfold step at taken
      dsimp only at taken
      split at taken
      · split at taken
        · cases taken
          exact ⟨rfl, .inl ⟨rfl, rfl⟩⟩
        next manifest found =>
          cases taken
          exact ⟨rfl, .inr ⟨manifest, found, rfl⟩⟩
      · cases taken
  | _ =>
      unfold step at taken
      dsimp only at taken
      obtain ⟨manifest, own, taken⟩ := Option.bind_eq_some_iff.mp taken
      obtain ⟨monitor, advanced, rfl⟩ := Option.map_eq_some_iff.mp taken
      exact ⟨rfl, .inl ⟨(advance_closed own advanced).1.trans own.symm, advance_sources advanced⟩⟩

/-- The manifest last read has all its signatures among the records. -/
structure Filed (system : System) : Prop where
  known : ∀ manifest, system.monitor.manifest = some manifest → ∀ source ∈ manifest.records,
    source.signature ∈ system.monitor.records.map (·.signature)
  closed : system.monitor.phase = .complete → ∃ manifest, Closed manifest system.monitor

theorem signatures_kept {before after : List MonitoredRecord} (kept : Extends before after)
    {signature : String} (member : signature ∈ before.map (·.signature)) :
    signature ∈ after.map (·.signature) := by
  obtain ⟨record, inBefore, rfl⟩ := List.mem_map.mp member
  obtain ⟨same, inAfter, equal⟩ := List.mem_map.mp
    (kept.sources.subset (List.mem_map_of_mem inBefore))
  exact List.mem_map.mpr ⟨same, inAfter, congrArg BroadcastRecord.signature equal⟩

theorem read_closed (manifest : Manifest) (monitor : Monitor) :
    Closed manifest (readManifest manifest monitor) := by
  unfold readManifest
  dsimp only
  split
  · exact finish_closed manifest _ rfl
  · exact ⟨rfl, fun done => by cases done⟩

theorem step_filed {system next : System} {event : Event} (sound : Sound validUntil system)
    (filed : Filed system) (taken : step system event = some next) : Filed next := by
  have kept := step_extends sound taken
  cases event with
  | mined | publish => cases taken; exact ⟨filed.known, filed.closed⟩
  | read =>
      unfold step at taken
      dsimp only at taken
      split at taken
      · split at taken
        · cases taken
          exact filed
        next manifest _ =>
          cases taken
          have closed := read_closed manifest system.monitor
          have only (other : Manifest) (same : (readManifest manifest system.monitor).manifest =
              some other) : manifest = other := Option.some.inj (closed.1.symm.trans same)
          refine ⟨fun other same source member => ?_, fun _ => ⟨manifest, closed⟩⟩
          obtain ⟨added, folded, _, _, covered⟩ :=
            observe_appends system.monitor.records manifest.records
          dsimp only
          rw [read_records, folded]
          exact covered source (only other same ▸ member)
      · cases taken
  | _ =>
      unfold step at taken
      dsimp only at taken
      obtain ⟨manifest, own, taken⟩ := Option.bind_eq_some_iff.mp taken
      obtain ⟨monitor, advanced, rfl⟩ := Option.map_eq_some_iff.mp taken
      have closed := advance_closed own advanced
      have only (other : Manifest) (same : monitor.manifest = some other) : manifest = other :=
        Option.some.inj (closed.1.symm.trans same)
      exact ⟨fun other same source member => signatures_kept kept
          (filed.known other (only other same ▸ own) source member),
        fun _ => ⟨manifest, closed⟩⟩

theorem statuses_partition (records : List MonitoredRecord) :
    (withStatus .broadcast records).length + (withStatus .success records).length +
        (withStatus .reverted records).length + (withStatus .expired records).length =
      records.length := by
  unfold withStatus
  induction records with
  | nil => rfl
  | cons record rest ih =>
      cases status : record.status <;> simp only [List.filter_cons, status, List.length_cons] <;>
        simp <;> omega

theorem counted_as {records : List MonitoredRecord} {status : Status}
    {landsSo : MonitoredRecord → Bool}
    (same : ∀ record ∈ records, record.status = status ↔ landsSo record = true) :
    (withStatus status records).length = (records.filter landsSo).length := by
  unfold withStatus
  refine congrArg List.length (List.filter_congr fun record member => ?_)
  exact Bool.eq_iff_iff.mpr (by rw [decide_eq_true_eq]; exact same record member)

def succeededOn (chain : Chain) (record : MonitoredRecord) : Bool :=
  (chain.landed record.signature).any (·.err.isNone)

def revertedOn (chain : Chain) (record : MonitoredRecord) : Bool :=
  (chain.landed record.signature).any (·.err.isSome)

def absentFrom (chain : Chain) (record : MonitoredRecord) : Bool :=
  (chain.landed record.signature).isNone

theorem verdict_iff {chain : Chain} {record : MonitoredRecord}
    (settled : record.status ≠ .broadcast) (justified : Justified validUntil chain record) :
    (record.status = .success ↔ succeededOn chain record = true) ∧
      (record.status = .reverted ↔ revertedOn chain record = true) ∧
      (record.status = .expired ↔ absentFrom chain record = true) := by
  unfold Justified at justified
  unfold succeededOn revertedOn absentFrom
  split at justified
  next waits => exact absurd waits settled
  next status =>
    obtain ⟨_, landed, _⟩ := justified
    simp [status, landed]
  next status =>
    obtain ⟨_, _, landed, _⟩ := justified
    simp [status, landed]
  next status => simp [status, justified.1]

/-- A finished monitor has reported on each signature of the manifest it read last. -/
theorem complete_reported {system : System} (filed : Filed system)
    (done : system.monitor.phase = .complete) :
    ∃ manifest, system.monitor.manifest = some manifest ∧ manifest.sendingComplete = true ∧
      system.monitor.report = some (reportOf (some manifest) system.monitor.records) ∧
      ∀ record ∈ system.monitor.records, record.status ≠ .broadcast := by
  obtain ⟨manifest, own, closed⟩ := filed.closed done
  obtain ⟨complete, reported⟩ := closed done
  unfold isComplete at complete
  simp only [Bool.and_eq_true, decide_eq_true_eq, List.all_eq_true] at complete
  obtain ⟨⟨sent, _⟩, settled⟩ := complete
  exact ⟨manifest, own, sent, reported, settled⟩

theorem reported_perm (manifest : Option Manifest) (records : List MonitoredRecord) :
    (reportOf manifest records).records.Perm records :=
  List.perm_insertionSort _ _

/-- With a verdict on every record the counts add up. -/
theorem settled_counts (manifest : Option Manifest) {records : List MonitoredRecord}
    (settled : ∀ record ∈ records, record.status ≠ .broadcast) :
    (reportOf manifest records).summary.pending = 0 ∧
      (reportOf manifest records).summary.observed =
        (reportOf manifest records).summary.succeeded + (reportOf manifest records).summary.reverted +
          (reportOf manifest records).summary.expired := by
  have partition := statuses_partition (reportOf manifest records).records
  have none_waits : withStatus .broadcast (reportOf manifest records).records = [] :=
    List.filter_eq_nil_iff.mpr fun record member => by
      rw [decide_eq_true_eq]
      exact settled record ((reported_perm manifest records).mem_iff.mp member)
  rw [none_waits, List.length_nil, Nat.zero_add] at partition
  exact ⟨congrArg List.length none_waits, partition.symm⟩

theorem reached_filed (events : List Event) (final : System)
    (honest : AllowedAlong step (Honest validUntil) initial events)
    (ran : run step initial events = some final) : Sound validUntil final ∧ Filed final :=
  run_invariant (fun system => Sound validUntil system ∧ Filed system)
    (fun _ _ _ honest kept taken => ⟨step_sound honest kept.1 taken, step_filed kept.1 kept.2 taken⟩)
    events initial final
    ⟨initial_sound, ⟨fun _ same => (by cases same), fun same => (by cases same)⟩⟩ honest ran

/-- A finished monitor accounts for the batch: each signature of the manifest has
one record, each record a verdict, and the counts are those of the chain. -/
theorem report_accounts (events : List Event) (final : System)
    (honest : AllowedAlong step (Honest validUntil) initial events)
    (ran : run step initial events = some final) (done : final.monitor.phase = .complete) :
    ∃ manifest report, final.monitor.manifest = some manifest ∧ final.monitor.report = some report ∧
      manifest.sendingComplete = true ∧
      (∀ source ∈ manifest.records,
        ∃! record, record ∈ report.records ∧ record.signature = source.signature) ∧
      (∀ record ∈ report.records, record.status ≠ .broadcast ∧
        Justified validUntil final.chain record) ∧
      report.summary.pending = 0 ∧
      report.summary.observed =
        report.summary.succeeded + report.summary.reverted + report.summary.expired ∧
      report.summary.succeeded = (report.records.filter (succeededOn final.chain)).length ∧
      report.summary.reverted = (report.records.filter (revertedOn final.chain)).length ∧
      report.summary.expired = (report.records.filter (absentFrom final.chain)).length := by
  obtain ⟨sound, filed⟩ := reached_filed events final honest ran
  have records := sound.phase
  rw [done] at records
  obtain ⟨manifest, own, sent, reported, settled⟩ := complete_reported filed done
  have same := reported_perm (some manifest) final.monitor.records
  have verdicts : ∀ record ∈ (reportOf (some manifest) final.monitor.records).records,
      record.status ≠ .broadcast ∧ Justified validUntil final.chain record := fun record member =>
    ⟨settled record (same.mem_iff.mp member), records.justified record (same.mem_iff.mp member)⟩
  obtain ⟨waiting, total⟩ := settled_counts (some manifest) settled
  refine ⟨manifest, _, own, reported, sent, fun source member => ?_, verdicts, waiting, total, ?_, ?_, ?_⟩
  · obtain ⟨record, listed, own⟩ := List.mem_map.mp (filed.known manifest own source member)
    refine ⟨record, ⟨same.mem_iff.mpr listed, own⟩, fun other ⟨present, shared⟩ => ?_⟩
    exact List.inj_on_of_nodup_map records.distinct (same.mem_iff.mp present) listed
      (shared.trans own.symm)
  · exact counted_as fun record member => (verdict_iff (verdicts record member).1
      (verdicts record member).2).1
  · exact counted_as fun record member => (verdict_iff (verdicts record member).1
      (verdicts record member).2).2.1
  · exact counted_as fun record member => (verdict_iff (verdicts record member).1
      (verdicts record member).2).2.2

theorem report_accounts_sample : ∃ final report,
    run step initial (sampleBefore ++ .read :: samplePoll) = some final ∧
      final.monitor.report = some report ∧ report.summary.pending = 0 ∧
      report.summary.expired = (report.records.filter (absentFrom final.chain)).length := by
  obtain ⟨final, ran, reached⟩ := Option.map_eq_some_iff.mp sample_verdicts
  obtain ⟨_, report, _, reported, _, _, _, waiting, _, _, _, expired⟩ :=
    report_accounts _ final sample_honest ran (congrArg Prod.fst reached)
  exact ⟨final, report, ran, reported, waiting, expired⟩

end Completion

end ArbExecutor.MonitorReport
