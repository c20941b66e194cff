import ArbExecutor.SignedBatch
import ArbExecutor.MonitorReport

/-!
The sender and the monitor of one batch on one file. Every rename of the sender is
what the monitor finds when it next reads; between any two steps of the one the
other may take its own, blocks are produced, and the sender may die and restart.
-/

namespace ArbExecutor.BatchReport

open GuardedRuns
open BatchResume (BatchConfig)
open BatchMonitor (BroadcastRecord MonitoredRecord reportOf)

/-- What the monitor reads of the sender's manifest. -/
def shown (manifest : SignedBatch.Manifest) : BatchMonitor.Manifest where
  sendingComplete := manifest.sendingComplete
  records := manifest.records

structure System where
  sender : SignedBatch.System
  watch : BatchMonitor.System

inductive Event where
  | sender (event : SignedBatch.Event)
  | watch (event : BatchMonitor.Event)

section Steps
variable (config : BatchConfig) (sign : String → String → String)

/-- Nobody but the sender publishes. -/
def step (system : System) : Event → Option System
  | .sender event =>
      (SignedBatch.step config sign system.sender event).map fun sender =>
        { sender, watch := { system.watch with published := sender.published.map shown } }
  | .watch (.publish _) => none
  | .watch event => (BatchMonitor.step system.watch event).map fun watch => { system with watch }

def initial : System := { sender := SignedBatch.initial, watch := BatchMonitor.initial }

variable (validUntil : String → Nat)

def TruthfulAnswer : Event → Prop
  | .sender event => SignedBatch.TruthfulAnswer sign validUntil event
  | .watch _ => True

def HonestChain (system : System) : Event → Prop
  | .sender _ => True
  | .watch event => BatchMonitor.Honest validUntil system.watch event

instance (system : System) (event : Event) : Decidable (HonestChain validUntil system event) :=
  match event with
  | .sender _ => isTrue trivial
  | .watch event => inferInstanceAs (Decidable (BatchMonitor.Honest validUntil system.watch event))

/-- A restart of the sender finds exactly the first ordinals on file. -/
def ResumesPrefix (system : System) : Event → Prop
  | .sender event => ∀ control ∈ SignedBatch.eraseEvent event,
      BatchResume.ResumesPrefix system.sender.erase control
  | .watch _ => True

instance (system : System) (event : Event) : Decidable (ResumesPrefix system event) :=
  match event with
  | .sender event => inferInstanceAs (Decidable (∀ control ∈ SignedBatch.eraseEvent event,
      BatchResume.ResumesPrefix system.sender.erase control))
  | .watch _ => isTrue trivial

end Steps

section Joint
variable (config : BatchConfig) (sign : String → String → String) (validUntil : String → Nat)

/-- The manifest a monitor holds has been on file, and its records come from it. -/
structure HeldManifest (sender : SignedBatch.System) (records : List MonitoredRecord)
    (manifest : BatchMonitor.Manifest) : Prop where
  filed : ∃ latest, sender.published = some latest ∧ manifest.records ⊆ latest.records
  distinct : (manifest.records.map (·.signature)).Nodup
  exact : manifest.sendingComplete = true →
    (manifest.records.map (·.ordinal)).Perm (List.range' 1 config.requestedBroadcasts)
  sources : records.map (·.source) ⊆ manifest.records

structure Joined (system : System) : Prop where
  sender : SignedBatch.Accounted sign validUntil system.sender
  control : BatchResume.Consistent config system.sender.erase
  watch : MonitorSoundness.Sound validUntil system.watch
  filed : MonitorReport.Filed system.watch
  file : system.watch.published = system.sender.published.map shown
  held : ∀ manifest, system.watch.monitor.manifest = some manifest →
    HeldManifest config system.sender system.watch.monitor.records manifest
  unread : system.watch.monitor.manifest = none → system.watch.monitor.records = []

variable {config sign validUntil} {system next : System}

theorem held_later {before after : SignedBatch.System} {records : List MonitoredRecord}
    {manifest : BatchMonitor.Manifest} (kept : SignedBatch.Keeps before after)
    (held : HeldManifest config before records manifest) : HeldManifest config after records manifest := by
  obtain ⟨latest, found, behind⟩ := held.filed
  obtain ⟨later, shown, grown⟩ := kept latest found
  exact ⟨⟨later, shown, List.Subset.trans behind grown⟩, held.distinct, held.exact, held.sources⟩

theorem sender_joined {event : SignedBatch.Event} (truthful : SignedBatch.TruthfulAnswer sign validUntil event)
    (resumes : ResumesPrefix system (.sender event)) (joined : Joined config sign validUntil system)
    (taken : step config sign system (.sender event) = some next) :
    Joined config sign validUntil next := by
  obtain ⟨sender, moved, rfl⟩ := Option.map_eq_some_iff.mp taken
  obtain ⟨accounted, kept⟩ := SignedBatch.step_accounted truthful joined.sender moved
  refine ⟨accounted, ?_, ⟨?_, joined.watch.phase⟩, ⟨joined.filed.known, joined.filed.closed⟩, rfl,
    fun manifest own => held_later kept (joined.held manifest own), joined.unread⟩
  · have erased := SignedBatch.step_erases moved
    cases forgotten : SignedBatch.eraseEvent event with
    | none =>
        rw [forgotten] at erased
        exact erased ▸ joined.control
    | some control =>
        rw [forgotten] at erased
        exact BatchResume.step_consistent _ _ control (resumes control forgotten) joined.control erased
  · intro manifest found record member
    obtain ⟨latest, published, rfl⟩ := Option.map_eq_some_iff.mp found
    exact accounted.truly latest published record member

/-- Reading takes over a manifest that has all the monitor has seen. -/
theorem read_held {manifest : BatchMonitor.Manifest} (joined : Joined config sign validUntil system)
    (found : system.watch.published = some manifest) :
    HeldManifest config system.sender
      (BatchMonitor.readManifest manifest system.watch.monitor).records manifest := by
  obtain ⟨latest, published, rfl⟩ := Option.map_eq_some_iff.mp (joined.file.symm.trans found)
  obtain ⟨added, folded, listed, _⟩ :=
    BatchMonitor.observe_appends system.watch.monitor.records (shown latest).records
  have before : system.watch.monitor.records.map (·.source) ⊆ latest.records := by
    cases own : system.watch.monitor.manifest with
    | none =>
        rw [joined.unread own]
        exact List.nil_subset _
    | some earlier =>
        obtain ⟨⟨same, present, behind⟩, _, _, sources⟩ := joined.held earlier own
        cases published.symm.trans present
        exact List.Subset.trans sources behind
  refine ⟨⟨latest, published, List.Subset.refl _⟩, joined.sender.distinct latest published,
    fun complete => ?_, ?_⟩
  · have exact := (joined.control.1 latest.erase (congrArg (Option.map _) published)).exact complete
    unfold BatchResume.ordinals SignedBatch.Manifest.erase at exact
    rwa [List.map_map] at exact
  · rw [MonitorSoundness.read_records, folded, List.map_append, List.map_map]
    refine List.append_subset.mpr ⟨before, ?_⟩
    exact (congrArg (· ⊆ latest.records) (List.map_id added)).mpr listed

/-- A step of the monitor publishes nothing. -/
theorem watch_step {event : BatchMonitor.Event} (taken : step config sign system (.watch event) = some next) :
    (∀ manifest, event ≠ .publish manifest) ∧
      ∃ watch, BatchMonitor.step system.watch event = some watch ∧ next = { system with watch } := by
  have silent (manifest : BatchMonitor.Manifest) : event ≠ .publish manifest := by
    rintro rfl
    cases taken
  have same : step config sign system (.watch event) =
      (BatchMonitor.step system.watch event).map fun watch => { system with watch } := by
    cases event with
    | publish manifest => exact absurd rfl (silent manifest)
    | _ => rfl
  obtain ⟨watch, moved, later⟩ := Option.map_eq_some_iff.mp (same.symm.trans taken)
  exact ⟨silent, watch, moved, later.symm⟩

theorem watch_joined {event : BatchMonitor.Event}
    (honest : BatchMonitor.Honest validUntil system.watch event) (joined : Joined config sign validUntil system)
    (taken : step config sign system (.watch event) = some next) :
    Joined config sign validUntil next := by
  obtain ⟨silent, watch, moved, rfl⟩ := watch_step taken
  have sound := MonitorSoundness.step_sound honest joined.watch moved
  have filed := MonitorReport.step_filed joined.watch joined.filed moved
  obtain ⟨file, ⟨same, sources⟩ | ⟨manifest, found, read⟩⟩ := MonitorReport.step_reads silent moved
  · refine ⟨joined.sender, joined.control, sound, filed, file.trans joined.file,
      fun manifest own => ?_, fun absent => ?_⟩
    · obtain ⟨latest, distinct, exact, listed⟩ := joined.held manifest (same ▸ own)
      exact ⟨latest, distinct, exact, sources ▸ listed⟩
    · have none := joined.unread (same ▸ absent)
      rw [none] at sources
      exact List.map_eq_nil_iff.mp sources
  · have own : watch.monitor.manifest = some manifest := by
      rw [read]
      exact (MonitorReport.read_closed manifest _).1
    refine ⟨joined.sender, joined.control, sound, filed, file.trans joined.file,
      fun other same => ?_, fun absent => ?_⟩
    · cases own.symm.trans same
      exact read ▸ read_held joined found
    · cases own.symm.trans absent

theorem initial_joined : Joined config sign validUntil initial where
  sender := SignedBatch.initial_accounted
  control := ⟨nofun, nofun⟩
  watch := MonitorSoundness.initial_sound
  filed := ⟨nofun, nofun⟩
  file := rfl
  held := nofun
  unread := fun _ => rfl

/-- Together they keep the joint state whatever the order of their steps. -/
theorem run_joined (events : List Event) {final : System}
    (truthful : ∀ event ∈ events, TruthfulAnswer sign validUntil event)
    (honest : AllowedAlong (step config sign) (HonestChain validUntil) initial events)
    (resumed : AllowedAlong (step config sign) ResumesPrefix initial events)
    (ran : run (step config sign) initial events = some final) : Joined config sign validUntil final := by
  have allowed := allowed_and events initial (allowed_of_events events initial truthful)
    (allowed_and events initial honest resumed)
  refine run_invariant (Joined config sign validUntil) (fun system event next allowed joined taken => ?_)
    events initial final initial_joined allowed ran
  obtain ⟨truthful, honest, resumes⟩ := allowed
  cases event with
  | sender event => exact sender_joined truthful resumes joined taken
  | watch event => exact watch_joined honest joined taken

/-- What a monitor has read last is what its records are made of, each record once. -/
theorem records_perm {manifest : BatchMonitor.Manifest} (joined : Joined config sign validUntil system)
    (own : system.watch.monitor.manifest = some manifest)
    (records : MonitorSoundness.RecordsSound validUntil system.watch.chain system.watch.monitor.records) :
    (system.watch.monitor.records.map (·.source)).Perm manifest.records := by
  have held := joined.held manifest own
  have once : (system.watch.monitor.records.map (·.source)).Nodup := by
    refine List.Nodup.of_map BroadcastRecord.signature ?_
    rw [List.map_map]
    exact records.distinct
  refine (List.perm_ext_iff_of_nodup once held.distinct.of_map).mpr fun source =>
    ⟨fun listed => held.sources listed, fun listed => ?_⟩
  obtain ⟨record, member, same⟩ := List.mem_map.mp (joined.filed.known manifest own source listed)
  have inManifest := held.sources (List.mem_map_of_mem member)
  have equal : record.source = source :=
    List.inj_on_of_nodup_map held.distinct inManifest listed same
  exact equal ▸ List.mem_map_of_mem member

end Joint

section Reports
variable {config : BatchConfig} {sign : String → String → String} {validUntil : String → Nat}

theorem reported_ordered (manifest : Option BatchMonitor.Manifest) (records : List MonitoredRecord) :
    ((reportOf manifest records).records.map (·.source.ordinal)).Pairwise (· ≤ ·) := by
  rw [List.pairwise_map]
  exact List.pairwise_insertionSort _ _

/-- When the monitor is done, it has reported each ordinal of the batch once and in
order, whatever crashes, restarts, collisions of signatures and failed requests there
were, with a verdict that is the chain's, and the counts make up the batch. -/
theorem batch_reported (events : List Event) (final : System)
    (truthful : ∀ event ∈ events, TruthfulAnswer sign validUntil event)
    (honest : AllowedAlong (step config sign) (HonestChain validUntil) initial events)
    (resumed : AllowedAlong (step config sign) ResumesPrefix initial events)
    (ran : run (step config sign) initial events = some final)
    (done : final.watch.monitor.phase = .complete) :
    ∃ report, final.watch.monitor.report = some report ∧
      report.records.map (·.source.ordinal) = List.range' 1 config.requestedBroadcasts ∧
      (∀ record ∈ report.records, record.status ≠ .broadcast ∧
        MonitorSoundness.Justified validUntil final.watch.chain record) ∧
      report.summary.duplicateManifestRecords = 0 ∧ report.summary.pending = 0 ∧
      report.summary.succeeded + report.summary.reverted + report.summary.expired =
        config.requestedBroadcasts := by
  have joined := run_joined events truthful honest resumed ran
  have records := joined.watch.phase
  rw [done] at records
  obtain ⟨manifest, own, sent, reported, settled⟩ := MonitorReport.complete_reported joined.filed done
  have held := joined.held manifest own
  have same := MonitorReport.reported_perm (some manifest) final.watch.monitor.records
  have ordinals : ((reportOf (some manifest) final.watch.monitor.records).records.map
      (·.source.ordinal)).Perm (List.range' 1 config.requestedBroadcasts) := by
    have sources := (records_perm joined own records).map BroadcastRecord.ordinal
    rw [List.map_map] at sources
    exact (same.map _).trans (sources.trans (held.exact sent))
  have inOrder : (reportOf (some manifest) final.watch.monitor.records).records.map
      (·.source.ordinal) = List.range' 1 config.requestedBroadcasts :=
    ordinals.eq_of_pairwise (fun _ _ _ _ => Nat.le_antisymm) (reported_ordered _ _)
      (List.pairwise_le_range' _)
  obtain ⟨waiting, total⟩ := MonitorReport.settled_counts (some manifest) settled
  refine ⟨_, reported, inOrder, fun record member => ?_, ?_, waiting, ?_⟩
  · have present := same.mem_iff.mp member
    exact ⟨settled record present, records.justified record present⟩
  · have distinct : (BatchMonitor.signatures manifest.records).dedup =
        BatchMonitor.signatures manifest.records := List.Nodup.dedup held.distinct
    unfold reportOf
    dsimp only [Option.map_some, Option.getD_some]
    rw [distinct]
    unfold BatchMonitor.signatures
    rw [List.length_map, Nat.sub_self]
  · rw [← total]
    have counted := congrArg List.length inOrder
    rwa [List.length_map, List.length_range'] at counted

/-! The monitor reads before the sender dies and again when the batch is complete. -/
def sampleEvents : List Event :=
  SignedBatch.sampleBroadcasts.map .sender ++ [.watch .read, .watch .height] ++
    SignedBatch.sampleRestart.map .sender ++
    [.watch (.mined 7 [("pump-to-meteorafirst", none)]), .watch .rpcError,
     .sender (.opened ⟨7, "third", 9⟩), .sender .complete, .sender .written, .sender .renamed,
     .watch (.mined 8 [("pump-to-meteorasecond", some "custom")]), .watch .read, .watch .height,
     .watch (.statuses fun _ => none), .watch (.transaction (some ⟨none⟩)),
     .watch (.block ["pump-to-meteorafirst"]), .watch (.transaction (some ⟨none⟩)), .watch (.block [])]

def sampleStep : System → Event → Option System :=
  step BatchResume.twoBroadcasts SignedBatch.sampleSign

theorem batch_reported_sample : ∃ final report,
    run sampleStep initial sampleEvents = some final ∧ final.watch.monitor.report = some report ∧
      report.records.map (·.source.ordinal) = [1, 2] ∧
      report.summary.succeeded + report.summary.reverted + report.summary.expired = 2 := by
  have reached : (run sampleStep initial sampleEvents).map (·.watch.monitor.phase) = some .complete := by
    decide +kernel
  obtain ⟨final, ran, done⟩ := Option.map_eq_some_iff.mp reached
  obtain ⟨report, reported, inOrder, _, _, _, total⟩ := @batch_reported BatchResume.twoBroadcasts
    SignedBatch.sampleSign (fun _ => 9) sampleEvents final
    (by simp [sampleEvents, SignedBatch.sampleBroadcasts, SignedBatch.sampleRestart, TruthfulAnswer,
      SignedBatch.TruthfulAnswer, SignedBatch.Truthful])
    (by decide +kernel) (by decide +kernel) ran done
  exact ⟨final, report, ran, reported, inOrder, total⟩

end Reports

end ArbExecutor.BatchReport
