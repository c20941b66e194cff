import ArbExecutor.BatchMonitor

/-!
No verdict of the monitor is ever wrong. What a poll carries from await to await
stays true of a chain that only grows, so each step keeps the records sound, and
a record once decided is neither changed nor forgotten.
-/

namespace ArbExecutor.MonitorSoundness

open GuardedRuns BatchMonitor

section Invariant
variable (validUntil : String → Nat)

/-- A verdict is what the chain says, or, for an expired record, will always say. -/
def Justified (chain : Chain) (record : MonitoredRecord) : Prop :=
  match record.status with
  | .broadcast => record = unresolved record.source
  | .success => ∃ slot, chain.landed record.signature = some ⟨slot, none⟩ ∧
      record.landedSlot = some slot
  | .reverted => ∃ slot error, chain.landed record.signature = some ⟨slot, some error⟩ ∧
      record.landedSlot = some slot ∧ record.error = some error
  | .expired => chain.landed record.signature = none ∧
      validUntil record.signature < chain.blockHeight

structure RecordsSound (chain : Chain) (records : List MonitoredRecord) : Prop where
  distinct : (records.map (·.signature)).Nodup
  truthful : ∀ record ∈ records, record.source.lastValidBlockHeight = validUntil record.signature
  justified : ∀ record ∈ records, Justified validUntil chain record

/-- An answered status is the chain's, or was at a height that cannot bring another. -/
def Shown (chain : Chain) (currentBlockHeight : Nat) (entry : String × Option SignatureStatus) : Prop :=
  match entry.2 with
  | some status => chain.landed entry.1 = some ⟨status.slot, status.err⟩
  | none => validUntil entry.1 < currentBlockHeight → chain.landed entry.1 = none

/-- What a poll still has in front of it: distinct records without a verdict. -/
structure Working (chain : Chain) (records : List MonitoredRecord) (currentBlockHeight : Nat)
    (group : List (String × Option SignatureStatus)) (pending : List String) : Prop where
  sound : RecordsSound validUntil chain records
  asked : currentBlockHeight ≤ chain.blockHeight
  shown : ∀ entry ∈ group, Shown validUntil chain currentBlockHeight entry
  distinct : (group.map Prod.fst ++ pending).Nodup
  waiting : ∀ signature ∈ group.map Prod.fst ++ pending, signature ∈ pendingSignatures records

def PhaseSound (chain : Chain) (records : List MonitoredRecord) : Phase → Prop
  | .reading | .complete => RecordsSound validUntil chain records
  | .height pending => Working validUntil chain records 0 [] pending
  | .statuses currentBlockHeight pending => Working validUntil chain records currentBlockHeight [] pending
  | .transaction currentBlockHeight signature status group pending
  | .block currentBlockHeight signature status _ group pending =>
      Working validUntil chain records currentBlockHeight ((signature, some status) :: group) pending

structure Sound (system : System) : Prop where
  published : ∀ manifest, system.published = some manifest → ∀ record ∈ manifest.records,
    record.lastValidBlockHeight = validUntil record.signature
  phase : PhaseSound validUntil system.chain system.monitor.records system.monitor.phase

variable {validUntil} {chain : Chain} {records : List MonitoredRecord}

theorem justified_later {after : Chain} (later : Later validUntil chain after)
    {record : MonitoredRecord} (justified : Justified validUntil chain record) :
    Justified validUntil after record := by
  unfold Justified at justified ⊢
  split at justified
  next => exact justified
  next =>
    obtain ⟨slot, landed, shown⟩ := justified
    exact ⟨slot, later.kept _ _ landed, shown⟩
  next =>
    obtain ⟨slot, error, landed, shown⟩ := justified
    exact ⟨slot, error, later.kept _ _ landed, shown⟩
  next =>
    exact ⟨later.lapsed _ justified.1 justified.2.le, justified.2.trans_le later.higher⟩

theorem working_later {after : Chain} {currentBlockHeight : Nat} (later : Later validUntil chain after)
    {group : List (String × Option SignatureStatus)} {pending : List String}
    (working : Working validUntil chain records currentBlockHeight group pending) :
    Working validUntil after records currentBlockHeight group pending := by
  refine ⟨⟨working.sound.distinct, working.sound.truthful, fun record member =>
      justified_later later (working.sound.justified record member)⟩,
    working.asked.trans later.higher, fun entry member => ?_, working.distinct, working.waiting⟩
  have shown := working.shown entry member
  unfold Shown at shown ⊢
  split at shown
  next => exact later.kept _ _ shown
  next =>
    intro above
    exact later.lapsed _ (shown above) (above.le.trans working.asked)

theorem phase_later {after : Chain} (later : Later validUntil chain after) (phase : Phase)
    (sound : PhaseSound validUntil chain records phase) : PhaseSound validUntil after records phase := by
  cases phase with
  | reading | complete =>
      exact ⟨sound.distinct, sound.truthful, fun record member =>
        justified_later later (sound.justified record member)⟩
  | _ => exact working_later later sound

/-- A verdict on the first of what is in front of a poll leaves the rest in front of it. -/
theorem working_update {currentBlockHeight : Nat} {signature : String}
    {answer : Option SignatureStatus} {group : List (String × Option SignatureStatus)}
    {pending : List String} {change : MonitoredRecord → MonitoredRecord}
    (keeps : ∀ record, (change record).source = record.source)
    (working : Working validUntil chain records currentBlockHeight ((signature, answer) :: group) pending)
    (justified : ∀ record ∈ records, record.signature = signature → record.status = .broadcast →
      Justified validUntil chain (change record)) :
    Working validUntil chain (updateRecord signature change records) currentBlockHeight group pending := by
  have sources : (updateRecord signature change records).map (·.source) = records.map (·.source) :=
    update_sources keeps
  have apart := (List.nodup_cons.mp working.distinct).1
  refine ⟨⟨?_, fun record member => ?_, fun record member => ?_⟩, working.asked,
    fun entry member => working.shown entry (List.mem_cons_of_mem _ member),
    (List.nodup_cons.mp working.distinct).2, fun other member => ?_⟩
  · rw [signatures_of_sources sources]
    exact working.sound.distinct
  · obtain ⟨earlier, listed, rfl⟩ := mem_update_record.mp member
    have truthful := working.sound.truthful earlier listed
    split
    · unfold MonitoredRecord.signature
      rw [keeps]
      exact truthful
    · exact truthful
  · obtain ⟨earlier, listed, rfl⟩ := mem_update_record.mp member
    split
    next same =>
      -- The record without a verdict is the only one with its signature.
      obtain ⟨waiting, present, waits, own⟩ :=
        mem_pending.mp (working.waiting signature (List.mem_cons_self))
      have identical : earlier = waiting :=
        List.inj_on_of_nodup_map working.sound.distinct listed present (same.trans own.symm)
      exact justified earlier listed same (identical ▸ waits)
    next => exact working.sound.justified earlier listed
  · have different : other ≠ signature := fun same => apart (same ▸ member)
    exact pending_update different (working.waiting other (List.mem_cons_of_mem _ member))

theorem expire_justified {currentBlockHeight : Nat} {signature : String}
    {group : List (String × Option SignatureStatus)} {pending : List String}
    (working : Working validUntil chain records currentBlockHeight ((signature, none) :: group) pending)
    (record : MonitoredRecord) (member : record ∈ records) (own : record.signature = signature) :
    Justified validUntil chain (expireAbove currentBlockHeight record) := by
  unfold expireAbove
  split
  next above =>
    rw [working.sound.truthful record member] at above
    have absent := working.shown _ (List.mem_cons_self) (own ▸ above)
    exact ⟨own ▸ absent, above.trans_le working.asked⟩
  next => exact working.sound.justified record member

theorem settle_justified {status : SignatureStatus} {answer : TransactionAnswer} {block : List String}
    {record : MonitoredRecord}
    (landed : chain.landed record.signature = some ⟨status.slot, status.err⟩) :
    Justified validUntil chain (settle status answer block record) := by
  unfold Justified settle
  cases failed : status.err with
  | none =>
      rw [failed] at landed
      exact ⟨status.slot, landed, rfl⟩
  | some error =>
      rw [failed] at landed
      exact ⟨status.slot, error, landed, rfl, rfl⟩

theorem finish_sound (manifest : Manifest) (monitor : Monitor)
    (sound : RecordsSound validUntil chain monitor.records) :
    PhaseSound validUntil chain (finishPoll monitor manifest).records
      (finishPoll monitor manifest).phase := by
  unfold finishPoll
  dsimp only
  split <;> exact sound

/-- The loop of a group keeps what is in front of it sound up to its next await. -/
theorem continue_sound (manifest : Manifest) (currentBlockHeight : Nat) (pending : List String)
    (group : List (String × Option SignatureStatus)) (monitor : Monitor)
    (working : Working validUntil chain monitor.records currentBlockHeight group pending) :
    PhaseSound validUntil chain
      (continueGroup manifest currentBlockHeight pending group monitor).records
      (continueGroup manifest currentBlockHeight pending group monitor).phase := by
  induction group generalizing monitor with
  | nil =>
      unfold continueGroup
      split
      · exact finish_sound manifest monitor working.sound
      · exact working
  | cons entry rest ih =>
      obtain ⟨signature, answer⟩ := entry
      cases answer with
      | none =>
          exact ih _ (working_update (expire_source currentBlockHeight) working
            fun record member own _ => expire_justified working record member own)
      | some status => exact working

theorem settled_working {currentBlockHeight : Nat} {signature : String} {status : SignatureStatus}
    {group : List (String × Option SignatureStatus)} {pending : List String}
    (answer : TransactionAnswer) (block : List String)
    (working : Working validUntil chain records currentBlockHeight ((signature, some status) :: group)
      pending) :
    Working validUntil chain (updateRecord signature (settle status answer block) records)
      currentBlockHeight group pending :=
  working_update (fun _ => rfl) working fun _ _ own _ =>
    settle_justified (own ▸ working.shown _ (List.mem_cons_self))

/-- A record passed over stays without a verdict, and is out of this poll. -/
theorem working_tail {currentBlockHeight : Nat} {entry : String × Option SignatureStatus}
    {group : List (String × Option SignatureStatus)} {pending : List String}
    (working : Working validUntil chain records currentBlockHeight (entry :: group) pending) :
    Working validUntil chain records currentBlockHeight group pending :=
  ⟨working.sound, working.asked, fun other member => working.shown other (List.mem_cons_of_mem _ member),
    (List.nodup_cons.mp working.distinct).2, fun other member =>
      working.waiting other (List.mem_cons_of_mem _ member)⟩

theorem answered_working {currentBlockHeight : Nat} {pending : List String}
    (confirmation : String → Option String)
    (working : Working validUntil chain records currentBlockHeight [] pending) :
    Working validUntil chain records currentBlockHeight
      ((pending.take maxGroup).map fun signature => (signature, statusOf chain confirmation signature))
      (pending.drop maxGroup) := by
  have names : ((pending.take maxGroup).map fun signature =>
      (signature, statusOf chain confirmation signature)).map Prod.fst ++ pending.drop maxGroup =
      pending := by
    rw [List.map_map]
    exact (congrArg (· ++ pending.drop maxGroup) (List.map_id _)).trans (List.take_append_drop _ _)
  refine ⟨working.sound, working.asked, fun entry member => ?_, ?_, ?_⟩
  · obtain ⟨signature, _, rfl⟩ := List.mem_map.mp member
    unfold Shown statusOf
    cases chain.landed signature with
    | none => exact fun _ => rfl
    | some landing => rfl
  · rw [names]
    exact working.distinct
  · rw [names]
    exact working.waiting

theorem advance_sound {monitor next : Monitor} {manifest : Manifest} {event : Event}
    (sound : PhaseSound validUntil chain monitor.records monitor.phase)
    (taken : advance chain monitor manifest event = some next) :
    PhaseSound validUntil chain next.records next.phase := by
  have finished (phase : Phase) (sound : PhaseSound validUntil chain monitor.records phase) :
      RecordsSound validUntil chain monitor.records := by
    cases phase with
    | reading | complete => exact sound
    | _ => exact sound.sound
  unfold advance at taken
  cases event with
  | mined | publish | read => cases taken
  | height =>
      dsimp only at taken
      split at taken
      next pending inPhase =>
        cases taken
        rw [inPhase] at sound
        exact ⟨sound.sound, le_rfl, fun _ member => absurd member List.not_mem_nil, sound.distinct,
          sound.waiting⟩
      next => cases taken
  | statuses confirmation =>
      dsimp only at taken
      split at taken
      next currentBlockHeight pending inPhase =>
        cases taken
        rw [inPhase] at sound
        exact continue_sound _ _ _ _ _ (answered_working confirmation sound)
      next => cases taken
  | transaction answer =>
      dsimp only at taken
      split at taken
      next currentBlockHeight signature status group pending inPhase =>
        rw [inPhase] at sound
        cases answer with
        | none =>
            cases taken
            exact continue_sound _ _ _ _ _ (working_tail sound)
        | some answer =>
            dsimp only at taken
            split at taken
            next => cases taken; exact sound
            next block _ =>
              cases taken
              exact continue_sound _ _ _ _ _ (settled_working answer block sound)
      next => cases taken
  | block block =>
      dsimp only at taken
      split at taken
      next currentBlockHeight signature status answer group pending inPhase =>
        cases taken
        rw [inPhase] at sound
        exact continue_sound _ _ _ _ _ (settled_working answer block sound)
      next => cases taken
  | rpcError =>
      dsimp only at taken
      split at taken
      · cases taken
      · cases taken
      · cases taken
        exact finish_sound manifest monitor (finished _ sound)

theorem read_sound {manifest : Manifest} {monitor : Monitor}
    (truthful : ∀ record ∈ manifest.records,
      record.lastValidBlockHeight = validUntil record.signature)
    (sound : RecordsSound validUntil chain monitor.records) :
    PhaseSound validUntil chain (readManifest manifest monitor).records
      (readManifest manifest monitor).phase := by
  obtain ⟨added, folded, listed, distinct, _⟩ := observe_appends monitor.records manifest.records
  have extended : RecordsSound validUntil chain (manifest.records.foldl observe monitor.records) := by
    rw [folded]
    refine ⟨distinct sound.distinct, fun record member => ?_, fun record member => ?_⟩
    · rcases List.mem_append.mp member with earlier | fresh
      · exact sound.truthful record earlier
      · obtain ⟨source, inAdded, rfl⟩ := List.mem_map.mp fresh
        exact truthful source (listed inAdded)
    · rcases List.mem_append.mp member with earlier | fresh
      · exact sound.justified record earlier
      · obtain ⟨source, _, rfl⟩ := List.mem_map.mp fresh
        rfl
  unfold readManifest
  dsimp only
  split
  · exact finish_sound manifest _ extended
  · exact ⟨extended, Nat.zero_le _, fun _ member => absurd member List.not_mem_nil,
      pending_distinct extended.distinct, fun _ member => member⟩

theorem step_sound {system next : System} {event : Event} (honest : Honest validUntil system event)
    (sound : Sound validUntil system) (taken : step system event = some next) :
    Sound validUntil next := by
  have later := step_later honest taken
  cases event with
  | mined slot transactions =>
      cases taken
      exact ⟨sound.published, phase_later later _ sound.phase⟩
  | publish manifest =>
      cases taken
      exact ⟨fun _ same => Option.some.inj same ▸ honest, sound.phase⟩
  | read =>
      unfold step at taken
      dsimp only at taken
      split at taken
      next inPhase =>
        have phase := sound.phase
        rw [inPhase] at phase
        split at taken
        next => cases taken; exact sound
        next manifest found =>
          cases taken
          exact ⟨sound.published, read_sound (sound.published manifest found) phase⟩
      next => cases taken
  | _ =>
      unfold step at taken
      dsimp only at taken
      obtain ⟨manifest, _, taken⟩ := Option.bind_eq_some_iff.mp taken
      obtain ⟨monitor, advanced, rfl⟩ := Option.map_eq_some_iff.mp taken
      exact ⟨sound.published, advance_sound sound.phase advanced⟩

theorem initial_sound : Sound validUntil initial := by
  refine ⟨fun _ same => (by cases same), ?_⟩
  exact ⟨List.nodup_nil, fun _ member => absurd member List.not_mem_nil,
    fun _ member => absurd member List.not_mem_nil⟩

/-- Records keep their order and what they were made of, and a verdict is kept whole. -/
structure Extends (before after : List MonitoredRecord) : Prop where
  sources : before.map (·.source) <+: after.map (·.source)
  final : ∀ record ∈ before, record.status ≠ .broadcast → record ∈ after

theorem extends_refl (records : List MonitoredRecord) : Extends records records :=
  ⟨List.prefix_rfl, fun _ member _ => member⟩

theorem extends_trans {first second third : List MonitoredRecord} (one : Extends first second)
    (two : Extends second third) : Extends first third :=
  ⟨one.sources.trans two.sources, fun record member settled =>
    two.final record (one.final record member settled) settled⟩

theorem update_extends {currentBlockHeight : Nat} {signature : String}
    {answer : Option SignatureStatus} {group : List (String × Option SignatureStatus)}
    {pending : List String} {change : MonitoredRecord → MonitoredRecord}
    (keeps : ∀ record, (change record).source = record.source)
    (working : Working validUntil chain records currentBlockHeight ((signature, answer) :: group)
      pending) :
    Extends records (updateRecord signature change records) := by
  refine ⟨(update_sources keeps).symm ▸ List.prefix_rfl, fun record member settled => ?_⟩
  refine mem_update_record.mpr ⟨record, member, (if_neg fun own => settled ?_).symm⟩
  obtain ⟨waiting, present, waits, same⟩ := mem_pending.mp (working.waiting signature List.mem_cons_self)
  have identical : record = waiting :=
    List.inj_on_of_nodup_map working.sound.distinct member present (own.trans same.symm)
  rw [identical]
  exact waits

theorem continue_extends (manifest : Manifest) (currentBlockHeight : Nat) (pending : List String)
    (group : List (String × Option SignatureStatus)) (monitor : Monitor)
    (working : Working validUntil chain monitor.records currentBlockHeight group pending) :
    Extends monitor.records
      (continueGroup manifest currentBlockHeight pending group monitor).records := by
  induction group generalizing monitor with
  | nil =>
      unfold continueGroup
      split <;> exact extends_refl _
  | cons entry rest ih =>
      obtain ⟨signature, answer⟩ := entry
      cases answer with
      | none =>
          have kept := working_update (expire_source currentBlockHeight) working
            fun record member own _ => expire_justified working record member own
          have later := ih { monitor with
            records := updateRecord signature (expireAbove currentBlockHeight) monitor.records } kept
          exact extends_trans (update_extends (expire_source currentBlockHeight) working) later
      | some status => exact extends_refl _

theorem settled_extends {manifest : Manifest} {currentBlockHeight : Nat} {signature : String}
    {status : SignatureStatus} {group : List (String × Option SignatureStatus)} {pending : List String}
    (answer : TransactionAnswer) (block : List String) (monitor : Monitor)
    (working : Working validUntil chain monitor.records currentBlockHeight
      ((signature, some status) :: group) pending) :
    Extends monitor.records (continueGroup manifest currentBlockHeight pending group
      { monitor with
        records := updateRecord signature (settle status answer block) monitor.records }).records :=
  extends_trans (update_extends (fun record => show (settle status answer block record).source =
      record.source from rfl) working)
    (continue_extends _ _ _ _ { monitor with
      records := updateRecord signature (settle status answer block) monitor.records }
      (settled_working answer block working))

theorem advance_extends {monitor next : Monitor} {manifest : Manifest} {event : Event}
    (sound : PhaseSound validUntil chain monitor.records monitor.phase)
    (taken : advance chain monitor manifest event = some next) :
    Extends monitor.records next.records := by
  unfold advance at taken
  cases event with
  | mined | publish | read => cases taken
  | height =>
      dsimp only at taken
      split at taken <;> cases taken
      exact extends_refl _
  | statuses confirmation =>
      dsimp only at taken
      split at taken
      next inPhase =>
        cases taken
        rw [inPhase] at sound
        exact continue_extends _ _ _ _ _ (answered_working confirmation sound)
      next => cases taken
  | transaction answer =>
      dsimp only at taken
      split at taken
      next inPhase =>
        rw [inPhase] at sound
        cases answer with
        | none =>
            cases taken
            exact continue_extends _ _ _ _ _ (working_tail sound)
        | some answer =>
            dsimp only at taken
            split at taken
            next => cases taken; exact extends_refl _
            next block _ =>
              cases taken
              exact settled_extends answer block { monitor with } sound
      next => cases taken
  | block block =>
      dsimp only at taken
      split at taken
      next answer _ _ inPhase =>
        cases taken
        rw [inPhase] at sound
        exact settled_extends answer block { monitor with
          blockPositions := Function.update monitor.blockPositions _ (some block) } sound
      next => cases taken
  | rpcError =>
      dsimp only at taken
      split at taken <;> cases taken
      exact extends_refl _

theorem read_records (manifest : Manifest) (monitor : Monitor) :
    (readManifest manifest monitor).records = manifest.records.foldl observe monitor.records := by
  unfold readManifest
  dsimp only
  split <;> rfl

theorem step_extends {system next : System} {event : Event} (sound : Sound validUntil system)
    (taken : step system event = some next) : Extends system.monitor.records next.monitor.records := by
  cases event with
  | mined | publish => cases taken; exact extends_refl _
  | read =>
      unfold step at taken
      dsimp only at taken
      split at taken
      · split at taken
        · cases taken
          exact extends_refl _
        next manifest _ =>
          cases taken
          obtain ⟨added, folded, _⟩ := observe_appends system.monitor.records manifest.records
          dsimp only
          rw [read_records, folded]
          exact ⟨by simp, fun _ member _ => List.mem_append_left _ member⟩
      · cases taken
  | _ =>
      unfold step at taken
      dsimp only at taken
      obtain ⟨manifest, _, taken⟩ := Option.bind_eq_some_iff.mp taken
      obtain ⟨monitor, advanced, rfl⟩ := Option.map_eq_some_iff.mp taken
      exact advance_extends sound.phase advanced

end Invariant

section Verdicts
variable {validUntil : String → Nat}

theorem run_sound (events : List Event) {start final : System} (sound : Sound validUntil start)
    (honest : AllowedAlong step (Honest validUntil) start events)
    (ran : run step start events = some final) :
    Sound validUntil final ∧ Extends start.monitor.records final.monitor.records :=
  run_invariant (fun system => Sound validUntil system ∧
      Extends start.monitor.records system.monitor.records)
    (fun _ _ _ honest kept taken => ⟨step_sound honest kept.1 taken,
      extends_trans kept.2 (step_extends kept.1 taken)⟩)
    events start final ⟨sound, extends_refl _⟩ honest ran

/-! A batch of two: one transaction lands, the other one's blockhash lapses. -/
def sampleRecord (ordinal lastValidBlockHeight : Nat) (signature : String) : BroadcastRecord where
  ordinal := ordinal
  direction := "best-direction"
  signature := signature
  lastValidBlockHeight := lastValidBlockHeight
  blockhashContextSlot := some 5
  broadcastObservedSlot := none
  scheduleDelayMs := some 3
  rpcError := none

def sampleValidUntil (signature : String) : Nat := if signature = "lost" then 1 else 9

def sampleBefore : List Event :=
  [.publish ⟨true, [sampleRecord 1 1 "lost", sampleRecord 2 9 "kept"]⟩,
   .mined 7 [("kept", none)], .mined 8 []]

def samplePoll : List Event :=
  [.height, .statuses fun _ => some "confirmed", .transaction (some ⟨none⟩), .block ["kept"]]

theorem sample_honest :
    AllowedAlong step (Honest sampleValidUntil) initial (sampleBefore ++ .read :: samplePoll) := by
  decide +kernel

theorem sample_verdicts :
    (run step initial (sampleBefore ++ .read :: samplePoll)).map (fun system =>
        (system.monitor.phase, system.monitor.records.map (·.status))) =
      some (.complete, [.expired, .success]) := by
  decide +kernel

/-- Whatever the chain, the sender and failing requests do between the steps of a
poll, no verdict is ever wrong, then or later: a record reported as expired never
lands, one reported as landed is on the chain as reported, and neither is changed
or forgotten. -/
theorem verdicts_stand (events more : List Event) (reached final : System)
    (honest : AllowedAlong step (Honest validUntil) initial events)
    (ran : run step initial events = some reached)
    (honestAfter : AllowedAlong step (Honest validUntil) reached more)
    (ranOn : run step reached more = some final) :
    (final.monitor.records.map (·.signature)).Nodup ∧
      reached.monitor.records.map (·.source) <+: final.monitor.records.map (·.source) ∧
      ∀ record ∈ reached.monitor.records, record.status ≠ .broadcast →
        record ∈ final.monitor.records ∧ Justified validUntil final.chain record := by
  obtain ⟨sound, _⟩ := run_sound events initial_sound honest ran
  obtain ⟨after, kept⟩ := run_sound more sound honestAfter ranOn
  have records : RecordsSound validUntil final.chain final.monitor.records := by
    have phase := after.phase
    generalize final.monitor.phase = current at phase
    cases current with
    | reading | complete => exact phase
    | _ => exact phase.sound
  refine ⟨records.distinct, kept.sources, fun record member settled => ?_⟩
  have present := kept.final record member settled
  exact ⟨present, records.justified record present⟩

theorem verdicts_stand_sample : ∃ final,
    run step initial (sampleBefore ++ .read :: samplePoll) = some final ∧
      ∀ record ∈ final.monitor.records, record.status ≠ .broadcast →
        Justified sampleValidUntil final.chain record := by
  obtain ⟨final, ran, _⟩ := Option.map_eq_some_iff.mp sample_verdicts
  exact ⟨final, ran, fun record member settled =>
    ((verdicts_stand _ [] final final sample_honest ran trivial rfl).2.2 record member settled).2⟩

end Verdicts

end ArbExecutor.MonitorSoundness
