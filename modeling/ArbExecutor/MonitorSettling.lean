import ArbExecutor.MonitorReport

/-!
A poll ends, and one whose requests are all answered leaves no record in doubt
whose time is over.
-/

namespace ArbExecutor.MonitorSettling

open GuardedRuns BatchMonitor MonitorSoundness MonitorReport

section Polls
variable {validUntil : String → Nat}

theorem finish_steps (manifest : Manifest) (monitor : Monitor) :
    (finishPoll monitor manifest).phase.steps = 0 := by
  unfold finishPoll
  dsimp only
  split <;> rfl

theorem continue_steps (manifest : Manifest) (currentBlockHeight : Nat) (pending : List String)
    (group : List (String × Option SignatureStatus)) (monitor : Monitor) :
    (continueGroup manifest currentBlockHeight pending group monitor).phase.steps ≤
      3 * (group.length + pending.length) + (if group = [] ∧ pending ≠ [] then 1 else 0) := by
  induction group generalizing monitor with
  | nil =>
      unfold continueGroup
      split
      next empty => simp [finish_steps]
      next more => simp [Phase.steps, more]
  | cons entry rest ih =>
      obtain ⟨signature, answer⟩ := entry
      cases answer with
      | none =>
          have later := ih { monitor with
            records := updateRecord signature (expireAbove currentBlockHeight) monitor.records }
          rw [List.length_cons, if_neg (by simp)]
          unfold continueGroup
          split at later <;> omega
      | some status =>
          simp [continueGroup, Phase.steps]
          omega

theorem advance_steps {chain : Chain} {monitor next : Monitor} {manifest : Manifest} {event : Event}
    (taken : advance chain monitor manifest event = some next) :
    next.phase.steps < monitor.phase.steps := by
  unfold advance at taken
  cases event with
  | mined | publish | read => cases taken
  | height =>
      dsimp only at taken
      split at taken <;> cases taken
      next inPhase => simp [inPhase, Phase.steps]
  | statuses confirmation =>
      dsimp only at taken
      split at taken <;> cases taken
      next currentBlockHeight pending inPhase =>
        have bound := continue_steps manifest currentBlockHeight (pending.drop maxGroup)
          ((pending.take maxGroup).map fun signature =>
            (signature, statusOf chain confirmation signature)) monitor
        rw [inPhase]
        refine lt_of_le_of_lt bound ?_
        -- A group is empty only when nothing is pending, so its size counts.
        have never : ¬ ((pending.take maxGroup).map (fun signature =>
            (signature, statusOf chain confirmation signature)) = [] ∧ pending.drop maxGroup ≠ []) := by
          rintro ⟨empty, more⟩
          rw [List.map_eq_nil_iff, List.take_eq_nil_iff] at empty
          rcases empty with zero | none
          · cases zero
          · exact more (by rw [none, List.drop_nil])
        rw [if_neg never, List.length_map, List.length_take, List.length_drop]
        simp only [Phase.steps]
        omega
  | transaction answer =>
      dsimp only at taken
      split at taken
      next currentBlockHeight signature status group pending inPhase =>
        rw [inPhase]
        cases answer with
        | none =>
            cases taken
            refine lt_of_le_of_lt (continue_steps manifest currentBlockHeight pending group _) ?_
            simp only [Phase.steps]
            split <;> omega
        | some answer =>
            dsimp only at taken
            split at taken <;> cases taken
            · simp [Phase.steps]
            · refine lt_of_le_of_lt (continue_steps manifest currentBlockHeight pending group _) ?_
              simp only [Phase.steps]
              split <;> omega
      next => cases taken
  | block block =>
      dsimp only at taken
      split at taken <;> cases taken
      next currentBlockHeight signature status answer group pending inPhase =>
        rw [inPhase]
        refine lt_of_le_of_lt (continue_steps manifest currentBlockHeight pending group _) ?_
        simp only [Phase.steps]
        split <;> omega
  | rpcError =>
      dsimp only at taken
      split at taken
      · cases taken
      · cases taken
      next busy done =>
        cases taken
        rw [finish_steps]
        cases inPhase : monitor.phase with
        | reading => exact absurd inPhase busy
        | complete => exact absurd inPhase done
        | _ => simp [Phase.steps]

/-- A transaction whose fate is decided: it has landed, or its blockhash has lapsed. -/
def Decided (validUntil : String → Nat) (chain : Chain) (signature : String) : Prop :=
  chain.landed signature ≠ none ∨ validUntil signature < chain.blockHeight

/-- A poll over decided transactions: it will come to each record in doubt. -/
structure Settling (validUntil : String → Nat) (start : Chain) (manifest : Manifest)
    (monitor : Monitor) : Prop where
  own : monitor.manifest = some manifest
  asked : monitor.phase.AskedFrom start.blockHeight
  unlanded : ∀ entry ∈ monitor.phase.answered, entry.2 = none → start.landed entry.1 = none
  ahead : ∀ signature ∈ pendingSignatures monitor.records,
    Decided validUntil start signature ∧ signature ∈ monitor.phase.remaining
  reading : monitor.phase = .reading → isComplete manifest monitor.records = false

instance (chain : Chain) (signature : String) : Decidable (Decided validUntil chain signature) :=
  inferInstanceAs (Decidable (_ ∨ _))

/-- A changed record that has a verdict is out of doubt; the others are as before. -/
theorem pending_after {records : List MonitoredRecord} {signature other : String}
    {change : MonitoredRecord → MonitoredRecord}
    (settles : ∀ record ∈ records, record.signature = signature → (change record).status ≠ .broadcast)
    (pending : other ∈ pendingSignatures (updateRecord signature change records)) :
    other ≠ signature ∧ other ∈ pendingSignatures records := by
  obtain ⟨record, member, waits, named⟩ := mem_pending.mp pending
  obtain ⟨earlier, listed, rfl⟩ := mem_update_record.mp member
  split at waits
  next own => exact absurd waits (settles earlier listed own)
  next apart =>
    rw [if_neg apart] at named
    exact ⟨named ▸ apart, mem_pending.mpr ⟨earlier, listed, waits, named⟩⟩

theorem continue_settling {chain start : Chain} {currentBlockHeight : Nat} {manifest : Manifest}
    {pending : List String} (group : List (String × Option SignatureStatus)) (monitor : Monitor)
    (own : monitor.manifest = some manifest) (asked : start.blockHeight ≤ currentBlockHeight)
    (working : Working validUntil chain monitor.records currentBlockHeight group pending)
    (unlanded : ∀ entry ∈ group, entry.2 = none → start.landed entry.1 = none)
    (ahead : ∀ signature ∈ pendingSignatures monitor.records,
      Decided validUntil start signature ∧ signature ∈ group.map Prod.fst ++ pending) :
    Settling validUntil start manifest
      (continueGroup manifest currentBlockHeight pending group monitor) := by
  induction group generalizing monitor with
  | nil =>
      unfold continueGroup
      split
      next empty =>
        refine ⟨own, ?_, fun entry member => ?_, fun signature waits => ?_, fun reads => ?_⟩
        · unfold finishPoll
          dsimp only
          split <;> trivial
        · unfold finishPoll at member
          dsimp only at member
          split at member <;> cases member
        · have left := (ahead signature waits).2
          rw [empty] at left
          cases left
        · unfold finishPoll at reads ⊢
          dsimp only at reads ⊢
          split at reads
          · cases reads
          next unfinished => exact Bool.eq_false_iff.mpr unfinished
      next => exact ⟨own, asked, unlanded, ahead, fun reads => by cases reads⟩
  | cons entry rest ih =>
      obtain ⟨signature, answer⟩ := entry
      have later : ∀ entry ∈ rest, entry.2 = none → start.landed entry.1 = none :=
        fun entry member => unlanded entry (List.mem_cons_of_mem _ member)
      cases answer with
      | none =>
          have kept := working_update (expire_source currentBlockHeight) working
            fun record member own _ => expire_justified working record member own
          refine ih _ own kept later fun other waits => ?_
          have settles (record : MonitoredRecord) (member : record ∈ monitor.records)
              (named : record.signature = signature) :
              (expireAbove currentBlockHeight record).status ≠ .broadcast := by
            unfold expireAbove
            split
            · exact Status.noConfusion
            next standing =>
              intro broadcast
              have decided := (ahead record.signature
                (mem_pending.mpr ⟨record, member, broadcast, rfl⟩)).1
              have absent := unlanded _ List.mem_cons_self rfl
              have lapsed := decided.resolve_left (fun landed => landed (named ▸ absent))
              rw [working.sound.truthful record member] at standing
              omega
          obtain ⟨apart, waited⟩ := pending_after settles waits
          obtain ⟨decided, listed⟩ := ahead other waited
          exact ⟨decided, (List.mem_cons.mp listed).resolve_left apart⟩
      | some status => exact ⟨own, asked, later, ahead, fun reads => by cases reads⟩

/-- The requests of a poll are answered; only what the monitor does not do is left free. -/
def Answered : Event → Prop
  | .rpcError | .read | .transaction none => False
  | _ => True

instance (event : Event) : Decidable (Answered event) :=
  match event with
  | .rpcError | .read | .transaction none => isFalse id
  | .mined _ _ | .publish _ | .height | .statuses _ | .transaction (some _) | .block _ => isTrue trivial

theorem advance_settling {chain start : Chain} {monitor next : Monitor} {manifest : Manifest}
    {event : Event} (answered : Answered event) (later : Later validUntil start chain)
    (sound : PhaseSound validUntil chain monitor.records monitor.phase)
    (settling : Settling validUntil start manifest monitor)
    (taken : advance chain monitor manifest event = some next) :
    Settling validUntil start manifest next := by
  have settled {signature : String} (status : SignatureStatus) (answer : TransactionAnswer)
      (block : List String) {other : String}
      (waits : other ∈ pendingSignatures (updateRecord signature (settle status answer block)
        monitor.records)) : other ≠ signature ∧ other ∈ pendingSignatures monitor.records :=
    pending_after (fun record _ _ => by unfold settle; dsimp only; split <;> exact Status.noConfusion)
      waits
  obtain ⟨own, asked, unlanded, ahead, _⟩ := settling
  unfold advance at taken
  cases event with
  | mined | publish | read => cases taken
  | rpcError => exact absurd answered id
  | height =>
      dsimp only at taken
      split at taken <;> cases taken
      next pending inPhase =>
        rw [inPhase] at ahead
        exact ⟨own, later.higher, fun _ member => absurd member List.not_mem_nil, ahead,
          fun reads => by cases reads⟩
  | statuses confirmation =>
      dsimp only at taken
      split at taken <;> cases taken
      next currentBlockHeight pending inPhase =>
        rw [inPhase] at asked ahead sound
        refine continue_settling _ _ own asked (answered_working confirmation sound)
          (fun entry member missing => ?_) fun signature waits => ⟨(ahead signature waits).1, ?_⟩
        · obtain ⟨signature, _, rfl⟩ := List.mem_map.mp member
          -- What had landed at the start would have been shown.
          have absent : chain.landed signature = none := Option.map_eq_none_iff.mp missing
          cases landed : start.landed signature with
          | none => rfl
          | some landing => exact (later.kept _ _ landed).symm.trans absent
        · rw [List.map_map]
          have listed := (ahead signature waits).2
          rw [← List.take_append_drop maxGroup pending] at listed
          exact (congrArg (signature ∈ · ++ pending.drop maxGroup) (List.map_id _)).mpr listed
  | transaction answer =>
      cases answer with
      | none => exact absurd answered id
      | some answer =>
          dsimp only at taken
          split at taken
          next currentBlockHeight signature status group pending inPhase =>
            rw [inPhase] at asked unlanded ahead sound
            split at taken <;> cases taken
            · exact ⟨own, asked, unlanded, ahead, fun reads => by cases reads⟩
            next block _ =>
              refine continue_settling _ _ own asked (settled_working answer block sound) unlanded
                fun other waits => ?_
              obtain ⟨apart, waited⟩ := settled status answer block waits
              obtain ⟨decided, listed⟩ := ahead other waited
              exact ⟨decided, (List.mem_cons.mp listed).resolve_left apart⟩
          next => cases taken
  | block block =>
      dsimp only at taken
      split at taken <;> cases taken
      next currentBlockHeight signature status answer group pending inPhase =>
        rw [inPhase] at asked unlanded ahead sound
        refine continue_settling _ _ own asked (settled_working answer block sound) unlanded
          fun other waits => ?_
        obtain ⟨apart, waited⟩ := settled status answer block waits
        obtain ⟨decided, listed⟩ := ahead other waited
        exact ⟨decided, (List.mem_cons.mp listed).resolve_left apart⟩

theorem step_settling {start : Chain} {manifest : Manifest} {system next : System} {event : Event}
    (honest : Honest validUntil system event) (answered : Answered event)
    (sound : Sound validUntil system) (later : Later validUntil start system.chain)
    (settling : Settling validUntil start manifest system.monitor)
    (taken : step system event = some next) :
    Later validUntil start next.chain ∧ Settling validUntil start manifest next.monitor := by
  refine ⟨later_trans later (step_later honest taken), ?_⟩
  cases event with
  | mined | publish => cases taken; exact settling
  | read => exact absurd answered id
  | _ =>
      unfold step at taken
      dsimp only at taken
      obtain ⟨other, own, taken⟩ := Option.bind_eq_some_iff.mp taken
      obtain ⟨monitor, advanced, rfl⟩ := Option.map_eq_some_iff.mp taken
      cases settling.own.symm.trans own
      exact advance_settling answered later sound.phase settling advanced

def isRequest : Event → Bool
  | .height | .statuses _ | .transaction _ | .block _ | .rpcError => true
  | _ => false

theorem request_steps {system next : System} {event : Event} (answered : Answered event)
    (taken : step system event = some next) :
    next.monitor.phase.steps + (if isRequest event then 1 else 0) ≤ system.monitor.phase.steps := by
  cases event with
  | mined | publish => cases taken; exact le_rfl
  | read => exact absurd answered id
  | _ =>
      unfold step at taken
      dsimp only at taken
      obtain ⟨_, _, taken⟩ := Option.bind_eq_some_iff.mp taken
      obtain ⟨monitor, advanced, rfl⟩ := Option.map_eq_some_iff.mp taken
      exact advance_steps advanced

/-- While a poll is on, some answer lets it go on. -/
theorem poll_enabled {system : System} {manifest : Manifest}
    (own : system.monitor.manifest = some manifest) (busy : system.monitor.phase.steps ≠ 0) :
    ∃ event, Answered event ∧ (step system event).isSome = true := by
  have enabled (event : Event) (advances : (advance system.chain system.monitor manifest event).isSome)
      (asks : step system event = system.monitor.manifest.bind fun manifest =>
        (advance system.chain system.monitor manifest event).map fun monitor =>
          { system with monitor }) : (step system event).isSome = true := by
    rw [asks, own]
    simpa using advances
  cases inPhase : system.monitor.phase with
  | reading | complete => rw [inPhase] at busy; exact absurd rfl busy
  | height pending => exact ⟨.height, trivial, enabled _ (by unfold advance; rw [inPhase]; rfl) rfl⟩
  | statuses height pending =>
      exact ⟨.statuses fun _ => none, trivial, enabled _ (by unfold advance; rw [inPhase]; rfl) rfl⟩
  | transaction height signature status group pending =>
      refine ⟨.transaction (some ⟨none⟩), trivial, enabled _ ?_ rfl⟩
      unfold advance
      rw [inPhase]
      dsimp only
      split <;> rfl
  | block height signature status answer group pending =>
      exact ⟨.block [], trivial, enabled _ (by unfold advance; rw [inPhase]; rfl) rfl⟩

theorem read_settling {manifest : Manifest} {system : System}
    (decided : ∀ signature ∈ pendingSignatures (readManifest manifest system.monitor).records,
      Decided validUntil system.chain signature) :
    Settling validUntil system.chain manifest (readManifest manifest system.monitor) := by
  unfold readManifest at decided ⊢
  dsimp only at decided ⊢
  split
  next empty =>
    refine ⟨rfl, ?_, fun entry member => ?_, fun signature waits => ?_, fun reads => ?_⟩
    · unfold finishPoll
      dsimp only
      split <;> trivial
    · unfold finishPoll at member
      dsimp only at member
      split at member <;> cases member
    · have waits : signature ∈ pendingSignatures (manifest.records.foldl observe system.monitor.records) :=
        waits
      rw [empty] at waits
      cases waits
    · unfold finishPoll at reads ⊢
      dsimp only at reads ⊢
      split at reads
      · cases reads
      next unfinished => exact Bool.eq_false_iff.mpr unfinished
  next more =>
    rw [if_neg more] at decided
    exact ⟨rfl, trivial, fun _ member => absurd member List.not_mem_nil,
      fun signature waits => ⟨decided signature waits, waits⟩, fun reads => by cases reads⟩

/-- At the end of such a poll nothing is in doubt, and a complete batch is done. -/
theorem settled_end {start : Chain} {manifest : Manifest} {system : System} (filed : Filed system)
    (settling : Settling validUntil start manifest system.monitor)
    (ended : system.monitor.phase.steps = 0) :
    (∀ record ∈ system.monitor.records, record.status ≠ .broadcast) ∧
      (manifest.sendingComplete = true → system.monitor.phase = .complete) := by
  have idle : system.monitor.phase.remaining = [] := by
    generalize system.monitor.phase = phase at ended
    cases phase with
    | reading | complete => rfl
    | _ => cases ended
  have settled (record : MonitoredRecord) (member : record ∈ system.monitor.records) :
      record.status ≠ .broadcast := by
    intro waits
    have left := (settling.ahead record.signature (mem_pending.mpr ⟨record, member, waits, rfl⟩)).2
    rw [idle] at left
    cases left
  refine ⟨settled, fun complete => ?_⟩
  have counted : (signatures manifest.records).dedup.length ≤ system.monitor.records.length := by
    have listed : (signatures manifest.records).dedup ⊆ system.monitor.records.map (·.signature) := by
      intro signature member
      obtain ⟨source, inManifest, rfl⟩ := List.mem_map.mp (List.mem_dedup.mp member)
      exact filed.known manifest settling.own source inManifest
    have fewer := (List.subperm_of_subset (List.nodup_dedup _) listed).length_le
    rwa [List.length_map] at fewer
  have finished : isComplete manifest system.monitor.records = true := by
    unfold isComplete
    simp only [Bool.and_eq_true, decide_eq_true_eq, List.all_eq_true]
    exact ⟨⟨complete, counted⟩, settled⟩
  cases inPhase : system.monitor.phase with
  | complete => rfl
  | reading =>
      rw [settling.reading inPhase] at finished
      cases finished
  | _ => rw [inPhase] at ended; cases ended

/-- A poll over transactions that have all landed or lapsed, with every request
answered: it takes at most three requests a record and two more, never gets stuck,
and when it ends no record is in doubt and the monitor is done if the sender is. -/
theorem poll_settles (before during : List Event) (ready start final : System) (manifest : Manifest)
    (honest : AllowedAlong step (Honest validUntil) initial before)
    (ran : run step initial before = some ready) (published : ready.published = some manifest)
    (read : step ready .read = some start)
    (decided : ∀ signature ∈ pendingSignatures start.monitor.records,
      Decided validUntil start.chain signature)
    (usual : AllowedAlong step (fun system event => Honest validUntil system event ∧ Answered event)
      start during)
    (ranOn : run step start during = some final) :
    (during.filter isRequest).length ≤ 3 * (pendingSignatures start.monitor.records).length + 2 ∧
      (final.monitor.phase.steps ≠ 0 → ∃ event, Answered event ∧ (step final event).isSome = true) ∧
      (final.monitor.phase.steps = 0 →
        (∀ record ∈ final.monitor.records, record.status ≠ .broadcast) ∧
        (manifest.sendingComplete = true → final.monitor.phase = .complete)) := by
  obtain ⟨sound, filed⟩ := reached_filed before ready honest ran
  have reads : Honest validUntil ready .read := trivial
  have startSound := step_sound reads sound read
  have startFiled := step_filed sound filed read
  obtain rfl : start = { ready with monitor := readManifest manifest ready.monitor } := by
    unfold step at read
    dsimp only at read
    rw [published] at read
    split at read <;> cases read
    rw [published]
  have startSettling : Settling validUntil ready.chain manifest (readManifest manifest ready.monitor) :=
    read_settling decided
  have kept := run_invariant (fun system => (Sound validUntil system ∧ Filed system) ∧
      Later validUntil ready.chain system.chain ∧
        Settling validUntil ready.chain manifest system.monitor)
    (fun _ _ _ usual kept taken => ⟨⟨step_sound usual.1 kept.1.1 taken,
        step_filed kept.1.1 kept.1.2 taken⟩,
      step_settling usual.1 usual.2 kept.1.1 kept.2.1 kept.2.2 taken⟩)
    during _ final ⟨⟨startSound, startFiled⟩, later_refl _, startSettling⟩ usual ranOn
  obtain ⟨⟨_, finalFiled⟩, _, settling⟩ := kept
  refine ⟨?_, poll_enabled settling.own, settled_end finalFiled settling⟩
  have bounded := run_counted_le isRequest (fun system => system.monitor.phase.steps)
    (fun _ _ _ usual taken => request_steps usual.2 taken) during usual ranOn
  have opening : (readManifest manifest ready.monitor).phase.steps ≤
      3 * (pendingSignatures (readManifest manifest ready.monitor).records).length + 2 := by
    unfold readManifest
    dsimp only
    split
    · rw [finish_steps]
      exact Nat.zero_le _
    · exact le_rfl
  dsimp only at bounded opening ⊢
  omega

def sampleReady : System := (run step initial sampleBefore).getD initial

def sampleStart : System := (step sampleReady .read).getD initial

def sampleFinal : System := (run step sampleStart samplePoll).getD initial

theorem poll_settles_sample :
    (samplePoll.filter isRequest).length ≤ 8 ∧ sampleFinal.monitor.phase = .complete := by
  have settles := @poll_settles sampleValidUntil sampleBefore samplePoll sampleReady
    sampleStart sampleFinal _ (by decide +kernel) rfl rfl rfl (by decide +kernel) (by decide +kernel) rfl
  exact ⟨settles.1, (settles.2.2 (by decide +kernel)).2 rfl⟩

end Polls

end ArbExecutor.MonitorSettling
