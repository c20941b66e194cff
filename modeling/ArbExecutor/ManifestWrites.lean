import ArbExecutor.GuardedRuns
import ArbExecutor.SenderPipeline
import ArbExecutor.StageTable

/-!
The manifest writer of scripts/sender-pipeline.ts under any interleaving. Every
call of `drain` is kept with the stage it has reached, whether or not the writer
still names it, so that two drains on the one temporary path are expressible. A
file operation settles first and its continuation runs some time later; requests,
flushes and changes of the rendered state may come in between. The temporary and
the published file are shared by all drains.
-/

namespace ArbExecutor.ManifestWrites

open GuardedRuns SenderPipeline StageTable

variable {Content : Type}

/-- What render returned, and after how many events of the run. -/
structure Snapshot (Content : Type) where
  taken : Nat
  content : Content
  deriving DecidableEq

/-- Where a call of `drain` stands. A file operation that has settled leaves it at
`written`, `renamed` or `failing` until its continuation runs. -/
inductive DrainStage (Content : Type) where
  | writeFile (snapshot : Snapshot Content)
  | written (snapshot : Snapshot Content)
  | rename (snapshot : Snapshot Content)
  | renamed (snapshot : Snapshot Content)
  | failing (awaited : WriteStage Content)
  | fulfilled
  | rejected
  deriving DecidableEq

inductive FlushStage where
  | awaiting (drain : Nat)
  | resolved
  | rejected
  deriving DecidableEq

structure Flush where
  called : Nat
  stage : FlushStage
  deriving DecidableEq

/-- `temporary` is none while the temporary file holds no whole rendering, and
`published` is none until the first rename of the run. `history` keeps what render
would have returned at each event. -/
structure WriterState (Content : Type) where
  current : Content
  history : List Content
  dirty : Bool
  writing : Option Nat
  drains : List (DrainStage Content)
  temporary : Option (Snapshot Content)
  published : Option (Snapshot Content)
  flushes : List Flush
  deriving DecidableEq

def WriterState.opened (current : Content) : WriterState Content :=
  { current, history := [], dirty := false, writing := none, drains := [], temporary := none
    published := none, flushes := [] }

inductive WriterEvent (Content : Type) where
  | change (content : Content)
  | request
  | flush
  | complete (drain : Nat) (succeeded : Bool)
  | resume (drain : Nat)
  | wake (flush : Nat)
  deriving DecidableEq

section Steps
variable (rendered : Snapshot Content)

/-- The loop of a drain up to its next await. On its way out no update is pending,
so its finally block only clears `writing`. -/
def drainLoop (state : WriterState Content) : DrainStage Content × WriterState Content :=
  if state.dirty then (.writeFile rendered, { state with dirty := false, temporary := none })
  else (.fulfilled, { state with writing := none })

def startDrain (state : WriterState Content) : WriterState Content :=
  let (stage, next) := drainLoop rendered state
  { next with drains := next.drains ++ [stage], writing := some next.drains.length }

def request (state : WriterState Content) : WriterState Content :=
  let marked := { state with dirty := true }
  if marked.writing.isNone then startDrain rendered marked else marked

/-- What the loop of a flush does when it looks at `writing`. -/
def flushLoop (state : WriterState Content) : FlushStage :=
  match state.writing with
  | none => .resolved
  | some drain => .awaiting drain

def flush (state : WriterState Content) : WriterState Content :=
  let asked := request rendered state
  { asked with flushes := asked.flushes ++ [{ called := rendered.taken, stage := flushLoop asked }] }

def rejectDrain (state : WriterState Content) (drain : Nat) : WriterState Content :=
  { state with writing := none, drains := state.drains.set drain .rejected }

/-- The finally block of a drain whose file operation failed. -/
def failDrain (state : WriterState Content) (drain : Nat) : WriterState Content :=
  let ended := rejectDrain state drain
  if ended.dirty then startDrain rendered ended else ended

def setDrain (state : WriterState Content) (drain : Nat) (stage : DrainStage Content) :
    WriterState Content :=
  { state with drains := state.drains.set drain stage }

/-- The file operation a drain awaits settles. -/
def complete (state : WriterState Content) (drain : Nat) (succeeded : Bool) :
    Option (WriterState Content) :=
  match state.drains[drain]? with
  | some (.writeFile snapshot) =>
      if succeeded then some { setDrain state drain (.written snapshot) with temporary := some snapshot }
      else
        some { setDrain state drain (.failing (.writeFile snapshot.content)) with temporary := none }
  | some (.rename snapshot) =>
      -- A rename publishes what the temporary file holds, whoever wrote it.
      if succeeded then
        some { setDrain state drain (.renamed snapshot) with
               published := state.temporary, temporary := none }
      else some (setDrain state drain (.failing (.rename snapshot.content)))
  | _ => none

/-- The continuation of a drain after an await. -/
def resume (state : WriterState Content) (drain : Nat) : Option (WriterState Content) :=
  match state.drains[drain]? with
  | some (.written snapshot) => some (setDrain state drain (.rename snapshot))
  | some (.renamed _) =>
      let (stage, next) := drainLoop rendered state
      some (setDrain next drain stage)
  | some (.failing _) => some (failDrain rendered state drain)
  | _ => none

/-- The continuation of a flush once the drain it awaits has settled. -/
def wake (state : WriterState Content) (index : Nat) : Option (WriterState Content) :=
  match state.flushes[index]? with
  | some { called, stage := .awaiting drain } =>
      match state.drains[drain]? with
      | some .fulfilled =>
          some { state with flushes := state.flushes.set index { called, stage := flushLoop state } }
      | some .rejected =>
          some { state with flushes := state.flushes.set index { called, stage := .rejected } }
      | _ => none
  | _ => none

end Steps

/-- The state with the present rendering recorded. -/
def recorded (state : WriterState Content) : WriterState Content :=
  { state with history := state.history ++ [state.current] }

def rendering (state : WriterState Content) : Snapshot Content :=
  { taken := state.history.length, content := state.current }

def step (state : WriterState Content) : WriterEvent Content → Option (WriterState Content)
  | .change content => some { recorded state with current := content }
  | .request => some (request (rendering state) (recorded state))
  | .flush => some (flush (rendering state) (recorded state))
  | .complete drain succeeded => complete (recorded state) drain succeeded
  | .resume drain => resume (rendering state) (recorded state) drain
  | .wake index => wake (recorded state) index

/-! What holds at every point of a run. An active drain is the one the writer
names, so there is at most one; what it carries was rendered, is no older than the
published file and is what the temporary file holds once written; a flush awaits a
drain that still has its update before it, unless the file already shows it. -/
section Invariant

def DrainStage.active : DrainStage Content → Bool
  | .writeFile _ | .written _ | .rename _ | .renamed _ | .failing _ => true
  | .fulfilled | .rejected => false

def Taken (state : WriterState Content) (snapshot : Snapshot Content) : Prop :=
  state.history[snapshot.taken]? = some snapshot.content

def NotOlder (state : WriterState Content) (snapshot : Snapshot Content) : Prop :=
  ∀ shown, state.published = some shown → shown.taken ≤ snapshot.taken

def StageHolds (state : WriterState Content) : DrainStage Content → Prop
  | .writeFile snapshot => Taken state snapshot ∧ NotOlder state snapshot
  | .written snapshot | .rename snapshot =>
      Taken state snapshot ∧ NotOlder state snapshot ∧ state.temporary = some snapshot
  | .renamed snapshot => state.published = some snapshot
  | .failing _ | .fulfilled | .rejected => True

/-- The published file holds a rendering taken at or after a call. -/
def Served (state : WriterState Content) (called : Nat) : Prop :=
  ∃ shown, state.published = some shown ∧ called ≤ shown.taken

/-- A drain that fulfils its promise will have published a rendering taken at or after a call. -/
def Covers (dirty : Bool) (called : Nat) : DrainStage Content → Prop
  | .writeFile snapshot | .written snapshot | .rename snapshot | .renamed snapshot =>
      dirty = true ∨ called ≤ snapshot.taken
  | .failing _ | .rejected => True
  | .fulfilled => False

def FlushHolds (state : WriterState Content) (flush : Flush) : Prop :=
  flush.called < state.history.length ∧
    match flush.stage with
    | .awaiting drain => ∃ stage, state.drains[drain]? = some stage ∧
        (Served state flush.called ∨ Covers state.dirty flush.called stage)
    | .resolved => Served state flush.called
    | .rejected => True

structure Writes (state : WriterState Content) : Prop where
  single : ∀ (drain : Nat) (stage : DrainStage Content), state.drains[drain]? = some stage →
    stage.active = true → state.writing = some drain
  named : ∀ drain : Nat, state.writing = some drain →
    ∃ stage, state.drains[drain]? = some stage ∧ stage.active = true
  staged : ∀ (drain : Nat) (stage : DrainStage Content), state.drains[drain]? = some stage →
    StageHolds state stage
  shown : ∀ snapshot, state.published = some snapshot → Taken state snapshot
  promised : ∀ flush ∈ state.flushes, FlushHolds state flush

/-- The published file of a later state is no older. -/
def Newer (state next : WriterState Content) : Prop :=
  ∀ shown, state.published = some shown →
    ∃ later, next.published = some later ∧ shown.taken ≤ later.taken

theorem newer_of_same {state next : WriterState Content} (same : next.published = state.published) :
    Newer state next := fun shown held => ⟨shown, same.trans held, le_rfl⟩

theorem served_newer {state next : WriterState Content} (newer : Newer state next) {called : Nat}
    (served : Served state called) : Served next called := by
  obtain ⟨shown, held, reached⟩ := served
  obtain ⟨later, kept, grown⟩ := newer shown held
  exact ⟨later, kept, reached.trans grown⟩

theorem taken_lt {state : WriterState Content} {snapshot : Snapshot Content}
    (taken : Taken state snapshot) : snapshot.taken < state.history.length :=
  (List.getElem?_eq_some_iff.mp taken).1

theorem settled_holds {state : WriterState Content} {stage : DrainStage Content}
    (settled : stage.active = false) : StageHolds state stage := by
  cases stage with
  | failing | fulfilled | rejected => trivial
  | writeFile | written | rename | renamed => cases settled

/-- Whether a settled drain covers a call does not depend on pending updates. -/
theorem settled_covers {stage : DrainStage Content} (settled : stage.active = false) {dirty : Bool}
    {called : Nat} (covers : Covers dirty called stage) (other : Bool) : Covers other called stage := by
  cases stage with
  | failing | fulfilled | rejected => exact covers
  | writeFile | written | rename | renamed => cases settled

variable {state next : WriterState Content}

theorem others_settled (writes : Writes state) {drain other : Nat} {old stage : DrainStage Content}
    (here : state.drains[drain]? = some old) (active : old.active = true) (apart : other ≠ drain)
    (there : state.drains[other]? = some stage) : stage.active = false := by
  by_contra running
  have named := writes.single drain old here active
  have also := writes.single other stage there (by simpa using running)
  rw [named] at also
  exact apart (Option.some.inj also).symm

/-- The active drain moves to another stage and the rest of the table stays. -/
theorem move_writes (writes : Writes state) {drain : Nat} {old new : DrainStage Content}
    (here : state.drains[drain]? = some old) (active : old.active = true)
    (moved : next.drains = state.drains.set drain new)
    (names : next.writing = if new.active then some drain else none)
    (history : next.history = state.history) (flushes : next.flushes = state.flushes)
    (holds : StageHolds next new) (shown : ∀ snapshot, next.published = some snapshot → Taken next snapshot)
    (newer : Newer state next)
    (covers : ∀ called, called < state.history.length → Covers state.dirty called old →
      Served next called ∨ Covers next.dirty called new) : Writes next := by
  obtain ⟨inside, _⟩ := List.getElem?_eq_some_iff.mp here
  refine ⟨fun other stage there running => ?_, fun other named => ?_, fun other stage there => ?_, shown,
    fun flush member => ?_⟩
  · rw [moved, stage_set inside] at there
    rcases there with ⟨rfl, rfl⟩ | ⟨apart, there⟩
    · rw [names, if_pos running]
    · rw [others_settled writes here active apart there] at running
      cases running
  · rw [names] at named
    split at named
    next running =>
      cases named
      exact ⟨new, by rw [moved, stage_set inside]; exact .inl ⟨rfl, rfl⟩, running⟩
    next => cases named
  · rw [moved, stage_set inside] at there
    rcases there with ⟨rfl, rfl⟩ | ⟨apart, there⟩
    · exact holds
    · exact settled_holds (others_settled writes here active apart there)
  · rw [flushes] at member
    obtain ⟨early, promise⟩ := writes.promised flush member
    refine ⟨history ▸ early, ?_⟩
    split at promise
    next drained _ =>
      obtain ⟨stage, there, kept⟩ := promise
      -- A promise waits on this drain, which has moved, or on another one, which has already settled.
      by_cases same : drained = drain
      · rw [same, here] at there
        cases there
        refine ⟨new, by rw [moved, stage_set inside]; exact .inl ⟨same, rfl⟩, ?_⟩
        rcases kept with served | covered
        · exact .inl (served_newer newer served)
        · exact covers flush.called early covered
      · refine ⟨stage, by rw [moved, stage_set inside]; exact .inr ⟨same, there⟩, ?_⟩
        rcases kept with served | covered
        · exact .inl (served_newer newer served)
        · exact .inr (settled_covers (others_settled writes here active same there) covered _)
    next => exact served_newer newer promise
    next => trivial

theorem recorded_writes (writes : Writes state) : Writes (recorded state) := by
  have kept (snapshot : Snapshot Content) (taken : Taken state snapshot) :
      Taken (recorded state) snapshot :=
    (List.getElem?_append_left (taken_lt taken)).trans taken
  refine ⟨writes.single, writes.named, fun drain stage here => ?_, fun snapshot shown => ?_,
    fun flush member => ?_⟩
  · have holds := writes.staged drain stage here
    cases stage with
    | writeFile snapshot => exact ⟨kept snapshot holds.1, holds.2⟩
    | written snapshot => exact ⟨kept snapshot holds.1, holds.2⟩
    | rename snapshot => exact ⟨kept snapshot holds.1, holds.2⟩
    | renamed snapshot => exact holds
    | failing | fulfilled | rejected => trivial
  · exact kept snapshot (writes.shown snapshot shown)
  · obtain ⟨early, promise⟩ := writes.promised flush member
    refine ⟨?_, promise⟩
    rw [recorded, List.length_append]
    omega

/-- A pending update keeps every promise that a drain at work could make. -/
theorem marked_writes (writes : Writes state) : Writes { state with dirty := true } := by
  refine ⟨writes.single, writes.named, writes.staged, writes.shown, fun flush member => ?_⟩
  obtain ⟨early, promise⟩ := writes.promised flush member
  refine ⟨early, ?_⟩
  split at promise
  next drained _ =>
    obtain ⟨stage, there, kept⟩ := promise
    refine ⟨stage, there, kept.imp_right fun covered => ?_⟩
    cases stage with
    | writeFile | written | rename | renamed => exact .inl rfl
    | failing | fulfilled | rejected => exact covered
  next => exact promise
  next => trivial

/-- A rendering made in the event that was recorded last. -/
structure Fresh (rendered : Snapshot Content) (state : WriterState Content) : Prop where
  latest : rendered.taken + 1 = state.history.length
  taken : Taken state rendered

theorem rendering_fresh (state : WriterState Content) : Fresh (rendering state) (recorded state) :=
  ⟨by rw [recorded, List.length_append]; rfl, List.getElem?_concat_length⟩

variable {rendered : Snapshot Content}

theorem fresh_not_older (fresh : Fresh rendered state) (writes : Writes state) :
    NotOlder state rendered := by
  intro shown held
  have early := taken_lt (writes.shown shown held)
  have latest := fresh.latest
  omega

theorem drain_loop_cases (rendered : Snapshot Content) (state : WriterState Content) :
    state.dirty = true ∧ drainLoop rendered state =
        (.writeFile rendered, { state with dirty := false, temporary := none }) ∨
      state.dirty = false ∧ drainLoop rendered state = (.fulfilled, { state with writing := none }) := by
  unfold drainLoop
  cases pending : state.dirty with
  | true => exact .inl ⟨rfl, rfl⟩
  | false => exact .inr ⟨rfl, rfl⟩

theorem start_eq (dirty : state.dirty = true) :
    startDrain rendered state =
      { state with dirty := false, temporary := none
                   drains := state.drains ++ [.writeFile rendered]
                   writing := some state.drains.length } := by
  rw [startDrain, drainLoop, if_pos dirty]

theorem start_writes (fresh : Fresh rendered state) (writes : Writes state)
    (idle : state.writing = none) (dirty : state.dirty = true) : Writes (startDrain rendered state) := by
  -- With no writer named every earlier drain is over, so the new one is the only active one.
  have settled (drain : Nat) (stage : DrainStage Content) (here : state.drains[drain]? = some stage) :
      stage.active = false := by
    by_contra running
    have named := writes.single drain stage here (by simpa using running)
    rw [idle] at named
    cases named
  rw [start_eq dirty]
  refine ⟨fun drain stage here running => ?_, fun drain named => ?_, fun drain stage here => ?_,
    writes.shown, fun flush member => ?_⟩
  · rcases (stage_appended _ _ _ _).mp here with earlier | ⟨rfl, rfl⟩
    · rw [settled drain stage earlier] at running
      cases running
    · rfl
  · cases named
    exact ⟨.writeFile rendered, (stage_appended _ _ _ _).mpr (.inr ⟨rfl, rfl⟩), rfl⟩
  · rcases (stage_appended _ _ _ _).mp here with earlier | ⟨rfl, rfl⟩
    · exact settled_holds (settled drain stage earlier)
    · have recent : NotOlder state rendered := fresh_not_older fresh writes
      exact ⟨fresh.taken, recent⟩
  · obtain ⟨early, promise⟩ := writes.promised flush member
    refine ⟨early, ?_⟩
    split at promise
    next drained _ =>
      obtain ⟨stage, there, kept⟩ := promise
      exact ⟨stage, (stage_appended _ _ _ _).mpr (.inl there),
        kept.imp_right fun covered => settled_covers (settled drained stage there) covered _⟩
    next => exact promise
    next => trivial

/-- A request renders at once when the writer is idle; otherwise its update stays
pending. -/
theorem request_starts_or_waits (rendered : Snapshot Content) (state : WriterState Content) :
    state.writing = none ∧ request rendered state = startDrain rendered { state with dirty := true } ∨
      (∃ drain, state.writing = some drain) ∧ request rendered state = { state with dirty := true } := by
  unfold request
  cases named : state.writing with
  | none => exact .inl ⟨rfl, rfl⟩
  | some drain => exact .inr ⟨⟨drain, rfl⟩, rfl⟩

theorem request_writes (fresh : Fresh rendered state) (writes : Writes state) :
    Writes (request rendered state) := by
  have marked := marked_writes writes
  rcases request_starts_or_waits rendered state with ⟨idle, started⟩ | ⟨-, waits⟩
  · rw [started]
    exact start_writes ⟨fresh.latest, fresh.taken⟩ marked idle rfl
  · rw [waits]
    exact marked

/-- After a request the writer names a drain that has its update before it. -/
theorem request_covers (rendered : Snapshot Content) (writes : Writes state) :
    ∃ drain stage, (request rendered state).writing = some drain ∧
      (request rendered state).drains[drain]? = some stage ∧
      Covers (request rendered state).dirty rendered.taken stage := by
  rcases request_starts_or_waits rendered state with ⟨-, started⟩ | ⟨⟨drain, named⟩, waits⟩
  · rw [started, start_eq rfl]
    exact ⟨_, .writeFile rendered, rfl, (stage_appended _ _ _ _).mpr (.inr ⟨rfl, rfl⟩), .inr le_rfl⟩
  · obtain ⟨stage, here, running⟩ := writes.named drain named
    rw [waits]
    refine ⟨drain, stage, named, here, ?_⟩
    cases stage with
    | writeFile | written | rename | renamed => exact .inl rfl
    | failing awaited => trivial
    | fulfilled | rejected => cases running

theorem request_keeps (rendered : Snapshot Content) (state : WriterState Content) :
    (request rendered state).history = state.history ∧
      (request rendered state).published = state.published ∧
      (request rendered state).flushes = state.flushes := by
  rcases request_starts_or_waits rendered state with ⟨-, started⟩ | ⟨-, waits⟩
  · rw [started, start_eq rfl]
    exact ⟨rfl, rfl, rfl⟩
  · rw [waits]
    exact ⟨rfl, rfl, rfl⟩

/-- Only promises about flushes change. -/
theorem flushes_writes (writes : Writes state) (flushes : List Flush)
    (promised : ∀ flush ∈ flushes, FlushHolds state flush) : Writes { state with flushes } :=
  ⟨writes.single, writes.named, writes.staged, writes.shown, promised⟩

theorem flush_writes (fresh : Fresh rendered state) (writes : Writes state) :
    Writes (flush rendered state) := by
  have asked := request_writes fresh writes
  obtain ⟨drain, stage, named, here, covered⟩ := request_covers rendered writes
  refine flushes_writes asked _ fun flush member => ?_
  rcases List.mem_append.mp member with earlier | last
  · exact asked.promised flush earlier
  · rw [List.mem_singleton.mp last, flushLoop, named]
    have latest := fresh.latest
    refine ⟨?_, stage, here, .inr covered⟩
    rw [(request_keeps rendered state).1]
    dsimp only
    omega

theorem complete_writes (writes : Writes state) {drain : Nat} {succeeded : Bool}
    (settles : complete state drain succeeded = some next) : Writes next ∧ Newer state next := by
  unfold complete at settles
  split at settles
  next snapshot here =>
    have named := writes.single drain _ here rfl
    have holds := writes.staged drain _ here
    split at settles
    all_goals cases settles; refine ⟨?_, newer_of_same rfl⟩
    · exact move_writes writes here rfl rfl named rfl rfl ⟨holds.1, holds.2, rfl⟩ writes.shown
        (newer_of_same rfl) fun called _ covered => .inr covered
    · exact move_writes writes here rfl rfl named rfl rfl trivial writes.shown (newer_of_same rfl)
        fun _ _ _ => .inr trivial
  next snapshot here =>
    have named := writes.single drain _ here rfl
    obtain ⟨taken, recent, holds⟩ := writes.staged drain _ here
    split at settles
    all_goals cases settles
    -- The rename shows what the temporary file holds, which only the active drain has written.
    · have published : Newer state { setDrain state drain (.renamed snapshot) with
          published := state.temporary, temporary := none } :=
        fun shown held => ⟨snapshot, holds, recent shown held⟩
      refine ⟨move_writes writes here rfl rfl named rfl rfl holds (fun other shown => ?_) published
        fun called _ covered => .inr covered, published⟩
      cases holds.symm.trans shown
      exact taken
    · exact ⟨move_writes writes here rfl rfl named rfl rfl trivial writes.shown (newer_of_same rfl)
        fun _ _ _ => .inr trivial, newer_of_same rfl⟩
  next => cases settles

theorem fail_writes (fresh : Fresh rendered state) (writes : Writes state) {drain : Nat}
    {awaited : WriteStage Content} (here : state.drains[drain]? = some (.failing awaited)) :
    Writes (failDrain rendered state drain) ∧ (failDrain rendered state drain).published = state.published := by
  have ended : Writes (rejectDrain state drain) :=
    move_writes writes here rfl rfl rfl rfl rfl trivial writes.shown (newer_of_same rfl)
      fun _ _ _ => .inr trivial
  have latest : Fresh rendered (rejectDrain state drain) := ⟨fresh.latest, fresh.taken⟩
  unfold failDrain
  dsimp only
  split
  next pending => exact ⟨start_writes latest ended rfl pending, by rw [start_eq pending]; rfl⟩
  next => exact ⟨ended, rfl⟩

theorem resume_writes (fresh : Fresh rendered state) (writes : Writes state) {drain : Nat}
    (continues : resume rendered state drain = some next) :
    Writes next ∧ next.published = state.published := by
  unfold resume at continues
  split at continues
  next snapshot here =>
    cases continues
    exact ⟨move_writes writes here rfl rfl (writes.single drain _ here rfl) rfl rfl
      (writes.staged drain _ here) writes.shown (newer_of_same rfl) fun _ _ covered => .inr covered, rfl⟩
  next snapshot here =>
    have published : state.published = some snapshot := writes.staged drain _ here
    -- The finished rename either finds the dirty mark set again or hands its snapshot to every caller.
    rcases drain_loop_cases rendered state with ⟨pending, loops⟩ | ⟨clean, ends⟩
    · rw [loops] at continues
      cases continues
      have recent : NotOlder state rendered := fresh_not_older fresh writes
      refine ⟨move_writes writes here rfl rfl (writes.single drain _ here rfl) rfl rfl
        ⟨fresh.taken, recent⟩ writes.shown (newer_of_same rfl)
        fun called early _ => .inr (.inr ?_), rfl⟩
      have latest := fresh.latest
      omega
    · rw [ends] at continues
      cases continues
      have none_pending : ¬ state.dirty = true := by rw [clean]; exact Bool.false_ne_true
      exact ⟨move_writes writes here rfl rfl rfl rfl rfl trivial writes.shown (newer_of_same rfl)
        fun called _ covered => .inl ⟨snapshot, published, covered.resolve_left none_pending⟩, rfl⟩
  next awaited here =>
    cases continues
    exact fail_writes fresh writes here
  next => cases continues

/-- A flush that is served holds its promise wherever its loop stops. -/
theorem loop_holds (writes : Writes state) {called : Nat} (early : called < state.history.length)
    (served : Served state called) : FlushHolds state { called, stage := flushLoop state } := by
  unfold flushLoop
  cases named : state.writing with
  | none => exact ⟨early, served⟩
  | some drain =>
      obtain ⟨stage, here, -⟩ := writes.named drain named
      exact ⟨early, stage, here, .inl served⟩

/-- A fulfilled drain has served every flush that awaits it. -/
theorem wake_writes (writes : Writes state) {index : Nat} (wakes : wake state index = some next) :
    Writes next ∧ next.published = state.published := by
  unfold wake at wakes
  split at wakes
  next called drain waits =>
    obtain ⟨inside, _⟩ := List.getElem?_eq_some_iff.mp waits
    obtain ⟨early, stage, there, kept⟩ := writes.promised _ (List.mem_of_getElem? waits)
    have moved (settled : FlushStage) (holds : FlushHolds state { called, stage := settled }) :
        Writes { state with flushes := state.flushes.set index { called, stage := settled } } := by
      refine flushes_writes writes _ fun flush member => ?_
      obtain ⟨other, found⟩ := List.mem_iff_getElem?.mp member
      rcases (stage_set inside _ _ _).mp found with ⟨-, rfl⟩ | ⟨-, there⟩
      · exact holds
      · exact writes.promised flush (List.mem_of_getElem? there)
    split at wakes
    next fulfilled =>
      cases wakes
      cases fulfilled.symm.trans there
      have served : Served state called := kept.resolve_right id
      exact ⟨moved _ (loop_holds writes early served), rfl⟩
    next =>
      cases wakes
      exact ⟨moved .rejected ⟨early, trivial⟩, rfl⟩
    next => cases wakes
  next => cases wakes

/-- Every event keeps the invariant and never brings back an older rendering. -/
theorem step_writes (state : WriterState Content) (event : WriterEvent Content)
    (next : WriterState Content) (writes : Writes state) (taken : step state event = some next) :
    Writes next ∧ Newer state next := by
  have kept := recorded_writes writes
  have fresh := rendering_fresh state
  cases event with
  | change content =>
      cases taken
      exact ⟨⟨kept.single, kept.named, kept.staged, kept.shown, kept.promised⟩, newer_of_same rfl⟩
  | request =>
      cases taken
      exact ⟨request_writes fresh kept, newer_of_same (request_keeps _ _).2.1⟩
  | flush =>
      cases taken
      exact ⟨flush_writes fresh kept, newer_of_same (request_keeps _ _).2.1⟩
  | complete drain succeeded =>
      obtain ⟨holds, newer⟩ := complete_writes kept taken
      exact ⟨holds, newer⟩
  | resume drain =>
      obtain ⟨holds, same⟩ := resume_writes fresh kept taken
      exact ⟨holds, newer_of_same same⟩
  | wake index =>
      obtain ⟨holds, same⟩ := wake_writes kept taken
      exact ⟨holds, newer_of_same same⟩

theorem opened_writes (current : Content) : Writes (.opened current) := by
  refine ⟨fun drain stage here => ?_, fun drain named => ?_, fun drain stage here => ?_,
    fun snapshot shown => ?_, fun flush member => ?_⟩
  · cases here
  · cases named
  · cases here
  · cases shown
  · cases member

/-! What a run tells of itself: what render would have returned at each of its events,
and which of them were flushes. -/

def WriterEvent.isFlush : WriterEvent Content → Bool
  | .flush => true
  | _ => false

/-- What render returns after an event. -/
def WriterEvent.renders (content : Content) : WriterEvent Content → Content
  | .change content => content
  | _ => content

/-- What render would return at each event, before it. -/
def renderings (content : Content) : List (WriterEvent Content) → List Content
  | [] => []
  | event :: rest => content :: renderings (event.renders content) rest

/-- The places of the flush calls among the events. -/
def flushCalls (events : List (WriterEvent Content)) : List Nat :=
  (events.zipIdx.filter fun entry => entry.1.isFlush).map Prod.snd

theorem renderings_append (content : Content) (past : List (WriterEvent Content)) (event : WriterEvent Content) :
    renderings content (past ++ [event]) =
      renderings content past ++ [past.foldl WriterEvent.renders content] := by
  induction past generalizing content with
  | nil => rfl
  | cons first rest ih => exact congrArg (content :: ·) (ih (first.renders content))

theorem renderings_length (content : Content) (events : List (WriterEvent Content)) :
    (renderings content events).length = events.length := by
  induction events generalizing content with
  | nil => rfl
  | cons first rest ih => exact congrArg (· + 1) (ih (first.renders content))

theorem flush_calls_append (past : List (WriterEvent Content)) (event : WriterEvent Content) :
    flushCalls (past ++ [event]) = flushCalls past ++ if event.isFlush then [past.length] else [] := by
  unfold flushCalls
  rw [List.zipIdx_append, List.filter_append, List.map_append]
  cases asks : event.isFlush with
  | true => simp [asks]
  | false => simp [asks]

theorem start_keeps (rendered : Snapshot Content) (state : WriterState Content) :
    (startDrain rendered state).history = state.history ∧
      (startDrain rendered state).current = state.current ∧
      (startDrain rendered state).flushes = state.flushes := by
  unfold startDrain
  rcases drain_loop_cases rendered state with ⟨-, loops⟩ | ⟨-, ends⟩
  · rw [loops]
    exact ⟨rfl, rfl, rfl⟩
  · rw [ends]
    exact ⟨rfl, rfl, rfl⟩

theorem complete_keeps {drain : Nat} {succeeded : Bool} (settles : complete state drain succeeded = some next) :
    next.history = state.history ∧ next.current = state.current ∧ next.flushes = state.flushes := by
  unfold complete at settles
  split at settles
  · split at settles <;> cases settles <;> exact ⟨rfl, rfl, rfl⟩
  · split at settles <;> cases settles <;> exact ⟨rfl, rfl, rfl⟩
  · cases settles

theorem resume_keeps {drain : Nat} (continues : resume rendered state drain = some next) :
    next.history = state.history ∧ next.current = state.current ∧ next.flushes = state.flushes := by
  unfold resume at continues
  split at continues
  · cases continues
    exact ⟨rfl, rfl, rfl⟩
  · rcases drain_loop_cases rendered state with ⟨-, loops⟩ | ⟨-, ends⟩
    · rw [loops] at continues
      cases continues
      exact ⟨rfl, rfl, rfl⟩
    · rw [ends] at continues
      cases continues
      exact ⟨rfl, rfl, rfl⟩
  · cases continues
    unfold failDrain
    dsimp only
    split
    · exact start_keeps rendered (rejectDrain state drain)
    · exact ⟨rfl, rfl, rfl⟩
  · cases continues

theorem wake_keeps {index : Nat} (wakes : wake state index = some next) :
    next.history = state.history ∧ next.current = state.current ∧
      next.flushes.map Flush.called = state.flushes.map Flush.called := by
  unfold wake at wakes
  split at wakes
  next called drain waits =>
    have kept (stage : FlushStage) :
        (state.flushes.set index { called, stage }).map Flush.called = state.flushes.map Flush.called := by
      obtain ⟨inside, found⟩ := List.getElem?_eq_some_iff.mp waits
      have here : index < (state.flushes.map Flush.called).length := by rwa [List.length_map]
      have same : (state.flushes.map Flush.called)[index] = called := by simp [found]
      rw [List.map_set]
      change (state.flushes.map Flush.called).set index called = _
      rw [← same, List.set_getElem_self]
    split at wakes
    · cases wakes
      exact ⟨rfl, rfl, kept _⟩
    · cases wakes
      exact ⟨rfl, rfl, kept _⟩
    · cases wakes
  next => cases wakes

/-- A step records what render would have returned, and a flush where it was called. -/
theorem step_tells {event : WriterEvent Content} (taken : step state event = some next) :
    next.history = state.history ++ [state.current] ∧ next.current = event.renders state.current ∧
      next.flushes.map Flush.called =
        state.flushes.map Flush.called ++ if event.isFlush then [state.history.length] else [] := by
  have asked := request_keeps (rendering state) (recorded state)
  have still : (request (rendering state) (recorded state)).current = state.current := by
    rcases request_starts_or_waits (rendering state) (recorded state) with ⟨-, started⟩ | ⟨-, waits⟩
    · rw [started]
      exact (start_keeps _ _).2.1
    · rw [waits]
      rfl
  cases event with
  | change content =>
      cases taken
      exact ⟨rfl, rfl, (List.append_nil _).symm⟩
  | request =>
      cases taken
      exact ⟨asked.1, still, by rw [asked.2.2]; exact (List.append_nil _).symm⟩
  | flush =>
      cases taken
      refine ⟨asked.1, still, ?_⟩
      unfold flush
      dsimp only
      rw [List.map_append, asked.2.2]
      rfl
  | complete drain succeeded =>
      obtain ⟨history, current, flushes⟩ := complete_keeps taken
      exact ⟨history, current, by rw [flushes]; exact (List.append_nil _).symm⟩
  | resume drain =>
      obtain ⟨history, current, flushes⟩ := resume_keeps taken
      exact ⟨history, current, by rw [flushes]; exact (List.append_nil _).symm⟩
  | wake index =>
      obtain ⟨history, current, flushes⟩ := wake_keeps taken
      exact ⟨history, current, flushes.trans (List.append_nil _).symm⟩

theorem run_tells (current : Content) (events : List (WriterEvent Content)) (state : WriterState Content)
    (ran : run step (.opened current) events = some state) :
    state.history = renderings current events ∧ state.flushes.map Flush.called = flushCalls events := by
  obtain ⟨history, -, flushes⟩ := run_traced
    (fun past (state : WriterState Content) => state.history = renderings current past ∧
      state.current = past.foldl WriterEvent.renders current ∧
      state.flushes.map Flush.called = flushCalls past)
    (fun past state event next told taken => by
      obtain ⟨history, shown, flushes⟩ := told
      obtain ⟨grown, renders, called⟩ := step_tells taken
      refine ⟨?_, ?_, ?_⟩
      · rw [grown, renderings_append, history, shown]
      · rw [renders, List.foldl_append, shown]
        rfl
      · rw [called, flush_calls_append, flushes, history, renderings_length])
    [] events ⟨rfl, rfl, rfl⟩ ran
  exact ⟨history, flushes⟩

/-- At every point of every run: no two drains are at work, the published file only
ever moves to later renderings, every flush that was called is there, and one that has
resolved left the published file with what was rendered at or after its call. -/
theorem manifest_writes_keep (current : Content) (events onward : List (WriterEvent Content))
    (state final : WriterState Content) (ran : run step (.opened current) events = some state)
    (continued : run step state onward = some final) :
    (∀ (first second : Nat) (one other : DrainStage Content), state.drains[first]? = some one →
        one.active = true → state.drains[second]? = some other → other.active = true → first = second) ∧
      Newer state final ∧
      state.flushes.map Flush.called = flushCalls events ∧
      ∀ flush ∈ state.flushes, flush.stage = .resolved →
        ∃ shown, state.published = some shown ∧ flush.called ≤ shown.taken ∧
          (renderings current events)[shown.taken]? = some shown.content := by
  have writes : Writes state := run_preserves Writes
    (fun before event after holds taken => (step_writes before event after holds taken).1)
    (opened_writes current) ran
  obtain ⟨history, called⟩ := run_tells current events state ran
  refine ⟨fun first second one other here running there also => ?_, ?_, called,
    fun flush member resolved => ?_⟩
  · have named := writes.single first one here running
    rw [writes.single second other there also] at named
    exact (Option.some.inj named).symm
  · exact run_respects Writes Newer (fun _ => newer_of_same rfl)
      (fun _ _ _ earlier later shown held =>
        have ⟨_, kept, reached⟩ := earlier shown held
        have ⟨last, still, further⟩ := later _ kept
        ⟨last, still, reached.trans further⟩)
      step_writes onward writes continued
  · obtain ⟨-, promise⟩ := writes.promised flush member
    rw [resolved] at promise
    obtain ⟨shown, held, reached⟩ := promise
    exact ⟨shown, held, reached, history ▸ writes.shown shown held⟩

/-- A change and a flush that arrive during a rename. -/
def lateEvents : List (WriterEvent Nat) :=
  [.request, .complete 0 true, .resume 0, .change 1, .flush, .complete 0 true, .resume 0,
    .complete 0 true, .resume 0, .complete 0 true, .resume 0, .wake 0]

def lateState : WriterState Nat :=
  { current := 1, history := [0, 0, 0, 0, 1, 1, 1, 1, 1, 1, 1, 1], dirty := false, writing := none
    drains := [.fulfilled], temporary := none, published := some { taken := 6, content := 1 }
    flushes := [{ called := 4, stage := .resolved }] }

theorem manifest_writes_keep_late :
    run step (.opened 0) lateEvents = some lateState ∧ flushCalls lateEvents = [4] ∧
      ∃ shown, lateState.published = some shown ∧ 4 ≤ shown.taken ∧
        (renderings 0 lateEvents)[shown.taken]? = some shown.content := by
  have ran : run step (.opened 0) lateEvents = some lateState := by decide
  obtain ⟨_, _, called, served⟩ := manifest_writes_keep 0 lateEvents [] lateState lateState ran rfl
  exact ⟨ran, called.symm, served { called := 4, stage := .resolved } List.mem_cons_self rfl⟩

end Invariant

/-! The writer as SenderPipeline has it: a file operation and its continuation are
one step there, so a drain awaits an operation until its continuation has run. -/
section Refinement
variable {state next : WriterState Content} {rendered : Snapshot Content}

def DrainStage.awaited : DrainStage Content → Option (WriteStage Content)
  | .writeFile snapshot | .written snapshot => some (.writeFile snapshot.content)
  | .rename snapshot | .renamed snapshot => some (.rename snapshot.content)
  | .failing awaited => some awaited
  | .fulfilled | .rejected => none

def WriterState.writer (state : WriterState Content) : AsyncManifestWriter Content :=
  { dirty := state.dirty
    writing := state.writing.bind fun drain => state.drains[drain]?.bind DrainStage.awaited }

theorem active_awaits {stage : DrainStage Content} (active : stage.active = true) :
    ∃ awaited, stage.awaited = some awaited := by
  cases stage with
  | writeFile | written | rename | renamed | failing => exact ⟨_, rfl⟩
  | fulfilled | rejected => cases active

theorem writer_at {drain : Nat} {stage : DrainStage Content} (named : state.writing = some drain)
    (here : state.drains[drain]? = some stage) :
    state.writer = { dirty := state.dirty, writing := stage.awaited } := by
  simp only [WriterState.writer, named, here, Option.bind_some]

theorem set_writer (state : WriterState Content) {drain : Nat} {old : DrainStage Content}
    (named : state.writing = some drain) (here : state.drains[drain]? = some old)
    (new : DrainStage Content) :
    (setDrain state drain new).writer = { dirty := state.dirty, writing := new.awaited } := by
  have still : (setDrain state drain new).writing = some drain := named
  have there : (setDrain state drain new).drains[drain]? = some new :=
    List.getElem?_set_self (List.getElem?_eq_some_iff.mp here).1
  rw [writer_at still there]
  rfl

theorem start_writer (dirty : state.dirty = true) :
    (startDrain rendered state).writer = state.writer.drain rendered.content := by
  have last : (state.drains ++ [.writeFile rendered])[state.drains.length]? = some (.writeFile rendered) :=
    List.getElem?_concat_length
  rw [start_eq dirty, writer_at rfl last, AsyncManifestWriter.drain]
  exact (if_pos dirty).symm

theorem request_refines (writes : Writes state) :
    (request rendered state).writer = state.writer.request rendered.content := by
  rcases request_starts_or_waits rendered state with ⟨idle, started⟩ | ⟨⟨drain, named⟩, waits⟩
  · rw [started, start_writer rfl, AsyncManifestWriter.request]
    simp only [WriterState.writer, idle]
    rfl
  · obtain ⟨stage, here, running⟩ := writes.named drain named
    obtain ⟨awaited, waiting⟩ := active_awaits running
    have busy : ¬ state.writer.writing.isNone = true := by
      rw [writer_at named here]
      simp [waiting]
    rw [waits, AsyncManifestWriter.request, if_neg busy]
    rfl

theorem complete_refines (writes : Writes state) {drain : Nat} {succeeded : Bool}
    (settles : complete state drain succeeded = some next) : next.writer = state.writer := by
  have kept {old : DrainStage Content} (new : DrainStage Content) (here : state.drains[drain]? = some old)
      (active : old.active = true) (same : new.awaited = old.awaited) :
      (setDrain state drain new).writer = state.writer := by
    have named := writes.single drain old here active
    rw [writer_at named here, set_writer state named here, same]
  unfold complete at settles
  split at settles
  next snapshot here =>
    split at settles <;> cases settles
    · exact kept (.written snapshot) here rfl rfl
    · exact kept (.failing (.writeFile snapshot.content)) here rfl rfl
  next snapshot here =>
    split at settles <;> cases settles
    · exact kept (.renamed snapshot) here rfl rfl
    · exact kept (.failing (.rename snapshot.content)) here rfl rfl
  next => cases settles

/-- A continuation starts the rename of what was written, or is the end of a write. -/
theorem resume_refines (writes : Writes state) {drain : Nat}
    (continues : resume rendered state drain = some next) :
    (∃ content, state.writer.writing = some (.writeFile content) ∧
        next.writer = { state.writer with writing := some (.rename content) }) ∨
      state.writer.writing.isSome = true ∧ next.writer = state.writer.drain rendered.content := by
  unfold resume at continues
  split at continues
  next snapshot here =>
    cases continues
    have named := writes.single drain _ here rfl
    rw [writer_at named here, set_writer state named here]
    exact .inl ⟨snapshot.content, rfl, rfl⟩
  next snapshot here =>
    have named := writes.single drain _ here rfl
    refine .inr ⟨by rw [writer_at named here]; rfl, ?_⟩
    rw [writer_at named here]
    -- The abstract writer drains in one step what the loop condition and the finally block do here.
    rcases drain_loop_cases rendered state with ⟨pending, loops⟩ | ⟨clean, ends⟩
    · rw [loops] at continues
      cases continues
      have moved := set_writer { state with dirty := false, temporary := none } named here
        (.writeFile rendered)
      rw [moved, AsyncManifestWriter.drain, if_pos pending]
      rfl
    · rw [ends] at continues
      cases continues
      simp only [AsyncManifestWriter.drain, clean]
      rfl
  next awaited here =>
    have named := writes.single drain _ here rfl
    refine .inr ⟨by rw [writer_at named here]; rfl, ?_⟩
    cases continues
    unfold failDrain
    dsimp only
    split
    next pending =>
      have dirty : state.dirty = true := pending
      rw [start_writer pending]
      simp only [AsyncManifestWriter.drain, WriterState.writer, rejectDrain, dirty]
    next clean =>
      have idle : ¬ state.writer.dirty = true := clean
      rw [AsyncManifestWriter.drain, if_neg idle]
      rfl
  next => cases continues

/-- The moves of the writer as SenderPipeline has it. -/
inductive WriterMove (before : AsyncManifestWriter Content) : AsyncManifestWriter Content → Prop where
  | still : WriterMove before before
  | requested (render : Content) : WriterMove before (before.request render)
  | renames (content : Content) (wrote : before.writing = some (.writeFile content)) :
      WriterMove before { before with writing := some (.rename content) }
  | drains (render : Content) (awaits : before.writing.isSome = true) :
      WriterMove before (before.drain render)

/-- Every event is a move of that writer or invisible to it. -/
theorem step_simulates (writes : Writes state) {event : WriterEvent Content}
    (taken : step state event = some next) : WriterMove state.writer next.writer := by
  have kept := recorded_writes writes
  cases event with
  | change content =>
      cases taken
      exact .still
  | request =>
      cases taken
      rw [request_refines kept]
      exact .requested _
  | flush =>
      cases taken
      have asked : (flush (rendering state) (recorded state)).writer
          = (request (rendering state) (recorded state)).writer := rfl
      rw [asked, request_refines kept]
      exact .requested _
  | complete drain succeeded =>
      rw [complete_refines kept taken]
      exact .still
  | resume drain =>
      rcases resume_refines kept taken with ⟨content, wrote, renames⟩ | ⟨awaits, drains⟩
      · rw [renames]
        exact .renames content wrote
      · rw [drains]
        exact .drains _ awaits
  | wake index =>
      have same : next.writer = state.writer := by
        simp only [step, wake] at taken
        split at taken
        next =>
          split at taken <;> cases taken <;> rfl
        next => cases taken
      rw [same]
      exact .still

theorem move_busy {before after : AsyncManifestWriter Content} (busy : before.Busy)
    (move : WriterMove before after) : after.Busy := by
  cases move with
  | still => exact busy
  | requested render =>
      rcases SenderPipeline.request_cases before render with ⟨-, starts⟩ | ⟨awaits, waits⟩
      · rw [starts]
        exact fun _ => rfl
      · rw [waits]
        exact fun _ => awaits
  | renames content wrote => exact fun _ => rfl
  | drains render awaits => exact drain_busy before render

/-- No update stays pending once the writer is idle. -/
theorem pending_drained (current : Content) (events : List (WriterEvent Content))
    (state : WriterState Content) (ran : run step (.opened current) events = some state) :
    state.writer.Busy := by
  have kept : Writes state ∧ state.writer.Busy :=
    run_preserves (fun state => Writes state ∧ state.writer.Busy)
      (fun before event after holds taken =>
        ⟨(step_writes before event after holds.1 taken).1,
          move_busy holds.2 (step_simulates holds.1 taken)⟩)
      ⟨opened_writes current, fun pending => absurd pending Bool.false_ne_true⟩ ran
  exact kept.2

end Refinement

end ArbExecutor.ManifestWrites
