import ArbExecutor.SignedBatch
import ArbExecutor.SingleFlight

/-!
The route snapshots of scripts/mainnet-smoke.ts under any interleaving of the timer's
and the callers' refreshes. A refresh refetches the pool states that all builds read,
builds its modes one after the other, each over several awaits, and only then counts
the version up and publishes. Since a call joins the refresh under way, no snapshot
mixes two refetches, and to the sender a refresh is one step.
-/

namespace ArbExecutor.RouteRefresh

open GuardedRuns SingleFlight SignedBatch
open BatchResume (BatchConfig)

/-- What the refreshes share: the SDK's pool states, and the snapshot with its version. -/
structure RouteState (Dlmm : Type) where
  dlmm : Dlmm
  routeSnapshotVersion : Nat
  routeSnapshot : Option RouteSnapshot

/-- A refresh waits for the refetch, or for the build of a mode, begun on some states. -/
inductive RefreshWork (Dlmm : Type) where
  | refetching
  | building (builds : List (String × String)) (begun : Dlmm) (mode : String) (left : List String)

inductive RefreshInput (Dlmm Answer : Type) where
  | refetched (states : Dlmm)
  | answered (answer : Answer)
  | rejected

section Refresh
variable {Dlmm Answer : Type} (modes : List String)
  (buildFromCurrentState : Dlmm → Dlmm → String → Answer → String)

/-- The loop over the modes up to its next await, or the snapshot at its end. The
modes differ, so setting one in the map adds it at the end. -/
def buildNext (state : RouteState Dlmm) (builds : List (String × String)) :
    List String → RouteState Dlmm × (RefreshWork Dlmm ⊕ Option RouteSnapshot)
  | mode :: left => (state, .inl (.building builds state.dlmm mode left))
  | [] =>
      let refreshed : RouteSnapshot := { version := state.routeSnapshotVersion + 1, builds }
      ({ state with routeSnapshotVersion := refreshed.version, routeSnapshot := some refreshed },
        .inr (some refreshed))

/-- `refreshRouteSnapshot`. A build reads the pool states where it begins and where
its answers are in. -/
def refreshRouteSnapshot :
    Job (RouteState Dlmm) (RefreshWork Dlmm) RouteSnapshot (RefreshInput Dlmm Answer) where
  start := .refetching
  advance state work input :=
    match work, input with
    | .refetching, .refetched states => some (buildNext { state with dlmm := states } [] modes)
    | .building builds begun mode left, .answered answer =>
        some (buildNext state
          (builds ++ [(mode, buildFromCurrentState begun state.dlmm mode answer)]) left)
    | _, .rejected => some (state, .inr none)
    | _, _ => none

def unrefreshed (states : Dlmm) : RouteState Dlmm :=
  { dlmm := states, routeSnapshotVersion := 0, routeSnapshot := none }

end Refresh

/-! Every snapshot is made of its own refresh's refetch, and the versions count the snapshots. -/
section Snapshots
variable {Dlmm Answer : Type} {modes : List String}
  {buildFromCurrentState : Dlmm → Dlmm → String → Answer → String}

abbrev RefreshEvent (Dlmm Answer : Type) := SingleFlight.Event (RefreshInput Dlmm Answer)

/-- Instructions that come out of one state of the pools. -/
def BuiltFrom (buildFromCurrentState : Dlmm → Dlmm → String → Answer → String) (states : Dlmm)
    (instruction : String → String) (modes : List String) : Prop :=
  ∀ mode ∈ modes, ∃ answer, instruction mode = buildFromCurrentState states states mode answer

/-- A refresh was answered with these pool states. -/
def Refetched (past : List (RefreshEvent Dlmm Answer)) (flight : Nat) (states : Dlmm) : Prop :=
  .proceed flight (.refetched states) ∈ past

def Whole (modes : List String) (buildFromCurrentState : Dlmm → Dlmm → String → Answer → String)
    (past : List (RefreshEvent Dlmm Answer)) (flight : Nat) (snapshot : RouteSnapshot) : Prop :=
  ∃ states instruction, Refetched past flight states ∧
    BuiltFrom buildFromCurrentState states instruction modes ∧
    snapshot.builds = modes.map fun mode => (mode, instruction mode)

/-- What has come of the refreshes so far: their snapshots are numbered from one, and the
last of them is the current one. -/
structure Published (modes : List String)
    (buildFromCurrentState : Dlmm → Dlmm → String → Answer → String)
    (past : List (RefreshEvent Dlmm Answer)) (state : RouteState Dlmm)
    (results : List (Option RouteSnapshot)) : Prop where
  versions : (results.filterMap id).map (·.version) = List.range' 1 state.routeSnapshotVersion
  current : (results.filterMap id).getLast? = state.routeSnapshot
  whole : ∀ flight snapshot, results[flight]? = some (some snapshot) →
    Whole modes buildFromCurrentState past flight snapshot

/-- A build in progress: every build so far comes out of the states now standing, which
are the ones that this refresh refetched. -/
def InProgress (modes : List String) (buildFromCurrentState : Dlmm → Dlmm → String → Answer → String)
    (past : List (RefreshEvent Dlmm Answer)) (flight : Nat) (state : RouteState Dlmm) :
    RefreshWork Dlmm → Prop
  | .refetching => True
  | .building builds begun mode left => begun = state.dlmm ∧ Refetched past flight state.dlmm ∧
      ∃ built instruction, modes = built ++ mode :: left ∧
        BuiltFrom buildFromCurrentState state.dlmm instruction built ∧
        builds = built.map fun mode => (mode, instruction mode)

variable {past : List (RefreshEvent Dlmm Answer)}

theorem refetched_later {flight : Nat} {states : Dlmm} (event : RefreshEvent Dlmm Answer)
    (refetched : Refetched past flight states) : Refetched (past ++ [event]) flight states :=
  List.mem_append_left _ refetched

theorem published_later {state : RouteState Dlmm} {results : List (Option RouteSnapshot)}
    (event : RefreshEvent Dlmm Answer)
    (published : Published modes buildFromCurrentState past state results) :
    Published modes buildFromCurrentState (past ++ [event]) state results where
  versions := published.versions
  current := published.current
  whole := by
    intro flight snapshot held
    obtain ⟨states, instruction, refetched, builtFrom, built⟩ := published.whole flight snapshot held
    exact ⟨states, instruction, refetched_later event refetched, builtFrom, built⟩

theorem in_progress_later {flight : Nat} {state : RouteState Dlmm} {work : RefreshWork Dlmm}
    (event : RefreshEvent Dlmm Answer)
    (progress : InProgress modes buildFromCurrentState past flight state work) :
    InProgress modes buildFromCurrentState (past ++ [event]) flight state work := by
  cases work with
  | refetching => trivial
  | building builds begun mode left =>
      obtain ⟨same, refetched, building⟩ := progress
      exact ⟨same, refetched_later event refetched, building⟩

theorem published_snapshot {state : RouteState Dlmm} {results : List (Option RouteSnapshot)}
    (published : Published modes buildFromCurrentState past state results) {builds : List (String × String)}
    (whole : Whole modes buildFromCurrentState past results.length ⟨state.routeSnapshotVersion + 1, builds⟩) :
    Published modes buildFromCurrentState past
      { state with routeSnapshotVersion := state.routeSnapshotVersion + 1
                   routeSnapshot := some ⟨state.routeSnapshotVersion + 1, builds⟩ }
      (results ++ [some ⟨state.routeSnapshotVersion + 1, builds⟩]) where
  versions := by
    rw [List.filterMap_append, List.map_append, published.versions, List.range'_concat]
    simp [Nat.add_comm]
  current := by simp
  whole := by
    intro flight snapshot held
    rcases Nat.lt_or_ge flight results.length with earlier | later
    · rw [List.getElem?_append_left earlier] at held
      exact published.whole flight snapshot held
    · rw [List.getElem?_append_right later] at held
      obtain ⟨inside, same⟩ := List.getElem?_eq_some_iff.mp held
      rw [List.length_singleton] at inside
      rw [List.getElem_singleton] at same
      rw [show flight = results.length by omega, ← Option.some.inj same]
      exact whole

theorem published_nothing {state : RouteState Dlmm} {results : List (Option RouteSnapshot)}
    (published : Published modes buildFromCurrentState past state results) :
    Published modes buildFromCurrentState past state (results ++ [none]) where
  versions := by
    rw [← published.versions]
    simp
  current := by
    rw [← published.current]
    simp
  whole := by
    intro flight snapshot held
    rcases Nat.lt_or_ge flight results.length with earlier | later
    · rw [List.getElem?_append_left earlier] at held
      exact published.whole flight snapshot held
    · rw [List.getElem?_append_right later] at held
      have listed := List.mem_singleton.mp (List.mem_of_getElem? held)
      cases listed

/-- A refresh goes on from what it has built, or it ends and may have published. -/
def Turned (modes : List String) (buildFromCurrentState : Dlmm → Dlmm → String → Answer → String)
    (past : List (RefreshEvent Dlmm Answer)) (state : RouteState Dlmm)
    (results : List (Option RouteSnapshot)) : RefreshWork Dlmm ⊕ Option RouteSnapshot → Prop
  | .inl work => Published modes buildFromCurrentState past state results ∧
      InProgress modes buildFromCurrentState past results.length state work
  | .inr result => Published modes buildFromCurrentState past state (results ++ [result])

/-- One turn of the loop keeps the builds to one state, and ends in a whole snapshot. -/
theorem build_next_kept {state after : RouteState Dlmm} {results : List (Option RouteSnapshot)}
    (published : Published modes buildFromCurrentState past state results)
    (refetched : Refetched past results.length state.dlmm) {built left : List String}
    (split : modes = built ++ left) {instruction : String → String}
    (builtFrom : BuiltFrom buildFromCurrentState state.dlmm instruction built)
    {next : RefreshWork Dlmm ⊕ Option RouteSnapshot}
    (turned : buildNext state (built.map fun mode => (mode, instruction mode)) left = (after, next)) :
    Turned modes buildFromCurrentState past after results next := by
  cases left with
  | cons mode left =>
      cases turned
      exact ⟨published, rfl, refetched, built, instruction, split, builtFrom, rfl⟩
  | nil =>
      cases turned
      rw [List.append_nil] at split
      subst split
      exact published_snapshot published ⟨state.dlmm, instruction, refetched, builtFrom, rfl⟩

theorem built_extended {states : Dlmm} {instruction : String → String} {built : List String}
    {mode : String} (fresh : mode ∉ built)
    (builtFrom : BuiltFrom buildFromCurrentState states instruction built) (answer : Answer) :
    ∃ extended, BuiltFrom buildFromCurrentState states extended (built ++ [mode]) ∧
      built.map (fun mode => (mode, instruction mode)) ++
          [(mode, buildFromCurrentState states states mode answer)] =
        (built ++ [mode]).map fun mode => (mode, extended mode) := by
  refine ⟨Function.update instruction mode (buildFromCurrentState states states mode answer), ?_, ?_⟩
  · intro other member
    rcases List.mem_append.mp member with earlier | last
    · obtain ⟨given, same⟩ := builtFrom other earlier
      have apart : other ≠ mode := fun same => fresh (same ▸ earlier)
      exact ⟨given, (Function.update_of_ne apart _ _).trans same⟩
    · rw [List.mem_singleton.mp last]
      exact ⟨answer, Function.update_self _ _ _⟩
  · rw [List.map_append, List.map_singleton, Function.update_self]
    congr 1
    refine List.map_congr_left fun other earlier => ?_
    have apart : other ≠ mode := fun same => fresh (same ▸ earlier)
    rw [Function.update_of_ne apart]

theorem refresh_turn (distinct : modes.Nodup) {state after : RouteState Dlmm}
    {results : List (Option RouteSnapshot)}
    (published : Published modes buildFromCurrentState past state results) {work : RefreshWork Dlmm}
    (progress : InProgress modes buildFromCurrentState past results.length state work)
    {input : RefreshInput Dlmm Answer} {next : RefreshWork Dlmm ⊕ Option RouteSnapshot}
    (advanced : (refreshRouteSnapshot modes buildFromCurrentState).advance state work input =
      some (after, next)) :
    Turned modes buildFromCurrentState (past ++ [.proceed results.length input]) after results next := by
  have standing := published_later (.proceed results.length input) published
  have failed (turned : some (state, Sum.inr none) = some (after, next)) :
      Turned modes buildFromCurrentState (past ++ [.proceed results.length input]) after results next := by
    cases turned
    exact published_nothing standing
  cases work with
  | refetching =>
      cases input with
      | refetched states =>
          have renewed : Published modes buildFromCurrentState
              (past ++ [.proceed results.length (.refetched states)]) { state with dlmm := states } results :=
            { standing with }
          have refetched : Refetched (past ++ [.proceed results.length (.refetched states)])
              results.length states := List.mem_append_right _ (List.mem_singleton_self _)
          have nothing : BuiltFrom buildFromCurrentState states id [] := fun _ member =>
            absurd member List.not_mem_nil
          exact build_next_kept renewed refetched rfl nothing (Option.some.inj advanced)
      | answered answer => cases advanced
      | rejected => exact failed advanced
  | building builds begun mode left =>
      cases input with
      | refetched states => cases advanced
      | answered answer =>
          obtain ⟨rfl, refetched, built, instruction, split, builtFrom, rfl⟩ := progress
          have fresh : mode ∉ built := fun member =>
            (List.nodup_append.mp (split ▸ distinct)).2.2 mode member mode List.mem_cons_self rfl
          obtain ⟨extended, extendedFrom, same⟩ := built_extended fresh builtFrom answer
          have turned : buildNext state (built.map (fun mode => (mode, instruction mode)) ++
              [(mode, buildFromCurrentState state.dlmm state.dlmm mode answer)]) left = (after, next) :=
            Option.some.inj advanced
          rw [same] at turned
          exact build_next_kept standing (refetched_later _ refetched)
            (by rw [split, List.append_assoc, List.singleton_append]) extendedFrom turned
      | rejected => exact failed advanced

/-- A refresh on its own keeps the snapshots published, whatever becomes of it. -/
theorem refresh_exclusive (distinct : modes.Nodup) :
    Exclusive (refreshRouteSnapshot modes buildFromCurrentState)
      (Published modes buildFromCurrentState)
      (fun past state results work => Published modes buildFromCurrentState past state results ∧
        InProgress modes buildFromCurrentState past results.length state work)
      (fun past state results result =>
        Published modes buildFromCurrentState past state (results ++ [result])) where
  starts _ _ _ published := ⟨published_later _ published, trivial⟩
  joins _ _ _ := ⟨fun _ kept => ⟨published_later _ kept.1, in_progress_later _ kept.2⟩,
    fun _ published => published_later _ published⟩
  works := fun _ _ _ _ _ _ _ kept advanced => refresh_turn distinct kept.1 kept.2 advanced
  settles := fun _ _ _ _ _ _ _ kept advanced => refresh_turn distinct kept.1 kept.2 advanced
  clears _ _ _ _ published := published_later _ published

/-- The current snapshot bears the version counted last. -/
theorem current_version {state : RouteState Dlmm} {results : List (Option RouteSnapshot)}
    (published : Published modes buildFromCurrentState past state results) {snapshot : RouteSnapshot}
    (shown : state.routeSnapshot = some snapshot) : snapshot.version = state.routeSnapshotVersion := by
  have last := congrArg List.getLast? published.versions
  rw [List.getLast?_map, published.current, shown, List.getLast?_range'] at last
  split at last
  · cases last
  · have same : snapshot.version = 1 + state.routeSnapshotVersion - 1 := Option.some.inj last
    omega

abbrev RouteDesk (Dlmm : Type) := Desk (RouteState Dlmm) (RefreshWork Dlmm) RouteSnapshot

/-- What a desk of refreshes looks like after the events so far. -/
def Refreshing (modes : List String)
    (buildFromCurrentState : Dlmm → Dlmm → String → Answer → String)
    (past : List (RefreshEvent Dlmm Answer))
    (served : Served (RouteState Dlmm) (RefreshWork Dlmm) RouteSnapshot) : Prop :=
  Kept (Published modes buildFromCurrentState)
    (fun past state results work => Published modes buildFromCurrentState past state results ∧
      InProgress modes buildFromCurrentState past results.length state work)
    (fun past state results result =>
      Published modes buildFromCurrentState past state (results ++ [result])) past served

theorem refreshing_published {served : Served (RouteState Dlmm) (RefreshWork Dlmm) RouteSnapshot}
    (refreshing : Refreshing modes buildFromCurrentState past served) :
    Published modes buildFromCurrentState past served.shared served.outcomes := by
  unfold Served.outcomes
  obtain ⟨state, results, _ | (work | result)⟩ := served
  · exact refreshing
  · exact refreshing.1
  · exact refreshing

theorem desk_refreshing (distinct : modes.Nodup) {states : Dlmm}
    (events : List (RefreshEvent Dlmm Answer)) {desk : RouteDesk Dlmm}
    (ran : run (SingleFlight.step (refreshRouteSnapshot modes buildFromCurrentState))
      (opened (unrefreshed states)) events = some desk) :
    ∃ served : Served (RouteState Dlmm) (RefreshWork Dlmm) RouteSnapshot, desk = served.desk ∧
      Refreshing modes buildFromCurrentState events served :=
  run_exclusive (refresh_exclusive distinct) events
    { versions := rfl, current := rfl, whole := fun _ _ held => nomatch held } ran

end Snapshots

/-! The batch's own modes. -/
section Batch
variable {Dlmm Answer : Type} {config : BatchConfig}
  {buildFromCurrentState : Dlmm → Dlmm → String → Answer → String}

theorem modes_distinct (config : BatchConfig) : (initialModes config).Nodup := by
  unfold initialModes
  split
  · decide
  · exact List.nodup_singleton _

/-- However refreshes are called, answered and refused, at most one is under way, and
the snapshots published are numbered from one in the order of their refreshes. Each
was built whole from the pool states that its own refresh refetched and has a build
for the direction of every ordinal; a refresh that fails leaves the current one standing. -/
theorem snapshots_whole (states : Dlmm) (events : List (RefreshEvent Dlmm Answer))
    (desk : RouteDesk Dlmm)
    (ran : run (SingleFlight.step (refreshRouteSnapshot (initialModes config) buildFromCurrentState))
      (opened (unrefreshed states)) events = some desk) :
    (∀ flight, desk.inFlight = some flight ↔
      ∃ stage, desk.flights[flight]? = some stage ∧ stage.isOpen = true) ∧
    (desk.flights.filterMap Stage.result).map (·.version) =
      List.range' 1 desk.shared.routeSnapshotVersion ∧
    (desk.flights.filterMap Stage.result).getLast? = desk.shared.routeSnapshot ∧
    ∀ flight stage snapshot, desk.flights[flight]? = some stage → stage.result = some snapshot →
      (∃ refetched instruction, .proceed flight (.refetched refetched) ∈ events ∧
        snapshot = snapshotOf config snapshot.version instruction ∧
        BuiltFrom buildFromCurrentState refetched instruction (initialModes config)) ∧
      ∀ ordinal, ∃ instruction,
        snapshot.builds.lookup (directionFor config ordinal) = some instruction := by
  obtain ⟨served, rfl, refreshing⟩ := desk_refreshing (modes_distinct config) events ran
  have published := refreshing_published refreshing
  rw [served_results]
  refine ⟨served_in_flight served, published.versions, published.current,
    fun flight stage snapshot found shows => ?_⟩
  obtain ⟨states, instruction, refetched, builtFrom, built⟩ :=
    published.whole flight snapshot (served_outcome served found shows)
  obtain ⟨version, builds⟩ := snapshot
  cases built
  exact ⟨⟨states, instruction, refetched, rfl, builtFrom⟩, snapshot_has_build config version instruction⟩

/-! A call that joins the first refresh, and a second refresh that fails. -/
def bothWays : BatchConfig := { BatchResume.twoBroadcasts with direction := "alternate" }

def sampleBuild (_begun states : Nat) (mode answer : String) : String :=
  mode ++ toString states ++ answer

def sampleJob : Job (RouteState Nat) (RefreshWork Nat) RouteSnapshot (RefreshInput Nat String) :=
  refreshRouteSnapshot (initialModes bothWays) sampleBuild

def sampleRefreshes : List (RefreshEvent Nat String) :=
  [.call, .proceed 0 (.refetched 1), .call, .proceed 0 (.answered "a"), .proceed 0 (.answered "b"),
   .clear 0, .call, .proceed 1 .rejected, .clear 1]

def sampleDesk : RouteDesk Nat :=
  (run (SingleFlight.step sampleJob) (opened (unrefreshed 0)) sampleRefreshes).getD (opened (unrefreshed 0))

theorem sample_refreshed : run (SingleFlight.step sampleJob) (opened (unrefreshed 0)) sampleRefreshes =
    some sampleDesk := by
  have ran : (run (SingleFlight.step sampleJob) (opened (unrefreshed 0)) sampleRefreshes).isSome := by
    decide +kernel
  exact (Option.some_get ran).symm

theorem snapshots_whole_sample :
    (sampleDesk.flights.filterMap Stage.result).map (·.version) = [1] ∧ sampleDesk.flights.length = 2 ∧
      ∃ snapshot instruction, sampleDesk.shared.routeSnapshot = some snapshot ∧
        snapshot = snapshotOf bothWays 1 instruction ∧
        BuiltFrom sampleBuild 1 instruction (initialModes bothWays) := by
  have counted : sampleDesk.shared.routeSnapshotVersion = 1 := by decide +kernel
  obtain ⟨_, versions, current, whole⟩ := snapshots_whole 0 sampleRefreshes sampleDesk sample_refreshed
  rw [counted] at versions
  refine ⟨versions, by decide +kernel, ?_⟩
  have shown : (sampleDesk.flights[0]?.bind Stage.result).isSome = true := by decide +kernel
  obtain ⟨snapshot, held⟩ := Option.isSome_iff_exists.mp shown
  obtain ⟨stage, found, shows⟩ := Option.bind_eq_some_iff.mp held
  obtain ⟨⟨refetched, instruction, answered, whole, builtFrom⟩, _⟩ := whole 0 stage snapshot found shows
  have only : refetched = 1 := by simpa [sampleRefreshes] using answered
  have latest : sampleDesk.shared.routeSnapshot = sampleDesk.flights[0]?.bind Stage.result := by decide +kernel
  have version : (sampleDesk.flights[0]?.bind Stage.result).map (·.version) = some 1 := by decide +kernel
  rw [held, Option.map_some, Option.some.injEq] at version
  exact ⟨snapshot, instruction, latest.trans held, version ▸ whole, only ▸ builtFrom⟩

/-- A step shows the snapshot it found, or the next one. -/
theorem refresh_seen {past : List (RefreshEvent Dlmm Answer)} {event : RefreshEvent Dlmm Answer}
    {served after : Served (RouteState Dlmm) (RefreshWork Dlmm) RouteSnapshot}
    (before : Published (initialModes config) buildFromCurrentState past served.shared served.outcomes)
    (moves : Moves (refreshRouteSnapshot (initialModes config) buildFromCurrentState) event served after)
    (published : Published (initialModes config) buildFromCurrentState (past ++ [event]) after.shared
      after.outcomes) :
    after.shared.routeSnapshot = served.shared.routeSnapshot ∨
      ∃ flight refetched instruction, Refetched (past ++ [event]) flight refetched ∧
        BuiltFrom buildFromCurrentState refetched instruction (initialModes config) ∧
        after.shared.routeSnapshot =
          some (snapshotOf config (served.shared.routeSnapshotVersion + 1) instruction) := by
  rcases moves_values moves with same | ⟨snapshot, more⟩
  · have values : after.outcomes.filterMap id = served.outcomes.filterMap id := same
    exact .inl (by rw [← published.current, values, before.current])
  · have values : after.outcomes.filterMap id = served.outcomes.filterMap id ++ [snapshot] := more
    refine .inr ?_
    have listed : some snapshot ∈ after.outcomes := by
      have member : snapshot ∈ after.outcomes.filterMap id := by
        rw [values]
        exact List.mem_append_right _ (List.mem_singleton_self _)
      obtain ⟨result, held, same⟩ := List.mem_filterMap.mp member
      rwa [show result = some snapshot from same] at held
    obtain ⟨flight, held⟩ := List.mem_iff_getElem?.mp listed
    obtain ⟨refetched, instruction, answered, builtFrom, built⟩ := published.whole flight snapshot held
    have shown : after.shared.routeSnapshot = some snapshot := by
      rw [← published.current, values, List.getLast?_concat]
    have counted := congrArg List.length published.versions
    have countedBefore := congrArg List.length before.versions
    rw [List.length_map, List.length_range', values, List.length_append, List.length_singleton] at counted
    rw [List.length_map, List.length_range'] at countedBefore
    have version := current_version published shown
    obtain ⟨number, builds⟩ := snapshot
    refine ⟨flight, refetched, instruction, answered, builtFrom, shown.trans (congrArg some ?_)⟩
    unfold snapshotOf
    rw [RouteSnapshot.mk.injEq]
    exact ⟨by dsimp only at version; omega, built⟩

/-- The sender has made refreshes of its own that show it what the desk shows, each with
instructions out of the states of one refetch among the events so far. -/
def Followed (config : BatchConfig) (buildFromCurrentState : Dlmm → Dlmm → String → Answer → String)
    (sign : String → String → String) (process : Process) (past : List (RefreshEvent Dlmm Answer))
    (shown : Option RouteSnapshot) : Prop :=
  ∃ instructions : List (String → String),
    (∀ instruction ∈ instructions, ∃ flight refetched, Refetched past flight refetched ∧
      BuiltFrom buildFromCurrentState refetched instruction (initialModes config)) ∧
    ∃ after, run (advance config sign) process (instructions.map .refreshRouteSnapshot) = some after ∧
      shown = some after.routeSnapshot ∧
      after = { process with routeSnapshot := after.routeSnapshot }

/-- The sender follows one more event with one refresh or none. -/
theorem step_followed {sign : String → String → String} {process : Process}
    {past : List (RefreshEvent Dlmm Answer)} {event : RefreshEvent Dlmm Answer}
    {served after : Served (RouteState Dlmm) (RefreshWork Dlmm) RouteSnapshot}
    (refreshing : Refreshing (initialModes config) buildFromCurrentState past served)
    (moves : Moves (refreshRouteSnapshot (initialModes config) buildFromCurrentState) event served after)
    (followed : Followed config buildFromCurrentState sign process past served.shared.routeSnapshot) :
    Followed config buildFromCurrentState sign process (past ++ [event]) after.shared.routeSnapshot := by
  obtain ⟨instructions, builtFrom, reached, follows, seen, rest⟩ := followed
  have goesOn := moves_kept (refresh_exclusive (modes_distinct config)) moves refreshing
  have before := refreshing_published refreshing
  have earlier : ∀ instruction ∈ instructions, ∃ flight refetched,
      Refetched (past ++ [event]) flight refetched ∧
        BuiltFrom buildFromCurrentState refetched instruction (initialModes config) := by
    intro instruction member
    obtain ⟨flight, refetched, answered, built⟩ := builtFrom instruction member
    exact ⟨flight, refetched, refetched_later event answered, built⟩
  rcases refresh_seen before moves (refreshing_published goesOn) with
    same | ⟨flight, refetched, instruction, answered, fresh, shownNext⟩
  · exact ⟨instructions, earlier, reached, follows, same.trans seen, rest⟩
  · have version := current_version before seen
    refine ⟨instructions ++ [instruction], fun other member => ?_,
      { reached with routeSnapshot := snapshotOf config (reached.routeSnapshot.version + 1) instruction },
      ?_, ?_, ?_⟩
    · rcases List.mem_append.mp member with old | last
      · exact earlier other old
      · rw [List.mem_singleton.mp last]
        exact ⟨flight, refetched, answered, fresh⟩
    · rw [List.map_append]
      exact run_append follows rfl
    · rw [shownNext, version]
    · dsimp only
      rw [rest]

/-- To the sender, which sees the current snapshot alone, any interleaving of refreshes
is a sequence of its own atomic ones, each with instructions out of the states of one refetch. -/
theorem refreshes_refine_sender (sign : String → String → String) (process : Process) (states : Dlmm)
    (earlier later : List (RefreshEvent Dlmm Answer)) (desk final : RouteDesk Dlmm)
    (ran : run (SingleFlight.step (refreshRouteSnapshot (initialModes config) buildFromCurrentState))
      (opened (unrefreshed states)) earlier = some desk)
    (shown : desk.shared.routeSnapshot = some process.routeSnapshot)
    (ranOn : run (SingleFlight.step (refreshRouteSnapshot (initialModes config) buildFromCurrentState))
      desk later = some final) :
    ∃ instructions : List (String → String),
      (∀ instruction ∈ instructions, ∃ flight refetched,
        .proceed flight (.refetched refetched) ∈ earlier ++ later ∧
        BuiltFrom buildFromCurrentState refetched instruction (initialModes config)) ∧
      ∃ after, run (advance config sign) process (instructions.map .refreshRouteSnapshot) = some after ∧
        final.shared.routeSnapshot = some after.routeSnapshot ∧
        after = { process with routeSnapshot := after.routeSnapshot } := by
  obtain ⟨served, rfl, refreshing⟩ := desk_refreshing (modes_distinct config) earlier ran
  -- Along the run: the desk goes on refreshing, and the sender has followed it so far.
  have initial : ∃ reached : Served (RouteState Dlmm) (RefreshWork Dlmm) RouteSnapshot,
      served.desk = reached.desk ∧ Refreshing (initialModes config) buildFromCurrentState earlier reached ∧
        Followed config buildFromCurrentState sign process earlier reached.shared.routeSnapshot :=
    ⟨served, rfl, refreshing, [], fun _ member => absurd member List.not_mem_nil, process, rfl, shown, rfl⟩
  obtain ⟨_, rfl, _, followed⟩ := run_traced
    (fun past desk => ∃ reached : Served (RouteState Dlmm) (RefreshWork Dlmm) RouteSnapshot,
      desk = reached.desk ∧ Refreshing (initialModes config) buildFromCurrentState past reached ∧
        Followed config buildFromCurrentState sign process past reached.shared.routeSnapshot)
    (by
      rintro past _ event next ⟨reached, rfl, goesOn, followed⟩ taken
      obtain ⟨after, rfl, moves⟩ := step_moves reached event next taken
      exact ⟨after, rfl, moves_kept (refresh_exclusive (modes_distinct config)) moves goesOn,
        step_followed goesOn moves followed⟩)
    earlier later initial ranOn
  exact followed

def sampleProcess : Process :=
  { openBatch bothWays id [] 0 with routeSnapshot := sampleDesk.shared.routeSnapshot.getD ⟨0, []⟩ }

def sampleSecond : List (RefreshEvent Nat String) :=
  [.call, .proceed 2 (.refetched 2), .proceed 2 (.answered "c"), .call, .proceed 2 (.answered "d")]

theorem refreshes_refine_sender_sample : ∃ instructions : List (String → String), ∃ after,
    run (advance bothWays sampleSign) sampleProcess (instructions.map .refreshRouteSnapshot) = some after ∧
      after.routeSnapshot.version = 2 := by
  have second : (run (SingleFlight.step sampleJob) sampleDesk sampleSecond).map
      (·.shared.routeSnapshot.map (·.version)) = some (some 2) := by decide +kernel
  obtain ⟨final, ranOn, shows⟩ := Option.map_eq_some_iff.mp second
  obtain ⟨instructions, _, after, follows, seen, _⟩ := refreshes_refine_sender sampleSign sampleProcess 0
    sampleRefreshes sampleSecond sampleDesk final sample_refreshed (by decide +kernel) ranOn
  rw [seen, Option.map_some, Option.some.injEq] at shows
  exact ⟨instructions, after, follows, shows⟩

end Batch

end ArbExecutor.RouteRefresh
