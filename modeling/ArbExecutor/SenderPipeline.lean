import Mathlib.Data.List.Basic

/-!
The two queues of scripts/sender-pipeline.ts. Both run on one thread, so that
each method is one step up to its first await. A gate hands out a bounded number
of slots in the order they are asked for; a manifest writer keeps at most one
write-then-rename in flight and starts over while an update is pending.
-/

namespace ArbExecutor.SenderPipeline

section Gate
variable {Task : Type}

structure ConcurrencyGate (Task : Type) where
  active : Nat
  waiters : List Task
  deriving DecidableEq

def ConcurrencyGate.opened : ConcurrencyGate Task := { active := 0, waiters := [] }

/-- A free slot is taken at once, otherwise the task waits its turn. -/
def ConcurrencyGate.acquire (limit : Nat) (gate : ConcurrencyGate Task) (task : Task) :
    Bool × ConcurrencyGate Task :=
  if gate.active < limit then (true, { gate with active := gate.active + 1 })
  else (false, { gate with waiters := gate.waiters ++ [task] })

/-- The first waiter takes the slot that is given back. -/
def ConcurrencyGate.release (gate : ConcurrencyGate Task) : Option Task × ConcurrencyGate Task :=
  match gate.waiters with
  | [] => (none, { gate with active := gate.active - 1 })
  | next :: waiters => (some next, { active := gate.active - 1 + 1, waiters })

end Gate

section Writer
variable {Rendering : Type}

/-- What a drain awaits: the temporary file or its renaming. -/
inductive WriteStage (Rendering : Type) where
  | writeFile (rendering : Rendering)
  | rename (rendering : Rendering)
  deriving DecidableEq

def WriteStage.rendering : WriteStage Rendering → Rendering
  | .writeFile rendering => rendering
  | .rename rendering => rendering

structure AsyncManifestWriter (Rendering : Type) where
  dirty : Bool
  writing : Option (WriteStage Rendering)
  deriving DecidableEq

def AsyncManifestWriter.idle : AsyncManifestWriter Rendering := { dirty := false, writing := none }

/-- A drain renders at once and awaits the file, or ends when nothing is pending. -/
def AsyncManifestWriter.drain (writer : AsyncManifestWriter Rendering) (render : Rendering) :
    AsyncManifestWriter Rendering :=
  if writer.dirty then { dirty := false, writing := some (.writeFile render) }
  else { writer with writing := none }

def AsyncManifestWriter.request (writer : AsyncManifestWriter Rendering) (render : Rendering) :
    AsyncManifestWriter Rendering :=
  if writer.writing.isNone then { writer with dirty := true }.drain render
  else { writer with dirty := true }

/-- No update is pending while nothing is being written. -/
def AsyncManifestWriter.Busy (writer : AsyncManifestWriter Rendering) : Prop :=
  writer.dirty = true → writer.writing.isSome = true

theorem drain_busy (writer : AsyncManifestWriter Rendering) (render : Rendering) :
    (writer.drain render).Busy := by
  unfold AsyncManifestWriter.drain AsyncManifestWriter.Busy
  split
  · exact fun _ => rfl
  next clean => exact fun pending => absurd pending clean

/-- A request either renders at once or leaves its update pending behind a write. -/
theorem request_cases (writer : AsyncManifestWriter Rendering) (render : Rendering) :
    writer.writing = none ∧
        writer.request render = { dirty := false, writing := some (.writeFile render) } ∨
      writer.writing.isSome = true ∧ writer.request render = { writer with dirty := true } := by
  unfold AsyncManifestWriter.request
  cases writer.writing with
  | none => exact .inl ⟨rfl, rfl⟩
  | some stage => exact .inr ⟨rfl, rfl⟩

/-- The end of a write renders a pending update or ends the drain. -/
theorem drain_cases (writer : AsyncManifestWriter Rendering) (render : Rendering) :
    writer.dirty = true ∧
        writer.drain render = { dirty := false, writing := some (.writeFile render) } ∨
      writer.dirty = false ∧ writer.drain render = { dirty := false, writing := none } := by
  obtain ⟨dirty, writing⟩ := writer
  cases dirty with
  | true => exact .inl ⟨rfl, rfl⟩
  | false => exact .inr ⟨rfl, rfl⟩

end Writer

end ArbExecutor.SenderPipeline
