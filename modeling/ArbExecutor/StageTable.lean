import Mathlib.Tactic

/-!
A table of stages in the order its entries were made. An entry is only ever added
at the end or moved to another stage; these are the lookups after either, and the
sum of a weight over all stages after a move.
-/

namespace ArbExecutor.StageTable

variable {Stage : Type} {stages : List Stage} {entry : Nat}

theorem stage_appended (stages : List Stage) (last stage : Stage) (entry : Nat) :
    (stages ++ [last])[entry]? = some stage ↔
      stages[entry]? = some stage ∨ entry = stages.length ∧ last = stage := by
  rcases Nat.lt_trichotomy entry stages.length with earlier | rfl | later
  · rw [List.getElem?_append_left earlier]
    exact ⟨.inl, fun found => found.elim id fun here => absurd here.1 earlier.ne⟩
  · rw [List.getElem?_concat_length, List.getElem?_eq_none le_rfl]
    simp
  · rw [List.getElem?_eq_none (by simp; omega), List.getElem?_eq_none later.le]
    simp [later.ne']

theorem stage_set (inside : entry < stages.length) (new stage : Stage) (other : Nat) :
    (stages.set entry new)[other]? = some stage ↔
      other = entry ∧ new = stage ∨ other ≠ entry ∧ stages[other]? = some stage := by
  by_cases same : other = entry
  · rw [same, List.getElem?_set_self inside]
    simp
  · rw [List.getElem?_set_ne (Ne.symm same)]
    simp [same]

/-- A move changes the sum by what it changes at its entry. -/
theorem weight_set (weight : Stage → Nat) {old : Stage} (here : stages[entry]? = some old) (new : Stage) :
    ((stages.set entry new).map weight).sum + weight old = (stages.map weight).sum + weight new := by
  induction stages generalizing entry with
  | nil => cases here
  | cons first rest ih =>
      cases entry with
      | zero =>
          cases here
          simp only [List.set_cons_zero, List.map_cons, List.sum_cons]
          omega
      | succ earlier =>
          have later := ih here
          simp only [List.set_cons_succ, List.map_cons, List.sum_cons]
          omega

end ArbExecutor.StageTable
