import Mathlib.Tactic

/-!
A list of cells of one width read as a table of bits. Flipping the bit at a
position changes what the table answers there and nowhere else.
-/

namespace ArbExecutor.BitTable

/-- Cells that hold every number of some width. -/
structure CellCoding (Cell : Type) where
  width : Nat
  toNat : Cell → Nat
  ofNat : Nat → Cell
  positive : 0 < width
  bounded : ∀ cell, toNat cell < 2 ^ width
  exact : ∀ number, number < 2 ^ width → toNat (ofNat number) = number

variable {Cell : Type} (coding : CellCoding Cell)

def CellCoding.flipBit (bit : Nat) (cell : Cell) : Cell := coding.ofNat (coding.toNat cell ^^^ 2 ^ bit)

/-- The bit at a position, counted through the cells; false beyond their end. -/
def CellCoding.bitAt (cells : List Cell) (position : Nat) : Bool :=
  cells[position / coding.width]?.any fun cell => (coding.toNat cell).testBit (position % coding.width)

def CellCoding.toggle (cells : List Cell) (position : Nat) : List Cell :=
  cells.modify (position / coding.width) (coding.flipBit (position % coding.width))

@[simp] theorem toggle_length (cells : List Cell) (position : Nat) :
    (coding.toggle cells position).length = cells.length :=
  List.length_modify _ cells _

theorem flip_bit {bit : Nat} (inside : bit < coding.width) (cell : Cell) (other : Nat) :
    (coding.toNat (coding.flipBit bit cell)).testBit other =
      ((coding.toNat cell).testBit other ^^ decide (other = bit)) := by
  have fits : coding.toNat cell ^^^ 2 ^ bit < 2 ^ coding.width :=
    Nat.xor_lt_two_pow (coding.bounded cell) (Nat.pow_lt_pow_right (by decide) inside)
  rw [CellCoding.flipBit, coding.exact _ fits, Nat.testBit_xor, Nat.testBit_two_pow]
  simp only [eq_comm]

/-- Two positions are one exactly when they name the same bit of the same cell. -/
theorem position_eq_iff (position other : Nat) :
    other = position ↔
      other / coding.width = position / coding.width ∧ other % coding.width = position % coding.width := by
  constructor
  · rintro rfl
    exact ⟨rfl, rfl⟩
  · rintro ⟨sameCell, sameBit⟩
    rw [← Nat.div_add_mod other coding.width, sameCell, sameBit, Nat.div_add_mod]

theorem bit_toggled {cells : List Cell} {position : Nat} (inside : position / coding.width < cells.length)
    (other : Nat) :
    coding.bitAt (coding.toggle cells position) other =
      (coding.bitAt cells other ^^ decide (other = position)) := by
  unfold CellCoding.bitAt CellCoding.toggle
  simp only [position_eq_iff coding position other]
  by_cases sameCell : other / coding.width = position / coding.width
  · obtain ⟨cell, here⟩ : ∃ cell, cells[other / coding.width]? = some cell :=
      ⟨_, List.getElem?_eq_getElem (sameCell ▸ inside)⟩
    rw [sameCell] at here ⊢
    rw [List.getElem?_modify_eq, here]
    simp only [Option.map_eq_map, Option.map_some, Option.any_some, true_and]
    exact flip_bit coding (Nat.mod_lt _ coding.positive) cell _
  · rw [List.getElem?_modify_ne _ _ (Ne.symm sameCell)]
    simp [sameCell]

end ArbExecutor.BitTable
