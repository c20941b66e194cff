import Mathlib.Tactic

/-!
Width-checked natural arithmetic, failure-carrying results and the division
adjoints used by integer pricing. Nothing here names a protocol: a `bits`
argument is the width of the machine word a result has to fit.
-/

namespace ArbExecutor.Checked

section Words

def checkedAdd (bits left right : Nat) : Option Nat :=
  if left + right < 2 ^ bits then some (left + right) else none

def checkedSub (left right : Nat) : Option Nat :=
  if right ≤ left then some (left - right) else none

def checkedMul (bits left right : Nat) : Option Nat :=
  if left * right < 2 ^ bits then some (left * right) else none

/-- Conversion to a narrower word, failing instead of truncating. -/
def narrow (bits value : Nat) : Option Nat :=
  if value < 2 ^ bits then some value else none

/-- A signed result that has to fit a two's-complement word. -/
def checkedSigned (bits : Nat) (value : Int) : Option Int :=
  if -2 ^ (bits - 1) ≤ value ∧ value < 2 ^ (bits - 1) then some value else none

def saturatingSigned (bits : Nat) (value : Int) : Int :=
  max (-2 ^ (bits - 1)) (min value (2 ^ (bits - 1) - 1))

def saturatingAdd (bits left right : Nat) : Nat := min (left + right) (2 ^ bits - 1)

def saturatingMul (bits left right : Nat) : Nat := min (left * right) (2 ^ bits - 1)

def wordMax (bits : Nat) : Nat := 2 ^ bits - 1

@[simp] theorem checked_add_some (bits left right value : Nat) :
    checkedAdd bits left right = some value ↔ value = left + right ∧ left + right < 2 ^ bits := by
  unfold checkedAdd
  split <;> simp_all [eq_comm]

@[simp] theorem checked_sub_some (left right value : Nat) :
    checkedSub left right = some value ↔ value = left - right ∧ right ≤ left := by
  unfold checkedSub
  split <;> simp_all [eq_comm]

@[simp] theorem checked_mul_some (bits left right value : Nat) :
    checkedMul bits left right = some value ↔ value = left * right ∧ left * right < 2 ^ bits := by
  unfold checkedMul
  split <;> simp_all [eq_comm]

@[simp] theorem narrow_some (bits value result : Nat) :
    narrow bits value = some result ↔ result = value ∧ value < 2 ^ bits := by
  unfold narrow
  split <;> grind

@[simp] theorem checked_signed_some (bits : Nat) (value result : Int) :
    checkedSigned bits value = some result ↔
      result = value ∧ -2 ^ (bits - 1) ≤ value ∧ value < 2 ^ (bits - 1) := by
  unfold checkedSigned
  split <;> grind

theorem checked_add_fits {bits left right : Nat} (fits : left + right < 2 ^ bits) :
    checkedAdd bits left right = some (left + right) := by simp [fits]

theorem checked_sub_fits {left right : Nat} (fits : right ≤ left) :
    checkedSub left right = some (left - right) := by simp [fits]

theorem checked_mul_fits {bits left right : Nat} (fits : left * right < 2 ^ bits) :
    checkedMul bits left right = some (left * right) := by simp [fits]

theorem narrow_fits {bits value : Nat} (fits : value < 2 ^ bits) :
    narrow bits value = some value := by simp [fits]

end Words

section Results
variable {Error Result Next : Type}

def okOr (value : Option Result) (error : Error) : Except Error Result :=
  match value with
  | some result => .ok result
  | none => .error error

@[simp] theorem ok_or_some (result : Result) (error : Error) :
    okOr (some result) error = .ok result := rfl

@[simp] theorem ok_or_none (error : Error) : okOr (none : Option Result) error = .error error := rfl

@[simp] theorem ok_or_eq_ok (value : Option Result) (error : Error) (result : Result) :
    okOr value error = .ok result ↔ value = some result := by
  cases value <;> simp

@[simp] theorem ok_bind (value : Result) (next : Result → Except Error Next) :
    ((Except.ok value : Except Error Result) >>= next) = next value := rfl

@[simp] theorem error_bind (error : Error) (next : Result → Except Error Next) :
    ((Except.error error : Except Error Result) >>= next) = .error error := rfl

/-- A sequence succeeds exactly when its first part does and the rest succeeds on it. -/
theorem bind_ok_iff (first : Except Error Result) (next : Result → Except Error Next)
    (value : Next) :
    (first >>= next) = .ok value ↔ ∃ middle, first = .ok middle ∧ next middle = .ok value := by
  cases first <;> simp

theorem to_option_some (outcome : Except Error Result) (value : Result) :
    outcome.toOption = some value ↔ outcome = .ok value := by
  cases outcome <;> simp [Except.toOption]

/-- Two branches that continue alike continue once. -/
theorem if_bind (test : Prop) [Decidable test] (first second : Except Error Result)
    (next : Result → Except Error Next) :
    (if test then first >>= next else second >>= next) = (if test then first else second) >>= next := by
  split <;> rfl

@[simp] theorem map_error_ok {Other : Type} (convert : Error → Other) (value : Result) :
    (Except.ok value : Except Error Result).mapError convert = .ok value := rfl

theorem map_error_ok_iff {Other : Type} (convert : Error → Other)
    (outcome : Except Error Result) (value : Result) :
    outcome.mapError convert = .ok value ↔ outcome = .ok value := by
  cases outcome <;> simp [Except.mapError]

@[simp] theorem pure_ok (value : Result) : (pure value : Except Error Result) = .ok value := rfl

end Results

/-! Rounded division is one half of an adjunction: a ceiling quotient is the
least factor that reaches its numerator, a floor quotient the greatest one that
stays within it. -/
section Division

def ceilQuotient (numerator denominator : Nat) : Nat :=
  (numerator + (denominator - 1)) / denominator

theorem ceil_quotient_le_iff {numerator denominator factor : Nat} (positive : 0 < denominator) :
    ceilQuotient numerator denominator ≤ factor ↔ numerator ≤ factor * denominator := by
  unfold ceilQuotient
  rw [Nat.div_le_iff_le_mul_add_pred positive, Nat.mul_comm]
  omega

theorem le_floor_quotient_iff {numerator denominator factor : Nat} (positive : 0 < denominator) :
    factor ≤ numerator / denominator ↔ factor * denominator ≤ numerator :=
  Nat.le_div_iff_mul_le positive

theorem ceil_quotient_mul_ge (numerator : Nat) {denominator : Nat} (positive : 0 < denominator) :
    numerator ≤ ceilQuotient numerator denominator * denominator :=
  (ceil_quotient_le_iff positive).mp le_rfl

theorem ceil_quotient_mono {left right denominator : Nat} (ordered : left ≤ right) :
    ceilQuotient left denominator ≤ ceilQuotient right denominator :=
  Nat.div_le_div_right (by omega)

theorem lt_ceil_quotient_iff {numerator denominator factor : Nat} (positive : 0 < denominator) :
    factor < ceilQuotient numerator denominator ↔ factor * denominator < numerator := by
  rw [← not_le, ceil_quotient_le_iff positive, not_le]

@[simp] theorem ceil_quotient_zero (denominator : Nat) : ceilQuotient 0 denominator = 0 := by
  unfold ceilQuotient
  cases denominator with
  | zero => simp
  | succ n => exact Nat.div_eq_of_lt (by omega)

end Division

end ArbExecutor.Checked
