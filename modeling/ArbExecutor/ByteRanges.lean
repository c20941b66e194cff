import Mathlib.Tactic

/-!
Fields of a fixed-layout record. A record is a list of items, a field a range of
it with the contents that range should have. Writing a list of fields over any
record leaves every one of them readable as long as their ranges do not meet.
Nothing here names a format.
-/

namespace ArbExecutor.ByteRanges

variable {Item : Type}

structure FieldAt (Item : Type) where
  offset : Nat
  content : List Item
  deriving DecidableEq

def slice (record : List Item) (offset size : Nat) : List Item := (record.drop offset).take size

def FieldAt.finish (field : FieldAt Item) : Nat := field.offset + field.content.length

/-- The record has the field's contents in the field's place. -/
def HasField (record : List Item) (field : FieldAt Item) : Prop :=
  slice record field.offset field.content.length = field.content

def Carries (record : List Item) (fields : List (FieldAt Item)) : Prop :=
  ∀ field ∈ fields, HasField record field

def put (record : List Item) (field : FieldAt Item) : List Item :=
  record.take field.offset ++ (field.content ++ record.drop field.finish)

def putAll (record : List Item) : List (FieldAt Item) → List Item
  | [] => record
  | field :: rest => put (putAll record rest) field

def Precedes (first second : FieldAt Item) : Prop := first.finish ≤ second.offset

instance (first second : FieldAt Item) : Decidable (Precedes first second) :=
  inferInstanceAs (Decidable (_ ≤ _))

/-- Fields in the order of their offsets, none reaching into the next, all inside the size. -/
structure WellPlaced (fields : List (FieldAt Item)) (size : Nat) : Prop where
  ordered : fields.Pairwise Precedes
  inside : ∀ field ∈ fields, field.finish ≤ size

@[simp] theorem carries_nil (record : List Item) : Carries record [] := by
  intro field absent
  cases absent

@[simp] theorem carries_cons (record : List Item) (field : FieldAt Item) (rest : List (FieldAt Item)) :
    Carries record (field :: rest) ↔ HasField record field ∧ Carries record rest := by
  simp [Carries]

theorem carries_append (record : List Item) (left right : List (FieldAt Item)) :
    Carries record (left ++ right) ↔ Carries record left ∧ Carries record right := by
  simp only [Carries, List.mem_append]
  constructor
  · intro all
    exact ⟨fun field member => all field (.inl member), fun field member => all field (.inr member)⟩
  · rintro ⟨atLeft, atRight⟩ field (member | member)
    · exact atLeft field member
    · exact atRight field member

theorem length_put (record : List Item) (field : FieldAt Item) (fits : field.finish ≤ record.length) :
    (put record field).length = record.length := by
  unfold FieldAt.finish at fits
  simp only [put, FieldAt.finish, List.length_append, List.length_take, List.length_drop]
  omega

theorem put_has_field (record : List Item) (field : FieldAt Item)
    (fits : field.offset ≤ record.length) : HasField (put record field) field := by
  have start : (record.take field.offset).length = field.offset := List.length_take_of_le fits
  unfold HasField slice put
  rw [List.drop_append_of_le_length (by omega), List.drop_of_length_le (by omega), List.nil_append,
    List.take_left]

/-- A range that ends before the field or starts after it is as it was. -/
theorem slice_put_apart (record : List Item) (field : FieldAt Item) (offset size : Nat)
    (fits : field.finish ≤ record.length)
    (apart : offset + size ≤ field.offset ∨ field.finish ≤ offset) :
    slice (put record field) offset size = slice record offset size := by
  have start : (record.take field.offset).length = field.offset :=
    List.length_take_of_le (by unfold FieldAt.finish at fits; omega)
  unfold slice put
  rcases apart with before | after
  · rw [List.drop_append_of_le_length (by omega), List.take_append_of_le_length
      (by rw [List.length_drop]; omega), List.drop_take, List.take_take, Nat.min_eq_left (by omega)]
  · have skipped : record.drop offset = (record.drop field.finish).drop (offset - field.finish) := by
      rw [List.drop_drop, Nat.add_sub_cancel' after]
    rw [← List.append_assoc, List.drop_append, List.drop_of_length_le
      (by rw [List.length_append, start]; exact after), List.nil_append, List.length_append, start,
      skipped]
    rfl

theorem length_put_all (record : List Item) (fields : List (FieldAt Item))
    (inside : ∀ field ∈ fields, field.finish ≤ record.length) :
    (putAll record fields).length = record.length := by
  induction fields with
  | nil => rfl
  | cons field rest ih =>
      have kept := ih fun later member => inside later (List.mem_cons_of_mem _ member)
      rw [putAll, length_put _ _ (by rw [kept]; exact inside field List.mem_cons_self), kept]

/-- Every field written stands, whatever the record held before. -/
theorem put_all_carries (record : List Item) (fields : List (FieldAt Item))
    (placed : WellPlaced fields record.length) : Carries (putAll record fields) fields := by
  obtain ⟨ordered, inside⟩ := placed
  induction fields with
  | nil => exact carries_nil _
  | cons field rest ih =>
      obtain ⟨before, orderedRest⟩ := List.pairwise_cons.mp ordered
      have insideRest : ∀ later ∈ rest, later.finish ≤ record.length :=
        fun later member => inside later (List.mem_cons_of_mem _ member)
      have kept := length_put_all record rest insideRest
      have fits : field.finish ≤ (putAll record rest).length := by
        rw [kept]
        exact inside field List.mem_cons_self
      rw [putAll, carries_cons]
      refine ⟨put_has_field _ _ (by unfold FieldAt.finish at fits; omega), fun later member => ?_⟩
      have apart : field.finish ≤ later.offset := before later member
      unfold HasField
      rw [slice_put_apart _ _ _ _ fits (.inr apart)]
      exact ih orderedRest insideRest later member

/-- A range that meets none of the fields is not written. -/
theorem slice_put_all_apart (record : List Item) (fields : List (FieldAt Item)) (offset size : Nat)
    (inside : ∀ field ∈ fields, field.finish ≤ record.length)
    (apart : ∀ field ∈ fields, offset + size ≤ field.offset ∨ field.finish ≤ offset) :
    slice (putAll record fields) offset size = slice record offset size := by
  induction fields with
  | nil => rfl
  | cons field rest ih =>
      have insideRest : ∀ later ∈ rest, later.finish ≤ record.length :=
        fun later member => inside later (List.mem_cons_of_mem _ member)
      have kept := length_put_all record rest insideRest
      rw [putAll, slice_put_apart _ _ _ _ (by rw [kept]; exact inside field List.mem_cons_self)
        (apart field List.mem_cons_self)]
      exact ih insideRest fun later member => apart later (List.mem_cons_of_mem _ member)

theorem has_field_fits {record : List Item} {field : FieldAt Item} (held : HasField record field)
    (wide : 0 < field.content.length) : field.finish ≤ record.length := by
  have lengths := congrArg List.length held
  rw [slice, List.length_take, List.length_drop] at lengths
  unfold FieldAt.finish
  omega

end ArbExecutor.ByteRanges
