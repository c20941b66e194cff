import ArbExecutor.BitTable
import ArbExecutor.QuoteAccounts

/-!
Where a bin lives: its array and its place in it, and the one bit that says
whether the array exists. The arrays around the active range are in the bitmap of
the pair; the others are in the extension, counted upwards in its first half and
downwards in its second.
-/

namespace ArbExecutor.BinAddressing

open BitTable Checked QuoteAccounts QuoteMath

section Offsets

/-- The place of a bin in an array is found exactly when it is in that array. -/
theorem bin_offset_ok_iff (binId : Int32) (arrayIndex : Int64) (offset : Nat) :
    binOffset binId.toInt arrayIndex.toInt = .ok offset ↔
      offset < 70 ∧ binId.toInt = 70 * arrayIndex.toInt + offset := by
  have low := binId.le_toInt
  have high := binId.toInt_lt
  unfold binOffset
  simp only [bind_ok_iff, ok_or_eq_ok, checked_signed_some]
  constructor
  · rintro ⟨_, ⟨rfl, _⟩, _, ⟨rfl, _⟩, found⟩
    split at found
    · cases found
      omega
    · cases found
  · rintro ⟨inside, same⟩
    refine ⟨_, ⟨rfl, by omega, by omega⟩, _, ⟨rfl, by omega, by omega⟩, ?_⟩
    rw [if_pos (by omega)]
    exact congrArg Except.ok (by omega)

theorem bin_offset_of_index (binId : Int32) :
    ∃ offset, binOffset binId.toInt (binArrayIndex binId.toInt) = .ok offset ∧ offset < 70 ∧
      binId.toInt = 70 * binArrayIndex binId.toInt + offset := by
  have low := binId.le_toInt
  have high := binId.toInt_lt
  have index : (Int64.ofInt (binArrayIndex binId.toInt)).toInt = binArrayIndex binId.toInt := by
    rw [Int64.toInt_ofInt_of_le] <;> unfold binArrayIndex <;> omega
  have place : (binId.toInt % 70).toNat < 70 ∧
      binId.toInt = 70 * binArrayIndex binId.toInt + (binId.toInt % 70).toNat := by
    unfold binArrayIndex
    omega
  have found := (bin_offset_ok_iff binId (Int64.ofInt (binArrayIndex binId.toInt)) _).mpr (index.symm ▸ place)
  rw [index] at found
  exact ⟨_, found, place⟩

theorem bin_offset_of_other (binId : Int32) (other : Int64)
    (different : other.toInt ≠ binArrayIndex binId.toInt) :
    ∃ error, binOffset binId.toInt other.toInt = .error error := by
  cases found : binOffset binId.toInt other.toInt with
  | error error => exact ⟨error, rfl⟩
  | ok offset =>
      have place := (bin_offset_ok_iff binId other offset).mp found
      unfold binArrayIndex at different
      omega

end Offsets

section Words

def byteCoding : CellCoding UInt8 where
  width := 8
  toNat := UInt8.toNat
  ofNat := UInt8.ofNat
  positive := by decide
  bounded := UInt8.toNat_lt
  exact := fun _ fits => UInt8.toNat_ofNat_of_lt' fits

def wordCoding : CellCoding UInt64 where
  width := 64
  toNat := UInt64.toNat
  ofNat := UInt64.ofNat
  positive := by decide
  bounded := UInt64.toNat_lt
  exact := fun _ fits => UInt64.toNat_ofNat_of_lt' fits

/-- A little-endian number and its bytes are one table of bits. -/
theorem le_nat_bit (slice : Bytes) (bit : Nat) : (leNat slice).testBit bit = byteCoding.bitAt slice bit := by
  induction slice generalizing bit with
  | nil => simp [leNat, CellCoding.bitAt]
  | cons byte rest ih =>
      have split : leNat (byte :: rest) = 2 ^ 8 * leNat rest + byte.toNat := by
        rw [leNat]
        omega
      rw [split, Nat.testBit_two_pow_mul_add _ byte.toNat_lt]
      unfold CellCoding.bitAt at ih ⊢
      by_cases first : bit < 8
      · have here : bit / 8 = 0 ∧ bit % 8 = bit := by omega
        simp [first, byteCoding, here]
      · have later : bit / 8 = (bit - 8) / 8 + 1 ∧ bit % 8 = (bit - 8) % 8 := by omega
        simp only [if_neg first, ih]
        simp only [byteCoding, later, List.getElem?_cons_succ]

theorem slice_bit (data : Bytes) (offset size bit : Nat) (inside : bit < 8 * size) :
    byteCoding.bitAt ((data.drop offset).take size) bit = byteCoding.bitAt data (8 * offset + bit) := by
  have cell : (8 * offset + bit) / 8 = offset + bit / 8 ∧ (8 * offset + bit) % 8 = bit % 8 := by omega
  unfold CellCoding.bitAt
  simp only [byteCoding, cell]
  rw [List.getElem?_take_of_lt (by omega), List.getElem?_drop]

theorem read_u64_bit {data : Bytes} {offset : Nat} (inside : offset + 8 ≤ data.length) :
    ∃ word, readU64 data offset = .ok word ∧
      ∀ bit < 64, word.toNat.testBit bit = byteCoding.bitAt data (8 * offset + bit) := by
  have whole : ((data.drop offset).take 8).length = 8 := by
    rw [List.length_take, List.length_drop]
    omega
  refine ⟨_, by rw [readU64, bytes, if_pos whole]; rfl, fun bit short => ?_⟩
  have fits : leNat ((data.drop offset).take 8) < 2 ^ 64 := by
    refine Nat.lt_pow_two_of_testBit _ fun beyond far => ?_
    rw [le_nat_bit, CellCoding.bitAt, List.getElem?_eq_none]
    · rfl
    · rw [whole]
      exact (Nat.le_div_iff_mul_le (by decide)).mpr far
  rw [UInt64.toNat_ofNat_of_lt' fits, le_nat_bit, slice_bit data offset 8 bit short]

end Words

section Bits

/-- The bytes of a bitmap extension account: a header and two sides of twelve chunks. -/
def extensionLen : Nat := 8 + 32 + 2 * (12 * 8 * 8)

/-- The arrays that either bitmap has a bit for. -/
def Addressed (arrayIndex : Int) : Prop := -6656 ≤ arrayIndex ∧ arrayIndex ≤ 6655

/-- A bit of the pair's bitmap or of the extension account, by its number. -/
inductive BitmapBit where
  | pair (position : Nat)
  | extension (position : Nat)
  deriving DecidableEq

/-- The bit of an array: the downward side of the extension starts at the first
array below the pair's own. -/
def bitOf (arrayIndex : Int) : BitmapBit :=
  if -512 ≤ arrayIndex ∧ arrayIndex ≤ 511 then .pair (arrayIndex + 512).toNat
  else if 512 ≤ arrayIndex then .extension (8 * (8 + 32) + (arrayIndex - 512).toNat)
  else .extension (8 * (8 + 32 + 12 * 8 * 8) + (-513 - arrayIndex).toNat)

def BitmapBit.read (pair : LbPairState) (data : Bytes) : BitmapBit → Bool
  | .pair position => wordCoding.bitAt pair.bitmap.toList position
  | .extension position => byteCoding.bitAt data position

def BitmapBit.togglePair (pair : LbPairState) : BitmapBit → LbPairState
  | .pair position =>
      { pair with bitmap := ⟨(wordCoding.toggle pair.bitmap.toList position).toArray, by simp⟩ }
  | .extension _ => pair

def BitmapBit.toggleData (data : Bytes) : BitmapBit → Bytes
  | .pair _ => data
  | .extension position => byteCoding.toggle data position

theorem bit_of_injective {arrayIndex other : Int} (here : Addressed arrayIndex) (there : Addressed other) :
    bitOf other = bitOf arrayIndex ↔ other = arrayIndex := by
  unfold Addressed at here there
  refine ⟨fun same => ?_, fun same => by rw [same]⟩
  unfold bitOf at same
  split_ifs at same
  all_goals simp only [BitmapBit.pair.injEq, BitmapBit.extension.injEq] at same
  all_goals omega

/-- The bit is in the sixteen words or in the data. -/
def BitmapBit.Inside (data : Bytes) : BitmapBit → Prop
  | .pair position => position < 64 * 16
  | .extension position => position < 8 * data.length

theorem bit_of_inside {data : Bytes} {arrayIndex : Int} (full : extensionLen ≤ data.length)
    (addressed : Addressed arrayIndex) : (bitOf arrayIndex).Inside data := by
  have length : extensionLen = 1576 := rfl
  unfold Addressed at addressed
  unfold bitOf
  split_ifs
  all_goals
    dsimp only [BitmapBit.Inside]
    omega

theorem toggle_data_length (data : Bytes) (bit : BitmapBit) :
    (bit.toggleData data).length = data.length := by
  cases bit with
  | pair position => rfl
  | extension position => exact toggle_length byteCoding data position

end Bits

section Lookup
variable (pair : LbPairState) {data : Bytes} {arrayIndex : Int}

theorem default_bit (bitmap : Vector UInt64 16) (inside : -512 ≤ arrayIndex ∧ arrayIndex ≤ 511) :
    defaultBitmapContains bitmap arrayIndex = wordCoding.bitAt bitmap.toList (arrayIndex + 512).toNat := by
  have word : (arrayIndex + 512).toNat / 64 < bitmap.toList.length := by
    rw [Vector.length_toList]
    omega
  unfold defaultBitmapContains CellCoding.bitAt
  rw [dif_pos inside]
  simp only [wordCoding]
  rw [List.getElem?_eq_getElem word]
  rfl

/-- Inside its twelve chunks a side of the extension holds its arrays in order. -/
theorem side_bit {data : Bytes} (start : Nat) (relative : Int) (first : 512 ≤ relative)
    (last : relative ≤ 6655) (inside : start + 12 * 8 * 8 ≤ data.length) (header : start < 2 ^ 32) :
    (okOr ((checkedAdd 64 start ((relative / 512 - 1).toNat * 64)).bind
      fun value => checkedAdd 64 value ((relative % 512 / 64).toNat * 8)) QuoteError.mathOverflow >>=
        fun offset => readU64 data offset >>= fun word =>
          pure (word.toNat.testBit (relative % 512 % 64).toNat)) =
      .ok (byteCoding.bitAt data (8 * start + (relative - 512).toNat)) := by
  have chunk : (relative / 512 - 1).toNat * 64 ≤ 11 * 64 := by omega
  have word : (relative % 512 / 64).toNat * 8 ≤ 7 * 8 := by omega
  have room : start + (relative / 512 - 1).toNat * 64 + (relative % 512 / 64).toNat * 8 + 8 ≤ data.length := by
    omega
  obtain ⟨value, read, bits⟩ := read_u64_bit room
  rw [checked_add_fits (by omega), Option.bind_some, checked_add_fits (by omega), ok_or_some, ok_bind,
    read, ok_bind, bits _ (by omega)]
  exact congrArg (fun position => Except.ok (byteCoding.bitAt data position)) (by omega)

theorem extension_bit (full : extensionLen ≤ data.length) (addressed : Addressed arrayIndex)
    (beyond : ¬ (-512 ≤ arrayIndex ∧ arrayIndex ≤ 511)) :
    extensionBitmapContains data arrayIndex = .ok ((bitOf arrayIndex).read pair data) := by
  unfold Addressed at addressed
  have length : extensionLen = 1576 := rfl
  unfold extensionBitmapContains bitOf
  rw [if_neg beyond, if_neg beyond]
  dsimp only
  by_cases upper : 512 ≤ arrayIndex
  · rw [if_pos upper, if_pos upper, pure_ok, ok_bind]
    dsimp only
    rw [if_pos (by omega)]
    exact side_bit (8 + 32) arrayIndex upper addressed.2 (by omega) (by decide)
  · have raised : checkedSigned 64 (arrayIndex + 1) = some (arrayIndex + 1) := by
      rw [checked_signed_some]
      omega
    have turned : checkedSigned 64 (-(arrayIndex + 1)) = some (-(arrayIndex + 1)) := by
      rw [checked_signed_some]
      omega
    rw [if_neg upper, if_neg upper, raised, ok_or_some, ok_bind, turned, ok_or_some, ok_bind, pure_ok, ok_bind]
    dsimp only
    rw [if_pos (by omega)]
    -- Turned about, -513 stands where 512 does, so the downward side is read by the same lemma.
    have below := side_bit (8 + 32 + 12 * 8 * 8) (-(arrayIndex + 1)) (by omega) (by omega)
      (show _ ≤ data.length by omega) (by decide)
    rw [show (-(arrayIndex + 1) - 512).toNat = (-513 - arrayIndex).toNat by omega] at below
    exact below

theorem initialized_bit (full : extensionLen ≤ data.length) (addressed : Addressed arrayIndex) :
    arrayInitialized pair (some data) arrayIndex = .ok ((bitOf arrayIndex).read pair data) := by
  unfold arrayInitialized
  by_cases inside : -512 ≤ arrayIndex ∧ arrayIndex ≤ 511
  · rw [if_pos inside, default_bit pair.bitmap inside, bitOf, if_pos inside]
    rfl
  · rw [if_neg inside]
    exact extension_bit pair full addressed inside

/-- Outside both bitmaps the lookup answers before it reads. -/
theorem initialized_outside (data : Bytes) (arrayIndex : Int64) (outside : ¬ Addressed arrayIndex.toInt) :
    arrayInitialized pair (some data) arrayIndex.toInt = .ok false := by
  have low := arrayIndex.le_toInt
  have high := arrayIndex.toInt_lt
  unfold Addressed at outside
  unfold arrayInitialized extensionBitmapContains
  rw [if_neg (by omega)]
  dsimp only
  rw [if_neg (by omega)]
  by_cases upper : 512 ≤ arrayIndex.toInt
  · rw [if_pos upper, pure_ok, ok_bind]
    dsimp only
    rw [if_neg (by omega)]
    rfl
  · have raised : checkedSigned 64 (arrayIndex.toInt + 1) = some (arrayIndex.toInt + 1) := by
      rw [checked_signed_some]
      omega
    have turned : checkedSigned 64 (-(arrayIndex.toInt + 1)) = some (-(arrayIndex.toInt + 1)) := by
      rw [checked_signed_some]
      omega
    rw [if_neg upper, raised, ok_or_some, ok_bind, turned, ok_or_some, ok_bind, pure_ok, ok_bind]
    dsimp only
    rw [if_neg (by omega)]
    rfl

/-- Toggling a bit that is there changes that bit and no other. -/
theorem bit_toggle {bit : BitmapBit} (inside : bit.Inside data) (asked : BitmapBit) :
    asked.read (bit.togglePair pair) (bit.toggleData data) =
      (asked.read pair data ^^ decide (asked = bit)) := by
  cases bit with
  | pair position =>
      cases asked with
      | pair others =>
          have short : position / wordCoding.width < pair.bitmap.toList.length := by
            rw [Vector.length_toList]
            exact Nat.div_lt_of_lt_mul inside
          simp only [BitmapBit.read, BitmapBit.togglePair, BitmapBit.pair.injEq]
          exact bit_toggled wordCoding short others
      | extension others => simp [BitmapBit.read, BitmapBit.toggleData]
  | extension position =>
      cases asked with
      | pair others => simp [BitmapBit.read, BitmapBit.togglePair]
      | extension others =>
          have short : position / byteCoding.width < data.length := Nat.div_lt_of_lt_mul inside
          simp only [BitmapBit.read, BitmapBit.toggleData, BitmapBit.extension.injEq]
          exact bit_toggled byteCoding short others

end Lookup

/-- Every bin has one place in one array, and every array in range has one bit of its
own, wherever the lookup finds it; outside the range there is nothing to read. -/
theorem bin_addressing :
    (∀ binId : Int32,
      (∃ offset, binOffset binId.toInt (binArrayIndex binId.toInt) = .ok offset ∧ offset < 70 ∧
        binId.toInt = 70 * binArrayIndex binId.toInt + offset) ∧
      ∀ other : Int64, other.toInt ≠ binArrayIndex binId.toInt →
        ∃ error, binOffset binId.toInt other.toInt = .error error) ∧
      ∀ (pair : LbPairState) (data : Bytes), extensionLen ≤ data.length → ∀ arrayIndex : Int64,
        (∃ initialized, arrayInitialized pair (some data) arrayIndex.toInt = .ok initialized) ∧
        (¬ Addressed arrayIndex.toInt → arrayInitialized pair (some data) arrayIndex.toInt = .ok false) ∧
        (Addressed arrayIndex.toInt →
          arrayInitialized pair (some data) arrayIndex.toInt = .ok ((bitOf arrayIndex.toInt).read pair data) ∧
          ∀ other : Int64,
            arrayInitialized ((bitOf arrayIndex.toInt).togglePair pair)
                (some ((bitOf arrayIndex.toInt).toggleData data)) other.toInt =
              (arrayInitialized pair (some data) other.toInt).map fun initialized =>
                if other = arrayIndex then !initialized else initialized) := by
  refine ⟨fun binId => ⟨bin_offset_of_index binId, bin_offset_of_other binId⟩,
    fun pair data full arrayIndex => ⟨?_, initialized_outside pair data arrayIndex, fun addressed =>
      ⟨initialized_bit pair full addressed, fun other => ?_⟩⟩⟩
  · by_cases addressed : Addressed arrayIndex.toInt
    · exact ⟨_, initialized_bit pair full addressed⟩
    · exact ⟨false, initialized_outside pair data arrayIndex addressed⟩
  · by_cases there : Addressed other.toInt
    · have asks : decide (bitOf other.toInt = bitOf arrayIndex.toInt) = decide (other = arrayIndex) :=
        decide_eq_decide.mpr ((bit_of_injective addressed there).trans Int64.toInt_inj)
      rw [initialized_bit _ ((toggle_data_length data _).symm ▸ full) there, initialized_bit pair full there,
        bit_toggle pair (bit_of_inside full addressed), asks]
      by_cases same : other = arrayIndex <;> simp [same, Except.map]
    · rw [initialized_outside _ _ other there, initialized_outside pair data other there]
      have different : other ≠ arrayIndex := fun same => there (same ▸ addressed)
      simp [different, Except.map]

/-- A pair and an extension in which no array is initialized. -/
def blankPair : LbPairState where
  staticParameters := ⟨0, 0, 0, 0, 0, 0, 0, 0, 0, 0⟩
  variableParameters := ⟨0, 0, 0, 0⟩
  activeId := 0
  binStep := 0
  bitmap := Vector.replicate 16 0
  rewardsAreEmpty := true

def blankExtension : Bytes := List.replicate extensionLen 0

theorem bin_addressing_blank :
    ∀ other : Int64,
      arrayInitialized ((bitOf (-513)).togglePair blankPair) (some ((bitOf (-513)).toggleData blankExtension))
          other.toInt =
        (arrayInitialized blankPair (some blankExtension) other.toInt).map fun initialized =>
          if other = -513 then !initialized else initialized :=
  ((bin_addressing.2 blankPair blankExtension (by rw [blankExtension, List.length_replicate]) (-513)).2.2
    (by unfold Addressed; decide)).2

end ArbExecutor.BinAddressing
