import ArbExecutor.AccountValidation

/-!
The byte layout of a BinArray account, written out as an encoder. Reading any
bin back from an encoded account returns that bin, and an encoded account is
one that account validation accepts.
-/

namespace ArbExecutor.BinArrayLayout

open Checked QuoteMath QuoteAccounts AccountValidation

def leBytes : Nat → Nat → Bytes
  | 0, _ => []
  | width + 1, value => UInt8.ofNat value :: leBytes width (value / 256)

def zeros (count : Nat) : Bytes := List.replicate count 0

def encodeBin (bin : Bin) : Bytes :=
  leBytes 8 bin.amountX.toNat ++ leBytes 8 bin.amountY.toNat ++ leBytes 16 bin.priceQ64.toNat ++
    zeros 80 ++ leBytes 8 bin.openOrderAmount.toNat ++ zeros 8 ++
    leBytes 8 bin.processedOrderRemainingAmount.toNat ++ zeros 4 ++
    [if bin.limitOrderAskSide then 1 else 0] ++ zeros 3

def encodeBinArray (lbPair : Pubkey) (index : Int64) (bins : List Bin) : Bytes :=
  meteoraBinArrayDiscriminator ++ leBytes 8 index.toUInt64.toNat ++ zeros 8 ++ lbPair.val ++
    bins.flatMap encodeBin

def emptyBin : Bin where
  priceQ64 := 0
  amountX := 0
  amountY := 0
  openOrderAmount := 0
  processedOrderRemainingAmount := 0
  limitOrderAskSide := false

/-- A BinArray account of the DLMM program; bins that are not given are empty. -/
def binArrayAccount (key lbPair : Pubkey) (index : Int64) (bins : List Bin) : AccountInfo where
  key := key
  owner := meteoraDlmmProgramId
  isWritable := true
  isSigner := false
  data := encodeBinArray lbPair index (bins ++ List.replicate (70 - bins.length) emptyBin)

@[simp] theorem length_le_bytes (width value : Nat) : (leBytes width value).length = width := by
  induction width generalizing value with
  | zero => rfl
  | succ width ih => rw [leBytes, List.length_cons, ih]

@[simp] theorem length_zeros (count : Nat) : (zeros count).length = count := List.length_replicate

@[simp] theorem length_encode_bin (bin : Bin) : (encodeBin bin).length = binSize := by
  simp [encodeBin, binSize]

theorem le_nat_le_bytes (width value : Nat) (fits : value < 256 ^ width) :
    leNat (leBytes width value) = value := by
  induction width generalizing value with
  | zero => simp only [pow_zero] at fits; simp [leBytes, leNat]; omega
  | succ width ih =>
      have less : value / 256 < 256 ^ width := by
        rw [Nat.div_lt_iff_lt_mul (by decide), ← pow_succ]
        exact fits
      rw [leBytes, leNat, ih _ less, UInt8.toNat_ofNat']
      omega

/-- A slice taken where a part was put returns the part. -/
theorem bytes_at (front part rest : Bytes) {offset size : Nat} (start : front.length = offset)
    (wide : part.length = size) : bytes (front ++ (part ++ rest)) offset size = .ok part := by
  unfold bytes
  rw [← start, ← wide, List.drop_left, List.take_left]
  exact if_pos rfl

theorem item_at (front : Bytes) (item : UInt8) (rest : Bytes) (offset : Nat)
    (start : front.length = offset) : (front ++ ([item] ++ rest))[offset]? = some item := by
  rw [List.getElem?_append_right (by omega), start, Nat.sub_self]
  rfl

theorem read_u64_at (front rest : Bytes) (value : UInt64) (offset : Nat)
    (start : front.length = offset) :
    readU64 (front ++ (leBytes 8 value.toNat ++ rest)) offset = .ok value := by
  have small : value.toNat < 256 ^ 8 := value.toNat_lt
  unfold readU64
  rw [bytes_at front _ rest start (length_le_bytes _ _), ok_bind, le_nat_le_bytes _ _ small,
    UInt64.ofNat_toNat]
  rfl

theorem read_u128_at (front rest : Bytes) (value : BitVec 128) (offset : Nat)
    (start : front.length = offset) :
    readU128 (front ++ (leBytes 16 value.toNat ++ rest)) offset = .ok value := by
  have small : value.toNat < 256 ^ 16 := value.isLt
  unfold readU128
  rw [bytes_at front _ rest start (length_le_bytes _ _), ok_bind, le_nat_le_bytes _ _ small,
    BitVec.ofNat_toNat, BitVec.setWidth_eq]
  rfl

theorem read_i64_at (front rest : Bytes) (value : Int64) (offset : Nat)
    (start : front.length = offset) :
    readI64 (front ++ (leBytes 8 value.toUInt64.toNat ++ rest)) offset = .ok value := by
  have small : value.toUInt64.toNat < 256 ^ 8 := value.toUInt64.toNat_lt
  unfold readI64
  rw [bytes_at front _ rest start (length_le_bytes _ _), ok_bind, le_nat_le_bytes _ _ small,
    UInt64.ofNat_toNat]
  rfl

/-- The fields of a bin are read back from wherever its bytes stand. -/
theorem parse_bin_at (front rest : Bytes) (bin : Bin) (base index : Nat)
    (start : front.length = base + index * binSize) (fits : base + index * binSize < 2 ^ 64) :
    parseBin (front ++ (encodeBin bin ++ rest)) base index = .ok bin := by
  have product : checkedMul 64 index binSize = some (index * binSize) :=
    (checked_mul_some _ _ _ _).mpr ⟨rfl, by omega⟩
  have sum : checkedAdd 64 base (index * binSize) = some (base + index * binSize) :=
    (checked_add_some _ _ _ _).mpr ⟨rfl, fits⟩
  generalize base + index * binSize = offset at start sum
  unfold encodeBin
  -- The fields are opaque blocks from here on; only their lengths place the ones after them.
  generalize atX : leBytes 8 bin.amountX.toNat = x
  generalize atY : leBytes 8 bin.amountY.toNat = y
  generalize atPrice : leBytes 16 bin.priceQ64.toNat = price
  generalize atOpen : leBytes 8 bin.openOrderAmount.toNat = opened
  generalize atProcessed : leBytes 8 bin.processedOrderRemainingAmount.toNat = processed
  have lengthX : x.length = 8 := by rw [← atX, length_le_bytes]
  have lengthY : y.length = 8 := by rw [← atY, length_le_bytes]
  have lengthPrice : price.length = 16 := by rw [← atPrice, length_le_bytes]
  have lengthOpen : opened.length = 8 := by rw [← atOpen, length_le_bytes]
  have lengthProcessed : processed.length = 8 := by rw [← atProcessed, length_le_bytes]
  simp only [List.append_assoc]
  have amountX := atX ▸ read_u64_at front
    (y ++ (price ++ (zeros 80 ++ (opened ++ (zeros 8 ++ (processed ++ (zeros 4 ++
      ([if bin.limitOrderAskSide then 1 else 0] ++ (zeros 3 ++ rest))))))))) bin.amountX offset start
  have amountY := atY ▸ read_u64_at (front ++ x)
    (price ++ (zeros 80 ++ (opened ++ (zeros 8 ++ (processed ++ (zeros 4 ++
      ([if bin.limitOrderAskSide then 1 else 0] ++ (zeros 3 ++ rest)))))))) bin.amountY
    (offset + 8) (by simp [start, lengthX])
  have priceQ64 := atPrice ▸ read_u128_at (front ++ (x ++ y))
    (zeros 80 ++ (opened ++ (zeros 8 ++ (processed ++ (zeros 4 ++
      ([if bin.limitOrderAskSide then 1 else 0] ++ (zeros 3 ++ rest))))))) bin.priceQ64
    (offset + 16) (by simp [start, lengthX, lengthY])
  have openOrder := atOpen ▸ read_u64_at (front ++ (x ++ (y ++ (price ++ zeros 80))))
    (zeros 8 ++ (processed ++ (zeros 4 ++
      ([if bin.limitOrderAskSide then 1 else 0] ++ (zeros 3 ++ rest))))) bin.openOrderAmount
    (offset + 112) (by simp [start, lengthX, lengthY, lengthPrice])
  have processedOrder := atProcessed ▸ read_u64_at
    (front ++ (x ++ (y ++ (price ++ (zeros 80 ++ (opened ++ zeros 8))))))
    (zeros 4 ++ ([if bin.limitOrderAskSide then 1 else 0] ++ (zeros 3 ++ rest)))
    bin.processedOrderRemainingAmount (offset + 128)
    (by simp [start, lengthX, lengthY, lengthPrice, lengthOpen])
  have askSide : (front ++ (x ++ (y ++ (price ++ (zeros 80 ++ (opened ++ (zeros 8 ++ (processed ++
      (zeros 4 ++ ([if bin.limitOrderAskSide then 1 else 0] ++ (zeros 3 ++ rest)))))))))))[offset + 140]? =
      some (if bin.limitOrderAskSide then 1 else 0) := by
    have front' : (front ++ (x ++ (y ++ (price ++ (zeros 80 ++ (opened ++ (zeros 8 ++ (processed ++
        zeros 4)))))))).length = offset + 140 := by
      simp [start, lengthX, lengthY, lengthPrice, lengthOpen, lengthProcessed]
    have split := item_at (front ++ (x ++ (y ++ (price ++ (zeros 80 ++ (opened ++ (zeros 8 ++
      (processed ++ zeros 4)))))))) (if bin.limitOrderAskSide then (1 : UInt8) else 0)
      (zeros 3 ++ rest) (offset + 140) front'
    simp only [List.append_assoc] at split
    exact split
  simp only [List.append_assoc] at amountX amountY priceQ64 openOrder processedOrder
  unfold parseBin
  rw [product, ok_or_some, ok_bind, sum, ok_or_some, ok_bind, amountX, ok_bind, amountY, ok_bind,
    priceQ64, ok_bind, openOrder, ok_bind, processedOrder, ok_bind, askSide, ok_or_some, ok_bind]
  cases bin with
  | mk price x y opened processed ask => cases ask <;> rfl

/-- Bytes of constant width: a whole number of parts is skipped as parts. -/
theorem encode_split (bins : List Bin) (index : Nat) (inside : index < bins.length) :
    bins.flatMap encodeBin = (bins.take index).flatMap encodeBin ++
      (encodeBin bins[index] ++ (bins.drop (index + 1)).flatMap encodeBin) := by
  conv_lhs => rw [← List.take_append_drop index bins, List.drop_eq_getElem_cons inside]
  rw [List.flatMap_append, List.flatMap_cons]

theorem length_encode_bins (bins : List Bin) :
    (bins.flatMap encodeBin).length = bins.length * binSize := by
  induction bins with
  | nil => rfl
  | cons bin rest ih =>
      rw [List.flatMap_cons, List.length_append, length_encode_bin, ih, List.length_cons]
      unfold binSize
      omega

/-- Every bin of an encoded account is read back. -/
theorem parse_encoded_bin (lbPair : Pubkey) (arrayIndex : Int64) (bins : List Bin) (index : Nat)
    (inside : index < bins.length) (counted : bins.length ≤ 70) :
    parseBin (encodeBinArray lbPair arrayIndex bins) (discriminatorLen + binArrayHeaderSize) index =
      .ok bins[index] := by
  have taken : (bins.take index).length = index := by rw [List.length_take]; omega
  unfold encodeBinArray
  rw [encode_split bins index inside, ← List.append_assoc]
  refine parse_bin_at _ _ _ _ _ ?_ ?_
  · simp only [List.length_append, length_encode_bins, taken, length_le_bytes, length_zeros,
      lbPair.property]
    rfl
  · unfold binSize discriminatorLen binArrayHeaderSize
    omega

theorem parse_encoded_index (lbPair : Pubkey) (arrayIndex : Int64) (bins : List Bin) :
    parseBinArrayIndex (encodeBinArray lbPair arrayIndex bins) = .ok arrayIndex.toInt := by
  unfold parseBinArrayIndex encodeBinArray
  simp only [List.append_assoc]
  rw [read_i64_at meteoraBinArrayDiscriminator _ arrayIndex discriminatorLen rfl]
  rfl

theorem map_m_ok {Item Result Error : Type} (parse : Item → Except Error Result) (value : Item → Result)
    (items : List Item) (parsed : ∀ item ∈ items, parse item = .ok (value item)) :
    items.mapM parse = .ok (items.map value) := by
  induction items with
  | nil => rfl
  | cons item rest ih =>
      have later := ih fun other member => parsed other (List.mem_cons_of_mem _ member)
      rw [List.mapM_cons, parsed item List.mem_cons_self, ok_bind, later, ok_bind]
      rfl

/-- A whole encoded array is parsed to its own bins. -/
theorem parse_encoded_array (lbPair : Pubkey) (arrayIndex : Int64) (bins : List Bin)
    (whole : bins.length = 70) :
    parseBinArray (encodeBinArray lbPair arrayIndex bins) = .ok
      { index := arrayIndex.toInt
        bins := (List.range 70).map fun index => (UInt8.ofNat index, bins.getD index emptyBin) } := by
  have entries := map_m_ok (parseBinEntry (encodeBinArray lbPair arrayIndex bins))
    (fun index => (UInt8.ofNat index, bins.getD index emptyBin)) (List.range 70) (by
      intro index member
      have inside : index < bins.length := by rw [whole]; exact List.mem_range.mp member
      unfold parseBinEntry
      rw [parse_encoded_bin lbPair arrayIndex bins index inside whole.le, ok_bind,
        List.getD_eq_getElem?_getD, List.getElem?_eq_getElem inside]
      rfl)
  unfold parseBinArray
  rw [parse_encoded_index, ok_bind, entries, ok_bind]
  rfl

end ArbExecutor.BinArrayLayout
