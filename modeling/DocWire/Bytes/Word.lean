namespace DocWire.Word

-- The `width` low bytes of `n`, least significant first.
def toBytes : Nat → Nat → List UInt8
  | 0, _ => []
  | width + 1, n => UInt8.ofNat n :: toBytes width (n / 256)

-- The number that bytes denote when the least significant comes first.
def ofBytes : List UInt8 → Nat
  | [] => 0
  | b :: rest => b.toNat + 256 * ofBytes rest

-- How many numbers that many bytes can hold.
def range : Nat → Nat
  | 0 => 1
  | width + 1 => 256 * range width

-- The largest length that a 32-bit word can tell.
def maxLength : Nat := 0x7FFFFFFF

@[simp] theorem length_toBytes (width n : Nat) : (toBytes width n).length = width := by
  induction width generalizing n with
  | zero => rfl
  | succ width ih => simp [toBytes, ih]

-- Bytes hold what is left of a number after the carry beyond their width.
theorem ofBytes_toBytes (width n : Nat) : ofBytes (toBytes width n) = n % range width := by
  induction width generalizing n with
  | zero => simp [toBytes, ofBytes, range, Nat.mod_one]
  | succ width ih => rw [toBytes, ofBytes, ih, range, Nat.mod_mul, UInt8.toNat_ofNat']

theorem ofBytes_toBytes_of_lt {width n : Nat} (h : n < range width) :
    ofBytes (toBytes width n) = n := by
  rw [ofBytes_toBytes, Nat.mod_eq_of_lt h]

theorem ofBytes_lt (bytes : List UInt8) : ofBytes bytes < range bytes.length := by
  induction bytes with
  | nil => simp [ofBytes, range]
  | cons b rest ih =>
    have := b.toNat_lt
    rw [ofBytes, List.length_cons, range]
    omega

-- Every string of bytes is the written form of the number it denotes.
theorem toBytes_ofBytes (bytes : List UInt8) : toBytes bytes.length (ofBytes bytes) = bytes := by
  induction bytes with
  | nil => rfl
  | cons b rest ih =>
    have := b.toNat_lt
    have hlow : UInt8.ofNat (b.toNat + 256 * ofBytes rest) = b := by
      apply UInt8.toNat_inj.mp
      rw [UInt8.toNat_ofNat']
      omega
    rw [List.length_cons, toBytes, ofBytes, hlow,
      show (b.toNat + 256 * ofBytes rest) / 256 = ofBytes rest by omega, ih]

-- The four bytes of a 32-bit word.
def int32 (n : Int32) : ByteArray :=
  (toBytes 4 n.toUInt32.toNat).toByteArray

-- The eight bytes of a 64-bit word.
def int64 (n : Int64) : ByteArray :=
  (toBytes 8 n.toUInt64.toNat).toByteArray

-- The eight bytes of an unsigned 64-bit word.
def uint64 (n : UInt64) : ByteArray :=
  (toBytes 8 n.toNat).toByteArray

def toInt32 (bytes : ByteArray) : Int32 :=
  (UInt32.ofNat (ofBytes bytes.data.toList)).toInt32

def toInt64 (bytes : ByteArray) : Int64 :=
  (UInt64.ofNat (ofBytes bytes.data.toList)).toInt64

def toUInt64 (bytes : ByteArray) : UInt64 :=
  UInt64.ofNat (ofBytes bytes.data.toList)

@[simp] theorem size_int32 (n : Int32) : (int32 n).size = 4 := by
  simp [int32]

@[simp] theorem size_int64 (n : Int64) : (int64 n).size = 8 := by
  simp [int64]

@[simp] theorem size_uint64 (n : UInt64) : (uint64 n).size = 8 := by
  simp [uint64]

@[simp] theorem toInt32_int32 (n : Int32) : toInt32 (int32 n) = n := by
  have h : n.toUInt32.toNat < range 4 := n.toUInt32.toNat_lt
  simp [toInt32, int32, ofBytes_toBytes_of_lt h]

@[simp] theorem toInt64_int64 (n : Int64) : toInt64 (int64 n) = n := by
  have h : n.toUInt64.toNat < range 8 := n.toUInt64.toNat_lt
  simp [toInt64, int64, ofBytes_toBytes_of_lt h]

@[simp] theorem toUInt64_uint64 (n : UInt64) : toUInt64 (uint64 n) = n := by
  have h : n.toNat < range 8 := n.toNat_lt
  simp [toUInt64, uint64, ofBytes_toBytes_of_lt h]

-- Every string of that many bytes is the written form of the word read from it.
theorem toBytes_toNat {width : Nat} {bytes : ByteArray} (h : bytes.size = width) :
    (toBytes width (ofBytes bytes.data.toList)).toByteArray = bytes := by
  have hwidth : bytes.data.toList.length = width := by simpa using h
  have hbytes := toBytes_ofBytes bytes.data.toList
  rw [hwidth] at hbytes
  rw [hbytes]
  ext1
  simp

theorem ofBytes_lt_range {width : Nat} {bytes : ByteArray} (h : bytes.size = width) :
    ofBytes bytes.data.toList < range width := by
  have hwidth : bytes.data.toList.length = width := by simpa using h
  simpa only [hwidth] using ofBytes_lt bytes.data.toList

theorem int32_toInt32 {bytes : ByteArray} (h : bytes.size = 4) : int32 (toInt32 bytes) = bytes := by
  have hlt : ofBytes bytes.data.toList < range 4 := ofBytes_lt_range h
  rw [int32, toInt32, UInt32.toUInt32_toInt32, UInt32.toNat_ofNat_of_lt' hlt, toBytes_toNat h]

theorem int64_toInt64 {bytes : ByteArray} (h : bytes.size = 8) : int64 (toInt64 bytes) = bytes := by
  have hlt : ofBytes bytes.data.toList < range 8 := ofBytes_lt_range h
  rw [int64, toInt64, UInt64.toUInt64_toInt64, UInt64.toNat_ofNat_of_lt' hlt, toBytes_toNat h]

theorem uint64_toUInt64 {bytes : ByteArray} (h : bytes.size = 8) :
    uint64 (toUInt64 bytes) = bytes := by
  have hlt : ofBytes bytes.data.toList < range 8 := ofBytes_lt_range h
  rw [uint64, toUInt64, UInt64.toNat_ofNat_of_lt' hlt, toBytes_toNat h]

-- A length that fits its word can be told from it.
theorem toInt_ofNat {length : Nat} (h : length ≤ maxLength) : (Int32.ofNat length).toInt = length :=
  Int32.toInt_ofNat_of_lt (Nat.lt_succ_of_le h)

end DocWire.Word
