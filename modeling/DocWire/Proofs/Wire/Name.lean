import DocWire.Element.Writer

namespace DocWire.Writer

theorem zero_mem_encodeChar {c : Char} : 0 ∈ String.utf8EncodeChar c ↔ c.toNat = 0 := by
  have hzero : ∀ n, (0 : UInt8) = UInt8.ofNat n ↔ n % 256 = 0 := by
    intro n
    rw [← UInt8.toNat_inj, UInt8.toNat_ofNat']
    exact eq_comm
  unfold String.utf8EncodeChar
  simp only [Char.toNat]
  split
  · simp only [List.mem_singleton, hzero]
    omega
  · split
    · simp only [List.mem_cons, List.not_mem_nil, or_false, hzero]
      omega
    · split
      · simp only [List.mem_cons, List.not_mem_nil, or_false, hzero]
        omega
      · simp only [List.mem_cons, List.not_mem_nil, or_false, hzero]
        omega

-- A zero byte stands for nothing but the character of that number.
theorem hasZeroByte_iff {name : String} : hasZeroByte name ↔ Char.ofNat 0 ∈ name.toList := by
  have hbytes : name.toUTF8.data.toList = name.toList.flatMap String.utf8EncodeChar := by
    change name.toByteArray.data.toList = _
    rw [← String.utf8Encode_toList, List.utf8Encode]
    simp
  rw [hasZeroByte, Array.contains_iff_mem, ← Array.mem_toList_iff, hbytes, List.mem_flatMap]
  simp only [zero_mem_encodeChar]
  constructor
  · rintro ⟨c, hc, hzero⟩
    rw [← Char.toNat_inj.mp (hzero.trans (Eq.refl (Char.ofNat 0).toNat))]
    exact hc
  · intro h
    exact ⟨Char.ofNat 0, h, rfl⟩

theorem hasZeroByte_false_iff {name : String} :
    hasZeroByte name = false ↔ Char.ofNat 0 ∉ name.toList := by
  rw [Bool.eq_false_iff, ne_eq, hasZeroByte_iff]

-- The running index of an array is written with digits.
theorem hasZeroByte_index (index : Nat) : hasZeroByte (toString index) = false := by
  rw [hasZeroByte_false_iff, Nat.toString_eq_repr, Nat.toList_repr]
  intro h
  have hdigit := Nat.isDigit_of_mem_toDigits (by decide) (by decide) h
  exact absurd hdigit (by decide)

end DocWire.Writer
