import DocWire.Element.Reader
import DocWire.Element.Writer
import DocWire.Proofs.Wire.Outcome

namespace DocWire.Reader

open Outcome

-- The unread bytes begin with `text`, all of which lies inside the innermost open document.
def Holds (r : Reader) (text : ByteArray) : Prop :=
  r.position + text.size ≤ r.limit ∧
    r.bytes.extract r.position (r.position + text.size) = text

-- No document is open beyond the end of the bytes.
def Bounded (r : Reader) : Prop :=
  ∀ e ∈ r.ends, e ≤ r.bytes.size

def skip (r : Reader) (count : Nat) : Reader :=
  { r with position := r.position + count }

@[simp] theorem skip_bytes (r : Reader) (count : Nat) : (r.skip count).bytes = r.bytes := rfl

@[simp] theorem skip_position (r : Reader) (count : Nat) :
    (r.skip count).position = r.position + count := rfl

@[simp] theorem skip_limit (r : Reader) (count : Nat) : (r.skip count).limit = r.limit := rfl

@[simp] theorem skip_skip (r : Reader) (a b : Nat) : (r.skip a).skip b = r.skip (a + b) := by
  simp only [skip, Nat.add_assoc]

theorem bounded_skip {r : Reader} (hr : r.Bounded) (count : Nat) : (r.skip count).Bounded := hr

theorem Bounded.limit_le {r : Reader} (hr : r.Bounded) : r.limit ≤ r.bytes.size := by
  unfold limit
  cases hends : r.ends with
  | nil => exact Nat.le_refl _
  | cons e outer => exact hr e (by simp [hends])

theorem holds_empty {r : Reader} (h : r.position ≤ r.limit) : r.Holds ByteArray.empty := by
  refine ⟨h, ?_⟩
  simp

-- Holding one text after the other is holding each at its place.
theorem holds_append {r : Reader} {a b : ByteArray} :
    r.Holds (a ++ b) ↔ r.Holds a ∧ (r.skip a.size).Holds b := by
  have hsplit : r.bytes.extract r.position (r.position + (a.size + b.size)) =
      r.bytes.extract r.position (r.position + a.size) ++
        r.bytes.extract (r.position + a.size) (r.position + a.size + b.size) := by
    rw [← Nat.add_assoc]
    exact ByteArray.extract_eq_extract_append_extract _ (Nat.le_add_right _ _)
      (Nat.le_add_right _ _)
  simp only [Holds, skip_bytes, skip_position, skip_limit, ByteArray.size_append, hsplit]
  constructor
  · rintro ⟨hle, heq⟩
    have hsize := congrArg ByteArray.size heq
    simp only [ByteArray.size_append, ByteArray.size_extract] at hsize
    have hleft : (r.bytes.extract r.position (r.position + a.size)).size = a.size := by
      rw [ByteArray.size_extract]
      omega
    obtain ⟨ha, hb⟩ := (ByteArray.append_eq_append_iff_of_size_eq_left hleft).mp heq
    exact ⟨⟨by omega, ha⟩, by omega, hb⟩
  · rintro ⟨⟨_, ha⟩, hle, hb⟩
    exact ⟨by omega, by rw [ha, hb]⟩

theorem take_eq_ok {r s : Reader} (hr : r.Bounded) {count : Nat} {bytes : ByteArray} :
    take count r = .ok bytes s ↔ bytes.size = count ∧ r.Holds bytes ∧ s = r.skip count := by
  have hlimit := hr.limit_le
  unfold take
  constructor
  · intro h
    split at h
    · cases h
    · cases h
      have hsize : (r.bytes.extract r.position (r.position + count)).size = count := by
        rw [ByteArray.size_extract]
        omega
      refine ⟨hsize, ⟨by omega, by rw [hsize]⟩, rfl⟩
  · rintro ⟨rfl, ⟨hle, heq⟩, rfl⟩
    rw [if_neg (by omega), heq]
    rfl

theorem word_eq_ok {r s : Reader} (hr : r.Bounded) {width : Nat} (hwidth : 0 < width)
    {bytes : ByteArray} :
    word width r = .ok bytes s ↔ bytes.size = width ∧ r.Holds bytes ∧ s = r.skip width := by
  have hlimit := hr.limit_le
  unfold word remaining
  constructor
  · intro h
    split at h
    · cases h
    · cases h
      have hsize : (r.bytes.extract r.position (r.position + width)).size = width := by
        rw [ByteArray.size_extract]
        omega
      refine ⟨hsize, ⟨by omega, by rw [hsize]⟩, rfl⟩
  · rintro ⟨rfl, ⟨hle, heq⟩, rfl⟩
    rw [if_neg (by omega), heq]
    rfl

theorem int32_eq_ok {r s : Reader} (hr : r.Bounded) {n : Int32} :
    int32 r = .ok n s ↔ r.Holds (Word.int32 n) ∧ s = r.skip 4 := by
  simp only [int32, bind_eq_ok, word_eq_ok hr (Nat.succ_pos 3), pure_eq_ok]
  constructor
  · rintro ⟨bytes, u, ⟨hsize, hbytes, rfl⟩, rfl, rfl⟩
    rw [Word.int32_toInt32 hsize]
    exact ⟨hbytes, rfl⟩
  · rintro ⟨hbytes, rfl⟩
    exact ⟨Word.int32 n, _, ⟨Word.size_int32 n, hbytes, rfl⟩, (Word.toInt32_int32 n).symm, rfl⟩

theorem int64_eq_ok {r s : Reader} (hr : r.Bounded) {n : Int64} :
    int64 r = .ok n s ↔ r.Holds (Word.int64 n) ∧ s = r.skip 8 := by
  simp only [int64, bind_eq_ok, word_eq_ok hr (Nat.succ_pos 7), pure_eq_ok]
  constructor
  · rintro ⟨bytes, u, ⟨hsize, hbytes, rfl⟩, rfl, rfl⟩
    rw [Word.int64_toInt64 hsize]
    exact ⟨hbytes, rfl⟩
  · rintro ⟨hbytes, rfl⟩
    exact ⟨Word.int64 n, _, ⟨Word.size_int64 n, hbytes, rfl⟩, (Word.toInt64_int64 n).symm, rfl⟩

theorem double_eq_ok {r s : Reader} (hr : r.Bounded) {d : Double} :
    double r = .ok d s ↔ r.Holds (Word.uint64 d.bits) ∧ s = r.skip 8 := by
  simp only [double, bind_eq_ok, word_eq_ok hr (Nat.succ_pos 7), pure_eq_ok]
  constructor
  · rintro ⟨bytes, u, ⟨hsize, hbytes, rfl⟩, rfl, rfl⟩
    rw [Word.uint64_toUInt64 hsize]
    exact ⟨hbytes, rfl⟩
  · rintro ⟨hbytes, rfl⟩
    refine ⟨Word.uint64 d.bits, _, ⟨Word.size_uint64 _, hbytes, rfl⟩, ?_, rfl⟩
    rw [Word.toUInt64_uint64]

theorem toByteArray_getD {bytes : ByteArray} (h : bytes.size = 1) :
    [bytes.data.getD 0 0].toByteArray = bytes := by
  obtain ⟨⟨data⟩⟩ := bytes
  obtain ⟨b, rfl⟩ := List.length_eq_one_iff.mp h
  rfl

theorem byte_eq_ok {r s : Reader} (hr : r.Bounded) {b : UInt8} :
    byte r = .ok b s ↔ r.Holds [b].toByteArray ∧ s = r.skip 1 := by
  simp only [byte, bind_eq_ok, take_eq_ok hr, pure_eq_ok]
  constructor
  · rintro ⟨bytes, u, ⟨hsize, hbytes, rfl⟩, rfl, rfl⟩
    rw [toByteArray_getD hsize]
    exact ⟨hbytes, rfl⟩
  · rintro ⟨hbytes, rfl⟩
    exact ⟨_, _, ⟨rfl, hbytes, rfl⟩, by simp, rfl⟩

theorem utf8_read_eq_ok {bytes : ByteArray} {text : String} :
    Utf8.read bytes = .ok text ↔ text.toUTF8 = bytes := by
  unfold Utf8.read String.fromUTF8?
  by_cases hvalid : bytes.IsValidUTF8
  · simp only [hvalid, dite_true, Except.ok.injEq]
    constructor
    · rintro rfl
      rfl
    · rintro rfl
      rfl
  · simp only [hvalid, dite_false]
    constructor
    · intro h
      cases h
    · rintro rfl
      exact absurd text.isValidUTF8 hvalid

theorem withoutLast_append (bytes : ByteArray) (b : UInt8) :
    withoutLast (bytes ++ [b].toByteArray) = bytes := by
  have hsize : (bytes ++ [b].toByteArray).size - 1 = bytes.size := by
    simp only [ByteArray.size_append, List.size_toByteArray, List.length_singleton]
    omega
  rw [withoutLast, hsize, ByteArray.extract_append_eq_left rfl]

-- Bytes with a last one are the others followed by it.
theorem eq_withoutLast_append {bytes : ByteArray} {b : UInt8} (h : bytes.data.back? = some b) :
    bytes = withoutLast bytes ++ [b].toByteArray := by
  obtain ⟨data⟩ := bytes
  obtain ⟨others, rfl⟩ := Array.back?_eq_some_iff.mp h
  have heq : (⟨others.push b⟩ : ByteArray) = ⟨others⟩ ++ [b].toByteArray := by
    ext1
    simp
  rw [heq, withoutLast_append]

theorem zeroFrom_eq_some {bytes : ByteArray} {position count place : Nat} :
    zeroFrom bytes position count = some place ↔
      position ≤ place ∧ place < position + count ∧
        (∃ h : place < bytes.size, bytes[place] = 0) ∧
        ∀ i (h : i < bytes.size), position ≤ i → i < place → bytes[i] ≠ 0 := by
  induction count generalizing position with
  | zero =>
      simp only [zeroFrom]
      constructor
      · intro h
        cases h
      · rintro ⟨hle, hlt, _⟩
        omega
  | succ count ih =>
      rw [zeroFrom]
      by_cases hp : position < bytes.size
      · rw [dif_pos hp]
        by_cases hz : bytes[position] = 0
        · rw [if_pos hz]
          constructor
          · intro h
            cases h
            exact ⟨Nat.le_refl _, by omega, ⟨hp, hz⟩, fun i _ hle hlt => by omega⟩
          · rintro ⟨hle, _, _, hfirst⟩
            by_cases heq : position = place
            · rw [heq]
            · exact absurd hz (hfirst position hp (Nat.le_refl _) (by omega))
        · rw [if_neg hz, ih]
          constructor
          · rintro ⟨hle, hlt, hzero, hfirst⟩
            refine ⟨by omega, by omega, hzero, fun i hi hle' hlt' => ?_⟩
            by_cases heq : i = position
            · subst heq
              exact hz
            · exact hfirst i hi (by omega) hlt'
          · rintro ⟨hle, hlt, ⟨hplace, hzero⟩, hfirst⟩
            have hne : position ≠ place := by
              rintro rfl
              exact hz hzero
            exact ⟨by omega, by omega, ⟨hplace, hzero⟩,
              fun i hi hle' hlt' => hfirst i hi (by omega) hlt'⟩
      · rw [dif_neg hp]
        constructor
        · intro h
          cases h
        · rintro ⟨hle, _, ⟨hplace, _⟩, _⟩
          omega

theorem hasZeroByte_eq_false {name : String} :
    Writer.hasZeroByte name = false ↔
      ∀ i (h : i < name.toUTF8.size), name.toUTF8[i] ≠ 0 := by
  rw [Writer.hasZeroByte, Bool.eq_false_iff, ne_eq, Array.contains_iff_mem]
  constructor
  · intro hmem i hi hz
    exact hmem (hz ▸ Array.getElem_mem hi)
  · intro hne hmem
    obtain ⟨i, hi, hz⟩ := Array.getElem_of_mem hmem
    exact hne i hi hz

theorem Holds.getElem {r : Reader} {text : ByteArray} (h : r.Holds text) {i : Nat}
    (hi : i < text.size) :
    ∃ hb : r.position + i < r.bytes.size, r.bytes[r.position + i] = text[i] := by
  obtain ⟨hle, heq⟩ := h
  have hsize := congrArg ByteArray.size heq
  rw [ByteArray.size_extract] at hsize
  have hb : r.position + i < r.bytes.size := by omega
  refine ⟨hb, ?_⟩
  have hi' : i < (r.bytes.extract r.position (r.position + text.size)).size := by
    rw [heq]
    exact hi
  rw [← ByteArray.getElem_extract hi']
  simp only [heq]

-- The first zero byte stands behind a text without zero bytes.
theorem zeroFrom_of_holds {r : Reader} {text : ByteArray}
    (hzero : ∀ i (h : i < text.size), text[i] ≠ 0) (h : r.Holds (text ++ [0].toByteArray)) :
    zeroFrom r.bytes r.position r.remaining = some (r.position + text.size) := by
  have hsize : (text ++ [0].toByteArray).size = text.size + 1 := by simp
  have hle := h.1
  rw [hsize] at hle
  rw [zeroFrom_eq_some, remaining]
  refine ⟨by omega, by omega, ?_, fun i hi hge hlt => ?_⟩
  · obtain ⟨hb, heq⟩ := h.getElem (show text.size < (text ++ [0].toByteArray).size by omega)
    refine ⟨hb, ?_⟩
    rw [heq, ByteArray.getElem_append_right (Nat.le_refl _)]
    simp
  · obtain ⟨hb, heq⟩ := h.getElem (show i - r.position < (text ++ [0].toByteArray).size by omega)
    have hi' : r.position + (i - r.position) = i := by omega
    rw [ByteArray.getElem_append_left (by omega)] at heq
    simp only [hi'] at heq
    rw [heq]
    exact hzero _ _

-- What is read up to the first zero byte is a text without zero bytes and that byte.
theorem holds_of_zeroFrom {r : Reader} {bytes : ByteArray} {place : Nat}
    (hplace : zeroFrom r.bytes r.position r.remaining = some place)
    (hsize : bytes.size = place + 1 - r.position) (h : r.Holds bytes) :
    bytes = withoutLast bytes ++ [0].toByteArray ∧
      ∀ i (h : i < (withoutLast bytes).size), (withoutLast bytes)[i] ≠ 0 := by
  obtain ⟨hle, hlt, ⟨hb, hzero⟩, hfirst⟩ := zeroFrom_eq_some.mp hplace
  obtain ⟨hlast, heq⟩ := h.getElem (show bytes.size - 1 < bytes.size by omega)
  have hindex : r.position + (bytes.size - 1) = place := by omega
  simp only [hindex, hzero] at heq
  have hback : bytes.data.back? = some 0 := by
    rw [Array.back?_eq_getElem?, heq]
    exact Array.getElem?_eq_getElem _
  refine ⟨eq_withoutLast_append hback, fun i hi => ?_⟩
  have hi' : i < bytes.size - 1 := by
    simp only [withoutLast, ByteArray.size_extract] at hi
    omega
  obtain ⟨hib, hieq⟩ := h.getElem (show i < bytes.size by omega)
  have hsame : (withoutLast bytes)[i] = bytes[i] := by
    simp only [withoutLast, ByteArray.getElem_extract, Nat.zero_add]
  rw [hsame, ← hieq]
  exact hfirst _ hib (by omega) (by omega)

theorem name_eq_ok {r s : Reader} (hr : r.Bounded) {text : String} :
    name r = .ok text s ↔
      Writer.hasZeroByte text = false ∧ r.Holds (text.toUTF8 ++ [0].toByteArray) ∧
        s = r.skip (text.toUTF8.size + 1) := by
  simp only [name, bind_eq_ok, get_eq_ok]
  constructor
  · rintro ⟨_, _, ⟨rfl, rfl⟩, h⟩
    cases hplace : zeroFrom r.bytes r.position r.remaining with
    | none => simp [hplace] at h
    | some place =>
        simp only [hplace, bind_eq_ok, take_eq_ok hr] at h
        obtain ⟨bytes, _, ⟨hsize, hbytes, rfl⟩, h⟩ := h
        obtain ⟨heq, hzero⟩ := holds_of_zeroFrom hplace hsize hbytes
        cases htext : Utf8.read (withoutLast bytes) with
        | error fault => simp [htext] at h
        | ok found =>
            simp only [htext, pure_eq_ok] at h
            obtain ⟨rfl, rfl⟩ := h
            have hfound := utf8_read_eq_ok.mp htext
            rw [← hfound] at heq hzero
            rw [heq] at hbytes hsize
            rw [← hsize]
            refine ⟨hasZeroByte_eq_false.mpr hzero, hbytes, ?_⟩
            simp
  · rintro ⟨hzero, htext, rfl⟩
    have hplace := zeroFrom_of_holds (hasZeroByte_eq_false.mp hzero) htext
    refine ⟨r, r, ⟨rfl, rfl⟩, ?_⟩
    simp only [hplace, bind_eq_ok, take_eq_ok hr]
    refine ⟨_, _, ⟨?_, htext, rfl⟩, ?_⟩
    · simp
      omega
    · rw [withoutLast_append, utf8_read_eq_ok.mpr rfl]
      simp
      congr 1
      omega

end DocWire.Reader
