import DocWire.Codec.Decode
import DocWire.Proofs.Wire.Cursor
import DocWire.Proofs.Wire.Grammar

namespace DocWire.Reader

open Outcome Wire

theorem tag_eq_none {r s : Reader} (hr : r.Bounded) :
    tag r = .ok none s ↔ r.Holds [0].toByteArray ∧ s = { r.skip 1 with current := none } := by
  simp only [tag, bind_eq_ok, byte_eq_ok hr]
  constructor
  · rintro ⟨code, _, ⟨hcode, rfl⟩, h⟩
    by_cases hz : code = 0
    · subst hz
      simp only [if_true, bind_eq_ok, modify_eq_ok, pure_eq_ok] at h
      obtain ⟨_, _, rfl, -, rfl⟩ := h
      exact ⟨hcode, rfl⟩
    · rw [if_neg hz] at h
      cases hfound : Tag.ofCode code with
      | error e => simp [hfound] at h
      | ok t =>
          simp only [hfound, bind_eq_ok, modify_eq_ok, pure_eq_ok] at h
          obtain ⟨_, _, _, hnone, _⟩ := h
          cases hnone
  · rintro ⟨hcode, rfl⟩
    refine ⟨0, _, ⟨hcode, rfl⟩, ?_⟩
    rw [if_pos rfl]
    rfl

theorem tag_eq_some {r s : Reader} (hr : r.Bounded) {t : Tag} :
    tag r = .ok (some t) s ↔
      r.Holds [t.code].toByteArray ∧ s = { r.skip 1 with current := some t } := by
  simp only [tag, bind_eq_ok, byte_eq_ok hr]
  constructor
  · rintro ⟨code, _, ⟨hcode, rfl⟩, h⟩
    by_cases hz : code = 0
    · subst hz
      simp only [if_true, bind_eq_ok, modify_eq_ok, pure_eq_ok] at h
      obtain ⟨_, _, _, hsome, _⟩ := h
      cases hsome
    · rw [if_neg hz, Tag.ofCode] at h
      cases hfound : Tag.ofCode? code with
      | none => simp [hfound] at h
      | some found =>
          simp only [hfound, bind_eq_ok, modify_eq_ok, pure_eq_ok] at h
          obtain ⟨_, _, rfl, hsome, rfl⟩ := h
          cases hsome
          rw [Tag.code_of_ofCode? hfound]
          exact ⟨hcode, rfl⟩
  · rintro ⟨hcode, rfl⟩
    refine ⟨t.code, _, ⟨hcode, rfl⟩, ?_⟩
    rw [if_neg (Tag.code_ne_zero t), Tag.ofCode, Tag.ofCode?_code]
    rfl

theorem string_eq_ok {r s : Reader} (hr : r.Bounded) {text : String} :
    string r = .ok text s ↔
      ∃ size : Int32, size.toInt = text.toUTF8.size + 1 ∧
        r.Holds (Word.int32 size ++ terminated text) ∧ s = r.skip (text.toUTF8.size + 5) := by
  simp only [string, bind_eq_ok, int32_eq_ok hr, holds_append, Word.size_int32]
  constructor
  · rintro ⟨size, _, ⟨hword, rfl⟩, h⟩
    by_cases hpos : size ≤ 0
    · simp [hpos] at h
    · simp only [hpos, if_false, bind_eq_ok, take_eq_ok (bounded_skip hr 4)] at h
      obtain ⟨bytes, _, ⟨hsize, hbytes, rfl⟩, h⟩ := h
      by_cases hback : bytes.data.back? = some 0
      · rw [if_pos hback] at h
        cases htext : Utf8.read (withoutLast bytes) with
        | error fault => simp [htext] at h
        | ok found =>
            simp only [htext, pure_eq_ok] at h
            obtain ⟨rfl, rfl⟩ := h
            have heq := eq_withoutLast_append hback
            rw [← utf8_read_eq_ok.mp htext] at heq
            rw [heq] at hbytes hsize
            rw [Int32.le_iff_toInt_le] at hpos
            simp only [ByteArray.size_append, List.size_toByteArray, List.length_singleton] at hsize
            refine ⟨size, ?_, ⟨hword, hbytes⟩, ?_⟩
            · simp only [Int32.toInt_zero] at hpos
              omega
            · rw [skip_skip, ← hsize]
              congr 1
              omega
      · simp [hback] at h
  · rintro ⟨size, hsize, ⟨hword, htext⟩, rfl⟩
    have hpos : ¬ size ≤ 0 := by
      rw [Int32.le_iff_toInt_le, hsize, Int32.toInt_zero]
      omega
    refine ⟨size, _, ⟨hword, rfl⟩, ?_⟩
    rw [if_neg hpos]
    simp only [bind_eq_ok, take_eq_ok (bounded_skip hr 4)]
    refine ⟨terminated text, _, ⟨?_, htext, rfl⟩, ?_⟩
    · rw [size_terminated, hsize]
      omega
    · rw [terminated, withoutLast_append, utf8_read_eq_ok.mpr rfl]
      have hback : (text.toUTF8 ++ [0].toByteArray).data.back? = some (0 : UInt8) := by simp
      rw [if_pos hback, hsize]
      simp only [pure_eq_ok, skip_skip, true_and]
      congr 1
      omega

theorem binary_eq_ok {r s : Reader} (hr : r.Bounded) {b : Binary} :
    binary r = .ok b s ↔
      ∃ size : Int32, size.toInt = b.bytes.size ∧
        r.Holds (Word.int32 size ++ ([b.subtype].toByteArray ++ b.bytes)) ∧
        s = r.skip (b.bytes.size + 5) := by
  simp only [binary, bind_eq_ok, int32_eq_ok hr, holds_append, Word.size_int32]
  constructor
  · rintro ⟨size, _, ⟨hword, rfl⟩, h⟩
    by_cases hneg : size < 0
    · simp [hneg] at h
    · simp only [hneg, if_false, bind_eq_ok, byte_eq_ok (bounded_skip hr 4), pure_eq_ok] at h
      obtain ⟨subtype, _, ⟨hsubtype, rfl⟩, bytes, _, hbytes, rfl, rfl⟩ := h
      rw [take_eq_ok (bounded_skip (bounded_skip hr 4) 1)] at hbytes
      obtain ⟨hsize, hbytes, rfl⟩ := hbytes
      rw [Int32.lt_iff_toInt_lt, Int32.toInt_zero] at hneg
      have heq : size.toInt = (bytes.size : Int) := by omega
      refine ⟨size, heq, ⟨hword, hsubtype, hbytes⟩, ?_⟩
      rw [skip_skip, skip_skip, ← hsize]
      congr 1
      change 4 + (1 + bytes.size) = bytes.size + 5
      omega
  · rintro ⟨size, hsize, ⟨hword, hsubtype, hbytes⟩, rfl⟩
    have hneg : ¬ size < 0 := by
      rw [Int32.lt_iff_toInt_lt, hsize, Int32.toInt_zero]
      omega
    refine ⟨size, _, ⟨hword, rfl⟩, ?_⟩
    rw [if_neg hneg]
    simp only [bind_eq_ok, byte_eq_ok (bounded_skip hr 4), pure_eq_ok]
    refine ⟨b.subtype, _, ⟨hsubtype, rfl⟩, b.bytes, _,
      (take_eq_ok (bounded_skip (bounded_skip hr 4) 1)).mpr ⟨?_, hbytes, rfl⟩, rfl, ?_⟩
    · omega
    rw [skip_skip, skip_skip]
    congr 1
    omega

theorem toBytes_ofBytes {bytes : ByteArray} (h : bytes.size = 12) :
    (ObjectId.ofBytes bytes).toBytes = bytes := by
  apply ByteArray.ext_getElem
  · rw [ObjectId.size_toBytes, h]
  · intro i hi hi'
    simp only [ObjectId.ofBytes, ObjectId.toBytes, ByteArray.getElem_eq_getElem_data,
      Vector.toArray_ofFn, Array.getElem_ofFn, List.getD_eq_getElem?_getD, Array.getElem?_toList]
    rw [Array.getElem?_eq_getElem hi']
    rfl

theorem objectId_eq_ok {r s : Reader} (hr : r.Bounded) {id : ObjectId} :
    objectId r = .ok id s ↔ r.Holds id.toBytes ∧ s = r.skip 12 := by
  simp only [objectId, bind_eq_ok, take_eq_ok hr, pure_eq_ok]
  constructor
  · rintro ⟨bytes, _, ⟨hsize, hbytes, rfl⟩, rfl, rfl⟩
    rw [toBytes_ofBytes hsize]
    exact ⟨hbytes, rfl⟩
  · rintro ⟨hbytes, rfl⟩
    exact ⟨_, _, ⟨ObjectId.size_toBytes id, hbytes, rfl⟩, (ObjectId.ofBytes_toBytes id).symm, rfl⟩

theorem boolean_eq_ok {r s : Reader} (hr : r.Bounded) {b : Bool} :
    boolean r = .ok b s ↔ r.Holds [if b then 1 else 0].toByteArray ∧ s = r.skip 1 := by
  simp only [boolean, bind_eq_ok, byte_eq_ok hr]
  constructor
  · rintro ⟨code, _, ⟨hcode, rfl⟩, h⟩
    by_cases hz : code = 0
    · subst hz
      simp only [if_true, pure_eq_ok] at h
      obtain ⟨rfl, rfl⟩ := h
      exact ⟨hcode, rfl⟩
    · by_cases ho : code = 1
      · subst ho
        simp only [hz, if_false, if_true, pure_eq_ok] at h
        obtain ⟨rfl, rfl⟩ := h
        exact ⟨hcode, rfl⟩
      · simp [hz, ho] at h
  · rintro ⟨hcode, rfl⟩
    refine ⟨_, _, ⟨hcode, rfl⟩, ?_⟩
    cases b <;> rfl

theorem dateTime_eq_ok {r s : Reader} (hr : r.Bounded) {t : DateTime} :
    dateTime r = .ok t s ↔ r.Holds (Word.int64 t.milliseconds) ∧ s = r.skip 8 := by
  simp only [dateTime, bind_eq_ok, int64_eq_ok hr, pure_eq_ok]
  constructor
  · rintro ⟨n, _, ⟨hn, rfl⟩, rfl, rfl⟩
    exact ⟨hn, rfl⟩
  · rintro ⟨hn, rfl⟩
    exact ⟨_, _, ⟨hn, rfl⟩, rfl, rfl⟩

theorem null_eq_ok {r s : Reader} {u : Unit} :
    null r = .ok u s ↔ r.current = some .null ∧ s = r := by
  simp only [null, bind_eq_ok, get_eq_ok]
  constructor
  · rintro ⟨_, _, ⟨rfl, rfl⟩, h⟩
    by_cases hnull : r.current = some .null
    · simp only [hnull, if_true, pure_eq_ok] at h
      exact ⟨hnull, h.2⟩
    · simp [hnull] at h
  · rintro ⟨hnull, rfl⟩
    refine ⟨s, s, ⟨rfl, rfl⟩, ?_⟩
    rw [if_pos hnull]
    rfl

-- A document opens where its size says that it ends inside the one around it.
theorem start_eq_ok {r s : Reader} (hr : r.Bounded) {u : Unit} :
    start r = .ok u s ↔
      r.ends.length < maxNesting ∧ ∃ (size : Int32) (length : Nat), size.toInt = length ∧
        5 ≤ length ∧ r.Holds (Word.int32 size) ∧ r.position + length ≤ r.limit ∧
        s = { r.skip 4 with ends := (r.position + length) :: r.ends } := by
  simp only [start, bind_eq_ok, get_eq_ok]
  constructor
  · rintro ⟨_, _, ⟨rfl, rfl⟩, h⟩
    by_cases hdeep : maxNesting ≤ r.ends.length
    · simp [hdeep] at h
    · simp only [hdeep, if_false, bind_eq_ok, int32_eq_ok hr] at h
      obtain ⟨size, _, ⟨hword, rfl⟩, h⟩ := h
      by_cases hsize : 5 ≤ size ∧ r.position + size.toInt.toNat ≤ r.limit
      · simp only [hsize, and_self, if_true, modify_eq_ok] at h
        obtain ⟨hfive, hlimit⟩ := hsize
        rw [Int32.le_iff_toInt_le, show (5 : Int32).toInt = 5 from rfl] at hfive
        exact ⟨by omega, size, size.toInt.toNat, by omega, by omega, hword, hlimit, h⟩
      · rw [if_neg hsize] at h
        exact absurd h throw_ne_ok
  · rintro ⟨hdeep, size, length, hsize, hfive, hword, hlimit, rfl⟩
    refine ⟨r, r, ⟨rfl, rfl⟩, ?_⟩
    rw [if_neg (by omega)]
    simp only [bind_eq_ok, int32_eq_ok hr]
    refine ⟨size, _, ⟨hword, rfl⟩, ?_⟩
    have hlength : size.toInt.toNat = length := by omega
    have hle : (5 : Int32) ≤ size := by
      rw [Int32.le_iff_toInt_le, hsize, show (5 : Int32).toInt = 5 from rfl]
      omega
    rw [hlength, if_pos ⟨hle, hlimit⟩]
    rfl

theorem finish_eq_ok {r s : Reader} {u : Unit} :
    finish r = .ok u s ↔ r.ends = r.position :: s.ends ∧ s = { r with ends := s.ends } := by
  unfold finish
  constructor
  · intro h
    split at h
    · cases h
    · next declared outer hends =>
      split at h
      · next heq =>
        cases h
        exact ⟨by rw [hends, heq], rfl⟩
      · cases h
  · rintro ⟨hends, hs⟩
    rw [hends]
    simp only [if_true]
    rw [hs]

end DocWire.Reader
