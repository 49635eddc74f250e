import DocWire.Codec.Encode
import DocWire.Proofs.Wire.Outcome
import DocWire.Proofs.Wire.Rendering

namespace DocWire.Writer

open Outcome Wire

-- An action succeeds just when the condition holds, and then leaves the second writer.
def Leaves (x : Action Unit) (w : Writer) (C : Prop) (u : Writer) : Prop :=
  ∀ v, x w = .ok () v ↔ C ∧ v = u

-- An action that succeeds just when the condition holds, and then appends the bytes.
def Appends (x : Action Unit) (C : Prop) (bytes : ByteArray) : Prop :=
  ∀ w, Leaves x w C { w with buffer := w.buffer ++ bytes }

theorem leaves_bind {x : Action Unit} {f : Unit → Action Unit} {w u v : Writer} {C D : Prop}
    (hx : Leaves x w C u) (hf : Leaves (f ()) u D v) : Leaves (x >>= f) w (C ∧ D) v := by
  intro t
  rw [bind_eq_ok]
  constructor
  · rintro ⟨a, m, hxm, hfm⟩
    obtain ⟨hC, rfl⟩ := (hx m).mp hxm
    obtain ⟨hD, rfl⟩ := (hf t).mp hfm
    exact ⟨⟨hC, hD⟩, rfl⟩
  · rintro ⟨⟨hC, hD⟩, rfl⟩
    exact ⟨(), u, (hx u).mpr ⟨hC, rfl⟩, (hf _).mpr ⟨hD, rfl⟩⟩

theorem leaves_congr {x : Action Unit} {w u v : Writer} {C D : Prop} (h : Leaves x w C u)
    (hC : C ↔ D) (hu : u = v) : Leaves x w D v := by
  subst hu
  intro t
  rw [h t, hC]

theorem appends_bind {x y : Action Unit} {C D : Prop} {a b : ByteArray} (hx : Appends x C a)
    (hy : Appends y D b) : Appends (x >>= fun _ => y) (C ∧ D) (a ++ b) := by
  intro w
  refine leaves_congr (leaves_bind (hx w) (hy _)) Iff.rfl ?_
  rw [ByteArray.append_assoc]

theorem append_appends (bytes : ByteArray) : Appends (append bytes) True bytes := by
  intro w u
  rw [append, modify_eq_ok, true_and]

theorem appendLength_appends (length : Nat) :
    Appends (appendLength length) (length ≤ Word.maxLength) (lengthBytes length) := by
  intro w u
  unfold appendLength lengthWord
  by_cases h : length ≤ Word.maxLength
  · simp only [h, if_true]
    exact append_appends _ w u
  · simp only [h, if_false, false_and, iff_false]
    exact throw_ne_ok

theorem takeName_document {w : Writer} {start index : Nat} {outer : List Frame} {name : String}
    (hframes : w.frames = ⟨start, .document, index⟩ :: outer) (hname : w.name = some name) :
    takeName w = .ok name { w with name := none } := by
  simp only [takeName, hframes, hname]

theorem takeName_array {w : Writer} {start index : Nat} {outer : List Frame}
    (hframes : w.frames = ⟨start, .array, index⟩ :: outer) :
    takeName w = .ok (toString index)
      { w with frames := ⟨start, .array, index + 1⟩ :: outer, name := none } := by
  simp only [takeName, hframes]

theorem header_leaves {w u : Writer} {name : String} (hname : takeName w = .ok name u) (tag : Tag) :
    Leaves (header tag) w (hasZeroByte name = false)
      { u with buffer := u.buffer ++ announced tag name } := by
  intro v
  rw [header, bind_eq_ok]
  constructor
  · rintro ⟨taken, m, htaken, h⟩
    rw [hname] at htaken
    cases htaken
    by_cases hzero : hasZeroByte name
    · simp [hzero] at h
    · rw [if_neg hzero, append, modify_eq_ok, ByteArray.append_assoc] at h
      exact ⟨Bool.eq_false_iff.mpr hzero, h⟩
  · rintro ⟨hzero, rfl⟩
    refine ⟨name, u, hname, ?_⟩
    rw [hzero, if_neg Bool.false_ne_true, append, modify_eq_ok, ByteArray.append_assoc]
    rfl

theorem element_leaves {w u : Writer} {name : String} (hname : takeName w = .ok name u) (tag : Tag)
    {x : Action Unit} {C : Prop} {bytes : ByteArray} (hx : Appends x C bytes) :
    Leaves (header tag >>= fun _ => x) w (hasZeroByte name = false ∧ C)
      { u with buffer := u.buffer ++ (announced tag name ++ bytes) } := by
  refine leaves_congr (leaves_bind (header_leaves hname tag) (hx _)) Iff.rfl ?_
  rw [ByteArray.append_assoc]

-- An element without a length of its own can be written once its name can.
theorem fixed_leaves {w u : Writer} {name : String} (hname : takeName w = .ok name u) (tag : Tag)
    (bytes : ByteArray) :
    Leaves (header tag >>= fun _ => append bytes) w
      (hasZeroByte name = false ∧ 0 ≤ Word.maxLength)
      { u with buffer := u.buffer ++ (announced tag name ++ bytes) } := by
  refine leaves_congr (element_leaves hname tag (append_appends bytes)) ?_ rfl
  rw [and_true]
  exact (and_iff_left (Nat.zero_le _)).symm

-- One with a length can be written if that fits its word as well.
theorem counted_leaves {w u : Writer} {name : String} (hname : takeName w = .ok name u)
    (tag : Tag) (length : Nat) (bytes : ByteArray) :
    Leaves (header tag >>= fun _ => appendLength length >>= fun _ => append bytes) w
      (hasZeroByte name = false ∧ length ≤ Word.maxLength)
      { u with buffer := u.buffer ++ (announced tag name ++ (lengthBytes length ++ bytes)) } := by
  have hboth := appends_bind (appendLength_appends length) (append_appends bytes)
  refine leaves_congr (element_leaves hname tag hboth) ?_ rfl
  rw [and_true]

-- A value that is a single element is written behind its name.
theorem token_leaves {w u : Writer} {name : String} (hname : takeName w = .ok name u) {v : Value}
    {token : Token} (hv : v.token? = some token) :
    Leaves (apply token) w (hasZeroByte name = false ∧ v.length ≤ Word.maxLength)
      { u with buffer := u.buffer ++ (announced v.tag name ++ v.payload) } := by
  cases v <;> cases hv
  case double d => exact fixed_leaves hname .double _
  case string s => exact counted_leaves hname .string _ _
  case binary b => exact counted_leaves hname .binary _ _
  case objectId id => exact fixed_leaves hname .objectId _
  case boolean b => exact fixed_leaves hname .boolean _
  case dateTime t => exact fixed_leaves hname .dateTime _
  case null =>
    refine leaves_congr (header_leaves hname .null) ?_ ?_
    · exact (and_iff_left (Nat.zero_le _)).symm
    · rw [Value.payload, ByteArray.append_empty]
      rfl
  case int32 n => exact fixed_leaves hname .int32 _
  case int64 n => exact fixed_leaves hname .int64 _

theorem openFrame_leaves (w : Writer) (container : Container) :
    Leaves (openFrame container) w (w.frames.length < maxNesting)
      { w with buffer := w.buffer ++ Word.int32 0,
               frames := ⟨w.buffer.size, container, 0⟩ :: w.frames } := by
  intro u
  unfold openFrame
  by_cases h : maxNesting ≤ w.frames.length
  · simp [h, Nat.not_lt.mpr h]
  · simp only [h, if_false, Nat.not_le.mp h, true_and, EStateM.Result.ok.injEq]
    exact eq_comm

-- The word of a size takes the place of the one that stood in for it.
theorem patch_append {before old word : ByteArray} (rest : ByteArray) (hold : old.size = 4) :
    patch (before ++ (old ++ rest)) before.size word = before ++ (word ++ rest) := by
  have hhead : (before ++ (old ++ rest)).extract 0 before.size = before :=
    ByteArray.extract_append_eq_left rfl
  have htail : (before ++ (old ++ rest)).extract (before.size + 4) (before ++ (old ++ rest)).size =
      rest := by
    rw [← ByteArray.append_assoc]
    apply ByteArray.extract_append_eq_right
    · rw [ByteArray.size_append, hold]
    · rw [ByteArray.size_append, ByteArray.size_append]
  rw [patch, hhead, htail, ByteArray.append_assoc]

theorem closeFrame_leaves {before body : ByteArray} {container : Container} {index : Nat}
    {outer : List Frame} {name : Option String} :
    Leaves (closeFrame container)
      ⟨before ++ (Word.int32 0 ++ body), ⟨before.size, container, index⟩ :: outer, name⟩
      (body.size + 5 ≤ Word.maxLength) ⟨before ++ enclosed body, outer, name⟩ := by
  intro u
  have hbuffer : before ++ (Word.int32 0 ++ body) ++ [0].toByteArray =
      before ++ (Word.int32 0 ++ (body ++ [0].toByteArray)) := by
    simp only [ByteArray.append_assoc]
  have hsize : (before ++ (Word.int32 0 ++ (body ++ [0].toByteArray))).size - before.size =
      body.size + 5 := by
    simp only [ByteArray.size_append, Word.size_int32, List.size_toByteArray, List.length_singleton]
    omega
  simp only [closeFrame, if_true, hbuffer, hsize, lengthWord]
  by_cases h : body.size + 5 ≤ Word.maxLength
  · simp only [h, if_true, true_and, patch_append _ (Word.size_int32 0), EStateM.Result.ok.injEq]
    rw [enclosed, framed, ByteArray.append_assoc]
    exact eq_comm
  · simp [h]

end DocWire.Writer
