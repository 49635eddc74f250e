import DocWire.Element.Writing
import DocWire.Proofs.Wire.Outcome

namespace DocWire

def BeginsWith (prior buffer : ByteArray) : Prop :=
  ∃ written, buffer = prior ++ written

namespace BeginsWith

variable {prior buffer : ByteArray}

theorem refl (prior : ByteArray) : BeginsWith prior prior :=
  ⟨ByteArray.empty, ByteArray.append_empty.symm⟩

theorem append (h : BeginsWith prior buffer) (bytes : ByteArray) :
    BeginsWith prior (buffer ++ bytes) := by
  obtain ⟨written, rfl⟩ := h
  exact ⟨written ++ bytes, ByteArray.append_assoc⟩

theorem size_le (h : BeginsWith prior buffer) : prior.size ≤ buffer.size := by
  obtain ⟨written, rfl⟩ := h
  rw [ByteArray.size_append]
  exact Nat.le_add_right _ _

-- A cut behind the prior bytes takes nothing of them.
theorem truncate (h : BeginsWith prior buffer) {count : Nat} (hcount : prior.size ≤ count) :
    BeginsWith prior (buffer.extract 0 count) := by
  obtain ⟨written, rfl⟩ := h
  have hprior : prior.extract 0 count = prior := by
    have hmax : max count prior.size = count := Nat.max_eq_left hcount
    rw [← hmax, ByteArray.extract_zero_max_size]
  refine ⟨written.extract 0 (count - prior.size), ?_⟩
  rw [ByteArray.extract_append, hprior, Nat.zero_sub]

-- Nor does a word that is put over four bytes behind them.
theorem patch (h : BeginsWith prior buffer) {start : Nat} (hstart : prior.size ≤ start)
    (word : ByteArray) : BeginsWith prior (Writer.patch buffer start word) := by
  have hkept := h.truncate hstart
  exact (hkept.append word).append _

theorem extract_size (h : BeginsWith prior buffer) : buffer.extract 0 prior.size = prior := by
  obtain ⟨written, rfl⟩ := h
  exact ByteArray.extract_append_eq_left rfl

end BeginsWith

namespace Writer

open Outcome

-- A word over four bytes of the buffer leaves its size as it is.
theorem size_patch {buffer word : ByteArray} {start : Nat} (hstart : start + 4 ≤ buffer.size)
    (hword : word.size = 4) : (patch buffer start word).size = buffer.size := by
  simp only [patch, ByteArray.size_append, ByteArray.size_extract, hword]
  omega

-- The writer has not touched what was in the buffer before it: the sizes that it still has to put
-- in stand behind that, each in a place that exists.
structure Confined (prior : ByteArray) (w : Writer) : Prop where
  kept : BeginsWith prior w.buffer
  places : ∀ frame ∈ w.frames, prior.size ≤ frame.start ∧ frame.start + 4 ≤ w.buffer.size

theorem confined_onBuffer {prior buffer : ByteArray} (h : BeginsWith prior buffer) :
    Confined prior (onBuffer buffer) where
  kept := h
  places := by
    intro frame hframe
    cases hframe

variable {prior : ByteArray}

theorem append_confined (bytes : ByteArray) : Preserves (Confined prior) (append bytes) := by
  apply preserves_modify
  intro w hw
  refine ⟨hw.kept.append bytes, fun frame hframe => ?_⟩
  have hplace := hw.places frame hframe
  have hsize : (w.buffer ++ bytes).size = w.buffer.size + bytes.size := ByteArray.size_append
  refine ⟨hplace.1, ?_⟩
  change frame.start + 4 ≤ (w.buffer ++ bytes).size
  omega

theorem takeName_confined : Preserves (Confined prior) takeName := by
  intro w hw
  unfold takeName
  split
  · exact hw
  · next start index outer hframes =>
    refine ⟨hw.kept, fun frame hframe => ?_⟩
    have hplaces := hw.places
    rw [hframes] at hplaces
    cases hframe with
    | head => exact hplaces ⟨start, .array, index⟩ List.mem_cons_self
    | tail _ houter => exact hplaces frame (List.mem_cons_of_mem _ houter)
  · split
    · exact ⟨hw.kept, hw.places⟩
    · exact hw

theorem header_confined (tag : Tag) : Preserves (Confined prior) (header tag) := by
  apply preserves_bind takeName_confined
  intro name
  split
  · exact preserves_throw _
  · exact append_confined _

theorem appendLength_confined (length : Nat) :
    Preserves (Confined prior) (appendLength length) := by
  unfold appendLength
  split
  · exact append_confined _
  · exact preserves_throw _

theorem openFrame_confined (container : Container) :
    Preserves (Confined prior) (openFrame container) := by
  intro w hw
  unfold openFrame
  split
  · exact hw
  · have hprior := hw.kept.size_le
    have hsize : (w.buffer ++ Word.int32 0).size = w.buffer.size + 4 := by
      rw [ByteArray.size_append, Word.size_int32]
    refine ⟨hw.kept.append _, fun frame hframe => ?_⟩
    change _ ∧ frame.start + 4 ≤ (w.buffer ++ Word.int32 0).size
    cases hframe with
    | head => exact ⟨hprior, Nat.le_of_eq hsize.symm⟩
    | tail _ houter =>
        have hplace := hw.places frame houter
        omega

-- Even the frame that is closed by the wrong end is only dropped.
theorem closeFrame_confined (container : Container) :
    Preserves (Confined prior) (closeFrame container) := by
  intro w hw
  unfold closeFrame
  cases hframes : w.frames with
  | nil => exact hw
  | cons frame outer =>
      have hplaces := hw.places
      rw [hframes] at hplaces
      have hframe := hplaces frame List.mem_cons_self
      have houter : ∀ other ∈ outer,
          prior.size ≤ other.start ∧ other.start + 4 ≤ w.buffer.size :=
        fun other hother => hplaces other (List.mem_cons_of_mem _ hother)
      have hsize : (w.buffer ++ [0].toByteArray).size = w.buffer.size + 1 := by simp
      have hended : BeginsWith prior (w.buffer ++ [0].toByteArray) := hw.kept.append _
      dsimp only
      by_cases hkind : frame.container = container
      · rw [if_pos hkind]
        cases lengthWord ((w.buffer ++ [0].toByteArray).size - frame.start) with
        | ok size =>
            have hpatched :
                (patch (w.buffer ++ [0].toByteArray) frame.start (Word.int32 size)).size =
                  w.buffer.size + 1 := by
              rw [size_patch (by omega) (Word.size_int32 size), hsize]
            refine ⟨hended.patch hframe.1 _, fun other hother => ?_⟩
            have hplace := houter other hother
            change _ ∧ other.start + 4 ≤
              (patch (w.buffer ++ [0].toByteArray) frame.start (Word.int32 size)).size
            omega
        | error e =>
            refine ⟨hended, fun other hother => ?_⟩
            have hplace := houter other hother
            change _ ∧ other.start + 4 ≤ (w.buffer ++ [0].toByteArray).size
            omega
      · rw [if_neg hkind]
        exact ⟨hw.kept, houter⟩

-- No token that a program asks for reaches what was there before.
theorem apply_confined (token : Token) : Preserves (Confined prior) (apply token) := by
  cases token with
  | name name =>
      apply preserves_modify
      intro w hw
      exact ⟨hw.kept, hw.places⟩
  | startDocument =>
      apply preserves_get_bind
      intro w hw
      by_cases hempty : w.frames.isEmpty
      · rw [if_pos hempty]
        exact openFrame_confined _
      · rw [if_neg hempty]
        exact preserves_bind (header_confined _) fun _ => openFrame_confined _
  | endDocument => exact closeFrame_confined _
  | startArray => exact preserves_bind (header_confined _) fun _ => openFrame_confined _
  | endArray => exact closeFrame_confined _
  | double d => exact preserves_bind (header_confined _) fun _ => append_confined _
  | string s =>
      apply preserves_bind (header_confined _)
      intro _
      exact preserves_bind (appendLength_confined _) fun _ => append_confined _
  | binary b =>
      apply preserves_bind (header_confined _)
      intro _
      exact preserves_bind (appendLength_confined _) fun _ => append_confined _
  | objectId id => exact preserves_bind (header_confined _) fun _ => append_confined _
  | boolean b => exact preserves_bind (header_confined _) fun _ => append_confined _
  | dateTime t => exact preserves_bind (header_confined _) fun _ => append_confined _
  | null => exact header_confined _
  | int32 n => exact preserves_bind (header_confined _) fun _ => append_confined _
  | int64 n => exact preserves_bind (header_confined _) fun _ => append_confined _

-- Nor does a whole program, whatever it makes of the errors that it meets.
theorem run_confined {α : Type} (x : Writing α) : Preserves (Confined prior) x.run := by
  induction x with
  | done a => exact preserves_pure a
  | fail e => exact preserves_throw e
  | ask token next ih =>
      intro w hw
      have htoken := apply_confined token w hw
      simp only [Writing.run]
      cases hrun : apply token w with
      | ok u m =>
          rw [hrun] at htoken
          exact ih (.ok ()) m htoken
      | error e m =>
          rw [hrun] at htoken
          exact ih (.error e) m htoken
  | locate next ih =>
      intro w hw
      exact ih w.position w hw

end Writer

namespace Writing

theorem runOn_beginsWith {α : Type} (x : Writing α) {prior buffer : ByteArray}
    (h : BeginsWith prior buffer) : BeginsWith prior (x.runOn buffer).2 := by
  have hrun := Writer.run_confined x _ (Writer.confined_onBuffer h)
  unfold runOn
  cases houtcome : x.run (Writer.onBuffer buffer) with
  | ok a w =>
      rw [houtcome] at hrun
      exact hrun.kept
  | error e w =>
      rw [houtcome] at hrun
      exact hrun.kept

end Writing

end DocWire
