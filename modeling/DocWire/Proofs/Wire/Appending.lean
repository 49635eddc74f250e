import DocWire.Proofs.Wire.Acceptance
import DocWire.Proofs.Wire.Balance
import DocWire.Proofs.Wire.Confinement
import DocWire.Proofs.Wire.Placement

namespace DocWire

open Outcome

theorem BeginsWith.getElem?_eq {prior buffer : ByteArray} (h : BeginsWith prior buffer) {i : Nat}
    (hi : i < prior.size) : buffer[i]? = prior[i]? := by
  obtain ⟨written, rfl⟩ := h
  have hlonger : i < (prior ++ written).size := by
    rw [ByteArray.size_append]
    omega
  rw [getElem?_pos _ i hlonger, getElem?_pos _ i hi, ByteArray.getElem_append_left hi]

namespace Writer

-- One call, with what it answers.
def step (token : Token) (w : Writer) : Except CodecError Unit × Writer :=
  match apply token w with
  | .ok _ m => (.ok (), m)
  | .error e m => (.error e, m)

-- One call after the other, whatever each of them answers.
def course : List Token → Writer → List (Except CodecError Unit) × Writer
  | [], w => ([], w)
  | token :: rest, w =>
    let called := step token w
    let later := course rest called.2
    (called.1 :: later.1, later.2)

-- The call ends the innermost frame, and puts the size of what it ends over the four bytes that
-- were left for it.
structure Patches (prior : ByteArray) (token : Token) (frame : Frame) (w : Writer) : Prop where
  closes : token = frame.container.closing
  answers : (step token w).1 = .ok ()
  innermost : w.frames = frame :: (step token w).2.frames
  behind : prior.size ≤ frame.start
  inside : frame.start + 4 ≤ w.buffer.size
  size : (step token w).2.buffer.extract frame.start (frame.start + 4) =
    Word.int32 (Int32.ofNat ((step token w).2.buffer.size - frame.start))

-- Whatever is called next, the writer keeps its bytes, but for such a size.
def Lasting (prior : ByteArray) (w : Writer) : Prop :=
  ∀ token, w.buffer.size ≤ (step token w).2.buffer.size ∧
    ∀ i < w.buffer.size, (step token w).2.buffer[i]? ≠ w.buffer[i]? →
      ∃ frame, Patches prior token frame w ∧ frame.start ≤ i ∧ i < frame.start + 4

section

variable {buffer word : ByteArray} {start i : Nat}

theorem getElem?_behind {front rest : ByteArray} (hi : front.size ≤ i) :
    (front ++ rest)[i]? = rest[i - front.size]? := by
  change (front ++ rest).data[i]? = rest.data[i - front.size]?
  rw [ByteArray.data_append]
  exact Array.getElem?_append_right hi

theorem size_head (hstart : start ≤ buffer.size) : (buffer.extract 0 start).size = start := by
  rw [ByteArray.size_extract]
  omega

theorem getElem?_patch (hstart : start + 4 ≤ buffer.size) (hword : word.size = 4)
    (hi : i < start ∨ start + 4 ≤ i) : (patch buffer start word)[i]? = buffer[i]? := by
  have hhead : (buffer.extract 0 start).size = start := size_head (by omega)
  by_cases hbefore : i < start
  · have hkept : BeginsWith (buffer.extract 0 start) (patch buffer start word) :=
      ⟨word ++ buffer.extract (start + 4) buffer.size, ByteArray.append_assoc⟩
    have hwhole : BeginsWith (buffer.extract 0 start) buffer :=
      ⟨buffer.extract start buffer.size, (Wire.extract_append_rest (by omega)).symm⟩
    rw [hkept.getElem?_eq (by omega), hwhole.getElem?_eq (by omega)]
  · have hlong : (buffer.extract 0 start ++ word).size = start + 4 := by
      rw [ByteArray.size_append, hhead, hword]
    have hover : (buffer.extract 0 (start + 4)).size = start + 4 := size_head hstart
    have hwhole : buffer.extract 0 (start + 4) ++ buffer.extract (start + 4) buffer.size = buffer :=
      Wire.extract_append_rest hstart
    rw [patch, getElem?_behind (by omega), hlong]
    conv_rhs => rw [← hwhole, getElem?_behind (by omega), hover]

theorem extract_patch (hstart : start + 4 ≤ buffer.size) (hword : word.size = 4) :
    (patch buffer start word).extract start (start + 4) = word := by
  have hhead : (buffer.extract 0 start).size = start := size_head (by omega)
  have hnone : (buffer.extract 0 start).extract start (start + 4) = ByteArray.empty := by
    rw [ByteArray.extract_eq_empty_iff]
    omega
  have hword' : (word ++ buffer.extract (start + 4) buffer.size).extract 0 4 = word :=
    ByteArray.extract_append_eq_left hword.symm
  rw [patch, ByteArray.append_assoc, ByteArray.extract_append, hhead, hnone, Nat.sub_self,
    Nat.add_sub_cancel_left, hword', ByteArray.empty_append]

end

variable {prior fixed : ByteArray} {token : Token} {w : Writer}

theorem step_eq_final (token : Token) (w : Writer) : (step token w).2 = final (apply token w) := by
  unfold step
  cases apply token w <;> rfl

theorem lengthWord_eq_ok {length : Nat} {size : Int32} (h : lengthWord length = .ok size) :
    size = Int32.ofNat length := by
  unfold lengthWord at h
  split at h
  · cases h
    rfl
  · cases h

theorem append_extends (bytes : ByteArray) :
    Preserves (fun u => BeginsWith fixed u.buffer) (append bytes) := by
  apply preserves_modify
  intro u hu
  exact hu.append bytes

theorem takeName_extends : Preserves (fun u => BeginsWith fixed u.buffer) takeName := by
  intro u hu
  unfold takeName
  split
  · exact hu
  · exact hu
  · split
    · exact hu
    · exact hu

theorem header_extends (tag : Tag) :
    Preserves (fun u => BeginsWith fixed u.buffer) (header tag) := by
  apply preserves_bind takeName_extends
  intro name
  split
  · exact preserves_throw _
  · exact append_extends _

theorem appendLength_extends (length : Nat) :
    Preserves (fun u => BeginsWith fixed u.buffer) (appendLength length) := by
  unfold appendLength
  split
  · exact append_extends _
  · exact preserves_throw _

theorem openFrame_extends (container : Container) :
    Preserves (fun u => BeginsWith fixed u.buffer) (openFrame container) := by
  intro u hu
  unfold openFrame
  split
  · exact hu
  · exact hu.append _

-- Only an end reaches back.
theorem apply_extends (htoken : ∀ container, token ≠ Container.closing container) :
    Preserves (fun u => BeginsWith fixed u.buffer) (apply token) := by
  cases token with
  | name name => exact preserves_modify fun _ hu => hu
  | startDocument =>
      apply preserves_get_bind
      intro u hu
      by_cases hempty : u.frames.isEmpty
      · rw [if_pos hempty]
        exact openFrame_extends _
      · rw [if_neg hempty]
        exact preserves_bind (header_extends _) fun _ => openFrame_extends _
  | endDocument => exact absurd rfl (htoken .document)
  | startArray => exact preserves_bind (header_extends _) fun _ => openFrame_extends _
  | endArray => exact absurd rfl (htoken .array)
  | string s =>
      apply preserves_bind (header_extends _)
      intro _
      exact preserves_bind (appendLength_extends _) fun _ => append_extends _
  | binary b =>
      apply preserves_bind (header_extends _)
      intro _
      exact preserves_bind (appendLength_extends _) fun _ => append_extends _
  | null => exact header_extends _
  | _ => exact preserves_bind (header_extends _) fun _ => append_extends _

-- An end either only appends, or puts in the size of what it ends.
theorem closing_changes (container : Container) (hw : Confined prior w) :
    BeginsWith w.buffer (step container.closing w).2.buffer ∨
      ∃ frame word, Patches prior container.closing frame w ∧
        (step container.closing w).2.buffer =
          patch (w.buffer ++ [0].toByteArray) frame.start (Word.int32 word) := by
  have hends : apply container.closing = closeFrame container := by
    cases container <;> rfl
  cases hframes : w.frames with
  | nil =>
      have hstep : step container.closing w = (.error (.misuse .unopenedEnd), w) := by
        simp only [step, hends, closeFrame, hframes]
      rw [hstep]
      exact .inl (BeginsWith.refl _)
  | cons frame outer =>
      by_cases hkind : frame.container = container
      · cases hlength : lengthWord ((w.buffer ++ [0].toByteArray).size - frame.start) with
        | error e =>
            have hstep : step container.closing w =
                (.error e, ⟨w.buffer ++ [0].toByteArray, outer, w.name⟩) := by
              simp only [step, hends, closeFrame, hframes, hkind, if_true, hlength]
            rw [hstep]
            exact .inl ⟨_, rfl⟩
        | ok size =>
            have hstep : step container.closing w =
                (.ok (), ⟨patch (w.buffer ++ [0].toByteArray) frame.start (Word.int32 size),
                  outer, w.name⟩) := by
              simp only [step, hends, closeFrame, hframes, hkind, if_true, hlength]
            have hplace := hw.places frame (by rw [hframes]; exact List.mem_cons_self)
            have hinside : frame.start + 4 ≤ (w.buffer ++ [0].toByteArray).size := by
              rw [ByteArray.size_append]
              omega
            refine .inr ⟨frame, size, ⟨by rw [hkind], ?_, ?_, hplace.1, hplace.2, ?_⟩, ?_⟩
            · rw [hstep]
            · rw [hstep, hframes]
            · rw [hstep, size_patch hinside (Word.size_int32 size),
                extract_patch hinside (Word.size_int32 size), lengthWord_eq_ok hlength]
            · rw [hstep]
      · have hstep : step container.closing w =
            (.error (.misuse .unopenedEnd), { w with frames := outer }) := by
          simp only [step, hends, closeFrame, hframes, hkind, if_false]
        rw [hstep]
        exact .inl (BeginsWith.refl _)

theorem step_changes (token : Token) (hw : Confined prior w) :
    BeginsWith w.buffer (step token w).2.buffer ∨
      ∃ frame word, Patches prior token frame w ∧ (step token w).2.buffer =
        patch (w.buffer ++ [0].toByteArray) frame.start (Word.int32 word) := by
  by_cases hcloses : ∃ container, token = Container.closing container
  · obtain ⟨container, rfl⟩ := hcloses
    exact closing_changes container hw
  · have hkept := apply_extends (not_exists.mp hcloses) w (BeginsWith.refl w.buffer)
    rw [step_eq_final]
    exact .inl hkept

theorem Confined.lasting (hw : Confined prior w) : Lasting prior w := by
  intro token
  rcases step_changes token hw with hkept | ⟨frame, word, hpatches, hbuffer⟩
  · exact ⟨hkept.size_le, fun i hi hchanged => absurd (hkept.getElem?_eq hi) hchanged⟩
  · have hended : BeginsWith w.buffer (w.buffer ++ [0].toByteArray) := ⟨_, rfl⟩
    have hinside : frame.start + 4 ≤ (w.buffer ++ [0].toByteArray).size :=
      Nat.le_trans hpatches.inside hended.size_le
    have hword : (Word.int32 word).size = 4 := Word.size_int32 word
    constructor
    · rw [hbuffer, size_patch hinside hword]
      exact hended.size_le
    · intro i hi hchanged
      have hplace : ¬(i < frame.start ∨ frame.start + 4 ≤ i) := by
        intro houtside
        apply hchanged
        rw [hbuffer, getElem?_patch hinside hword houtside, hended.getElem?_eq hi]
      exact ⟨frame, hpatches, by omega, by omega⟩

-- What every call keeps, any calls keep.
theorem course_keeps {I : Writer → Prop} (h : ∀ token, Preserves I (apply token))
    (tokens : List Token) (hw : I w) : I (course tokens w).2 := by
  induction tokens generalizing w with
  | nil => exact hw
  | cons token rest ih =>
      have hstep := h token w hw
      rw [← step_eq_final] at hstep
      exact ih hstep

theorem step_behind (prior : ByteArray) (token : Token) (w : Writer) :
    step token (w.behind prior) = ((step token w).1, (step token w).2.behind prior) := by
  unfold step
  rw [apply_portable token prior w]
  cases apply token w <;> rfl

theorem course_behind (prior : ByteArray) (tokens : List Token) (w : Writer) :
    course tokens (w.behind prior) =
      ((course tokens w).1, (course tokens w).2.behind prior) := by
  induction tokens generalizing w with
  | nil => rfl
  | cons token rest ih => simp only [course, step_behind, ih]

-- Calls answer the same and append the same bytes behind whatever stands in the buffer, and what
-- stands there then is not written again, but for the sizes of what is still open.
theorem calls_append (tokens : List Token) :
    ∃ answers written, ∀ prior, (course tokens (onBuffer prior)).1 = answers ∧
      (course tokens (onBuffer prior)).2.buffer = prior ++ written ∧
      (course tokens (onBuffer prior)).2.position = prior.size + written.size ∧
      Lasting prior (course tokens (onBuffer prior)).2 := by
  refine ⟨(course tokens (onBuffer ByteArray.empty)).1,
    (course tokens (onBuffer ByteArray.empty)).2.buffer, fun prior => ?_⟩
  have hcourse := course_behind prior tokens (onBuffer ByteArray.empty)
  rw [← onBuffer_behind] at hcourse
  have hconfined := course_keeps (fun token => apply_confined token) tokens
    (confined_onBuffer (BeginsWith.refl prior))
  refine ⟨?_, ?_, ?_, hconfined.lasting⟩
  · rw [hcourse]
  · rw [hcourse]
    rfl
  · rw [hcourse]
    exact ByteArray.size_append

end Writer

end DocWire
