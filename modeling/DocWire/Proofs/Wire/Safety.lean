import DocWire.Proofs.Wire.Checked

namespace DocWire.Reader

open Outcome Wire

-- What a reader can be asked for. Documents and arrays are entered and left alike.
inductive Call where
  | start (container : Container)
  | finish (container : Container)
  | tag
  | name
  | double
  | string
  | binary
  | objectId
  | boolean
  | dateTime
  | null
  | int32
  | int64

namespace Call

abbrev Answer : Call → Type
  | .start _ => Unit
  | .finish _ => Unit
  | .tag => Option Tag
  | .name => String
  | .double => Double
  | .string => String
  | .binary => Binary
  | .objectId => ObjectId
  | .boolean => Bool
  | .dateTime => DateTime
  | .null => Unit
  | .int32 => Int32
  | .int64 => Int64

def run : (call : Call) → Action call.Answer
  | .start _ => Reader.start
  | .finish _ => Reader.finish
  | .tag => Reader.tag
  | .name => Reader.name
  | .double => Reader.double
  | .string => Reader.string
  | .binary => Reader.binary
  | .objectId => Reader.objectId
  | .boolean => Reader.boolean
  | .dateTime => Reader.dateTime
  | .null => Reader.null
  | .int32 => Reader.int32
  | .int64 => Reader.int64

def checked : (call : Call) → Checked call.Answer
  | .start _ => Checked.start
  | .finish _ => Checked.finish
  | .tag => Checked.tag
  | .name => Checked.name
  | .double => Checked.double
  | .string => Checked.string
  | .binary => Checked.binary
  | .objectId => Checked.objectId
  | .boolean => Checked.boolean
  | .dateTime => Checked.dateTime
  | .null => Checked.null
  | .int32 => Checked.int32
  | .int64 => Checked.int64

-- The bytes that an answer is read from.
def Spells : (call : Call) → ByteArray → call.Answer → Prop
  | .start _, text, _ => ∃ size, text = Word.int32 size
  | .finish _, text, _ => text = ByteArray.empty
  | .tag, text, found => text = [(found.map Tag.code).getD 0].toByteArray
  | .name, text, found => Writer.hasZeroByte found = false ∧ text = terminated found
  | .double, text, d => text = Word.uint64 d.bits
  | .string, text, s =>
    ∃ size : Int32, size.toInt = s.toUTF8.size + 1 ∧ text = Word.int32 size ++ terminated s
  | .binary, text, b =>
    ∃ size : Int32, size.toInt = b.bytes.size ∧
      text = Word.int32 size ++ ([b.subtype].toByteArray ++ b.bytes)
  | .objectId, text, id => text = id.toBytes
  | .boolean, text, b => text = [if b then 1 else 0].toByteArray
  | .dateTime, text, t => text = Word.int64 t.milliseconds
  | .null, text, _ => text = ByteArray.empty
  | .int32, text, n => text = Word.int32 n
  | .int64, text, n => text = Word.int64 n

end Call

variable {r s : Reader}

theorem Call.agree (call : Call) (h : r.InBounds) : Agree call.checked call.run r := by
  cases call with
  | start container => exact start_agree h
  | finish container => exact finish_agree
  | tag => exact tag_agree h
  | name => exact name_agree h
  | double => exact double_agree h
  | string => exact string_agree h
  | binary => exact binary_agree h
  | objectId => exact objectId_agree h
  | boolean => exact boolean_agree h
  | dateTime => exact dateTime_agree h
  | null => exact null_agree
  | int32 => exact int32_agree h
  | int64 => exact int64_agree h

-- An answer is read from the bytes that the reader moves over.
theorem Call.spelled (call : Call) (h : r.InBounds) {a : call.Answer}
    (hrun : call.run r = .ok a s) :
    ∃ text, call.Spells text a ∧ r.Holds text ∧ s.position = r.position + text.size := by
  have hr := h.bounded
  cases call with
  | start container =>
      obtain ⟨_, size, _, _, _, htext, _, rfl⟩ := (start_eq_ok hr).mp hrun
      exact ⟨_, ⟨size, rfl⟩, htext, rfl⟩
  | finish container =>
      obtain ⟨_, hs⟩ := finish_eq_ok.mp hrun
      rw [hs]
      exact ⟨_, rfl, holds_empty h.inside, rfl⟩
  | tag =>
      cases a with
      | none =>
          obtain ⟨htext, rfl⟩ := (tag_eq_none hr).mp hrun
          exact ⟨_, rfl, htext, rfl⟩
      | some found =>
          obtain ⟨htext, rfl⟩ := (tag_eq_some hr).mp hrun
          exact ⟨_, rfl, htext, rfl⟩
  | name =>
      obtain ⟨hclean, htext, rfl⟩ := (name_eq_ok hr).mp hrun
      refine ⟨_, ⟨hclean, rfl⟩, htext, ?_⟩
      rw [size_terminated]
      rfl
  | double =>
      obtain ⟨htext, rfl⟩ := (double_eq_ok hr).mp hrun
      exact ⟨_, rfl, htext, rfl⟩
  | string =>
      obtain ⟨size, hsize, htext, rfl⟩ := (string_eq_ok hr).mp hrun
      refine ⟨_, ⟨size, hsize, rfl⟩, htext, ?_⟩
      rw [ByteArray.size_append, Word.size_int32, size_terminated, skip_position]
      omega
  | binary =>
      obtain ⟨size, hsize, htext, rfl⟩ := (binary_eq_ok hr).mp hrun
      refine ⟨_, ⟨size, hsize, rfl⟩, htext, ?_⟩
      simp only [ByteArray.size_append, Word.size_int32, List.size_toByteArray,
        List.length_singleton, skip_position]
      omega
  | objectId =>
      obtain ⟨htext, rfl⟩ := (objectId_eq_ok hr).mp hrun
      refine ⟨_, rfl, htext, ?_⟩
      rw [ObjectId.size_toBytes]
      rfl
  | boolean =>
      obtain ⟨htext, rfl⟩ := (boolean_eq_ok hr).mp hrun
      exact ⟨_, rfl, htext, rfl⟩
  | dateTime =>
      obtain ⟨htext, rfl⟩ := (dateTime_eq_ok hr).mp hrun
      exact ⟨_, rfl, htext, rfl⟩
  | null =>
      obtain ⟨_, rfl⟩ := null_eq_ok.mp hrun
      exact ⟨_, rfl, holds_empty h.inside, rfl⟩
  | int32 =>
      obtain ⟨htext, rfl⟩ := (int32_eq_ok hr).mp hrun
      exact ⟨_, rfl, htext, rfl⟩
  | int64 =>
      obtain ⟨htext, rfl⟩ := (int64_eq_ok hr).mp hrun
      exact ⟨_, rfl, htext, rfl⟩

-- A reader with the documents that it has entered and not left.
structure Watched where
  reader : Reader
  opened : List Extent

namespace Watched

-- An end leaves the innermost document even if it fails, and a start enters one only if it succeeds.
def step (w : Watched) (call : Call) : Watched where
  reader := final (call.run w.reader)
  opened :=
    match call with
    | .start _ =>
      match start w.reader with
      | .ok _ _ => .declared w.reader.bytes w.reader.position :: w.opened
      | .error _ _ => w.opened
    | .finish _ => w.opened.tail
    | _ => w.opened

structure Sound (bytes : ByteArray) (w : Watched) : Prop where
  bytes : w.reader.bytes = bytes
  inBounds : w.reader.InBounds
  ends : w.opened.map Extent.last = w.reader.ends
  behind : ∀ e ∈ w.opened, e.first ≤ w.reader.position

variable {bytes : ByteArray} {w : Watched}

theorem sound_ofBytes (bytes : ByteArray) : Sound bytes ⟨ofBytes bytes, []⟩ where
  bytes := rfl
  inBounds := inBounds_ofBytes bytes
  ends := rfl
  behind := by simp

theorem Sound.moved (h : Sound bytes w) (hs : Moved w.reader s) : Sound bytes ⟨s, w.opened⟩ where
  bytes := hs.bytes.trans h.bytes
  inBounds := h.inBounds.moved hs
  ends := h.ends.trans hs.ends.symm
  behind := fun e he => Nat.le_trans (h.behind e he) hs.onward

theorem Sound.moved_run (h : Sound bytes w) {α : Type} {x : Action α}
    (hx : Preserves (Moved w.reader) x) :
    Sound bytes ⟨final (x w.reader), w.opened⟩ ∧
      w.reader.position ≤ (final (x w.reader)).position :=
  have hmoved := hx w.reader h.inBounds.refl
  ⟨h.moved hmoved, hmoved.onward⟩

theorem Sound.start (h : Sound bytes w) (container : Container) :
    Sound bytes (w.step (.start container)) ∧
      w.reader.position ≤ (w.step (.start container)).reader.position := by
  simp only [step, Call.run]
  cases hrun : Reader.start w.reader with
  | error e s =>
      have hmoved := start_error_moved h.inBounds hrun
      exact ⟨h.moved hmoved, hmoved.onward⟩
  | ok u s =>
      obtain ⟨hinBounds, hbytes, hposition, hends⟩ := start_ok_inBounds h.inBounds hrun
      have honward : w.reader.position ≤ s.position := by omega
      refine ⟨⟨hbytes.trans h.bytes, hinBounds, ?_, ?_⟩, honward⟩
      · rw [List.map_cons, h.ends]
        exact hends.symm
      · intro e he
        rcases List.mem_cons.mp he with rfl | houter
        · exact honward
        · exact Nat.le_trans (h.behind e houter) honward

theorem Sound.finish (h : Sound bytes w) (container : Container) :
    Sound bytes (w.step (.finish container)) ∧
      w.reader.position ≤ (w.step (.finish container)).reader.position := by
  obtain ⟨hinBounds, hbytes, hposition, hends⟩ := finish_inBounds h.inBounds
  refine ⟨⟨hbytes.trans h.bytes, hinBounds, ?_, fun e he => ?_⟩, Nat.le_of_eq hposition.symm⟩
  · rw [step, List.map_tail, h.ends]
    exact hends.symm
  · exact Nat.le_trans (h.behind e (List.mem_of_mem_tail he)) (Nat.le_of_eq hposition.symm)

-- No call leaves the bounds or goes back, whether it succeeds or not.
theorem Sound.step (h : Sound bytes w) (call : Call) :
    Sound bytes (w.step call) ∧ w.reader.position ≤ (w.step call).reader.position := by
  cases call with
  | start container => exact h.start container
  | finish container => exact h.finish container
  | tag => exact h.moved_run tag_moved
  | name => exact h.moved_run name_moved
  | double => exact h.moved_run double_moved
  | string => exact h.moved_run string_moved
  | binary => exact h.moved_run binary_moved
  | objectId => exact h.moved_run objectId_moved
  | boolean => exact h.moved_run boolean_moved
  | dateTime => exact h.moved_run dateTime_moved
  | null => exact h.moved_run null_moved
  | int32 => exact h.moved_run int32_moved
  | int64 => exact h.moved_run int64_moved

theorem Sound.run (h : Sound bytes w) (calls : List Call) :
    Sound bytes (calls.foldl Watched.step w) := by
  induction calls generalizing w with
  | nil => exact h
  | cons call rest ih => exact ih (h.step call).1

-- The end of every open document is recorded, and none of them is in front of the reader's limit.
theorem Sound.limit_le_last (h : Sound bytes w) : ∀ e ∈ w.opened, w.reader.limit ≤ e.last := by
  intro e he
  have hlast : e.last ∈ w.reader.ends := by
    rw [← h.ends]
    exact List.mem_map_of_mem he
  exact h.inBounds.limit_le _ (List.mem_append_left _ hlast)

end Watched

-- After any calls, failed ones included, the reader stands within its bounds, and whatever it is
-- asked for next: no access lies outside of what is there, it does not go back, and what an answer is
-- read from lies in every document that is open.
theorem safe_under_any_use (bytes : ByteArray) (calls : List Call) :
    let w := calls.foldl Watched.step ⟨ofBytes bytes, []⟩
    w.Sound bytes ∧ ∀ call : Call,
      call.checked w.reader = unchecked call.run w.reader ∧
      (∀ s, call.checked w.reader ≠ .error none s) ∧
      w.reader.position ≤ (final (call.run w.reader)).position ∧
      ∀ a s, call.run w.reader = .ok a s →
        ∃ text, call.Spells text a ∧ w.reader.Holds text ∧
          s.position = w.reader.position + text.size ∧
          ∀ e ∈ w.opened, e.first ≤ w.reader.position ∧ s.position ≤ e.last := by
  intro w
  have hsound : w.Sound bytes := (Watched.sound_ofBytes bytes).run calls
  refine ⟨hsound, fun call => ?_⟩
  have hagree := call.agree hsound.inBounds
  refine ⟨hagree, hagree.not_broken, (hsound.step call).2, fun a s hrun => ?_⟩
  obtain ⟨text, hspells, htext, hposition⟩ := call.spelled hsound.inBounds hrun
  refine ⟨text, hspells, htext, hposition, fun e he => ⟨hsound.behind e he, ?_⟩⟩
  have hlimit := htext.1
  have hlast := hsound.limit_le_last e he
  omega

-- A size that is refused is passed over all the same.
example : ([Call.start .document, .int32].foldl Watched.step
    ⟨ofBytes [4, 0, 0, 0, 1, 0, 0, 0].toByteArray, []⟩).reader.position = 8 := by
  decide

end DocWire.Reader
