import DocWire.Codec.Encode
import DocWire.Proofs.Wire.Outcome

namespace DocWire

def Frame.moved (distance : Nat) (frame : Frame) : Frame :=
  { frame with start := distance + frame.start }

namespace Writer

open Outcome

-- The writer that does not begin with an empty buffer but behind other bytes.
def behind (prior : ByteArray) (w : Writer) : Writer :=
  ⟨prior ++ w.buffer, w.frames.map (Frame.moved prior.size), w.name⟩

theorem onBuffer_behind (prior : ByteArray) :
    onBuffer prior = (onBuffer ByteArray.empty).behind prior := by
  simp only [onBuffer, behind, ByteArray.append_empty, List.map_nil]

def carried {α : Type} (prior : ByteArray) :
    EStateM.Result CodecError Writer α → EStateM.Result CodecError Writer α
  | .ok a w => .ok a (w.behind prior)
  | .error e w => .error e (w.behind prior)

-- An action that comes to the same whatever stands in front of what it writes.
def Portable {α : Type} (x : Action α) : Prop :=
  ∀ prior w, x (w.behind prior) = carried prior (x w)

section

variable {α β : Type}

theorem portable_pure (a : α) : Portable (pure a : Action α) :=
  fun _ _ => rfl

theorem portable_throw (e : CodecError) : Portable (throw e : Action α) :=
  fun _ _ => rfl

theorem portable_bind {x : Action α} {f : α → Action β} (hx : Portable x)
    (hf : ∀ a, Portable (f a)) : Portable (x >>= f) := by
  intro prior w
  simp only [bind, EStateM.bind, hx prior w]
  cases x w with
  | ok a u => exact hf a prior u
  | error e u => rfl

end

theorem append_portable (bytes : ByteArray) : Portable (append bytes) := by
  intro prior w
  change EStateM.Result.ok () _ = EStateM.Result.ok () _
  simp only [behind, ByteArray.append_assoc]

theorem takeName_portable : Portable takeName := by
  intro prior w
  obtain ⟨buffer, frames, name⟩ := w
  cases frames with
  | nil => rfl
  | cons frame outer =>
      obtain ⟨start, container, index⟩ := frame
      cases container with
      | array => rfl
      | document => cases name <;> rfl

theorem header_portable (tag : Tag) : Portable (header tag) := by
  apply portable_bind takeName_portable
  intro name
  split
  · exact portable_throw _
  · exact append_portable _

theorem appendLength_portable (length : Nat) : Portable (appendLength length) := by
  unfold appendLength
  split
  · exact append_portable _
  · exact portable_throw _

theorem openFrame_portable (container : Container) : Portable (openFrame container) := by
  intro prior w
  simp only [openFrame, behind, List.length_map, ByteArray.size_append]
  split
  · rfl
  · simp only [carried, behind, ByteArray.append_assoc, List.map_cons, Frame.moved]

-- A word is put over bytes that have moved.
theorem patch_behind (prior buffer word : ByteArray) (start : Nat) :
    patch (prior ++ buffer) (prior.size + start) word = prior ++ patch buffer start word := by
  have hhead : (prior ++ buffer).extract 0 (prior.size + start) =
      prior ++ buffer.extract 0 start := by
    rw [ByteArray.extract_append, Nat.zero_sub, Nat.add_sub_cancel_left]
    congr 1
    have hmax : max (prior.size + start) prior.size = prior.size + start := by omega
    rw [← hmax, ByteArray.extract_zero_max_size]
  have htail : (prior ++ buffer).extract (prior.size + start + 4) (prior ++ buffer).size =
      buffer.extract (start + 4) buffer.size := by
    have hbeyond : prior.extract (prior.size + start + 4) (prior ++ buffer).size =
        ByteArray.empty := by
      rw [ByteArray.extract_eq_empty_iff]
      omega
    rw [ByteArray.extract_append, hbeyond, ByteArray.empty_append, ByteArray.size_append]
    congr 1 <;> omega
  simp only [patch, hhead, htail, ByteArray.append_assoc]

theorem closeFrame_portable (container : Container) : Portable (closeFrame container) := by
  intro prior w
  obtain ⟨buffer, frames, name⟩ := w
  cases frames with
  | nil => rfl
  | cons frame outer =>
      obtain ⟨start, kind, index⟩ := frame
      have hsize : (prior ++ (buffer ++ [0].toByteArray)).size - (prior.size + start) =
          (buffer ++ [0].toByteArray).size - start := by
        rw [ByteArray.size_append]
        omega
      simp only [closeFrame, behind, List.map_cons, Frame.moved, ByteArray.append_assoc, hsize]
      by_cases hkind : kind = container
      · simp only [hkind, if_true]
        cases lengthWord ((buffer ++ [0].toByteArray).size - start) with
        | ok size => simp only [carried, behind, patch_behind]
        | error e => rfl
      · simp only [hkind, if_false]
        rfl

theorem startDocument_portable : Portable (apply .startDocument) := by
  intro prior w
  have hframes : (w.behind prior).frames.isEmpty = w.frames.isEmpty := List.isEmpty_map
  simp only [apply, get_bind, hframes]
  split
  · exact openFrame_portable .document prior w
  · exact portable_bind (header_portable .document) (fun _ => openFrame_portable .document) prior w

-- No token looks at what stands in front of the bytes of its own writer.
theorem apply_portable (token : Token) : Portable (apply token) := by
  cases token with
  | name name => exact fun _ _ => rfl
  | startDocument => exact startDocument_portable
  | endDocument => exact closeFrame_portable _
  | startArray => exact portable_bind (header_portable _) fun _ => openFrame_portable _
  | endArray => exact closeFrame_portable _
  | double d => exact portable_bind (header_portable _) fun _ => append_portable _
  | string s =>
      apply portable_bind (header_portable _)
      intro _
      exact portable_bind (appendLength_portable _) fun _ => append_portable _
  | binary b =>
      apply portable_bind (header_portable _)
      intro _
      exact portable_bind (appendLength_portable _) fun _ => append_portable _
  | objectId id => exact portable_bind (header_portable _) fun _ => append_portable _
  | boolean b => exact portable_bind (header_portable _) fun _ => append_portable _
  | dateTime t => exact portable_bind (header_portable _) fun _ => append_portable _
  | null => exact header_portable _
  | int32 n => exact portable_bind (header_portable _) fun _ => append_portable _
  | int64 n => exact portable_bind (header_portable _) fun _ => append_portable _

end Writer

namespace Writing

open Writer

-- A program that never asks where the buffer ends.
inductive Blind {α : Type} : Writing α → Prop where
  | done (a : α) : Blind (.done a)
  | fail (e : CodecError) : Blind (.fail e)
  | ask (token : Token) {next : Except CodecError Unit → Writing α}
      (hnext : ∀ outcome, Blind (next outcome)) : Blind (.ask token next)

section

variable {α β : Type}

theorem Blind.bind {x : Writing α} {f : α → Writing β} (hx : Blind x) (hf : ∀ a, Blind (f a)) :
    Blind (x >>= f) := by
  induction hx with
  | done a => exact hf a
  | fail e => exact .fail e
  | ask token _ ih => exact .ask token ih

theorem blind_write (token : Token) : Blind (write token) := by
  refine .ask token fun outcome => ?_
  cases outcome with
  | ok u => exact .done u
  | error e => exact .fail e

theorem blind_document {fields : Writing Unit} (h : Blind fields) : Blind (document fields) :=
  (blind_write _).bind fun _ => h.bind fun _ => blind_write _

theorem blind_array {items : Writing Unit} (h : Blind items) : Blind (array items) :=
  (blind_write _).bind fun _ => h.bind fun _ => blind_write _

-- Such a program comes to the same behind any bytes.
theorem Blind.portable {x : Writing α} (hx : Blind x) : Portable x.run := by
  induction hx with
  | done a => exact portable_pure a
  | fail e => exact portable_throw e
  | ask token _ ih =>
      intro prior w
      simp only [run, apply_portable token prior w]
      cases apply token w with
      | ok u m => exact ih (.ok ()) prior m
      | error e m => exact ih (.error e) prior m

-- It ends in the same way on any buffer, and appends the same bytes to it.
theorem Blind.runOn_eq {x : Writing α} (hx : Blind x) (prior : ByteArray) :
    x.runOn prior = ((x.runOn ByteArray.empty).1, prior ++ (x.runOn ByteArray.empty).2) := by
  unfold runOn
  rw [onBuffer_behind, hx.portable prior]
  cases x.run (onBuffer ByteArray.empty) with
  | ok a w => rfl
  | error e w => rfl

end

end Writing

namespace Registry

open Writing

mutual

theorem writeValue_blind (v : Value) : Blind (standard.writeValue .value v) := by
  cases v with
  | document d =>
      obtain ⟨fields⟩ := d
      exact blind_document (writeFields_blind fields)
  | array items => exact blind_array (writeItems_blind items)
  | _ => exact blind_write _
termination_by structural v

theorem writeItems_blind (items : List Value) : Blind (standard.writeItems items) := by
  cases items with
  | nil => exact .done ()
  | cons v rest => exact (writeValue_blind v).bind fun _ => writeItems_blind rest
termination_by structural items

theorem writeFields_blind (fields : List (String × Value)) :
    Blind (standard.writeFields .any fields) := by
  cases fields with
  | nil => exact .done ()
  | cons field rest =>
      obtain ⟨name, v⟩ := field
      have hvalue := (writeValue_blind v).bind fun _ => writeFields_blind rest
      exact (blind_write (.name name)).bind fun _ => hvalue
termination_by structural fields

end

theorem encodeDocument_blind (d : Document) : Blind (standard.encodeDocument d) := by
  obtain ⟨fields⟩ := d
  exact blind_document (writeFields_blind fields)

-- A document is written behind any bytes as it is written alone.
theorem encodeDocument_runOn_ok {d : Document} {text : ByteArray} (h : standard.toBytes d = .ok text)
    (prior : ByteArray) : (standard.encodeDocument d).runOn prior = (.ok (), prior ++ text) := by
  rw [(encodeDocument_blind d).runOn_eq]
  unfold toBytes at h
  split at h
  · next bytes hrun =>
    cases h
    rw [hrun]
  · cases h

theorem encodeDocument_runOn_error {d : Document} {e : CodecError}
    (h : standard.toBytes d = .error e) (prior : ByteArray) :
    ((standard.encodeDocument d).runOn prior).1 = .error e := by
  rw [(encodeDocument_blind d).runOn_eq]
  unfold toBytes at h
  split at h
  · cases h
  · next fault written hrun =>
    cases h
    rw [hrun]

end Registry

end DocWire
