import DocWire.Codec.Decode
import DocWire.Proofs.Wire.Ending

namespace DocWire

open Outcome

theorem Scalar.read_ends (scalar : Scalar) : Reader.Ends scalar.read := by
  cases scalar with
  | int32 => exact raises_bind Reader.int32_ends fun _ => raises_pure _
  | int64 => exact raises_bind Reader.int64_ends fun _ => raises_pure _
  | double => exact raises_bind Reader.double_ends fun _ => raises_pure _
  | boolean => exact raises_bind Reader.boolean_ends fun _ => raises_pure _
  | binary => exact raises_bind Reader.binary_ends fun _ => raises_pure _
  | objectId => exact raises_bind Reader.objectId_ends fun _ => raises_pure _
  | dateTime => exact raises_bind Reader.dateTime_ends fun _ => raises_pure _
  | _ => exact raises_bind Reader.string_ends fun _ => raises_pure _

theorem Scalar.read_onward (scalar : Scalar) : Reader.Onward scalar.read := by
  apply Reader.onward_of_moved
  intro r
  cases scalar with
  | int32 => exact preserves_bind Reader.int32_moved fun _ => preserves_pure _
  | int64 => exact preserves_bind Reader.int64_moved fun _ => preserves_pure _
  | double => exact preserves_bind Reader.double_moved fun _ => preserves_pure _
  | boolean => exact preserves_bind Reader.boolean_moved fun _ => preserves_pure _
  | binary => exact preserves_bind Reader.binary_moved fun _ => preserves_pure _
  | objectId => exact preserves_bind Reader.objectId_moved fun _ => preserves_pure _
  | dateTime => exact preserves_bind Reader.dateTime_moved fun _ => preserves_pure _
  | _ => exact preserves_bind Reader.string_moved fun _ => preserves_pure _

-- The codecs that come with the registry.
def Codec.Own : Codec → Prop
  | .custom _ _ => False
  | _ => True

-- Those that read elements.
def Codec.Nests : Codec → Prop
  | .document _ | .map | .sequence | .array => True
  | _ => False

namespace Registry

open Reader

-- Elements are read by the registry's own codecs.
def OfOwn (r : Registry) : Prop :=
  ∀ tag codec, r.resolveTag tag = .ok codec → codec.Own

variable {α β : Type} {r : Registry}

-- Reads up to the end, or one element and what follows it.
def turn (r : Registry) (steps : Nat) (done : α) (next : String → Value → Action α) : Action α := do
  match ← Reader.tag with
  | none => return done
  | some _ =>
    let name ← Reader.name
    let v ← r.readWith steps (← r.currentCodec)
    next name v

-- Reads what stands between the two ends of a document or of an array.
def enclosed (body : Action α) (wrap : α → Value) : Action Value := do
  Reader.start
  let contents ← body
  Reader.finish
  return wrap contents

theorem readFields_succ (r : Registry) (steps : Nat) (d : Document) :
    r.readFields (steps + 1) d =
      r.turn steps d fun name v => r.readFields steps (d.insert name v) :=
  rfl

theorem readItems_succ (r : Registry) (steps : Nat) :
    r.readItems (steps + 1) =
      r.turn steps [] fun _ v => do return v :: (← r.readItems steps) :=
  rfl

theorem readDocument_succ (r : Registry) (steps : Nat) :
    r.readDocument (steps + 1) = enclosed (r.readFields steps .empty) .document :=
  rfl

theorem readArray_succ (r : Registry) (steps : Nat) :
    r.readArray (steps + 1) = enclosed (r.readItems steps) .array :=
  rfl

theorem readWith_value (r : Registry) (steps : Nat) :
    r.readWith (steps + 1) .value = (do r.readWith steps (← r.currentCodec)) :=
  rfl

theorem continued_turn {steps more : Nat} {done : α} {next next' : String → Value → Action α}
    (hvalue : ∀ codec, Continued (r.readWith steps codec) (r.readWith more codec))
    (hnext : ∀ name v, Continued (next name v) (next' name v)) :
    Continued (r.turn steps done next) (r.turn more done next') := by
  apply continued_bind (continued_refl _)
  intro found
  cases found with
  | none => exact continued_refl _
  | some t =>
      apply continued_bind (continued_refl _)
      intro name
      apply continued_bind (continued_refl _)
      intro codec
      exact continued_bind (hvalue codec) (hnext name)

theorem continued_enclosed {x y : Action α} (hxy : Continued x y) (wrap : α → Value) :
    Continued (enclosed x wrap) (enclosed y wrap) := by
  apply continued_bind (continued_refl _)
  intro _
  exact continued_bind hxy fun _ => continued_refl _

-- What is read with one step more.
structure OneMore (r : Registry) (steps : Nat) : Prop where
  value : ∀ codec, Continued (r.readWith steps codec) (r.readWith (steps + 1) codec)
  document : Continued (r.readDocument steps) (r.readDocument (steps + 1))
  array : Continued (r.readArray steps) (r.readArray (steps + 1))
  fields : ∀ d, Continued (r.readFields steps d) (r.readFields (steps + 1) d)
  items : Continued (r.readItems steps) (r.readItems (steps + 1))

theorem oneMore_zero (r : Registry) : OneMore r 0 where
  value := by
    intro codec
    cases codec with
    | scalar s => exact continued_refl _
    | null => exact continued_refl _
    | custom encode decode => exact continued_refl _
    | _ => exact continued_throw _
  document := continued_throw _
  array := continued_throw _
  fields := fun _ => continued_throw _
  items := continued_throw _

theorem oneMore_succ {steps : Nat} (ih : OneMore r steps) : OneMore r (steps + 1) where
  value := by
    intro codec
    cases codec with
    | scalar s => exact continued_refl _
    | null => exact continued_refl _
    | custom encode decode => exact continued_refl _
    | value => exact continued_bind (continued_refl _) ih.value
    | document names => exact ih.document
    | map => exact ih.document
    | sequence => exact ih.array
    | array => exact ih.array
  document := continued_enclosed (ih.fields .empty) _
  array := continued_enclosed ih.items _
  fields := fun d => continued_turn ih.value fun name v => ih.fields (d.insert name v)
  items := continued_turn ih.value fun _ _ =>
    continued_bind ih.items fun _ => continued_refl _

theorem oneMore (r : Registry) (steps : Nat) : OneMore r steps := by
  induction steps with
  | zero => exact oneMore_zero r
  | succ steps ih => exact oneMore_succ ih

-- More steps do not change what a codec comes to, once it comes to an end.
theorem continued_readWith {steps more : Nat} (h : steps ≤ more) (codec : Codec) :
    Continued (r.readWith steps codec) (r.readWith more codec) := by
  induction h with
  | refl => exact continued_refl _
  | step _ ih => exact ih.trans ((oneMore r _).value codec)

theorem currentCodec_eq (r : Registry) (s : Reader) :
    r.currentCodec s = match r.resolveTag (s.current.getD .document) with
      | .ok codec => .ok codec s
      | .error e => .error e s := by
  rw [currentCodec, get_bind]
  cases r.resolveTag (s.current.getD .document) <;> rfl

theorem currentCodec_eq_ok {s t : Reader} {codec : Codec} :
    r.currentCodec s = .ok codec t ↔
      r.resolveTag (s.current.getD .document) = .ok codec ∧ t = s := by
  rw [currentCodec_eq]
  cases r.resolveTag (s.current.getD .document) with
  | ok found => simp [eq_comm]
  | error e => simp

theorem onward_current (hr : r.OfOwn) {f : Codec → Action α}
    (hf : ∀ codec, codec.Own → Onward (f codec)) : Onward (r.currentCodec >>= f) := by
  intro s v t hs h
  obtain ⟨codec, u, hcodec, hrest⟩ := bind_eq_ok.mp h
  obtain ⟨hresolved, rfl⟩ := currentCodec_eq_ok.mp hcodec
  exact hf codec (hr _ codec hresolved) u v t hs hrest

theorem onward_turn (hr : r.OfOwn) {steps : Nat} {done : α} {next : String → Value → Action α}
    (hvalue : ∀ codec, codec.Own → Onward (r.readWith steps codec))
    (hnext : ∀ name v, Onward (next name v)) : Onward (r.turn steps done next) := by
  apply onward_bind (onward_of_moved fun _ => tag_moved)
  intro found
  cases found with
  | none => exact onward_pure _
  | some t =>
      apply onward_bind (onward_of_moved fun _ => name_moved)
      intro name
      apply onward_current hr
      intro codec hcodec
      exact onward_bind (hvalue codec hcodec) (hnext name)

-- What is read between the two ends leaves the reader behind them.
theorem onward_enclosed {body : Action α} (hbody : Onward body) (wrap : α → Value) :
    Onward (enclosed body wrap) := by
  intro s v t hs h
  simp only [enclosed, bind_eq_ok, pure_eq_ok] at h
  obtain ⟨_, u, hstart, contents, w, hcontents, _, x, hfinish, rfl, rfl⟩ := h
  obtain ⟨hu, hbytes, hplace, _, declared, hends, hlimit⟩ := start_enters hs hstart
  have hmoved := hbody u contents w hu hcontents
  obtain ⟨hlast, ht⟩ := finish_eq_ok.mp hfinish
  rw [hmoved.ends, hends, List.cons.injEq] at hlast
  obtain ⟨hposition, houter⟩ := hlast
  have hback : t.position = w.position := by rw [ht]
  have honward := hmoved.onward
  refine ⟨?_, houter.symm, by omega, by omega⟩
  rw [ht]
  exact hmoved.bytes.trans hbytes

-- In that many steps, a codec only moves on.
structure MovesOn (r : Registry) (steps : Nat) : Prop where
  value : ∀ codec, codec.Own → Onward (r.readWith steps codec)
  document : Onward (r.readDocument steps)
  array : Onward (r.readArray steps)
  fields : ∀ d, Onward (r.readFields steps d)
  items : Onward (r.readItems steps)

theorem onward_null : Onward (do Reader.null; return Value.null) :=
  onward_bind (onward_of_moved fun _ => null_moved) fun _ => onward_pure _

theorem movesOn_zero (r : Registry) : MovesOn r 0 where
  value := by
    intro codec hcodec
    cases codec with
    | scalar s => exact s.read_onward
    | null => exact onward_null
    | custom encode decode => exact hcodec.elim
    | _ => exact onward_throw _
  document := onward_throw _
  array := onward_throw _
  fields := fun _ => onward_throw _
  items := onward_throw _

theorem movesOn_succ (hr : r.OfOwn) {steps : Nat} (ih : MovesOn r steps) :
    MovesOn r (steps + 1) where
  value := by
    intro codec hcodec
    cases codec with
    | scalar s => exact s.read_onward
    | null => exact onward_null
    | custom encode decode => exact hcodec.elim
    | value => exact onward_current hr ih.value
    | document names => exact ih.document
    | map => exact ih.document
    | sequence => exact ih.array
    | array => exact ih.array
  document := onward_enclosed (ih.fields .empty) _
  array := onward_enclosed ih.items _
  fields := fun d => onward_turn hr ih.value fun name v => ih.fields (d.insert name v)
  items := onward_turn hr ih.value fun _ _ => onward_bind ih.items fun _ => onward_pure _

theorem movesOn (hr : r.OfOwn) (steps : Nat) : MovesOn r steps := by
  induction steps with
  | zero => exact movesOn_zero r
  | succ steps ih => exact movesOn_succ hr ih

end Registry

end DocWire
