import DocWire.Proofs.Wire.Reading

namespace DocWire.Reader

open Outcome

-- The reader stands inside the innermost open document, which ends inside all of those around it
-- and inside the bytes.
structure InBounds (r : Reader) : Prop where
  inside : r.position ≤ r.limit
  nested : (r.ends ++ [r.bytes.size]).Pairwise (· ≤ ·)
  depth : r.ends.length ≤ maxNesting

-- The bytes of a document, from its first one up to where it ends.
structure Extent where
  first : Nat
  last : Nat

-- A document that begins at a place is as long as its size says.
def Extent.declared (bytes : ByteArray) (first : Nat) : Extent :=
  ⟨first, first + (Word.toInt32 (bytes.extract first (first + 4))).toInt.toNat⟩

-- The second reader has moved on, and the documents are those that are open for the first.
structure Moved (r s : Reader) : Prop where
  bytes : s.bytes = r.bytes
  ends : s.ends = r.ends
  onward : r.position ≤ s.position
  inside : s.position ≤ r.limit

variable {r s : Reader}

theorem inBounds_ofBytes (bytes : ByteArray) : (ofBytes bytes).InBounds where
  inside := Nat.zero_le _
  nested := List.pairwise_singleton _ _
  depth := Nat.zero_le _

theorem Moved.limit_eq (h : Moved r s) : s.limit = r.limit := by
  rw [limit, limit, h.bytes, h.ends]

theorem Moved.trans {t : Reader} (h : Moved r s) (h' : Moved s t) : Moved r t where
  bytes := h'.bytes.trans h.bytes
  ends := h'.ends.trans h.ends
  onward := Nat.le_trans h.onward h'.onward
  inside := h.limit_eq ▸ h'.inside

theorem Moved.remaining_le (h : Moved r s) : s.remaining ≤ r.remaining := by
  have honward := h.onward
  rw [remaining, remaining, h.limit_eq]
  omega

theorem Moved.skip (h : Moved r s) {count : Nat} (hcount : s.position + count ≤ s.limit) :
    Moved r (s.skip count) where
  bytes := h.bytes
  ends := h.ends
  onward := Nat.le_trans h.onward (Nat.le_add_right _ _)
  inside := by
    rw [← h.limit_eq]
    exact hcount

theorem Moved.announce (h : Moved r s) (current : Option Tag) :
    Moved r { s with current := current } :=
  ⟨h.bytes, h.ends, h.onward, h.inside⟩

namespace InBounds

theorem refl (h : r.InBounds) : Moved r r :=
  ⟨rfl, rfl, Nat.le_refl _, h.inside⟩

theorem bounded (h : r.InBounds) : r.Bounded := by
  intro e he
  exact (List.pairwise_append.mp h.nested).2.2 e he _ (List.mem_singleton_self _)

-- The innermost open document ends first.
theorem limit_le (h : r.InBounds) : ∀ e ∈ r.ends ++ [r.bytes.size], r.limit ≤ e := by
  have hnested := h.nested
  unfold limit
  cases hends : r.ends with
  | nil => simp
  | cons declared outer =>
      rw [hends] at hnested
      intro e he
      rcases List.mem_cons.mp he with rfl | houter
      · exact Nat.le_refl _
      · exact (List.pairwise_cons.mp hnested).1 e houter

theorem position_le_size (h : r.InBounds) : r.position ≤ r.bytes.size :=
  Nat.le_trans h.inside h.bounded.limit_le

theorem moved (h : r.InBounds) (hs : Moved r s) : s.InBounds where
  inside := by
    rw [hs.limit_eq]
    exact hs.inside
  nested := by
    rw [hs.bytes, hs.ends]
    exact h.nested
  depth := by
    rw [hs.ends]
    exact h.depth

-- A document that ends inside the innermost one becomes the innermost.
theorem enter (h : r.InBounds) {declared : Nat} (hinside : r.position ≤ declared)
    (hlimit : declared ≤ r.limit) (hdeep : r.ends.length < maxNesting) :
    InBounds { r with ends := declared :: r.ends } where
  inside := hinside
  nested := List.pairwise_cons.mpr
    ⟨fun e he => Nat.le_trans hlimit (h.limit_le e he), h.nested⟩
  depth := hdeep

theorem leave (h : r.InBounds) {declared : Nat} {outer : List Nat}
    (hends : r.ends = declared :: outer) : InBounds { r with ends := outer } := by
  have hnested := h.nested
  have hdepth := h.depth
  have hmember : (r.ends ++ [r.bytes.size]).tail.head? = some (outer.headD r.bytes.size) := by
    rw [hends]
    cases outer <;> rfl
  have hlimit := h.limit_le _ (List.mem_of_mem_tail (List.mem_of_mem_head? hmember))
  rw [hends] at hnested hdepth
  exact ⟨Nat.le_trans h.inside hlimit, (List.pairwise_cons.mp hnested).2, Nat.le_of_succ_le hdepth⟩

end InBounds

theorem take_moved (length : Nat) : Preserves (Moved r) (take length) := by
  intro s h
  unfold take
  split
  · exact h
  · exact h.skip (by omega)

theorem word_moved (width : Nat) : Preserves (Moved r) (word width) := by
  intro s h
  have hinside := h.inside
  rw [← h.limit_eq] at hinside
  unfold word remaining
  split
  · exact h
  · exact h.skip (by omega)

theorem byte_moved : Preserves (Moved r) byte :=
  preserves_bind (take_moved 1) fun _ => preserves_pure _

theorem int32_moved : Preserves (Moved r) int32 :=
  preserves_bind (word_moved 4) fun _ => preserves_pure _

theorem int64_moved : Preserves (Moved r) int64 :=
  preserves_bind (word_moved 8) fun _ => preserves_pure _

theorem double_moved : Preserves (Moved r) double :=
  preserves_bind (word_moved 8) fun _ => preserves_pure _

theorem objectId_moved : Preserves (Moved r) objectId :=
  preserves_bind (take_moved 12) fun _ => preserves_pure _

theorem dateTime_moved : Preserves (Moved r) dateTime :=
  preserves_bind int64_moved fun _ => preserves_pure _

theorem boolean_moved : Preserves (Moved r) boolean := by
  apply preserves_bind byte_moved
  intro code
  split
  · exact preserves_pure _
  · split
    · exact preserves_pure _
    · exact preserves_throw _

theorem null_moved : Preserves (Moved r) null := by
  apply preserves_get_bind
  intro s _
  split
  · exact preserves_pure _
  · exact preserves_throw _

theorem tag_moved : Preserves (Moved r) tag := by
  apply preserves_bind byte_moved
  intro code
  split
  · exact preserves_bind (preserves_modify fun s h => h.announce _) fun _ => preserves_pure _
  · split
    · exact preserves_bind (preserves_modify fun s h => h.announce _) fun _ => preserves_pure _
    · exact preserves_throw _

theorem name_moved : Preserves (Moved r) name := by
  apply preserves_get_bind
  intro s _
  split
  · exact preserves_throw _
  · apply preserves_bind (take_moved _)
    intro taken
    split
    · exact preserves_pure _
    · exact preserves_throw _

theorem string_moved : Preserves (Moved r) string := by
  apply preserves_bind int32_moved
  intro length
  split
  · exact preserves_throw _
  · apply preserves_bind (take_moved _)
    intro taken
    split
    · split
      · exact preserves_pure _
      · exact preserves_throw _
    · exact preserves_throw _

theorem binary_moved : Preserves (Moved r) binary := by
  apply preserves_bind int32_moved
  intro length
  split
  · exact preserves_throw _
  · exact preserves_bind byte_moved fun _ => preserves_bind (take_moved _) fun _ => preserves_pure _

-- A start that fails behind the size has moved past it, and has opened nothing.
theorem start_error_moved (h : r.InBounds) {e : CodecError} (hrun : start r = .error e s) :
    Moved r s := by
  have hsize := int32_moved r h.refl
  unfold start at hrun
  rw [get_bind] at hrun
  by_cases hdeep : maxNesting ≤ r.ends.length
  · rw [if_pos hdeep] at hrun
    cases hrun
    exact h.refl
  · rw [if_neg hdeep] at hrun
    cases hword : int32 r with
    | error fault u =>
        rw [hword] at hsize
        rw [bind_of_error hword] at hrun
        cases hrun
        exact hsize
    | ok size u =>
        rw [hword] at hsize
        rw [bind_of_ok hword] at hrun
        split at hrun
        · cases hrun
        · cases hrun
          exact hsize

-- One that succeeds has opened the document that its size declares.
theorem start_ok_inBounds (h : r.InBounds) {u : Unit} (hrun : start r = .ok u s) :
    s.InBounds ∧ s.bytes = r.bytes ∧ s.position = r.position + 4 ∧
      s.ends = (Extent.declared r.bytes r.position).last :: r.ends := by
  obtain ⟨hdeep, size, length, hsize, hfive, ⟨hfits, hword⟩, hlimit, rfl⟩ :=
    (start_eq_ok h.bounded).mp hrun
  rw [Word.size_int32] at hfits hword
  have hlength : (Word.toInt32 (Word.int32 size)).toInt.toNat = length := by
    rw [Word.toInt32_int32, hsize]
    rfl
  have hinside : (r.skip 4).position ≤ r.position + length := by
    rw [skip_position]
    omega
  rw [Extent.declared, hword, hlength]
  exact ⟨(h.moved (h.refl.skip hfits)).enter hinside hlimit hdeep, rfl, rfl, rfl⟩

-- An end leaves the innermost document even if it fails, and stays where it is.
theorem finish_inBounds (h : r.InBounds) :
    (final (finish r)).InBounds ∧ (final (finish r)).bytes = r.bytes ∧
      (final (finish r)).position = r.position ∧ (final (finish r)).ends = r.ends.tail := by
  unfold finish
  split
  · next hends =>
    refine ⟨h, rfl, rfl, ?_⟩
    rw [final, hends]
    rfl
  · next declared outer hends =>
    rw [hends]
    split
    · exact ⟨h.leave hends, rfl, rfl, rfl⟩
    · exact ⟨h.leave hends, rfl, rfl, rfl⟩

end DocWire.Reader
