import DocWire.Proofs.Wire.Bounds

namespace DocWire

open Outcome

namespace Reader

-- The action does not come to an end in the steps that it was given.
def Endless {α : Type} (x : Action α) (s : Reader) : Prop :=
  ∃ t, x s = .error .endless t

-- It comes to an end wherever it begins.
abbrev Ends {α : Type} (x : Action α) : Prop :=
  Raises (fun e => e ≠ CodecError.endless) x

-- Where the first action comes to an end, the second comes to the same.
def Continued {α : Type} (x y : Action α) : Prop :=
  ∀ s, ¬Endless x s → y s = x s

-- Where the action succeeds, it has only moved on.
def Onward {α : Type} (x : Action α) : Prop :=
  ∀ s v t, s.InBounds → x s = .ok v t → Moved s t

section

variable {α β : Type} {x y z : Action α} {f g : α → Action β} {s : Reader}

theorem Ends.not_endless (hx : Ends x) (s : Reader) : ¬Endless x s := by
  rintro ⟨t, h⟩
  exact hx s _ t h rfl

theorem endless_bind :
    Endless (x >>= f) s ↔ Endless x s ∨ ∃ a u, x s = .ok a u ∧ Endless (f a) u := by
  cases hx : x s with
  | ok a u =>
      have hnot : ¬Endless x s := by
        rintro ⟨t, h⟩
        rw [hx] at h
        cases h
      simp [Endless, bind_of_ok hx, hx]
  | error e u => simp [Endless, bind_of_error hx, hx]

theorem endless_bind_of_ends (hx : Ends x) :
    Endless (x >>= f) s ↔ ∃ a u, x s = .ok a u ∧ Endless (f a) u := by
  rw [endless_bind, or_iff_right (hx.not_endless s)]

theorem endless_throw (s : Reader) : Endless (throw .endless : Action α) s :=
  ⟨s, rfl⟩

theorem not_endless_pure (a : α) (s : Reader) : ¬Endless (pure a : Action α) s := by
  rintro ⟨t, h⟩
  cases h

theorem Continued.trans (hxy : Continued x y) (hyz : Continued y z) : Continued x z := by
  intro s hx
  have hy := hxy s hx
  have hz : ¬Endless y s := by
    rintro ⟨t, ht⟩
    exact hx ⟨t, by rw [← hy, ht]⟩
  rw [hyz s hz, hy]

theorem continued_refl (x : Action α) : Continued x x :=
  fun _ _ => rfl

theorem continued_throw (x : Action α) : Continued (throw .endless) x :=
  fun s h => absurd (endless_throw s) h

theorem continued_bind (hxy : Continued x y) (hfg : ∀ a, Continued (f a) (g a)) :
    Continued (x >>= f) (y >>= g) := by
  intro s h
  rw [endless_bind, not_or] at h
  obtain ⟨hx, hf⟩ := h
  have hy := hxy s hx
  cases hrun : x s with
  | ok a u =>
      rw [hrun] at hy
      have hrest : ¬Endless (f a) u := fun hendless => hf ⟨a, u, hrun, hendless⟩
      rw [bind_of_ok hrun, bind_of_ok hy, hfg a u hrest]
  | error e u =>
      rw [hrun] at hy
      rw [bind_of_error hrun, bind_of_error hy]

theorem onward_of_moved (h : ∀ r, Preserves (Moved r) x) : Onward x :=
  fun s _ _ hs hrun => (h s).of_ok hs.refl hrun

theorem onward_pure (a : α) : Onward (pure a) :=
  onward_of_moved fun _ => preserves_pure a

theorem onward_throw (e : CodecError) : Onward (throw e : Action α) :=
  onward_of_moved fun _ => preserves_throw e

theorem onward_bind (hx : Onward x) (hf : ∀ a, Onward (f a)) : Onward (x >>= f) := by
  intro s v t hs hrun
  obtain ⟨a, u, hfirst, hrest⟩ := bind_eq_ok.mp hrun
  have hmoved := hx s a u hs hfirst
  exact hmoved.trans (hf a u v t (hs.moved hmoved) hrest)

end

theorem ends_get_bind {α : Type} {f : Reader → Action α} (hf : ∀ s, Ends (f s)) :
    Ends (get >>= f) :=
  fun s e t h => hf s s e t h

theorem take_ends (length : Nat) : Ends (take length) := by
  intro s e t h
  unfold take at h
  split at h
  · cases h
    exact nofun
  · cases h

theorem word_ends (width : Nat) : Ends (word width) := by
  intro s e t h
  unfold word at h
  split at h
  · cases h
    exact nofun
  · cases h

theorem byte_ends : Ends byte :=
  raises_bind (take_ends 1) fun _ => raises_pure _

theorem int32_ends : Ends int32 :=
  raises_bind (word_ends 4) fun _ => raises_pure _

theorem int64_ends : Ends int64 :=
  raises_bind (word_ends 8) fun _ => raises_pure _

theorem double_ends : Ends double :=
  raises_bind (word_ends 8) fun _ => raises_pure _

theorem objectId_ends : Ends objectId :=
  raises_bind (take_ends 12) fun _ => raises_pure _

theorem dateTime_ends : Ends dateTime :=
  raises_bind int64_ends fun _ => raises_pure _

theorem boolean_ends : Ends boolean := by
  apply raises_bind byte_ends
  intro code
  split
  · exact raises_pure _
  · split
    · exact raises_pure _
    · exact raises_throw nofun

theorem null_ends : Ends null := by
  apply ends_get_bind
  intro s
  split
  · exact raises_pure _
  · exact raises_throw nofun

theorem tag_ends : Ends tag := by
  apply raises_bind byte_ends
  intro code
  split
  · exact raises_bind (raises_modify _) fun _ => raises_pure _
  · cases hcode : Tag.ofCode code with
    | ok tag => exact raises_bind (raises_modify _) fun _ => raises_pure _
    | error e =>
        apply raises_throw
        unfold Tag.ofCode at hcode
        split at hcode
        · cases hcode
        · cases hcode
          exact nofun

theorem name_ends : Ends name := by
  apply ends_get_bind
  intro s
  split
  · exact raises_throw nofun
  · apply raises_bind (take_ends _)
    intro taken
    split
    · exact raises_pure _
    · exact raises_throw nofun

theorem string_ends : Ends string := by
  apply raises_bind int32_ends
  intro length
  split
  · exact raises_throw nofun
  · apply raises_bind (take_ends _)
    intro taken
    split
    · split
      · exact raises_pure _
      · exact raises_throw nofun
    · exact raises_throw nofun

theorem binary_ends : Ends binary := by
  apply raises_bind int32_ends
  intro length
  split
  · exact raises_throw nofun
  · exact raises_bind byte_ends fun _ => raises_bind (take_ends _) fun _ => raises_pure _

theorem start_ends : Ends start := by
  apply ends_get_bind
  intro before
  split
  · exact raises_throw nofun
  · apply raises_bind int32_ends
    intro size
    dsimp only
    split
    · exact raises_modify _
    · exact raises_throw nofun

theorem finish_ends : Ends finish := by
  intro s e t h
  unfold finish at h
  split at h
  · cases h
    exact nofun
  · split at h
    · cases h
    · cases h
      exact nofun

-- A document that is entered ends inside what is around it, and is shorter than that.
theorem start_enters {s u : Reader} {x : Unit} (hs : s.InBounds) (h : start s = .ok x u) :
    u.InBounds ∧ u.bytes = s.bytes ∧ s.position < u.position ∧ u.remaining + 4 ≤ s.remaining ∧
      ∃ declared, u.ends = declared :: s.ends ∧ declared ≤ s.limit := by
  obtain ⟨hu, hbytes, hplace, _⟩ := start_ok_inBounds hs h
  obtain ⟨_, size, length, _, hfive, _, hlimit, rfl⟩ := (start_eq_ok hs.bounded).mp h
  refine ⟨hu, hbytes, by omega, ?_, _, rfl, hlimit⟩
  simp only [remaining, limit, List.headD_cons, skip_position] at hlimit ⊢
  omega

end Reader

end DocWire
