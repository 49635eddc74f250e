import DocWire.Proofs.Message.Atomicity
import DocWire.Proofs.Wire.Placement
import DocWire.Proofs.Wire.Writing

namespace DocWire

open Outcome

@[simp] theorem MessageHeader.size_toBytes (h : MessageHeader) :
    h.toBytes.size = MessageHeader.size := by
  simp only [toBytes, ByteArray.size_append, Word.size_int32]
  rfl

namespace Framing

-- An action that appends the same bytes to every buffer.
def Adds (x : Framing Unit) (text : ByteArray) : Prop :=
  ∀ buffer, x buffer = .ok () (buffer ++ text)

-- An action that ends with the same error on every buffer.
def Fails (x : Framing Unit) (e : CommandError) : Prop :=
  ∀ buffer, ∃ after, x buffer = .error e after

variable {x y : Framing Unit} {a b : ByteArray} {e : CommandError}

theorem append_adds (bytes : ByteArray) : Adds (append bytes) bytes :=
  fun _ => rfl

theorem Adds.bind (hx : Adds x a) (hy : Adds y b) : Adds (x >>= fun _ => y) (a ++ b) := by
  intro buffer
  rw [bind_of_ok (hx buffer), hy, ByteArray.append_assoc]

theorem Adds.bind_fails (hx : Adds x a) (hy : Fails y e) : Fails (x >>= fun _ => y) e := by
  intro buffer
  rw [bind_of_ok (hx buffer)]
  exact hy _

theorem Fails.bind (hx : Fails x e) (y : Framing Unit) : Fails (x >>= fun _ => y) e := by
  intro buffer
  obtain ⟨after, hafter⟩ := hx buffer
  exact ⟨after, bind_of_error hafter _⟩

theorem encodeDocument_adds {d : Document} {text : ByteArray}
    (h : Registry.standard.toBytes d = .ok text) :
    Adds (write (Registry.standard.encodeDocument d)) text := by
  intro buffer
  rw [write, Registry.encodeDocument_runOn_ok h]

theorem encodeDocument_fails {d : Document} {fault : CodecError}
    (h : Registry.standard.toBytes d = .error fault) :
    Fails (write (Registry.standard.encodeDocument d)) (.codec fault) := by
  intro buffer
  have hfault := Registry.encodeDocument_runOn_error h buffer
  unfold write
  split
  · next written hrun =>
    rw [hrun] at hfault
    cases hfault
  · next found written hrun =>
    rw [hrun] at hfault
    cases hfault
    exact ⟨written, rfl⟩

-- An action that takes back what it has appended where that exceeds a limit.
def limited (limit : Nat) (x : Framing Unit) : Framing Unit := do
  let start := (← get).size
  x
  let size := (← get).size - start
  if limit < size then
    modify fun buffer => buffer.extract 0 start
    throw (.oversizedDocument size limit)

theorem limited_eq_ok {limit : Nat} {prior after : ByteArray} :
    limited limit x prior = .ok () after ↔
      x prior = .ok () after ∧ after.size - prior.size ≤ limit := by
  unfold limited
  rw [get_bind, bind_eq_ok]
  constructor
  · rintro ⟨_, written, hwritten, h⟩
    rw [get_bind] at h
    split at h
    · cases h
    · next hfits =>
      rw [pure_eq_ok] at h
      obtain ⟨_, rfl⟩ := h
      exact ⟨hwritten, Nat.not_lt.mp hfits⟩
  · rintro ⟨hwritten, hfits⟩
    refine ⟨(), after, hwritten, ?_⟩
    rw [get_bind, if_neg (Nat.not_lt.mpr hfits)]
    rfl

theorem size_behind (prior a : ByteArray) : (prior ++ a).size - prior.size = a.size := by
  rw [ByteArray.size_append]
  omega

theorem limited_adds {limit : Nat} (hx : Adds x a) (h : a.size ≤ limit) :
    Adds (limited limit x) a := by
  intro buffer
  rw [limited_eq_ok, size_behind]
  exact ⟨hx buffer, h⟩

theorem limited_oversized {limit : Nat} (hx : Adds x a) (h : limit < a.size) :
    Fails (limited limit x) (.oversizedDocument a.size limit) := by
  intro buffer
  unfold limited
  rw [get_bind, bind_of_ok (hx _), get_bind, size_behind, if_pos h]
  exact ⟨_, rfl⟩

theorem limited_fails (hx : Fails x e) (limit : Nat) : Fails (limited limit x) e := by
  intro buffer
  obtain ⟨after, hafter⟩ := hx buffer
  unfold limited
  rw [get_bind, bind_of_error hafter]
  exact ⟨after, rfl⟩

section

variable (header : MessageHeader) (limit : Nat)

-- The word of the length takes the place of the one that stood in the header.
theorem patch_header (prior a : ByteArray) (length : Int32) :
    Writer.patch (prior ++ header.toBytes ++ a) prior.size (Word.int32 length) =
      prior ++ ({ header with length := length }.toBytes ++ a) := by
  simp only [MessageHeader.toBytes, ByteArray.append_assoc]
  exact Writer.patch_append _ (Word.size_int32 _)

-- What becomes of a message whose body can be written where it is to stand.
theorem message_run {prior : ByteArray}
    (hx : x (prior ++ header.toBytes) = .ok () (prior ++ header.toBytes ++ a)) :
    message header limit x prior =
      if limit < MessageHeader.size + a.size ∨ Word.maxLength < MessageHeader.size + a.size then
        .error (.oversizedMessage (MessageHeader.size + a.size) limit) prior
      else
        .ok () (prior ++
          ({ header with length := Int32.ofNat (MessageHeader.size + a.size) }.toBytes ++ a)) := by
  have hlength : (prior ++ header.toBytes ++ a).size - prior.size = MessageHeader.size + a.size := by
    rw [ByteArray.size_append, ByteArray.size_append, MessageHeader.size_toBytes]
    omega
  have hcut : (prior ++ header.toBytes ++ a).extract 0 prior.size = prior := by
    rw [ByteArray.append_assoc]
    exact ByteArray.extract_append_eq_left rfl
  unfold message atomically
  rw [get_bind, bind_of_ok (append_adds _ _), bind_of_ok hx, get_bind]
  simp only [hlength]
  by_cases hlong :
      limit < MessageHeader.size + a.size ∨ Word.maxLength < MessageHeader.size + a.size
  · simp only [hlong, if_true]
    exact congrArg _ hcut
  · simp only [hlong, if_false]
    exact congrArg _ (patch_header header prior a _)

-- Whatever the body appends to the header, the message ends up behind what the buffer held, and its
-- header tells its own length.
theorem message_ok {prior after : ByteArray} (hkeeps : ∀ prior, Preserves (BeginsWith prior) x)
    (h : message header limit x prior = .ok () after) :
    ∃ rest, after = prior ++
        ({ header with length := Int32.ofNat (MessageHeader.size + rest.size) }.toBytes ++ rest) ∧
      MessageHeader.size + rest.size ≤ limit ∧ MessageHeader.size + rest.size ≤ Word.maxLength ∧
      x (prior ++ header.toBytes) = .ok () (prior ++ header.toBytes ++ rest) := by
  unfold message atomically at h
  split at h
  · next u framed hrun =>
    cases h
    rw [get_bind, bind_of_ok (append_adds _ _), bind_eq_ok] at hrun
    obtain ⟨_, ended, hwritten, hrun⟩ := hrun
    have hbegins := hkeeps _ _ (.refl (prior ++ header.toBytes))
    rw [hwritten] at hbegins
    obtain ⟨rest, hrest⟩ := hbegins
    change ended = prior ++ header.toBytes ++ rest at hrest
    have hlength : ended.size - prior.size = MessageHeader.size + rest.size := by
      rw [hrest, ByteArray.size_append, ByteArray.size_append, MessageHeader.size_toBytes]
      omega
    rw [get_bind] at hrun
    simp only [hlength] at hrun
    split at hrun
    · cases hrun
    · next hfits =>
      rw [modify_eq_ok, hrest, patch_header] at hrun
      rw [hrest] at hwritten
      exact ⟨rest, hrun, by omega, by omega, hwritten⟩
  · cases h

theorem message_fails (hkeeps : ∀ prior, Preserves (BeginsWith prior) x) (hx : Fails x e)
    (prior : ByteArray) : message header limit x prior = .error e prior := by
  obtain ⟨after, hafter⟩ := hx (prior ++ header.toBytes)
  have herror : ∃ after, message header limit x prior = .error e after := by
    unfold message atomically
    rw [get_bind, bind_of_ok (append_adds _ _), bind_of_error hafter]
    exact ⟨_, rfl⟩
  obtain ⟨after, hafter⟩ := herror
  rw [hafter, (message_atomic header limit hkeeps).restores hafter]

end

end Framing

end DocWire
