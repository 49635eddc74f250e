import DocWire.Transport.Stream

namespace DocWire

-- Trouble at positions of a stream: an error, or a call that moves nothing.
abbrev Faults := List (Nat × Option IoError)

namespace Faults

-- The first fault at a position, and the others.
def take (position : Nat) : Faults → Option (Option IoError × Faults)
  | [] => none
  | fault :: rest =>
    if fault.1 = position then some (fault.2, rest)
    else (take position rest).map fun (found, others) => (found, fault :: others)

theorem length_take {position : Nat} {faults others : Faults} {found : Option IoError}
    (h : faults.take position = some (found, others)) : others.length < faults.length := by
  induction faults generalizing others with
  | nil => cases h
  | cons fault rest ih =>
    rw [take] at h
    split at h
    · cases h
      exact Nat.lt_succ_self _
    · obtain ⟨⟨_, left⟩, hrest, heq⟩ := Option.map_eq_some_iff.mp h
      cases heq
      exact Nat.succ_lt_succ (ih hrest)

-- How far a call that wants to move `count` bytes from a position gets: not beyond the next fault.
def reach (position count : Nat) : Faults → Nat
  | [] => count
  | fault :: rest =>
    if position < fault.1 then min (fault.1 - position) (reach position count rest)
    else reach position count rest

theorem reach_le (position count : Nat) (faults : Faults) : faults.reach position count ≤ count := by
  induction faults with
  | nil => exact Nat.le_refl _
  | cons fault rest ih =>
    rw [reach]
    split
    · exact Nat.le_trans (Nat.min_le_right _ _) ih
    · exact ih

end Faults

-- A stream in memory. It moves at most `chunk` bytes at a time, and remembers how much of what
-- was written has been flushed.
structure MemoryStream where
  incoming : ByteArray
  position : Nat
  written : ByteArray
  flushed : Nat
  chunk : Option Nat
  readFaults : Faults
  writeFaults : Faults
  flushFaults : Faults

namespace MemoryStream

def portion (s : MemoryStream) (count : Nat) : Nat :=
  min count (s.chunk.getD count)

def read (count : Nat) (s : MemoryStream) : Except IoError ByteArray × MemoryStream :=
  match s.readFaults.take s.position with
  | some (some e, others) => (.error e, { s with readFaults := others })
  | some (none, others) => (.ok ByteArray.empty, { s with readFaults := others })
  | none =>
    let reach := s.readFaults.reach s.position (s.portion count)
    let bytes := s.incoming.extract s.position (s.position + reach)
    (.ok bytes, { s with position := s.position + bytes.size })

def write (bytes : ByteArray) (s : MemoryStream) : Except IoError Nat × MemoryStream :=
  match s.writeFaults.take s.written.size with
  | some (some e, others) => (.error e, { s with writeFaults := others })
  | some (none, others) => (.ok 0, { s with writeFaults := others })
  | none =>
    let reach := s.writeFaults.reach s.written.size (s.portion bytes.size)
    (.ok reach, { s with written := s.written ++ bytes.extract 0 reach })

def flush (s : MemoryStream) : Except IoError Unit × MemoryStream :=
  match s.flushFaults.take s.written.size with
  | some (some e, others) => (.error e, { s with flushFaults := others })
  | some (none, others) => (.ok (), { s with flushFaults := others, flushed := s.written.size })
  | none => (.ok (), { s with flushed := s.written.size })

theorem portion_le (s : MemoryStream) (count : Nat) : s.portion count ≤ count :=
  Nat.min_le_left _ _

theorem read_size {count : Nat} {s t : MemoryStream} {bytes : ByteArray}
    (h : s.read count = (.ok bytes, t)) : bytes.size ≤ count := by
  rw [read] at h
  split at h
  · cases h
  · cases h
    exact Nat.zero_le _
  · cases h
    have := s.readFaults.reach_le s.position (s.portion count)
    have := s.portion_le count
    rw [ByteArray.size_extract]
    omega

theorem read_faults {count : Nat} {s t : MemoryStream} {e : IoError}
    (h : s.read count = (.error e, t)) :
    t.readFaults.length < s.readFaults.length ∧ t.writeFaults = s.writeFaults := by
  rw [read] at h
  split at h
  · next htake =>
    cases h
    exact ⟨Faults.length_take htake, rfl⟩
  · cases h
  · cases h

theorem write_count {bytes : ByteArray} {s t : MemoryStream} {count : Nat}
    (h : s.write bytes = (.ok count, t)) : count ≤ bytes.size := by
  rw [write] at h
  split at h
  · cases h
  · cases h
    exact Nat.zero_le _
  · cases h
    exact Nat.le_trans (Faults.reach_le _ _ _) (s.portion_le _)

theorem write_faults {bytes : ByteArray} {s t : MemoryStream} {e : IoError}
    (h : s.write bytes = (.error e, t)) :
    t.writeFaults.length < s.writeFaults.length ∧ t.readFaults = s.readFaults := by
  rw [write] at h
  split at h
  · next htake =>
    cases h
    exact ⟨Faults.length_take htake, rfl⟩
  · cases h
  · cases h

-- A fault occurs once, so that all of them bound the interruptions.
def stream : ByteStream MemoryStream where
  read := read
  write := write
  flush := flush
  patience s := s.readFaults.length + s.writeFaults.length
  read_size _ _ _ _ h := read_size h
  read_patience _ _ _ _ h _ := by
    obtain ⟨hlt, heq⟩ := read_faults h
    rw [heq]
    exact Nat.add_lt_add_right hlt _
  write_count _ _ _ _ h := write_count h
  write_patience _ _ _ _ h _ := by
    obtain ⟨hlt, heq⟩ := write_faults h
    rw [heq]
    exact Nat.add_lt_add_left hlt _

end MemoryStream

end DocWire
