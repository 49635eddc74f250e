namespace DocWire.Utf8

-- Where a byte string stops being UTF-8. Without `invalid` the string ends inside a character
-- that is well formed so far; otherwise that many bytes can never begin a character.
structure Fault where
  offset : Nat
  invalid : Option Nat
deriving DecidableEq, Inhabited

def Fault.message (fault : Fault) : String :=
  match fault.invalid with
  | some count =>
    "invalid utf-8 sequence of " ++ toString count ++ " bytes from index " ++ toString fault.offset
  | none => "incomplete utf-8 byte sequence from index " ++ toString fault.offset

-- How many bytes a character takes, by its first byte; no character starts with the others.
def width (first : UInt8) : Option Nat :=
  if first < 0x80 then some 1
  else if 0xC2 ≤ first ∧ first ≤ 0xDF then some 2
  else if 0xE0 ≤ first ∧ first ≤ 0xEF then some 3
  else if 0xF0 ≤ first ∧ first ≤ 0xF4 then some 4
  else none

def isContinuation (byte : UInt8) : Bool :=
  0x80 ≤ byte && byte ≤ 0xBF

-- The second byte is bounded more tightly after four first bytes, which keeps out
-- overlong forms, surrogates and code points beyond the last one.
def mayFollow (first second : UInt8) : Bool :=
  if first = 0xE0 then 0xA0 ≤ second && second ≤ 0xBF
  else if first = 0xED then 0x80 ≤ second && second ≤ 0x9F
  else if first = 0xF0 then 0x90 ≤ second && second ≤ 0xBF
  else if first = 0xF4 then 0x80 ≤ second && second ≤ 0x8F
  else isContinuation second

-- What one look at the front of a byte string finds.
inductive Step where
  | character (rest : List UInt8)
  | invalid (count : Nat)
  | incomplete

-- Checks the bytes of a character from its third on; `seen` bytes have been accepted.
def continueCharacter : Nat → Nat → List UInt8 → Step
  | 0, _, rest => .character rest
  | _ + 1, _, [] => .incomplete
  | missing + 1, seen, byte :: rest =>
    if isContinuation byte then continueCharacter missing (seen + 1) rest else .invalid seen

def step (first : UInt8) (rest : List UInt8) : Step :=
  match width first, rest with
  | none, _ => .invalid 1
  | some 1, rest => .character rest
  | some _, [] => .incomplete
  | some count, second :: rest =>
    if mayFollow first second then continueCharacter (count - 2) 2 rest else .invalid 1

theorem continueCharacter_shorter {missing seen : Nat} {bytes rest : List UInt8}
    (h : continueCharacter missing seen bytes = .character rest) : rest.length ≤ bytes.length := by
  induction missing generalizing seen bytes with
  | zero =>
    cases h
    exact Nat.le_refl _
  | succ missing ih =>
    cases bytes with
    | nil => cases h
    | cons byte bytes =>
      rw [continueCharacter] at h
      split at h
      · exact Nat.le_succ_of_le (ih h)
      · cases h

-- A character uses up its first byte at least.
theorem step_shorter {first : UInt8} {bytes rest : List UInt8}
    (h : step first bytes = .character rest) : rest.length ≤ bytes.length := by
  unfold step at h
  split at h
  · cases h
  · cases h
    exact Nat.le_refl _
  · cases h
  · split at h
    · exact Nat.le_succ_of_le (continueCharacter_shorter h)
    · cases h

-- The first place at which `bytes`, found at `offset`, fails to be UTF-8.
def faultFrom (offset : Nat) (bytes : List UInt8) : Option Fault :=
  match bytes with
  | [] => none
  | first :: rest =>
    match h : step first rest with
    | .character left => faultFrom (offset + (rest.length + 1 - left.length)) left
    | .invalid count => some ⟨offset, some count⟩
    | .incomplete => some ⟨offset, none⟩
termination_by bytes.length
decreasing_by exact Nat.lt_succ_of_le (step_shorter h)

-- Reads a text, or says where the bytes stop being one.
def read (bytes : ByteArray) : Except Fault String :=
  match String.fromUTF8? bytes with
  | some text => .ok text
  | none => .error ((faultFrom 0 bytes.data.toList).getD default)

end DocWire.Utf8
