import DocWire.Bytes.Word
import DocWire.Codec.Error

namespace DocWire

-- The payload that a byte announces.
def Tag.ofCode (code : UInt8) : Except CodecError Tag :=
  match ofCode? code with
  | some tag => .ok tag
  | none => .error (.unknownTag code)

-- A cursor over the bytes of a document. `current` is the payload announced last, and `ends`
-- lists where the open documents end, from the innermost.
structure Reader where
  bytes : ByteArray
  position : Nat
  current : Option Tag
  ends : List Nat
deriving DecidableEq

namespace Reader

abbrev Action := EStateM CodecError Reader

def ofBytes (bytes : ByteArray) : Reader := ⟨bytes, 0, none, []⟩

-- No read goes beyond the innermost open document.
def limit (r : Reader) : Nat :=
  r.ends.headD r.bytes.size

def remaining (r : Reader) : Nat :=
  r.limit - r.position

def take (length : Nat) : Action ByteArray := fun r =>
  if r.limit < r.position + length then .error (.corrupt (.overrun length r.position)) r
  else
    .ok (r.bytes.extract r.position (r.position + length))
      { r with position := r.position + length }

def byte : Action UInt8 := do
  let bytes ← take 1
  return bytes.data.getD 0 0

-- The bytes of a word, which is read whole or not at all.
def word (width : Nat) : Action ByteArray := fun r =>
  if r.remaining < width then .error (.truncated (width - r.remaining)) r
  else
    .ok (r.bytes.extract r.position (r.position + width))
      { r with position := r.position + width }

def int32 : Action Int32 := do
  return Word.toInt32 (← word 4)

def int64 : Action Int64 := do
  return Word.toInt64 (← word 8)

-- The place of the first zero byte among `count` bytes from `position` on.
def zeroFrom (bytes : ByteArray) (position : Nat) : Nat → Option Nat
  | 0 => none
  | count + 1 =>
    if h : position < bytes.size then
      if bytes[position] = 0 then some position else zeroFrom bytes (position + 1) count
    else none

def withoutLast (bytes : ByteArray) : ByteArray :=
  bytes.extract 0 (bytes.size - 1)

def name : Action String := do
  let r ← get
  match zeroFrom r.bytes r.position r.remaining with
  | none => throw (.corrupt .unterminatedName)
  | some place =>
    let bytes ← take (place + 1 - r.position)
    match Utf8.read (withoutLast bytes) with
    | .ok text => return text
    | .error fault => throw (.corrupt (.nameText fault))

-- The payload of the next element, or nothing at the end of the document.
def tag : Action (Option Tag) := do
  let code ← byte
  if code = 0 then
    modify fun r => { r with current := none }
    return none
  else
    match Tag.ofCode code with
    | .ok tag =>
      modify fun r => { r with current := some tag }
      return some tag
    | .error e => throw e

def double : Action Double := do
  return ⟨Word.toUInt64 (← word 8)⟩

def string : Action String := do
  let length ← int32
  if length ≤ 0 then throw (.corrupt (.stringLength length))
  else
    let bytes ← take length.toInt.toNat
    if bytes.data.back? = some 0 then
      match Utf8.read (withoutLast bytes) with
      | .ok text => return text
      | .error fault => throw (.corrupt (.stringText fault))
    else throw (.corrupt .unterminatedString)

def binary : Action Binary := do
  let length ← int32
  if length < 0 then throw (.corrupt (.binaryLength length))
  else
    let subtype ← byte
    let bytes ← take length.toInt.toNat
    return ⟨subtype, bytes⟩

def objectId : Action ObjectId := do
  return ObjectId.ofBytes (← take 12)

def boolean : Action Bool := do
  let code ← byte
  if code = 0 then return false
  else if code = 1 then return true
  else throw (.corrupt (.boolean code))

def dateTime : Action DateTime := do
  return ⟨← int64⟩

-- A null has no payload; only the announcement is checked.
def null : Action Unit := do
  let r ← get
  if r.current = some .null then return ()
  else throw (.corrupt (.notNull r.current))

-- Enters a document or an array, both of which begin with their size.
def start : Action Unit := do
  let before ← get
  if maxNesting ≤ before.ends.length then throw (.corrupt (.tooDeep before.position))
  else
    let size ← int32
    let declared := before.position + size.toInt.toNat
    if 5 ≤ size ∧ declared ≤ before.limit then
      modify fun r => { r with ends := declared :: r.ends }
    else throw (.corrupt (.documentSize size before.position))

-- Leaves a document or an array, which must be at its declared end.
def finish : Action Unit := fun r =>
  match r.ends with
  | [] => .error (.misuse .unopenedEnd) r
  | declared :: outer =>
    if r.position = declared then .ok () { r with ends := outer }
    else .error (.corrupt (.wrongEnd r.position declared)) { r with ends := outer }

end Reader

-- How a value of one type is read.
abbrev Decoder (α : Type) := Reader.Action α

end DocWire
