import DocWire.Message.Header
import DocWire.Transport.Channel

namespace DocWire

-- A stream of bytes in both directions. It may move fewer bytes than it is asked to, never more,
-- and it may be interrupted, though not without end: `patience` bounds how often in a row.
structure ByteStream (σ : Type) where
  read : Nat → σ → Except IoError ByteArray × σ
  write : ByteArray → σ → Except IoError Nat × σ
  flush : σ → Except IoError Unit × σ
  patience : σ → Nat
  read_size : ∀ count s bytes t, read count s = (.ok bytes, t) → bytes.size ≤ count
  read_patience : ∀ count s e t, read count s = (.error e, t) → e.isInterruption = true →
    patience t < patience s
  write_count : ∀ bytes s count t, write bytes s = (.ok count, t) → count ≤ bytes.size
  write_patience : ∀ bytes s e t, write bytes s = (.error e, t) → e.isInterruption = true →
    patience t < patience s

-- The size of a message by its first word. A size that cannot be or may not be is refused.
def messageSize (limit : Nat) (length : Int32) : Except TransportError Nat :=
  let size := length.toInt.toNat
  if size < MessageHeader.size then .error (.invalidLength length)
  else if limit < size then .error (.oversizedReply size limit)
  else .ok size

namespace ByteStream

variable {σ : Type}

-- Reads exactly `count` bytes, going on after interruptions. The end of the stream comes as a
-- read of nothing.
def readExact (stream : ByteStream σ) (count : Nat) (s : σ) : Except IoError ByteArray × σ :=
  if count = 0 then (.ok ByteArray.empty, s)
  else
    match _h : stream.read count s with
    | (.ok bytes, t) =>
      if bytes.size = 0 then (.error .shortRead, t)
      else
        match stream.readExact (count - bytes.size) t with
        | (.ok rest, u) => (.ok (bytes ++ rest), u)
        | (.error e, u) => (.error e, u)
    | (.error e, t) =>
      if e.isInterruption then stream.readExact count t else (.error e, t)
termination_by (count, stream.patience s)
decreasing_by
  · exact Prod.Lex.left _ _ (by omega)
  · exact Prod.Lex.right _ (stream.read_patience _ _ _ _ _h ‹_›)

-- Writes all bytes, going on after interruptions. A write that moves nothing will never move more.
def writeAll (stream : ByteStream σ) (bytes : ByteArray) (s : σ) : Except IoError Unit × σ :=
  if bytes.size = 0 then (.ok (), s)
  else
    match _h : stream.write bytes s with
    | (.ok count, t) =>
      if count = 0 then (.error .shortWrite, t)
      else stream.writeAll (bytes.extract count bytes.size) t
    | (.error e, t) =>
      if e.isInterruption then stream.writeAll bytes t else (.error e, t)
termination_by (bytes.size, stream.patience s)
decreasing_by
  · refine Prod.Lex.left _ _ ?_
    rw [ByteArray.size_extract]
    omega
  · exact Prod.Lex.right _ (stream.write_patience _ _ _ _ _h ‹_›)

-- Writes a message through to the other side.
def writeMessage (stream : ByteStream σ) (bytes : ByteArray) (s : σ) :
    Except TransportError Unit × σ :=
  match stream.writeAll bytes s with
  | (.error e, t) => (.error (.io e), t)
  | (.ok (), t) =>
    match stream.flush t with
    | (.error e, u) => (.error (.io e), u)
    | (.ok (), u) => (.ok (), u)

-- Reads one message. A size that is refused ends it before more is read.
def readMessage (stream : ByteStream σ) (limit : Nat) (s : σ) :
    Except TransportError ByteArray × σ :=
  match stream.readExact 4 s with
  | (.error e, t) => (.error (.lengthUnread e), t)
  | (.ok word, t) =>
    match messageSize limit (Word.toInt32 word) with
    | .error e => (.error e, t)
    | .ok size =>
      match stream.readExact (size - 4) t with
      | (.error e, u) => (.error (.io e), u)
      | (.ok rest, u) => (.ok (word ++ rest), u)

end ByteStream

-- A connection that frames messages on a byte stream.
structure StreamConnection (σ : Type) where
  address : ServerAddress
  stream : σ
  isOpen : Bool

namespace StreamConnection

variable {σ : Type}

def ofStream (address : ServerAddress) (stream : σ) : StreamConnection σ := ⟨address, stream, true⟩

-- Uses the stream of an open connection. A failure leaves the stream at an unknown place, so
-- that it closes the connection.
def guarded {α : Type} (use : σ → Except TransportError α × σ) (c : StreamConnection σ) :
    Except TransportError α × StreamConnection σ :=
  if c.isOpen then
    match use c.stream with
    | (.ok a, t) => (.ok a, { c with stream := t })
    | (.error e, t) => (.error e, { c with stream := t, isOpen := false })
  else (.error (.closed c.address), c)

def send (stream : ByteStream σ) (bytes : ByteArray) (c : StreamConnection σ) :
    Except TransportError Unit × StreamConnection σ :=
  c.guarded (stream.writeMessage bytes)

def receive (stream : ByteStream σ) (limit : Nat) (c : StreamConnection σ) :
    Except TransportError ByteArray × StreamConnection σ :=
  c.guarded (stream.readMessage limit)

def close (c : StreamConnection σ) : StreamConnection σ :=
  { c with isOpen := false }

-- Stream connections as a channel; to give one up is to close it.
def channel {m : Type → Type} [Monad m] (stream : ByteStream σ) (now : m Span) :
    Channel m (StreamConnection σ) where
  address c := c.address
  isOpen c := c.isOpen
  send bytes c := pure (c.send stream bytes)
  receive limit c := pure (c.receive stream limit)
  close c := pure ((), c.close)
  invalidate c := pure ((), c.close)
  now := now

end StreamConnection

end DocWire
