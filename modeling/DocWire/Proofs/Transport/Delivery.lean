import DocWire.Proofs.Message.Tiling
import DocWire.Proofs.Transport.Demand
import DocWire.Transport.Memory

namespace DocWire

open Recorded

-- The longer of two beginnings of the same bytes goes on from the shorter one.
theorem append_of_le {a b c d : ByteArray} (h : a ++ b = c ++ d) (hle : c.size ≤ a.size) :
    ∃ e, a = c ++ e ∧ d = e ++ b := by
  have hfront : a.extract 0 c.size = c := by
    have hleft : (a ++ b).extract 0 c.size = a.extract 0 c.size := by
      rw [ByteArray.extract_append, Nat.sub_eq_zero_of_le hle, Nat.zero_sub,
        ByteArray.extract_same, ByteArray.append_empty]
    rw [← hleft, h]
    exact ByteArray.extract_append_eq_left rfl
  have hsplit := Wire.extract_append_rest hle
  rw [hfront] at hsplit
  refine ⟨a.extract c.size a.size, hsplit.symm, ?_⟩
  rw [← hsplit, ByteArray.append_assoc] at h
  exact ((ByteArray.append_right_inj c).mp h).symm

-- Some bytes from a position, and those that follow them, are all bytes from there.
theorem extract_then (a : ByteArray) (start count : Nat) :
    a.extract start a.size = a.extract start (start + count) ++
      a.extract (start + (a.extract start (start + count)).size) a.size := by
  rw [ByteArray.size_extract]
  by_cases hend : start + count ≤ a.size
  · have hnext : start + (min (start + count) a.size - start) = start + count := by omega
    rw [hnext, ByteArray.extract_append_extract, Nat.min_eq_left (Nat.le_add_right ..),
      Nat.max_eq_right hend]
  · have hall : a.extract start (start + count) = a.extract start a.size :=
      ByteArray.ext (by
        rw [ByteArray.data_extract, ByteArray.data_extract]
        exact Array.extract_eq_extract_right.mpr (by rw [ByteArray.size_data]; omega))
    have hrest : a.extract (start + (min (start + count) a.size - start)) a.size =
        ByteArray.empty :=
      ByteArray.extract_eq_empty_iff.mpr (by omega)
    rw [hall, hrest, ByteArray.append_empty]

namespace ByteStream

variable {σ : Type} (stream : ByteStream σ)

-- A stream that has no more to give, at least for now: it is at its end, or the next thing that it
-- brings is a failure. Interruptions do not count.
inductive Stops : σ → Prop where
  | intro {s : σ}
      (hread : ∀ count bytes t, count ≠ 0 → stream.read count s = (.ok bytes, t) → bytes.size = 0)
      (hagain : ∀ count e t, count ≠ 0 → stream.read count s = (.error e, t) →
        e.isInterruption = true → Stops t) : Stops s

-- A stream that gives these bytes, and is then left in one of the `last` states. Each read brings
-- some of those that come next, as many as it pleases, or is interrupted and brings none.
inductive Gives (last : σ → Prop) : ByteArray → σ → Prop where
  | nothing {s : σ} (hlast : last s) : Gives last ByteArray.empty s
  | some {bytes : ByteArray} {s : σ} (hsome : bytes.size ≠ 0)
      (hread : ∀ count chunk t, count ≠ 0 → stream.read count s = (.ok chunk, t) →
        chunk.size ≠ 0 ∧ ∃ rest, bytes = chunk ++ rest)
      (hrest : ∀ count chunk rest t, count ≠ 0 → stream.read count s = (.ok chunk, t) →
        bytes = chunk ++ rest → Gives last rest t)
      (herror : ∀ count e t, count ≠ 0 → stream.read count s = (.error e, t) →
        e.isInterruption = true)
      (hagain : ∀ count e t, count ≠ 0 → stream.read count s = (.error e, t) → Gives last bytes t) :
      Gives last bytes s

variable {stream}

theorem readExact_zero (s : σ) : stream.readExact 0 s = (.ok ByteArray.empty, s) := by
  rw [readExact, if_pos rfl]

-- What is read in one piece does not depend on the pieces in which it comes.
theorem readExact_gives {last : σ → Prop} {bytes : ByteArray} {s : σ}
    (h : stream.Gives last bytes s) {wanted rest : ByteArray} (hbytes : bytes = wanted ++ rest) :
    ∃ t, stream.readExact wanted.size s = (.ok wanted, t) ∧ stream.Gives last rest t := by
  induction h generalizing wanted with
  | @nothing s hlast =>
      obtain ⟨hwanted, hrest⟩ := ByteArray.append_eq_empty_iff.mp hbytes.symm
      rw [hwanted, hrest, ByteArray.size_empty, readExact_zero]
      exact ⟨s, rfl, .nothing hlast⟩
  | @some bytes s hsome hread hrest herror hagain ihrest ihagain =>
      by_cases hwanted : wanted.size = 0
      · rw [ByteArray.size_eq_zero_iff] at hwanted
        rw [hwanted, ByteArray.empty_append] at hbytes
        rw [hwanted, ByteArray.size_empty, readExact_zero, ← hbytes]
        exact ⟨s, rfl, .some hsome hread hrest herror hagain⟩
      rw [readExact, if_neg hwanted]
      split
      · next chunk t hchunk =>
        obtain ⟨hpositive, others, hothers⟩ := hread _ _ _ hwanted hchunk
        obtain ⟨missing, hmissing, hleft⟩ :=
          append_of_le (hbytes.symm.trans hothers) (stream.read_size _ _ _ _ hchunk)
        obtain ⟨u, hmore, hgives⟩ := ihrest _ _ _ _ hwanted hchunk hothers hleft
        have hcount : wanted.size - chunk.size = missing.size := by
          rw [hmissing, ByteArray.size_append]
          omega
        rw [if_neg hpositive, hcount, hmore, hmissing]
        exact ⟨u, rfl, hgives⟩
      · next e t herr =>
        rw [if_pos (herror _ _ _ hwanted herr)]
        exact ihagain _ _ _ hwanted herr hbytes

theorem readExact_stops {s : σ} (h : stream.Stops s) {count : Nat} (hcount : count ≠ 0) :
    ∃ e t, stream.readExact count s = (.error e, t) := by
  induction h with
  | @intro s hread hagain ih =>
      rw [readExact, if_neg hcount]
      split
      · next bytes t hbytes =>
        rw [if_pos (hread _ _ _ hcount hbytes)]
        exact ⟨_, _, rfl⟩
      · next e t herr =>
        by_cases hinterrupted : e.isInterruption = true
        · rw [if_pos hinterrupted]
          exact ih _ _ _ hcount herr hinterrupted
        · rw [if_neg hinterrupted]
          exact ⟨_, _, rfl⟩

-- Nothing takes the place of what does not come.
theorem readExact_short {part : ByteArray} {s : σ} (h : stream.Gives stream.Stops part s)
    {count : Nat} (hcount : part.size < count) :
    ∃ e t, stream.readExact count s = (.error e, t) := by
  induction h generalizing count with
  | nothing hlast => exact readExact_stops hlast (Nat.ne_of_gt hcount)
  | @some part s hsome hread hrest herror hagain ihrest ihagain =>
      have hpositive : count ≠ 0 := by omega
      rw [readExact, if_neg hpositive]
      split
      · next chunk t hchunk =>
        obtain ⟨hchunks, others, hothers⟩ := hread _ _ _ hpositive hchunk
        have hmissing : others.size < count - chunk.size := by
          rw [hothers, ByteArray.size_append] at hcount
          omega
        obtain ⟨e, u, hshort⟩ := ihrest _ _ _ _ hpositive hchunk hothers hmissing
        rw [if_neg hchunks, hshort]
        exact ⟨e, u, rfl⟩
      · next e t herr =>
        rw [if_pos (herror _ _ _ hpositive herr)]
        exact ihagain _ _ _ hpositive herr hcount

end ByteStream

-- The bytes of a message that begins with its own length, of a size that may be received.
structure IsMessage (limit : Nat) (bytes : ByteArray) : Prop where
  least : MessageHeader.size ≤ bytes.size
  most : bytes.size ≤ limit
  declared : (MessageHeader.wordAt bytes 0).toInt = bytes.size

theorem messageSize_eq_ok {limit size : Nat} {length : Int32} :
    messageSize limit length = .ok size ↔
      MessageHeader.size ≤ size ∧ size ≤ limit ∧ size = length.toInt.toNat := by
  unfold messageSize
  dsimp only
  split
  · simp only [reduceCtorEq, false_iff]
    omega
  · split
    · simp only [reduceCtorEq, false_iff]
      omega
    · simp only [Except.ok.injEq]
      omega

-- A length out of range is refused, the one that is too small as no length at all.
theorem messageSize_eq_error {limit : Nat} {length : Int32}
    (h : length.toInt < 16 ∨ (limit : Int) < length.toInt) :
    messageSize limit length = .error (if length.toInt < 16 then .invalidLength length
      else .oversizedReply length.toInt.toNat limit) := by
  have hsmall : length.toInt.toNat < MessageHeader.size ↔ length.toInt < 16 := by
    simp only [MessageHeader.size]
    omega
  unfold messageSize
  simp only [hsmall]
  by_cases hless : length.toInt < 16
  · rw [if_pos hless, if_pos hless]
  · rw [if_neg hless, if_neg hless, if_pos (by omega)]

theorem IsMessage.split {limit : Nat} {message : ByteArray} (h : IsMessage limit message) :
    ∃ word tail, message = word ++ tail ∧ word.size = 4 ∧ tail.size = message.size - 4 ∧
      messageSize limit (Word.toInt32 word) = .ok message.size := by
  have hleast := h.least
  have hdeclared := h.declared
  simp only [MessageHeader.size] at hleast
  refine ⟨message.extract 0 4, message.extract 4 message.size, ?_, ?_, ?_, ?_⟩
  · exact (Wire.extract_append_rest (by omega)).symm
  · rw [ByteArray.size_extract]
    omega
  · rw [ByteArray.size_extract]
    omega
  · refine messageSize_eq_ok.mpr ⟨h.least, h.most, ?_⟩
    change message.size = (MessageHeader.wordAt message 0).toInt.toNat
    omega

namespace ByteStream

variable {σ : Type} {stream : ByteStream σ} {last : σ → Prop} {s : σ} {limit : Nat}

theorem readMessage_gives {message rest : ByteArray} (hmessage : IsMessage limit message)
    (h : stream.Gives last (message ++ rest) s) :
    ∃ t, stream.readMessage limit s = (.ok message, t) ∧ stream.Gives last rest t := by
  obtain ⟨word, tail, rfl, hword, htail, hsize⟩ := hmessage.split
  obtain ⟨t, hread, hgives⟩ := readExact_gives h (ByteArray.append_assoc ..)
  obtain ⟨u, hread', hgives'⟩ := readExact_gives hgives rfl
  rw [hword] at hread
  rw [htail] at hread'
  refine ⟨u, ?_, hgives'⟩
  unfold readMessage
  simp only [hread, hsize, hread']

-- A message of which something is missing is an error.
theorem readMessage_short {message part missing : ByteArray} (hmessage : IsMessage limit message)
    (hpart : message = part ++ missing) (hmissing : missing.size ≠ 0)
    (h : stream.Gives stream.Stops part s) :
    ∃ cause t, stream.readMessage limit s =
      (.error (if part.size < 4 then .lengthUnread cause else .io cause), t) := by
  obtain ⟨word, tail, hsplit, hword, htail, hsize⟩ := hmessage.split
  by_cases hfew : part.size < 4
  · obtain ⟨e, t, hread⟩ := readExact_short h hfew
    refine ⟨e, t, ?_⟩
    unfold readMessage
    simp only [hread, if_pos hfew]
  · obtain ⟨begun, hbegun, hrest⟩ := append_of_le (hpart.symm.trans hsplit) (by omega)
    obtain ⟨t, hread, hgives⟩ := readExact_gives h hbegun
    have hless : begun.size < message.size - 4 := by
      rw [← htail, hrest, ByteArray.size_append]
      omega
    obtain ⟨e, u, hread'⟩ := readExact_short hgives hless
    rw [hword] at hread
    refine ⟨e, u, ?_⟩
    unfold readMessage
    simp only [hread, hsize, hread', if_neg hfew]

-- After a length that is refused nothing more is read.
theorem readMessage_refused {length : Int32} {rest : ByteArray}
    (hlength : length.toInt < 16 ∨ (limit : Int) < length.toInt)
    (h : stream.Gives last (Word.int32 length ++ rest) s) :
    ∃ t, stream.readMessage limit s = (.error (if length.toInt < 16 then .invalidLength length
      else .oversizedReply length.toInt.toNat limit), t) ∧ stream.Gives last rest t := by
  obtain ⟨t, hread, hgives⟩ := readExact_gives h rfl
  rw [Word.size_int32] at hread
  refine ⟨t, ?_, hgives⟩
  unfold readMessage
  simp only [hread, Word.toInt32_int32, messageSize_eq_error hlength]

end ByteStream

-- What is received, of whatever stream, is a message, in which nothing is missing or made up.
theorem Recorded.readMessage_isMessage {σ : Type} {inner : ByteStream σ} {limit : Nat}
    {s : Recorded σ} {bytes : ByteArray}
    (h : ((Recorded.stream inner).readMessage limit s).1 = .ok bytes) : IsMessage limit bytes := by
  unfold ByteStream.readMessage at h
  obtain ⟨_, _, hword⟩ := readExact_continues inner 4 s
  rcases hread : (Recorded.stream inner).readExact 4 s with ⟨outcome, t⟩
  rw [hread] at h hword
  cases outcome with
  | error e => cases h
  | ok word =>
      dsimp only at h
      cases hsize : messageSize limit (Word.toInt32 word) with
      | error e =>
          rw [hsize] at h
          cases h
      | ok size =>
          obtain ⟨_, _, htail⟩ := readExact_continues inner (size - 4) t
          rcases hread' : (Recorded.stream inner).readExact (size - 4) t with ⟨outcome, u⟩
          rw [hread'] at htail
          simp only [hsize, hread'] at h
          cases outcome with
          | error e => cases h
          | ok tail =>
              cases h
              obtain ⟨_, hword⟩ := hword word rfl
              obtain ⟨_, htail⟩ := htail tail rfl
              obtain ⟨hleast, hmost, hdeclared⟩ := messageSize_eq_ok.mp hsize
              have hbytes : (word ++ tail).size = size := by
                rw [ByteArray.size_append, hword, htail]
                simp only [MessageHeader.size] at hleast
                omega
              have hfront : (word ++ tail).extract 0 (0 + 4) = word :=
                ByteArray.extract_append_eq_left hword.symm
              refine ⟨hbytes.symm ▸ hleast, hbytes.symm ▸ hmost, ?_⟩
              rw [MessageHeader.wordAt, hfront, hbytes, hdeclared]
              simp only [MessageHeader.size] at hleast
              omega

-- A reply that was encoded tells its own length, whatever its documents are written by.
theorem ReplyMessage.encode_isMessage {r : ReplyMessage} {encoder : Encoder Document}
    {prior after : ByteArray} (h : r.encode encoder prior = .ok () after) :
    ∃ bytes, after = prior ++ bytes ∧ ∀ limit, bytes.size ≤ limit → IsMessage limit bytes := by
  unfold encode at h
  split at h
  · cases h
  · have hkeeps : ∀ prior, Outcome.Preserves (BeginsWith prior) (do
        Framing.append (r.fieldBytes (Int32.ofNat r.documents.length))
        writeDocuments encoder r.documents) :=
      fun prior => Outcome.preserves_bind (Framing.append_keeps _) fun _ =>
        writeDocuments_keeps encoder _
    obtain ⟨rest, rfl, _, hword, _⟩ := Framing.message_ok _ _ hkeeps h
    refine ⟨_, rfl, fun limit hlimit => ⟨?_, hlimit, ?_⟩⟩
    · rw [ByteArray.size_append, MessageHeader.size_toBytes]
      exact Nat.le_add_right _ _
    · rw [ByteArray.size_append, MessageHeader.size_toBytes]
      simp only [MessageHeader.toBytes, ByteArray.append_assoc]
      rw [MessageHeader.wordAt_first, Word.toInt_ofNat hword]

namespace StreamConnection

variable {σ : Type} {stream : ByteStream σ} {last : σ → Prop} {c : StreamConnection σ}

theorem receive_gives {limit : Nat} {message rest : ByteArray} (hopen : c.isOpen = true)
    (hmessage : IsMessage limit message) (h : stream.Gives last (message ++ rest) c.stream) :
    ∃ t, c.receive stream limit = (.ok message, { c with stream := t }) ∧
      stream.Gives last rest t := by
  obtain ⟨t, hread, hgives⟩ := ByteStream.readMessage_gives hmessage h
  refine ⟨t, ?_, hgives⟩
  rw [receive, guarded_open _ hopen, hread, hopen]
  rfl

-- Messages are received one after the other, each with its own call.
theorem receiveAll_gives {limits : List Nat} {messages : List ByteArray} {rest : ByteArray}
    (hopen : c.isOpen = true) (hmessages : List.Forall₂ IsMessage limits messages)
    (h : stream.Gives last (joined messages ++ rest) c.stream) :
    ∃ t, meetAll stream (limits.map .receive) c =
        (List.zipWith (fun limit message => .received limit (.ok message)) limits messages,
          { c with stream := t }) ∧
      stream.Gives last rest t := by
  induction hmessages generalizing c with
  | nil =>
      rw [joined, ByteArray.empty_append] at h
      exact ⟨c.stream, rfl, h⟩
  | @cons limit message limits messages hmessage hmessages ih =>
      rw [joined, ByteArray.append_assoc] at h
      obtain ⟨t, hreceive, hgives⟩ := receive_gives hopen hmessage h
      obtain ⟨u, hothers, hrest⟩ := ih (c := { c with stream := t }) hopen hgives
      refine ⟨u, ?_, hrest⟩
      simp only [List.map_cons, meetAll, meet, hreceive, hothers, List.zipWith_cons_cons]

theorem receive_fails {limit : Nat} {e : TransportError} {t : σ} (hopen : c.isOpen = true)
    (h : stream.readMessage limit c.stream = (.error e, t)) :
    c.receive stream limit = (.error e, { c with stream := t, isOpen := false }) := by
  rw [receive, guarded_open _ hopen, h]
  rfl

-- How a connection receives messages from a stream.
structure ReceivesWhole {m : Type → Type} [Monad m] (inner : ByteStream σ) (now : m Span) :
    Prop where
  -- they come in order and whole, however the stream cuts them up, and what follows is left to it
  inOrder : ∀ (c : StreamConnection σ) (last : σ → Prop) (limits : List Nat)
    (messages : List ByteArray) (rest : ByteArray), c.isOpen = true →
    List.Forall₂ IsMessage limits messages → inner.Gives last (joined messages ++ rest) c.stream →
    ∃ t, ((channel inner now).meetAll (limits.map .receive)).run c =
        pure (List.zipWith (fun limit message => .received limit (.ok message)) limits messages,
          { c with stream := t }) ∧
      inner.Gives last rest t
  -- one of which something is missing is an error, in its length or behind it
  truncated : ∀ (c : StreamConnection σ) (limit : Nat) (message part missing : ByteArray),
    c.isOpen = true → IsMessage limit message → message = part ++ missing → missing.size ≠ 0 →
    inner.Gives inner.Stops part c.stream →
    ∃ cause t, ((channel inner now).receive limit).run c =
      pure (.error (if part.size < 4 then .lengthUnread cause else .io cause),
        { c with stream := t, isOpen := false })
  -- so is one whose length is out of range, and nothing is read behind the length
  refused : ∀ (c : StreamConnection σ) (last : σ → Prop) (limit : Nat) (length : Int32)
    (rest : ByteArray), c.isOpen = true → length.toInt < 16 ∨ (limit : Int) < length.toInt →
    inner.Gives last (Word.int32 length ++ rest) c.stream →
    ∃ t, ((channel inner now).receive limit).run c =
        pure (.error (if length.toInt < 16 then .invalidLength length
          else .oversizedReply length.toInt.toNat limit), { c with stream := t, isOpen := false }) ∧
      inner.Gives last rest t
  -- whatever the stream does, what is received is a message and all that was read for it
  genuine : ∀ (k k' : Line σ) (limit : Nat) (bytes : ByteArray),
    k.receive (Recorded.stream inner) limit = (.ok bytes, k') →
    IsMessage limit bytes ∧
      ∃ chunks : List ByteArray, joined chunks = bytes ∧ k.Continues k' (chunks.map .read)

-- Messages are received whole or not at all.
theorem receives_whole {m : Type → Type} [Monad m] [LawfulMonad m] (inner : ByteStream σ)
    (now : m Span) :
    ReceivesWhole inner now ∧
      ∀ (r : ReplyMessage) (encoder : Encoder Document) (prior after : ByteArray),
        r.encode encoder prior = .ok () after →
        ∃ bytes, after = prior ++ bytes ∧ ∀ limit, bytes.size ≤ limit → IsMessage limit bytes := by
  refine ⟨⟨?_, ?_, ?_, ?_⟩, fun r encoder prior after => ReplyMessage.encode_isMessage⟩
  · intro c last limits messages rest hopen hmessages h
    obtain ⟨t, hrun, hgives⟩ := receiveAll_gives hopen hmessages h
    refine ⟨t, ?_, hgives⟩
    rw [meetAll_run, hrun]
  · intro c limit message part missing hopen hmessage hpart hmissing h
    obtain ⟨cause, t, hread⟩ := ByteStream.readMessage_short hmessage hpart hmissing h
    exact ⟨cause, t, congrArg pure (receive_fails hopen hread)⟩
  · intro c last limit length rest hopen hlength h
    obtain ⟨t, hread, hgives⟩ := ByteStream.readMessage_refused hlength h
    exact ⟨t, congrArg pure (receive_fails hopen hread), hgives⟩
  · intro k k' limit bytes h
    refine ⟨?_, (receive_ok h).2⟩
    cases hopen : k.isOpen with
    | false =>
        rw [receive, guarded_closed _ hopen] at h
        cases h
    | true =>
        rw [receive, guarded_open _ hopen] at h
        exact readMessage_isMessage (congrArg Prod.fst h)

end StreamConnection

namespace Faults

variable {position count : Nat} {faults others : Faults} {found : Option IoError}

theorem reach_ne_zero (hcount : count ≠ 0) : faults.reach position count ≠ 0 := by
  induction faults with
  | nil => exact hcount
  | cons fault rest ih =>
      rw [reach]
      split
      · omega
      · exact ih

theorem mem_of_take (h : faults.take position = some (found, others)) :
    (position, found) ∈ faults ∧ ∀ fault ∈ others, fault ∈ faults := by
  induction faults generalizing others with
  | nil => cases h
  | cons fault rest ih =>
      rw [take] at h
      split at h
      · next heq =>
        cases h
        exact ⟨heq ▸ List.mem_cons_self, fun _ => List.mem_cons_of_mem _⟩
      · obtain ⟨⟨_, left⟩, hrest, heq⟩ := Option.map_eq_some_iff.mp h
        cases heq
        obtain ⟨hfound, hleft⟩ := ih hrest
        refine ⟨List.mem_cons_of_mem _ hfound, fun other hother => ?_⟩
        cases List.mem_cons.mp hother with
        | inl hfirst => exact hfirst ▸ List.mem_cons_self
        | inr hother => exact List.mem_cons_of_mem _ (hleft other hother)

end Faults

namespace MemoryStream

-- The bytes that are still to be read.
def coming (s : MemoryStream) : ByteArray :=
  s.incoming.extract s.position s.incoming.size

-- A stream whose reads move something, and meet no trouble but interruptions.
structure Undisturbed (s : MemoryStream) : Prop where
  moves : s.chunk ≠ some 0
  interrupted : ∀ fault ∈ s.readFaults, ∃ e, fault.2 = some e ∧ e.isInterruption = true

variable {s t : MemoryStream} {count : Nat}

theorem read_error {e : IoError} (hs : s.Undisturbed) (h : s.read count = (.error e, t)) :
    e.isInterruption = true ∧ t.Undisturbed ∧ t.coming = s.coming ∧
      t.readFaults.length < s.readFaults.length := by
  rw [read] at h
  split at h
  · next others htake =>
    cases h
    obtain ⟨hfound, hothers⟩ := Faults.mem_of_take htake
    obtain ⟨_, heq, hinterruption⟩ := hs.interrupted _ hfound
    cases heq
    exact ⟨hinterruption, ⟨hs.moves, fun fault hfault => hs.interrupted fault (hothers _ hfault)⟩,
      rfl, Faults.length_take htake⟩
  · cases h
  · cases h

theorem read_ok {chunk : ByteArray} (hs : s.Undisturbed) (hcount : count ≠ 0)
    (h : s.read count = (.ok chunk, t)) :
    s.coming = chunk ++ t.coming ∧ (s.coming.size ≠ 0 → chunk.size ≠ 0) ∧ t.Undisturbed ∧
      t.readFaults = s.readFaults := by
  rw [read] at h
  split at h
  · cases h
  · next others htake =>
    obtain ⟨_, heq, _⟩ := hs.interrupted _ (Faults.mem_of_take htake).1
    cases heq
  · have hportion : s.portion count ≠ 0 := by
      have hmoves := hs.moves
      unfold portion
      cases hchunk : s.chunk with
      | none => simpa using hcount
      | some size =>
          rw [hchunk] at hmoves
          simp only [ne_eq, Option.some.injEq] at hmoves
          simp only [Option.getD_some]
          omega
    have hreach : s.readFaults.reach s.position (s.portion count) ≠ 0 :=
      Faults.reach_ne_zero hportion
    cases h
    refine ⟨extract_then _ _ _, ?_, ⟨hs.moves, hs.interrupted⟩, rfl⟩
    simp only [coming, ByteArray.size_extract]
    omega

theorem stops (hs : s.Undisturbed) (hcoming : s.coming.size = 0) : stream.Stops s := by
  induction hfaults : s.readFaults.length using Nat.strongRecOn generalizing s with
  | ind faults ih =>
      refine .intro (fun count chunk t hcount h => ?_) (fun count e t hcount h _ => ?_)
      · have hsizes := congrArg ByteArray.size (read_ok hs hcount h).1
        rw [ByteArray.size_append] at hsizes
        omega
      · obtain ⟨_, ht, hsame, hless⟩ := read_error hs h
        exact ih _ (hfaults ▸ hless) ht (hsame ▸ hcoming) rfl

-- Such a stream gives what is coming and nothing more. The induction is on what it can still do:
-- bring bytes, and interrupt.
theorem gives (hs : s.Undisturbed) : stream.Gives stream.Stops s.coming s := by
  induction hleft : s.coming.size + s.readFaults.length using Nat.strongRecOn generalizing s with
  | ind left ih =>
      by_cases hcoming : s.coming.size = 0
      · rw [ByteArray.size_eq_zero_iff.mp hcoming]
        exact .nothing (stops hs hcoming)
      refine .some hcoming (fun count chunk t hcount h => ?_)
        (fun count chunk rest t hcount h hbytes => ?_) (fun count e t hcount h => ?_)
        (fun count e t hcount h => ?_)
      · obtain ⟨hsplit, hsome, _⟩ := read_ok hs hcount h
        exact ⟨hsome hcoming, _, hsplit⟩
      · obtain ⟨hsplit, hsome, ht, hfaults⟩ := read_ok hs hcount h
        have hrest : rest = t.coming := (ByteArray.append_right_inj chunk).mp (hbytes ▸ hsplit)
        have hsizes := congrArg ByteArray.size hsplit
        have hchunk := hsome hcoming
        rw [ByteArray.size_append] at hsizes
        exact hrest ▸ ih _ (by rw [hfaults]; omega) ht rfl
      · exact (read_error hs h).1
      · obtain ⟨_, ht, hsame, hless⟩ := read_error hs h
        exact hsame ▸ ih _ (by rw [hsame]; omega) ht rfl

-- Two messages, three bytes at a time, with interruptions in the first length and where the second
-- message begins.
def trickle : MemoryStream where
  incoming := joined [MessageHeader.toBytes ⟨16, 7, 1, 2010⟩,
    MessageHeader.toBytes ⟨18, 8, 2, 1⟩ ++ ⟨#[5, 6]⟩]
  position := 0
  written := ByteArray.empty
  flushed := 0
  chunk := some 3
  readFaults := [(3, some (.device .interrupted "signal")), (16, some (.device .interrupted "signal"))]
  writeFaults := []
  flushFaults := []

theorem trickle_received : ∃ t,
    ((StreamConnection.channel stream (pure ⟨0⟩ : Id Span)).meetAll
        [.receive 16, .receive 48]).run (.ofStream ⟨"localhost", 27017⟩ trickle) =
      pure ([.received 16 (.ok (MessageHeader.toBytes ⟨16, 7, 1, 2010⟩)),
        .received 48 (.ok (MessageHeader.toBytes ⟨18, 8, 2, 1⟩ ++ ⟨#[5, 6]⟩))],
        .ofStream ⟨"localhost", 27017⟩ t) ∧
      stream.Gives stream.Stops ByteArray.empty t := by
  have hgives : stream.Gives stream.Stops (trickle.incoming ++ ByteArray.empty) trickle := by
    rw [ByteArray.append_empty, ← ByteArray.extract_zero_size (b := trickle.incoming)]
    exact gives ⟨by decide, by decide⟩
  exact (StreamConnection.receives_whole stream (pure ⟨0⟩ : Id Span)).1.inOrder _ stream.Stops
    [16, 48] [_, _] ByteArray.empty rfl
    (.cons ⟨by decide, by decide, by decide⟩ (.cons ⟨by decide, by decide, by decide⟩ .nil))
    hgives

end MemoryStream

end DocWire
