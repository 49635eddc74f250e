import DocWire.Transport.Stream

namespace DocWire

-- What a stream has done at the request of its user, without the calls that failed.
inductive Motion where
  | wrote (bytes : ByteArray)
  | flushed
  | read (bytes : ByteArray)

-- A stream that goes by a number and keeps a record of what it has done.
structure Recorded (σ : Type) where
  number : Nat
  inner : σ
  motions : List Motion

namespace Recorded

variable {σ : Type}

-- The stream after a call, which is recorded if it succeeded.
def after {α : Type} (s : Recorded σ) (motion : α → Motion) :
    Except IoError α × σ → Except IoError α × Recorded σ
  | (.ok a, t) => (.ok a, { s with inner := t, motions := s.motions ++ [motion a] })
  | (.error e, t) => (.error e, { s with inner := t })

theorem after_eq {α : Type} {s t : Recorded σ} {motion : α → Motion}
    {x : Except IoError α × σ} {result : Except IoError α} (h : s.after motion x = (result, t)) :
    x = (result, t.inner) ∧ t.number = s.number := by
  obtain ⟨outcome, inner⟩ := x
  cases outcome with
  | ok a =>
      cases h
      exact ⟨rfl, rfl⟩
  | error e =>
      cases h
      exact ⟨rfl, rfl⟩

theorem after_ok {α : Type} {s t : Recorded σ} {motion : α → Motion} {x : Except IoError α × σ}
    {a : α} (h : s.after motion x = (.ok a, t)) : t.motions = s.motions ++ [motion a] := by
  obtain ⟨outcome, inner⟩ := x
  cases outcome with
  | ok b =>
      cases h
      rfl
  | error e => cases h

theorem after_error {α : Type} {s t : Recorded σ} {motion : α → Motion} {x : Except IoError α × σ}
    {e : IoError} (h : s.after motion x = (.error e, t)) : t.motions = s.motions := by
  obtain ⟨outcome, inner⟩ := x
  cases outcome with
  | ok b => cases h
  | error e =>
      cases h
      rfl

-- Any stream, with a record kept of it. It moves the same bytes and meets with the same trouble.
def stream (stream : ByteStream σ) : ByteStream (Recorded σ) where
  read count s := s.after .read (stream.read count s.inner)
  write bytes s :=
    s.after (fun count => .wrote (bytes.extract 0 count)) (stream.write bytes s.inner)
  flush s := s.after (fun _ => .flushed) (stream.flush s.inner)
  patience s := stream.patience s.inner
  read_size := by
    intro count s bytes t h
    exact stream.read_size _ _ _ _ (after_eq h).1
  read_patience := by
    intro count s e t h he
    exact stream.read_patience _ _ _ _ (after_eq h).1 he
  write_count := by
    intro bytes s count t h
    exact stream.write_count _ _ _ _ (after_eq h).1
  write_patience := by
    intro bytes s e t h he
    exact stream.write_patience _ _ _ _ (after_eq h).1 he

-- Pieces of bytes one after the other.
def joined : List ByteArray → ByteArray
  | [] => ByteArray.empty
  | piece :: rest => piece ++ joined rest

-- What follows in the record behind what stands there already.
def Continues (s t : Recorded σ) (motions : List Motion) : Prop :=
  t.number = s.number ∧ t.motions = s.motions ++ motions

theorem Continues.refl (s : Recorded σ) : s.Continues s [] :=
  ⟨rfl, (List.append_nil _).symm⟩

theorem Continues.trans {s t u : Recorded σ} {a b : List Motion} (h : s.Continues t a)
    (h' : t.Continues u b) : s.Continues u (a ++ b) := by
  refine ⟨h'.1.trans h.1, ?_⟩
  rw [h'.2, h.2, List.append_assoc]

theorem continues_ok {α : Type} {s t : Recorded σ} {motion : α → Motion}
    {x : Except IoError α × σ} {a : α} (h : s.after motion x = (.ok a, t)) :
    s.Continues t [motion a] :=
  ⟨(after_eq h).2, after_ok h⟩

theorem continues_error {α : Type} {s t : Recorded σ} {motion : α → Motion}
    {x : Except IoError α × σ} {e : IoError} (h : s.after motion x = (.error e, t)) :
    s.Continues t [] := by
  refine ⟨(after_eq h).2, ?_⟩
  rw [after_error h, List.append_nil]

theorem write_continues {inner : ByteStream σ} {bytes : ByteArray} {s t : Recorded σ} {count : Nat}
    (h : (stream inner).write bytes s = (.ok count, t)) :
    s.Continues t [.wrote (bytes.extract 0 count)] := by
  have hnumber := (after_eq h).2
  have hmotions := after_ok h
  exact ⟨hnumber, hmotions⟩

-- To read a number of bytes is to read in chunks, which make up those bytes if nothing goes wrong.
theorem readExact_continues (inner : ByteStream σ) (count : Nat) (s : Recorded σ) :
    ∃ chunks : List ByteArray,
      s.Continues ((stream inner).readExact count s).2 (chunks.map .read) ∧
        ∀ bytes, ((stream inner).readExact count s).1 = .ok bytes →
          joined chunks = bytes ∧ bytes.size = count := by
  fun_induction ByteStream.readExact (stream inner) count s
  case case1 s =>
    refine ⟨[], .refl s, fun bytes h => ?_⟩
    cases h
    exact ⟨rfl, rfl⟩
  case case2 count s hcount bytes t hread hempty =>
    refine ⟨[bytes], continues_ok hread, fun bytes h => ?_⟩
    cases h
  case case3 count s hcount bytes t hread hsome rest u hrest ih =>
    rw [hrest] at ih
    obtain ⟨chunks, hchunks, hjoined⟩ := ih
    have hsize : bytes.size ≤ count := (stream inner).read_size _ _ _ _ hread
    refine ⟨bytes :: chunks, (continues_ok hread).trans hchunks, fun whole h => ?_⟩
    cases h
    have hrest' := hjoined rest rfl
    refine ⟨?_, ?_⟩
    · rw [joined, hrest'.1]
    · rw [ByteArray.size_append, hrest'.2]
      omega
  case case4 count s hcount bytes t hread hsome e u hrest ih =>
    rw [hrest] at ih
    obtain ⟨chunks, hchunks, _⟩ := ih
    refine ⟨bytes :: chunks, (continues_ok hread).trans hchunks, fun whole h => ?_⟩
    cases h
  case case5 count s hcount e t hread hagain ih =>
    obtain ⟨chunks, hchunks, hjoined⟩ := ih
    exact ⟨chunks, (continues_error hread).trans hchunks, hjoined⟩
  case case6 count s hcount e t hread hagain =>
    refine ⟨[], continues_error hread, fun bytes h => ?_⟩
    cases h

-- To write bytes is to write them in pieces, of which nothing is missing if nothing goes wrong.
theorem writeAll_continues (inner : ByteStream σ) (bytes : ByteArray) (s : Recorded σ) :
    ∃ pieces : List ByteArray,
      s.Continues ((stream inner).writeAll bytes s).2 (pieces.map .wrote) ∧
        (((stream inner).writeAll bytes s).1 = .ok () → joined pieces = bytes) := by
  fun_induction ByteStream.writeAll (stream inner) bytes s
  case case1 bytes s hempty =>
    refine ⟨[], .refl s, fun _ => ?_⟩
    exact (ByteArray.size_eq_zero_iff.mp hempty).symm
  case case2 bytes s hsome t hwrite =>
    refine ⟨[bytes.extract 0 0], write_continues hwrite, fun h => ?_⟩
    cases h
  case case3 bytes s hsome count t hwrite hcount ih =>
    obtain ⟨pieces, hpieces, hjoined⟩ := ih
    have hsize : count ≤ bytes.size := (stream inner).write_count _ _ _ _ hwrite
    have hsplit := ByteArray.extract_eq_extract_append_extract (a := bytes) (i := 0) count
      (Nat.zero_le _) hsize
    refine ⟨bytes.extract 0 count :: pieces, (write_continues hwrite).trans hpieces, fun h => ?_⟩
    rw [joined, hjoined h, ← hsplit, ByteArray.extract_zero_size]
  case case4 bytes s hsome e t hwrite hagain ih =>
    obtain ⟨pieces, hpieces, hjoined⟩ := ih
    exact ⟨pieces, (continues_error hwrite).trans hpieces, hjoined⟩
  case case5 bytes s hsome e t hwrite hagain =>
    refine ⟨[], continues_error hwrite, fun h => ?_⟩
    cases h

theorem joined_append (a b : List ByteArray) : joined (a ++ b) = joined a ++ joined b := by
  induction a with
  | nil => rw [List.nil_append, joined, ByteArray.empty_append]
  | cons piece rest ih => rw [List.cons_append, joined, joined, ih, ByteArray.append_assoc]

-- A message goes out in pieces and is flushed.
theorem writeMessage_continues (inner : ByteStream σ) (bytes : ByteArray) (s : Recorded σ) :
    ∃ motions, s.Continues ((stream inner).writeMessage bytes s).2 motions ∧
      (((stream inner).writeMessage bytes s).1 = .ok () →
        ∃ pieces : List ByteArray, joined pieces = bytes ∧
          motions = pieces.map .wrote ++ [.flushed]) := by
  obtain ⟨pieces, hpieces, hjoined⟩ := writeAll_continues inner bytes s
  unfold ByteStream.writeMessage
  cases hwrite : (stream inner).writeAll bytes s with
  | mk outcome t =>
      rw [hwrite] at hpieces hjoined
      cases outcome with
      | error e =>
          refine ⟨_, hpieces, fun h => ?_⟩
          cases h
      | ok u =>
          dsimp only
          cases hflush : (stream inner).flush t with
          | mk flushed v =>
              cases flushed with
              | error e =>
                  refine ⟨_, hpieces.trans (continues_error hflush), fun h => ?_⟩
                  cases h
              | ok u =>
                  refine ⟨_, hpieces.trans (continues_ok hflush), fun _ => ?_⟩
                  exact ⟨pieces, hjoined rfl, rfl⟩

-- A message comes in chunks, the first of which make up its length.
theorem readMessage_continues (inner : ByteStream σ) (limit : Nat) (s : Recorded σ) :
    ∃ chunks : List ByteArray,
      s.Continues ((stream inner).readMessage limit s).2 (chunks.map .read) ∧
        ∀ bytes, ((stream inner).readMessage limit s).1 = .ok bytes → joined chunks = bytes := by
  obtain ⟨first, hfirst, hword⟩ := readExact_continues inner 4 s
  unfold ByteStream.readMessage
  cases hread : (stream inner).readExact 4 s with
  | mk outcome t =>
      rw [hread] at hfirst hword
      cases outcome with
      | error e =>
          refine ⟨first, hfirst, fun bytes h => ?_⟩
          cases h
      | ok word =>
          dsimp only
          cases hsize : messageSize limit (Word.toInt32 word) with
          | error e =>
              refine ⟨first, hfirst, fun bytes h => ?_⟩
              cases h
          | ok size =>
              obtain ⟨others, hothers, hrest⟩ := readExact_continues inner (size - 4) t
              cases hread' : (stream inner).readExact (size - 4) t with
              | mk outcome u =>
                  rw [hread'] at hothers hrest
                  have hboth := hfirst.trans hothers
                  rw [← List.map_append] at hboth
                  dsimp only
                  rw [hread']
                  cases outcome with
                  | error e =>
                      refine ⟨first ++ others, hboth, fun bytes h => ?_⟩
                      cases h
                  | ok rest =>
                      refine ⟨first ++ others, hboth, fun bytes h => ?_⟩
                      cases h
                      rw [joined_append, (hword word rfl).1, (hrest rest rfl).1]

end Recorded

end DocWire
