import DocWire.Proofs.Wire.Bounds

namespace DocWire.Reader

open Outcome

-- An action that can also break off, with no error of its own.
abbrev Checked := EStateM (Option CodecError) Reader

-- The same action, which never breaks off.
def unchecked {α : Type} (x : Action α) : Checked α := fun r =>
  match x r with
  | .ok a s => .ok a s
  | .error e s => .error (some e) s

-- The reads as they access their bytes: each breaks off where a slice or an index lies outside of
-- what it is taken from, where a difference is below zero, and where a sum is more than the size of
-- the bytes and the longest length.
namespace Checked

def refuse {α : Type} (fault : Corruption) : Checked α :=
  throw (some (.corrupt fault))

def slice (bytes : ByteArray) (first last : Nat) : Checked ByteArray :=
  if first ≤ last ∧ last ≤ bytes.size then pure (bytes.extract first last) else throw none

def index (bytes : ByteArray) (place : Nat) : Checked UInt8 :=
  if h : place < bytes.size then pure bytes[place] else throw none

def difference (a b : Nat) : Checked Nat :=
  if b ≤ a then pure (a - b) else throw none

def sum (a b : Nat) : Checked Nat := do
  let r ← get
  if a + b ≤ r.bytes.size + Word.maxLength then return a + b else throw none

def moveTo (place : Nat) : Checked Unit :=
  modify fun r => { r with position := place }

def take (length : Nat) : Checked ByteArray := do
  let r ← get
  let last ← sum r.position length
  if r.limit < last then refuse (.overrun length r.position)
  else
    let bytes ← slice r.bytes r.position last
    moveTo last
    return bytes

def byte : Checked UInt8 := do
  let bytes ← take 1
  index bytes 0

def word (width : Nat) : Checked ByteArray := do
  let r ← get
  let rest ← slice r.bytes r.position r.limit
  if rest.size < width then throw (some (.truncated (width - rest.size)))
  else
    let last ← sum r.position width
    moveTo last
    return rest.extract 0 width

def int32 : Checked Int32 := do
  return Word.toInt32 (← word 4)

def int64 : Checked Int64 := do
  return Word.toInt64 (← word 8)

def double : Checked Double := do
  return ⟨Word.toUInt64 (← word 8)⟩

def dateTime : Checked DateTime := do
  return ⟨← int64⟩

def name : Checked String := do
  let r ← get
  let rest ← slice r.bytes r.position r.limit
  match zeroFrom rest 0 rest.size with
  | none => refuse .unterminatedName
  | some place =>
    let length ← sum place 1
    let bytes ← take length
    let text ← slice bytes 0 place
    match Utf8.read text with
    | .ok text => return text
    | .error fault => refuse (.nameText fault)

def tag : Checked (Option Tag) := do
  let code ← byte
  if code = 0 then
    modify fun r => { r with current := none }
    return none
  else
    match Tag.ofCode code with
    | .ok tag =>
      modify fun r => { r with current := some tag }
      return some tag
    | .error e => throw (some e)

def string : Checked String := do
  let length ← int32
  if length ≤ 0 then refuse (.stringLength length)
  else
    let bytes ← take length.toInt.toNat
    let last ← difference length.toInt.toNat 1
    let mark ← index bytes last
    if mark = 0 then
      let text ← slice bytes 0 last
      match Utf8.read text with
      | .ok text => return text
      | .error fault => refuse (.stringText fault)
    else refuse .unterminatedString

def binary : Checked Binary := do
  let length ← int32
  if length < 0 then refuse (.binaryLength length)
  else
    let subtype ← byte
    let bytes ← take length.toInt.toNat
    return ⟨subtype, bytes⟩

-- Twelve bytes are copied over twelve others.
def objectId : Checked ObjectId := do
  let bytes ← take 12
  if bytes.size = 12 then return ObjectId.ofBytes bytes else throw none

def boolean : Checked Bool := do
  let code ← byte
  if code = 0 then return false
  else if code = 1 then return true
  else refuse (.boolean code)

def null : Checked Unit := do
  let r ← get
  if r.current = some .null then return ()
  else refuse (.notNull r.current)

def start : Checked Unit := do
  let before ← get
  if maxNesting ≤ before.ends.length then refuse (.tooDeep before.position)
  else
    let size ← int32
    if size < 5 then refuse (.documentSize size before.position)
    else
      let declared ← sum before.position size.toInt.toNat
      if declared ≤ before.limit then modify fun r => { r with ends := declared :: r.ends }
      else refuse (.documentSize size before.position)

def finish : Checked Unit := do
  let r ← get
  match r.ends with
  | [] => throw (some (.misuse .unopenedEnd))
  | declared :: outer =>
    modify fun r => { r with ends := outer }
    if r.position = declared then return ()
    else refuse (.wrongEnd r.position declared)

end Checked

-- Where the reader stands, the checks make no difference.
def Agree {α : Type} (x : Checked α) (y : Action α) (r : Reader) : Prop :=
  x r = unchecked y r

section

variable {α β : Type} {r : Reader}

theorem Agree.bind {x : Checked α} {y : Action α} {f : α → Checked β} {g : α → Action β}
    (hx : Agree x y r) (hf : ∀ a s, y r = .ok a s → Agree (f a) (g a) s) :
    Agree (x >>= f) (y >>= g) r := by
  unfold Agree unchecked at *
  cases hrun : y r with
  | ok a s =>
      rw [hrun] at hx
      rw [bind_of_ok hx, bind_of_ok hrun]
      exact hf a s hrun
  | error e s =>
      rw [hrun] at hx
      rw [bind_of_error hx, bind_of_error hrun]

-- A check that holds can be left out.
theorem Agree.after {x : Checked α} {f : α → Checked β} {y : Action β} {a : α}
    (hx : x r = .ok a r) (h : Agree (f a) y r) : Agree (x >>= f) y r := by
  rw [Agree, bind_of_ok hx]
  exact h

theorem agree_get {f : Reader → Checked α} {g : Reader → Action α} (h : Agree (f r) (g r) r) :
    Agree (get >>= f) (get >>= g) r :=
  h

theorem agree_pure (a : α) : Agree (pure a) (pure a) r := rfl

theorem agree_throw (e : CodecError) : Agree (throw (some e) : Checked α) (throw e) r := rfl

theorem agree_ite {c d : Prop} [Decidable c] [Decidable d] {x x' : Checked α} {y y' : Action α}
    (hiff : c ↔ d) (hyes : c → Agree x y r) (hno : ¬c → Agree x' y' r) :
    Agree (if c then x else x') (if d then y else y') r := by
  by_cases hc : c
  · rw [if_pos hc, if_pos (hiff.mp hc)]
    exact hyes hc
  · rw [if_neg hc, if_neg (mt hiff.mpr hc)]
    exact hno hc

theorem agree_modify (f : Reader → Reader) : Agree (modify f) (modify f) r := rfl

theorem Agree.of_ok {x : Checked α} {y : Action α} {a : α} {s : Reader} (hx : x r = .ok a s)
    (hy : y r = .ok a s) : Agree x y r := by
  rw [Agree, unchecked, hy, hx]

theorem Agree.of_error {x : Checked α} {y : Action α} {e : CodecError} {s : Reader}
    (hx : x r = .error (some e) s) (hy : y r = .error e s) : Agree x y r := by
  rw [Agree, unchecked, hy, hx]

-- An action that agrees with one that is not checked does not break off.
theorem Agree.not_broken {x : Checked α} {y : Action α} (h : Agree x y r) (s : Reader) :
    x r ≠ .error none s := by
  rw [h, unchecked]
  cases y r <;> simp

theorem sum_eq {a b : Nat} (h : a + b ≤ r.bytes.size + Word.maxLength) :
    Checked.sum a b r = .ok (a + b) r := by
  rw [Checked.sum, get_bind, if_pos h]
  rfl

theorem slice_eq {whole : ByteArray} {first last : Nat} (h : first ≤ last ∧ last ≤ whole.size) :
    Checked.slice whole first last r = .ok (whole.extract first last) r := by
  rw [Checked.slice, if_pos h]
  rfl

theorem index_eq {whole : ByteArray} {place : Nat} (h : place < whole.size) :
    Checked.index whole place r = .ok whole[place] r := by
  rw [Checked.index, dif_pos h]
  rfl

theorem difference_eq {a b : Nat} (h : b ≤ a) : Checked.difference a b r = .ok (a - b) r := by
  rw [Checked.difference, if_pos h]
  rfl

-- A length that was read fits its word.
theorem toNat_le_maxLength (length : Int32) : length.toInt.toNat ≤ Word.maxLength := by
  have hlt := length.toInt_lt
  unfold Word.maxLength
  omega

theorem take_agree_of_le (h : r.InBounds) {length : Nat}
    (hlength : r.position + length ≤ r.bytes.size + Word.maxLength) :
    Agree (Checked.take length) (take length) r := by
  have hlimit := h.bounded.limit_le
  have hsum : Checked.sum r.position length r = .ok (r.position + length) r := sum_eq hlength
  by_cases hover : r.limit < r.position + length
  · refine .of_error ?_ (if_pos hover)
    rw [Checked.take, get_bind, bind_of_ok hsum, if_pos hover]
    rfl
  · refine .of_ok ?_ (if_neg hover)
    rw [Checked.take, get_bind, bind_of_ok hsum, if_neg hover, bind_of_ok (slice_eq (by omega))]
    rfl

theorem take_agree (h : r.InBounds) {length : Nat} (hlength : length ≤ Word.maxLength) :
    Agree (Checked.take length) (take length) r := by
  have hplace := h.position_le_size
  exact take_agree_of_le h (by omega)

theorem byte_agree (h : r.InBounds) : Agree Checked.byte byte r := by
  refine (take_agree h (by decide)).bind fun taken s hrun => ?_
  obtain ⟨hsize, _, _⟩ := (take_eq_ok h.bounded).mp hrun
  have hfirst : taken.data.getD 0 0 = taken[0] := by
    rw [Array.getD_eq_getD_getElem?, Array.getElem?_eq_getElem]
    rfl
  rw [hfirst]
  exact .of_ok (index_eq (by omega)) rfl

theorem size_rest (h : r.InBounds) :
    (r.bytes.extract r.position r.limit).size = r.remaining := by
  have hlimit := h.bounded.limit_le
  rw [ByteArray.size_extract, remaining]
  omega

-- A word is taken from the slice that ends where the innermost document does.
theorem word_agree (h : r.InBounds) {width : Nat} (hwidth : width ≤ Word.maxLength) :
    Agree (Checked.word width) (word width) r := by
  have hinside := h.inside
  have hplace := h.position_le_size
  have hlimit := h.bounded.limit_le
  have hslice : Checked.slice r.bytes r.position r.limit r =
      .ok (r.bytes.extract r.position r.limit) r := slice_eq ⟨hinside, hlimit⟩
  have hsum : Checked.sum r.position width r = .ok (r.position + width) r := sum_eq (by omega)
  by_cases hshort : r.remaining < width
  · refine .of_error ?_ (if_pos hshort)
    rw [Checked.word, get_bind, bind_of_ok hslice, size_rest h, if_pos hshort]
    rfl
  · refine .of_ok ?_ (if_neg hshort)
    have hwhole : (r.bytes.extract r.position r.limit).extract 0 width =
        r.bytes.extract r.position (r.position + width) := by
      rw [ByteArray.extract_extract]
      congr 1
      rw [remaining] at hshort
      omega
    rw [Checked.word, get_bind, bind_of_ok hslice, size_rest h, if_neg hshort, bind_of_ok hsum, hwhole]
    rfl

theorem int32_agree (h : r.InBounds) : Agree Checked.int32 int32 r :=
  (word_agree h (by decide)).bind fun _ _ _ => agree_pure _

theorem int64_agree (h : r.InBounds) : Agree Checked.int64 int64 r :=
  (word_agree h (by decide)).bind fun _ _ _ => agree_pure _

theorem double_agree (h : r.InBounds) : Agree Checked.double double r :=
  (word_agree h (by decide)).bind fun _ _ _ => agree_pure _

theorem dateTime_agree (h : r.InBounds) : Agree Checked.dateTime dateTime r :=
  (int64_agree h).bind fun _ _ _ => agree_pure _

theorem objectId_agree (h : r.InBounds) : Agree Checked.objectId objectId r := by
  refine (take_agree h (by decide)).bind fun taken s hrun => ?_
  obtain ⟨hsize, _, _⟩ := (take_eq_ok h.bounded).mp hrun
  rw [if_pos hsize]
  exact agree_pure _

theorem boolean_agree (h : r.InBounds) : Agree Checked.boolean boolean r := by
  refine (byte_agree h).bind fun code s _ => ?_
  refine agree_ite Iff.rfl (fun _ => agree_pure _) fun _ => ?_
  exact agree_ite Iff.rfl (fun _ => agree_pure _) fun _ => agree_throw _

theorem tag_agree (h : r.InBounds) : Agree Checked.tag tag r := by
  refine (byte_agree h).bind fun code s _ => ?_
  refine agree_ite Iff.rfl (fun _ => (agree_modify _).bind fun _ _ _ => agree_pure _) fun _ => ?_
  cases Tag.ofCode code with
  | ok tag => exact (agree_modify _).bind fun _ _ _ => agree_pure _
  | error e => exact agree_throw _

theorem null_agree : Agree Checked.null null r :=
  agree_get (agree_ite Iff.rfl (fun _ => agree_pure _) fun _ => agree_throw _)

theorem finish_agree : Agree Checked.finish finish r := by
  unfold Agree Checked.finish unchecked finish
  rw [get_bind]
  cases r.ends with
  | nil => rfl
  | cons declared outer =>
      dsimp only
      by_cases hend : r.position = declared
      · rw [if_pos hend, if_pos hend]
        rfl
      · rw [if_neg hend, if_neg hend]
        rfl

-- The first zero byte of a slice is the first one from its beginning on.
theorem zeroFrom_extract {whole : ByteArray} {first last : Nat} (hlast : last ≤ whole.size)
    (place count : Nat) (hcount : first + place + count ≤ last) :
    zeroFrom (whole.extract first last) place count =
      (zeroFrom whole (first + place) count).map (· - first) := by
  induction count generalizing place with
  | zero => rfl
  | succ count ih =>
      have hslice : place < (whole.extract first last).size := by
        rw [ByteArray.size_extract]
        omega
      have hwhole : first + place < whole.size := by omega
      rw [zeroFrom, zeroFrom, dif_pos hslice, dif_pos hwhole, ByteArray.getElem_extract]
      by_cases hzero : whole[first + place] = 0
      · rw [if_pos hzero, if_pos hzero, Option.map_some, Nat.add_sub_cancel_left]
      · rw [if_neg hzero, if_neg hzero]
        exact ih (place + 1) (by omega)

theorem name_agree (h : r.InBounds) : Agree Checked.name name r := by
  have hinside := h.inside
  have hlimit := h.bounded.limit_le
  have hzero : zeroFrom (r.bytes.extract r.position r.limit) 0 r.remaining =
      (zeroFrom r.bytes r.position r.remaining).map (· - r.position) := by
    refine zeroFrom_extract hlimit 0 r.remaining ?_
    rw [remaining]
    omega
  refine agree_get (.after (slice_eq ⟨hinside, hlimit⟩) ?_)
  rw [size_rest h, hzero]
  cases hfound : zeroFrom r.bytes r.position r.remaining with
  | none => exact agree_throw _
  | some place =>
      rw [Option.map_some]
      dsimp only
      obtain ⟨hle, hlt, _, _⟩ := zeroFrom_eq_some.mp hfound
      rw [remaining] at hlt
      have hlength : place + 1 - r.position = place - r.position + 1 := by omega
      refine .after (sum_eq (by omega)) ?_
      rw [hlength]
      refine (take_agree_of_le h (by omega)).bind fun taken s hrun => ?_
      obtain ⟨htaken, _, _⟩ := (take_eq_ok h.bounded).mp hrun
      refine .after (slice_eq (by omega)) ?_
      rw [withoutLast, htaken, Nat.add_sub_cancel]
      cases Utf8.read (taken.extract 0 (place - r.position)) with
      | ok text => exact agree_pure _
      | error fault => exact agree_throw _

theorem string_agree (h : r.InBounds) : Agree Checked.string string r := by
  refine (int32_agree h).bind fun length s hrun => ?_
  have hs := h.moved (int32_moved.of_ok h.refl hrun)
  refine agree_ite Iff.rfl (fun _ => agree_throw _) fun hpos => ?_
  rw [Int32.le_iff_toInt_le, Int32.toInt_zero] at hpos
  refine (take_agree hs (toNat_le_maxLength length)).bind fun taken t htake => ?_
  obtain ⟨htaken, _, _⟩ := (take_eq_ok hs.bounded).mp htake
  have hlast : length.toInt.toNat - 1 < taken.size := by omega
  have hback : taken.data.back? = some taken[length.toInt.toNat - 1] := by
    have hplace : taken.data.size - 1 = length.toInt.toNat - 1 := congrArg (· - 1) htaken
    rw [Array.back?_eq_getElem?, hplace]
    exact Array.getElem?_eq_getElem _
  have hmark : taken[length.toInt.toNat - 1] = 0 ↔ taken.data.back? = some 0 := by
    rw [hback, Option.some.injEq]
  refine .after (difference_eq (by omega)) (.after (index_eq hlast) ?_)
  refine agree_ite hmark (fun _ => ?_) fun _ => agree_throw _
  refine .after (slice_eq (by omega)) ?_
  rw [withoutLast, htaken]
  cases Utf8.read (taken.extract 0 (length.toInt.toNat - 1)) with
  | ok text => exact agree_pure _
  | error fault => exact agree_throw _

theorem binary_agree (h : r.InBounds) : Agree Checked.binary binary r := by
  refine (int32_agree h).bind fun length s hrun => ?_
  have hs := h.moved (int32_moved.of_ok h.refl hrun)
  refine agree_ite Iff.rfl (fun _ => agree_throw _) fun _ => ?_
  refine (byte_agree hs).bind fun subtype t hbyte => ?_
  have ht := hs.moved (byte_moved.of_ok hs.refl hbyte)
  exact (take_agree ht (toNat_le_maxLength length)).bind fun _ _ _ => agree_pure _

-- A size below five is refused before it is added to the place, and one that reaches too far behind.
theorem start_agree (h : r.InBounds) : Agree Checked.start start r := by
  refine agree_get (agree_ite Iff.rfl (fun _ => agree_throw _) fun _ => ?_)
  refine (int32_agree h).bind fun size s hrun => ?_
  obtain ⟨_, rfl⟩ := (int32_eq_ok h.bounded).mp hrun
  have hplace := h.position_le_size
  have hlength := toNat_le_maxLength size
  by_cases hshort : size < 5
  · have hrefused : ¬(5 ≤ size ∧ r.position + size.toInt.toNat ≤ r.limit) :=
      fun hboth => Int32.not_le.mpr hshort hboth.1
    rw [if_pos hshort, if_neg hrefused]
    exact agree_throw _
  · rw [if_neg hshort]
    refine .after (sum_eq (by rw [skip_bytes]; omega)) ?_
    have hfits : r.position + size.toInt.toNat ≤ r.limit ↔
        5 ≤ size ∧ r.position + size.toInt.toNat ≤ r.limit :=
      (and_iff_right (Int32.not_lt.mp hshort)).symm
    exact agree_ite hfits (fun _ => agree_modify _) fun _ => agree_throw _

end

end DocWire.Reader
