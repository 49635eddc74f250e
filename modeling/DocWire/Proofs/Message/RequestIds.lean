import DocWire.Message.RequestId
import DocWire.Proofs.Message.Answer

namespace DocWire

namespace RequestIds

-- What a number of draws in a row leave.
def after (ids : RequestIds) : Nat → RequestIds
  | 0 => ids
  | count + 1 => (ids.after count).draw.2

-- What is drawn at a place of the row, of which the first is zero.
def nth (ids : RequestIds) (place : Nat) : Int32 :=
  (ids.after place).draw.1

-- What a number of draws in a row give.
def drawn (ids : RequestIds) (count : Nat) : List Int32 :=
  (List.range count).map ids.nth

theorem next_after (ids : RequestIds) (count : Nat) :
    (ids.after count).next = ids.next + Int32.ofNat count := by
  induction count with
  | zero => exact (Int32.add_zero ids.next).symm
  | succ count ih =>
      rw [Int32.ofNat_add, ← Int32.add_assoc, ← ih]
      rfl

theorem nth_eq (ids : RequestIds) (place : Nat) :
    ids.nth place = ids.next + Int32.ofNat place :=
  ids.next_after place

-- The counter comes round after all numbers of 32 bits, wherever it starts.
theorem nth_eq_iff {ids : RequestIds} {i j : Nat} :
    ids.nth i = ids.nth j ↔ i % 4294967296 = j % 4294967296 := by
  rw [nth_eq, nth_eq, Int32.add_right_inj, ← Int32.toBitVec_inj, Int32.toBitVec_ofNat',
    Int32.toBitVec_ofNat', ← BitVec.toNat_inj, BitVec.toNat_ofNat, BitVec.toNat_ofNat]

-- The first draws count themselves, as far as a number of 32 bits can.
theorem toInt_nth_first {place : Nat} (h : place < 2147483647) :
    (first.nth place).toInt = place + 1 := by
  have hnth : first.nth place = Int32.ofNat (1 + place) := by
    rw [nth_eq, Int32.ofNat_add]
    rfl
  rw [hnth, Int32.toInt_ofNat_of_lt (by omega)]
  omega

-- A relation between each two of the numbers drawn, in the order of the draws.
theorem drawn_pairwise {ids : RequestIds} {count : Nat} {R : Int32 → Int32 → Prop} :
    (ids.drawn count).Pairwise R ↔
      ∀ i j, i < j → j < count → R (ids.nth i) (ids.nth j) := by
  rw [drawn, List.pairwise_map, List.pairwise_iff_getElem]
  simp only [List.length_range, List.getElem_range]
  constructor
  · intro h i j hij hj
    exact h i j (Nat.lt_trans hij hj) hj hij
  · intro h i j _ hj hij
    exact h i j hij hj

-- The numbers increase up to the greatest of 32 bits, which the least follows.
theorem increasing_iff {count : Nat} :
    (first.drawn count).Pairwise (· < ·) ↔ count ≤ 2147483647 := by
  rw [drawn_pairwise]
  constructor
  · intro h
    by_contra hmany
    have hturn := h 2147483646 2147483647 (by omega) (by omega)
    rw [nth_eq, nth_eq] at hturn
    exact absurd hturn (by decide)
  · intro hfew i j hij hj
    rw [Int32.lt_iff_toInt_lt, toInt_nth_first (by omega), toInt_nth_first (by omega)]
    omega

theorem distinct_iff {ids : RequestIds} {count : Nat} :
    (ids.drawn count).Nodup ↔ count ≤ 4294967296 := by
  rw [List.Nodup, drawn_pairwise]
  constructor
  · intro h
    by_contra hmany
    exact h 0 4294967296 (by omega) (by omega) (nth_eq_iff.mpr rfl)
  · intro hfew i j hij hj hsame
    have hplaces := nth_eq_iff.mp hsame
    omega

end RequestIds

namespace ReplyMessage

-- Bytes of some size at most that are taken for the reply to the request of a number.
def TakenFor (decoder : Decoder Document) (limit : Nat) (bytes : ByteArray) (id : Int32) : Prop :=
  ∃ reply, decode decoder ⟨id, limit⟩ bytes = .ok reply

-- A reply is told from that to another request by nothing but the number.
theorem takenFor_both {decoder : Decoder Document} {limit : Nat} {bytes : ByteArray}
    {id other : Int32} :
    TakenFor decoder limit bytes id ∧ TakenFor decoder limit bytes other ↔
      TakenFor decoder limit bytes id ∧ id = other := by
  constructor
  · rintro ⟨htaken, reply, hother⟩
    obtain ⟨own, hown⟩ := htaken
    have hid := (answers_of_readWhole (decode_eq_ok.mp hown).1).responseTo
    have hsame := (answers_of_readWhole (decode_eq_ok.mp hother).1).responseTo
    exact ⟨⟨own, hown⟩, hid.symm.trans hsame⟩
  · rintro ⟨htaken, rfl⟩
    exact ⟨htaken, htaken⟩

-- An answer to the request of number 1, without a document.
def bareAnswer : ByteArray :=
  MessageHeader.toBytes ⟨36, 77, 1, 1⟩ ++ (ofDocuments 77 1 []).fieldBytes 0

theorem takenFor_bareAnswer (decoder : Decoder Document) : TakenFor decoder 36 bareAnswer 1 := by
  have hnone : readDocuments decoder ByteArray.empty = .ok [] := by
    rw [readDocuments]
    rfl
  have hbody : readBody decoder ⟨36, 77, 1, 1⟩ (bareAnswer.extract MessageHeader.size 36) =
      .ok ⟨⟨36, 77, 1, 1⟩, 0, 0, 0, []⟩ :=
    readBody_eq_ok.mpr ⟨by decide, hnone, by decide, rfl⟩
  have hread : readWhole decoder ⟨1, 36⟩ bareAnswer = .ok ⟨⟨36, 77, 1, 1⟩, 0, 0, 0, []⟩ :=
    readWhole_eq_ok.mpr ⟨_, rfl, rfl, hbody⟩
  exact ⟨_, decode_eq_ok.mpr ⟨hread, by decide⟩⟩

end ReplyMessage

namespace RequestIds

open ReplyMessage

-- The numbers of a process's requests increase for as long as 31 bits last and are distinct for as
-- long as 32 bits last. From then on each is the number of an earlier request, and a reply to the
-- one is taken for a reply to the other.
theorem ids_recur (count i j : Nat) (decoder : Decoder Document) (limit : Nat)
    (bytes : ByteArray) :
    ((first.drawn count).Pairwise (· < ·) ↔ count ≤ 2147483647) ∧
      ((first.drawn count).Nodup ↔ count ≤ 4294967296) ∧
      (first.nth i = first.nth j ↔ i % 4294967296 = j % 4294967296) ∧
      (TakenFor decoder limit bytes (first.nth i) ∧ TakenFor decoder limit bytes (first.nth j) ↔
        TakenFor decoder limit bytes (first.nth i) ∧ i % 4294967296 = j % 4294967296) := by
  refine ⟨increasing_iff, distinct_iff, nth_eq_iff, ?_⟩
  rw [takenFor_both, nth_eq_iff]

-- After 2147483647 comes -2147483648, and after 4294967296 requests there is one that takes an
-- answer to the first.
theorem count_comes_round :
    first.nth 2147483646 = 2147483647 ∧ first.nth 2147483647 = -2147483648 ∧
      ¬ (first.drawn 2147483648).Pairwise (· < ·) ∧ ¬ (first.drawn 4294967297).Nodup ∧
      TakenFor Registry.standard.decodeDocument 36 bareAnswer (first.nth 0) ∧
      TakenFor Registry.standard.decodeDocument 36 bareAnswer (first.nth 4294967296) := by
  refine ⟨?_, ?_, ?_, ?_, takenFor_both.mpr ⟨takenFor_bareAnswer _, nth_eq_iff.mpr rfl⟩⟩
  · rw [nth_eq]
    decide
  · rw [nth_eq]
    decide
  · rw [increasing_iff]
    decide
  · rw [distinct_iff]
    decide

end RequestIds

end DocWire
