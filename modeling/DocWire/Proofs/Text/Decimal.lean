import DocWire.Text.Blank
import DocWire.Text.Decimal

namespace DocWire.Text

-- The digits of a number, with any number of zeros in front.
def Padded (n : Nat) (cs : List Char) : Prop :=
  ∃ zeros, cs = List.replicate zeros '0' ++ (toString n).toList

-- A decimal form of a number. A plus may stand in front.
inductive Numeral (n : Nat) : List Char → Prop where
  | plain {cs : List Char} (hdigits : Padded n cs) : Numeral n cs
  | signed {cs : List Char} (hdigits : Padded n cs) : Numeral n ('+' :: cs)

variable {mark c : Char} {text before after cs : List Char} {n m bound : Nat}

theorem splitLast_eq_none : splitLast mark text = none ↔ mark ∉ text := by
  induction text with
  | nil => simp [splitLast]
  | cons c rest ih =>
      cases hsplit : splitLast mark rest with
      | some parts =>
          have hrest : mark ∈ rest := by simpa [hsplit] using ih
          simp [splitLast, hsplit, hrest]
      | none =>
          have hrest : mark ∉ rest := ih.mp hsplit
          by_cases hc : c = mark
          · simp [splitLast, hsplit, hc]
          · simp [splitLast, hsplit, hc, hrest, Ne.symm hc]

theorem splitLast_append (h : mark ∉ after) (before : List Char) :
    splitLast mark (before ++ mark :: after) = some (before, after) := by
  induction before with
  | nil => simp [splitLast, splitLast_eq_none.mpr h]
  | cons c before ih => simp [splitLast, ih]

theorem splitLast_parts (h : splitLast mark text = some (before, after)) :
    text = before ++ mark :: after ∧ mark ∉ after := by
  induction text generalizing before with
  | nil => cases h
  | cons c rest ih =>
      rw [splitLast] at h
      cases hsplit : splitLast mark rest with
      | some parts =>
          rw [hsplit] at h
          cases h
          obtain ⟨hrest, hlast⟩ := ih hsplit
          exact ⟨by rw [hrest, List.cons_append], hlast⟩
      | none =>
          by_cases hc : c = mark
          · simp only [hsplit, hc, if_true, Option.some.injEq, Prod.mk.injEq] at h
            obtain ⟨rfl, rfl⟩ := h
            exact ⟨by rw [hc, List.nil_append], splitLast_eq_none.mp hsplit⟩
          · simp [hsplit, hc] at h

theorem splitLast_eq_some :
    splitLast mark text = some (before, after) ↔ text = before ++ mark :: after ∧ mark ∉ after := by
  constructor
  · exact splitLast_parts
  · rintro ⟨rfl, hafter⟩
    exact splitLast_append hafter before

theorem isDigit_iff : isDigit c = true ↔ 48 ≤ c.toNat ∧ c.toNat ≤ 57 := by
  rw [isDigit, Bool.and_eq_true, decide_eq_true_iff, decide_eq_true_iff]
  exact Iff.rfl

theorem value_lt (hc : isDigit c = true) : c.toNat - '0'.toNat < 10 := by
  have hbounds := isDigit_iff.mp hc
  change c.toNat - 48 < 10
  omega

theorem toString_toList (n : Nat) : (toString n).toList = Nat.toDigits 10 n := by
  rw [Nat.toString_eq_ofList_toDigits, String.toList_ofList]

theorem isDigit_of_mem (h : c ∈ (toString n).toList) : isDigit c = true := by
  rw [toString_toList] at h
  have hdigit := Nat.isDigit_of_mem_toDigits (by decide) (by decide) h
  simpa [isDigit, Char.isDigit, Char.le_def] using hdigit

-- The digit that stands for the value of a digit is that digit.
theorem digitChar_value (hc : isDigit c = true) :
    Nat.digitChar (c.toNat - '0'.toNat) = c := by
  have hbounds := isDigit_iff.mp hc
  apply Char.toNat_inj.mp
  rw [Nat.toNat_digitChar_of_lt_ten (value_lt hc)]
  change 48 + (c.toNat - 48) = c.toNat
  omega

theorem isBlank_of_isDigit (hc : isDigit c = true) : isBlank c = false := by
  have hall : ∀ d < 10, isBlank (Nat.digitChar d) = false := by decide
  rw [← digitChar_value hc]
  exact hall _ (value_lt hc)

theorem digitsFrom_of_digits (hcs : ∀ c ∈ cs, isDigit c = true) :
    digitsFrom n cs = some (Nat.ofDigitChars 10 cs n) := by
  induction cs generalizing n with
  | nil => rfl
  | cons c cs ih =>
      obtain ⟨hc, hmore⟩ := List.forall_mem_cons.mp hcs
      rw [digitsFrom, if_pos hc, ih hmore, Nat.ofDigitChars_cons]

theorem digitsFrom_zeros (zeros : Nat) (cs : List Char) :
    digitsFrom 0 (List.replicate zeros '0' ++ cs) = digitsFrom 0 cs := by
  induction zeros with
  | zero => rfl
  | succ zeros ih => simpa [List.replicate_succ, digitsFrom, isDigit] using ih

-- The digits that are read go on behind those of the number before them.
theorem toDigits_append (hn : 0 < n) (h : digitsFrom n cs = some m) :
    Nat.toDigits 10 n ++ cs = Nat.toDigits 10 m := by
  induction cs generalizing n with
  | nil =>
      cases h
      rw [List.append_nil]
  | cons c cs ih =>
      by_cases hc : isDigit c = true
      · rw [digitsFrom, if_pos hc] at h
        have hfirst := Nat.toDigits_append_toDigits (by decide) hn (value_lt hc)
        rw [Nat.toDigits_of_lt_base (value_lt hc), digitChar_value hc] at hfirst
        calc
          Nat.toDigits 10 n ++ c :: cs = (Nat.toDigits 10 n ++ [c]) ++ cs := by simp
          _ = Nat.toDigits 10 (10 * n + (c.toNat - '0'.toNat)) ++ cs := by rw [hfirst]
          _ = Nat.toDigits 10 m := ih (by omega) h
      · simp [digitsFrom, hc] at h

theorem padded_of_digits (hcs : cs ≠ []) (h : digitsFrom 0 cs = some n) : Padded n cs := by
  induction cs with
  | nil => exact absurd rfl hcs
  | cons c cs ih =>
      by_cases hc : isDigit c = true
      · rw [digitsFrom, if_pos hc, Nat.mul_zero, Nat.zero_add] at h
        by_cases hzero : c = '0'
        · subst hzero
          by_cases hnil : cs = []
          · subst hnil
            cases h
            exact ⟨0, rfl⟩
          · obtain ⟨zeros, hpadded⟩ := ih hnil h
            exact ⟨zeros + 1, by rw [hpadded, List.replicate_succ, List.cons_append]⟩
        · have hpos : 0 < c.toNat - '0'.toNat := by
            have hbounds := isDigit_iff.mp hc
            have hne : c.toNat ≠ 48 := fun heq => hzero (Char.toNat_inj.mp heq)
            change 0 < c.toNat - 48
            omega
          have hall := toDigits_append hpos h
          rw [Nat.toDigits_of_lt_base (value_lt hc), digitChar_value hc] at hall
          exact ⟨0, by simpa [toString_toList] using hall⟩
      · simp [digitsFrom, hc] at h

theorem Padded.ne_nil (h : Padded n cs) : cs ≠ [] := by
  obtain ⟨zeros, rfl⟩ := h
  simp [Nat.toDigits_ne_nil]

theorem Padded.isDigit_of_mem (h : Padded n cs) (hc : c ∈ cs) : isDigit c = true := by
  obtain ⟨zeros, rfl⟩ := h
  rcases List.mem_append.mp hc with hzero | hdigit
  · rw [List.eq_of_mem_replicate hzero]
    decide
  · exact Text.isDigit_of_mem hdigit

theorem Padded.digitsFrom_eq (h : Padded n cs) : digitsFrom 0 cs = some n := by
  obtain ⟨zeros, rfl⟩ := h
  rw [digitsFrom_zeros, digitsFrom_of_digits fun c hc => Text.isDigit_of_mem hc,
    toString_toList, Nat.ofDigitChars_toDigits (by decide) (by decide)]

theorem digits_eq_some : digits cs = some n ↔ Padded n cs := by
  cases cs with
  | nil =>
      constructor
      · intro h
        cases h
      · intro h
        exact absurd rfl h.ne_nil
  | cons c cs => exact ⟨padded_of_digits (by simp), Padded.digitsFrom_eq⟩

theorem Numeral.no_colon (h : Numeral n cs) : ':' ∉ cs := by
  have hnone : ∀ {digits}, Padded n digits → ':' ∉ digits :=
    fun hdigits hc => absurd (hdigits.isDigit_of_mem hc) (by decide)
  cases h with
  | plain hdigits => exact hnone hdigits
  | signed hdigits => simpa using hnone hdigits

theorem padded_toString (n : Nat) : Padded n (toString n).toList :=
  ⟨0, rfl⟩

theorem numeral_plus : Numeral n ('+' :: cs) ↔ Padded n cs := by
  constructor
  · intro h
    cases h with
    | plain hdigits =>
        have hplus := hdigits.isDigit_of_mem List.mem_cons_self
        exact absurd hplus (by decide)
    | signed hdigits => exact hdigits
  · exact .signed

theorem numeral_of_ne (hc : cs.head? ≠ some '+') : Numeral n cs ↔ Padded n cs := by
  constructor
  · intro h
    cases h with
    | plain hdigits => exact hdigits
    | signed hdigits => exact absurd rfl hc
  · exact .plain

theorem unsigned_eq_some : unsigned bound cs = some n ↔ n < bound ∧ Numeral n cs := by
  by_cases hplus : cs.head? = some '+'
  · obtain ⟨rest, rfl⟩ := List.head?_eq_some_iff.mp hplus
    rw [unsigned, Option.filter_eq_some_iff, digits_eq_some, numeral_plus, decide_eq_true_iff,
      and_comm]
  · have hother : ∀ rest, cs = '+' :: rest → False := by
      rintro rest rfl
      exact hplus rfl
    rw [unsigned, Option.filter_eq_some_iff, digits_eq_some, numeral_of_ne hplus,
      decide_eq_true_iff, and_comm]
    exact hother

end DocWire.Text
