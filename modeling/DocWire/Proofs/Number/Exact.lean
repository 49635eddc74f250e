import Mathlib.Algebra.Order.Field.Power
import Mathlib.Algebra.Order.Ring.Rat
import Mathlib.Tactic.Linarith
import Mathlib.Tactic.NormNum
import Mathlib.Tactic.Positivity
import DocWire.Proofs.Number.One

namespace DocWire.Double

-- The number that is written with a sign, a significand and an exponent.
def amount (negative : Bool) (significand : Nat) (exponent : Int) : ℚ :=
  (if negative then -1 else 1) * (significand * 2 ^ exponent)

-- What bits can stand for, if it is a number at all.
inductive Number where
  | finite (value : ℚ)
  | infinite (negative : Bool)

def number? (d : Double) : Option Number :=
  match d.denotation with
  | .finite negative significand exponent => some (.finite (amount negative significand exponent))
  | .infinite negative => some (.infinite negative)
  | .nan => none

theorem magnitude_nonneg (significand : Nat) (exponent : Int) :
    (0 : ℚ) ≤ significand * 2 ^ exponent := by
  positivity

theorem magnitude_eq_zero {significand : Nat} {exponent : Int} :
    (significand : ℚ) * 2 ^ exponent = 0 ↔ significand = 0 := by
  have hpower : (2 : ℚ) ^ exponent ≠ 0 := zpow_ne_zero exponent two_ne_zero
  rw [mul_eq_zero, or_iff_left hpower, Nat.cast_eq_zero]

-- Numbers agree in their magnitudes, and in their signs unless they are zero.
theorem of_amount_eq {n n' : Bool} {m m' : Nat} {e e' : Int} (h : amount n m e = amount n' m' e') :
    (m : ℚ) * 2 ^ e = m' * 2 ^ e' ∧ (n = n' ∨ m = 0) := by
  have hnonneg := magnitude_nonneg m e
  have hnonneg' := magnitude_nonneg m' e'
  unfold amount at h
  generalize ha : (m : ℚ) * 2 ^ e = a at h hnonneg ⊢
  generalize (m' : ℚ) * 2 ^ e' = b at h hnonneg'
  have hzero : a = 0 → m = 0 := fun h => magnitude_eq_zero.mp (ha.trans h)
  cases n <;> cases n' <;> norm_num at h
  · exact ⟨h, .inl rfl⟩
  · have hsmall : a = 0 := by linarith
    exact ⟨by linarith, .inr (hzero hsmall)⟩
  · have hsmall : a = 0 := by linarith
    exact ⟨by linarith, .inr (hzero hsmall)⟩
  · exact ⟨h, .inl rfl⟩

-- A significand with all its leading bits in use, unless the exponent can go no lower.
structure Normal (significand : Nat) (exponent : Int) : Prop where
  bounded : significand < 2 * leadingBit
  lowest : -1074 ≤ exponent
  leading : -1074 < exponent → leadingBit ≤ significand

theorem normal_of_finite {d : Double} {negative : Bool} {significand : Nat} {exponent : Int}
    (h : d.denotation = .finite negative significand exponent) : Normal significand exponent := by
  have hfraction := d.fraction_lt
  obtain ⟨_, ⟨_, rfl, rfl⟩ | ⟨hpositive, rfl, rfl⟩⟩ := denotation_finite h
  · refine ⟨by omega, by omega, fun hlow => by omega⟩
  · exact ⟨by omega, by omega, fun _ => by omega⟩

-- A number with the higher exponent has the smaller significand.
theorem significand_eq {m m' : Nat} {e e' : Int} (he : e ≤ e')
    (h : (m : ℚ) * 2 ^ e = m' * 2 ^ e') : m = m' <<< (e' - e).toNat := by
  have hpower : (2 : ℚ) ^ e ≠ 0 := zpow_ne_zero e two_ne_zero
  have hsplit : (2 : ℚ) ^ e' = 2 ^ (e' - e).toNat * 2 ^ e := by
    rw [← zpow_natCast, ← zpow_add₀ two_ne_zero]
    congr 1
    omega
  rw [hsplit, ← mul_assoc] at h
  rw [Nat.shiftLeft_eq]
  exact_mod_cast mul_right_cancel₀ hpower h

theorem Normal.unique {m m' : Nat} {e e' : Int} (h : Normal m e) (h' : Normal m' e')
    (heq : (m : ℚ) * 2 ^ e = m' * 2 ^ e') : m = m' ∧ e = e' := by
  wlog hle : e ≤ e' generalizing m m' e e'
  · obtain ⟨hm, he⟩ := this h' h heq.symm (by omega)
    exact ⟨hm.symm, he.symm⟩
  have hm := significand_eq hle heq
  by_cases he : e = e'
  · subst he
    rw [Int.sub_self] at hm
    exact ⟨hm, rfl⟩
  · -- the higher exponent is not the lowest, so its significand shifted is too large
    have hbounded := h.bounded
    have hlowest := h.lowest
    have hleading := h'.leading (by omega)
    have hshift : m' <<< 1 ≤ m := by
      rw [hm, Nat.shiftLeft_eq, Nat.shiftLeft_eq]
      exact Nat.mul_le_mul_left m' (Nat.pow_le_pow_right (by omega) (by omega))
    rw [Nat.shiftLeft_eq] at hshift
    omega

theorem bits_eq (d : Double) :
    d.bits.toNat = (if d.isNegative then signBit else 0) + d.biasedExponent * leadingBit +
      d.fraction := by
  have hbits := d.bits.toNat_lt
  unfold isNegative biasedExponent fraction signBit leadingBit
  by_cases hnegative : 0x8000000000000000 ≤ d.bits.toNat
  · simp only [hnegative, decide_true, if_true]
    omega
  · simp only [hnegative, decide_false, Bool.false_eq_true, if_false]
    omega

theorem ext_fields {a b : Double} (hsign : a.isNegative = b.isNegative)
    (hexponent : a.biasedExponent = b.biasedExponent) (hfraction : a.fraction = b.fraction) :
    a = b := by
  have hbits : a.bits.toNat = b.bits.toNat := by
    rw [bits_eq a, bits_eq b, hsign, hexponent, hfraction]
  cases a
  exact congrArg Double.mk (UInt64.toNat_inj.mp hbits)

-- A double is zero if it has neither exponent nor fraction.
theorem isZero_iff (d : Double) : d.isZero = true ↔ d.biasedExponent = 0 ∧ d.fraction = 0 := by
  have hbits := d.bits.toNat_lt
  unfold isZero biasedExponent fraction signBit leadingBit
  rw [decide_eq_true_eq]
  omega

theorem denotation_of_isZero {d : Double} (h : d.isZero = true) :
    d.denotation = .finite d.isNegative 0 (-1074) := by
  obtain ⟨hexponent, hfraction⟩ := (isZero_iff d).mp h
  unfold denotation
  simp [hexponent, hfraction]

theorem isZero_of_finite {d : Double} {negative : Bool} {exponent : Int}
    (h : d.denotation = .finite negative 0 exponent) : d.isZero = true := by
  rw [isZero_iff]
  obtain ⟨_, ⟨hexponent, hfraction, _⟩ | ⟨_, hsignificand, _⟩⟩ := denotation_finite h
  · exact ⟨hexponent, hfraction.symm⟩
  · unfold leadingBit at hsignificand
    omega

-- The significand and the exponent tell the fields that they were made of.
theorem ext_finite {a b : Double} {negative : Bool} {significand : Nat} {exponent : Int}
    (ha : a.denotation = .finite negative significand exponent)
    (hb : b.denotation = .finite negative significand exponent) : a = b := by
  have hfraction := a.fraction_lt
  have hfraction' := b.fraction_lt
  obtain ⟨hsign, hfields⟩ := denotation_finite ha
  obtain ⟨hsign', hfields'⟩ := denotation_finite hb
  exact ext_fields (hsign.symm.trans hsign') (by omega) (by omega)

theorem denotation_infinite {d : Double} {negative : Bool}
    (h : d.denotation = .infinite negative) :
    negative = d.isNegative ∧ d.biasedExponent = 2047 ∧ d.fraction = 0 := by
  unfold denotation at h
  split at h
  · next hexponent =>
    split at h
    · next hfraction =>
      cases h
      exact ⟨rfl, hexponent, hfraction⟩
    · cases h
  · split at h <;> cases h

theorem ext_infinite {a b : Double} {negative : Bool} (ha : a.denotation = .infinite negative)
    (hb : b.denotation = .infinite negative) : a = b := by
  obtain ⟨hsign, hexponent, hfraction⟩ := denotation_infinite ha
  obtain ⟨hsign', hexponent', hfraction'⟩ := denotation_infinite hb
  exact ext_fields (hsign.symm.trans hsign') (hexponent.trans hexponent'.symm)
    (hfraction.trans hfraction'.symm)

theorem number?_eq_finite {d : Double} {value : ℚ} :
    d.number? = some (.finite value) ↔ ∃ negative significand exponent,
      d.denotation = .finite negative significand exponent ∧
        amount negative significand exponent = value := by
  unfold number?
  cases d.denotation <;> simp

theorem number?_eq_infinite {d : Double} {negative : Bool} :
    d.number? = some (.infinite negative) ↔ d.denotation = .infinite negative := by
  unfold number?
  cases d.denotation <;> simp

theorem number?_eq_none {d : Double} : d.number? = none ↔ d.isNaN = true := by
  unfold number? isNaN
  cases d.denotation <;> simp

theorem number?_of_isZero {d : Double} (h : d.isZero = true) : d.number? = some (.finite 0) := by
  refine number?_eq_finite.mpr ⟨_, _, _, denotation_of_isZero h, ?_⟩
  simp [amount]

-- Doubles that stand for one finite number differ in the sign of a zero at most.
theorem finite_unique {a b : Double} {value : ℚ} (ha : a.number? = some (.finite value))
    (hb : b.number? = some (.finite value)) : a = b ∨ a.isZero = true ∧ b.isZero = true := by
  obtain ⟨negative, m, e, hda, rfl⟩ := number?_eq_finite.mp ha
  obtain ⟨negative', m', e', hdb, hvalue⟩ := number?_eq_finite.mp hb
  obtain ⟨hmagnitude, hsign⟩ := of_amount_eq hvalue.symm
  obtain ⟨rfl, rfl⟩ := (normal_of_finite hda).unique (normal_of_finite hdb) hmagnitude
  rcases hsign with rfl | rfl
  · exact .inl (ext_finite hda hdb)
  · exact .inr ⟨isZero_of_finite hda, isZero_of_finite hdb⟩

-- Doubles are equal if there is a number that both stand for.
theorem equals_iff_number (a b : Double) :
    a.equals b = true ↔ ∃ n, a.number? = some n ∧ b.number? = some n := by
  unfold equals
  simp only [Bool.and_eq_true, Bool.or_eq_true, Bool.not_eq_true', decide_eq_true_eq, and_assoc,
    Bool.eq_false_iff, ne_eq, ← number?_eq_none]
  constructor
  · rintro ⟨hnumber, _, hbits | ⟨hzero, hzero'⟩⟩
    · have hsame : a = b := by
        cases a
        exact congrArg Double.mk hbits
      obtain ⟨n, hn⟩ := Option.ne_none_iff_exists'.mp hnumber
      exact ⟨n, hn, hsame ▸ hn⟩
    · exact ⟨.finite 0, number?_of_isZero hzero, number?_of_isZero hzero'⟩
  · rintro ⟨n, ha, hb⟩
    refine ⟨by simp [ha], by simp [hb], ?_⟩
    cases n with
    | finite value => exact (finite_unique ha hb).imp_left (congrArg Double.bits)
    | infinite negative =>
        have hsame := ext_infinite (number?_eq_infinite.mp ha) (number?_eq_infinite.mp hb)
        exact .inl (congrArg Double.bits hsame)

theorem equals_symm {a b : Double} (h : a.equals b = true) : b.equals a = true := by
  obtain ⟨n, ha, hb⟩ := (equals_iff_number a b).mp h
  exact (equals_iff_number b a).mpr ⟨n, hb, ha⟩

theorem equals_trans {a b c : Double} (hab : a.equals b = true) (hbc : b.equals c = true) :
    a.equals c = true := by
  obtain ⟨n, ha, hb⟩ := (equals_iff_number a b).mp hab
  obtain ⟨m, hb', hc⟩ := (equals_iff_number b c).mp hbc
  rw [hb, Option.some.injEq] at hb'
  exact (equals_iff_number a c).mpr ⟨n, ha, hb' ▸ hc⟩

theorem equals_self_iff (d : Double) : d.equals d = true ↔ d.isNaN = false := by
  rw [equals_iff_number, ← Bool.not_eq_true, ← number?_eq_none]
  simp only [and_self]
  exact Option.ne_none_iff_exists'.symm

end DocWire.Double
