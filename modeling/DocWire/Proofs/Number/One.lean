import DocWire.Number.Double

namespace DocWire.Double

-- A number equals one only if it has the bits of one.
theorem equals_one {d : Double} : d.equals one = true ↔ d = one := by
  have hnan : one.isNaN = false := by decide
  have hzero : one.isZero = false := by decide
  unfold equals
  rw [hnan, hzero, Bool.and_false, Bool.or_false, Bool.not_false, Bool.and_true, Bool.and_eq_true,
    decide_eq_true_eq]
  constructor
  · intro h
    cases d
    exact congrArg Double.mk h.2
  · intro h
    rw [h, hnan]
    exact ⟨rfl, rfl⟩

theorem shift_mono {a b : Nat} (h : a ≤ b) : 1 <<< a ≤ 1 <<< b := by
  rw [Nat.shiftLeft_eq, Nat.shiftLeft_eq, Nat.one_mul, Nat.one_mul]
  exact Nat.pow_le_pow_right (by decide) h

theorem fraction_lt (d : Double) : d.fraction < leadingBit :=
  Nat.mod_lt _ (by decide)

-- The two ways in which bits stand for a number that is not infinite.
theorem denotation_finite {d : Double} {negative : Bool} {significand : Nat} {exponent : Int}
    (h : d.denotation = .finite negative significand exponent) :
    negative = d.isNegative ∧
      ((d.biasedExponent = 0 ∧ significand = d.fraction ∧ exponent = -1074) ∨
        (0 < d.biasedExponent ∧ significand = leadingBit + d.fraction ∧
          exponent = (d.biasedExponent : Int) - 1075)) := by
  unfold denotation at h
  split at h
  · split at h
    · cases h
    · cases h
  · split at h
    · next hzero =>
      cases h
      exact ⟨rfl, .inl ⟨hzero, rfl, rfl⟩⟩
    · next hpositive =>
      cases h
      exact ⟨rfl, .inr ⟨Nat.pos_of_ne_zero hpositive, rfl, rfl⟩⟩

-- The bits of one, from the fields that they are made of.
theorem eq_one_of_fields {d : Double} (hsign : d.isNegative = false)
    (hexponent : d.biasedExponent = 1023) (hfraction : d.fraction = 0) : d = one := by
  have hbits : d.bits.toNat = one.bits.toNat := by
    change d.bits.toNat = 0x3FF0000000000000
    unfold isNegative signBit at hsign
    unfold biasedExponent leadingBit at hexponent
    unfold fraction leadingBit at hfraction
    have hsmall : ¬ 0x8000000000000000 ≤ d.bits.toNat := of_decide_eq_false hsign
    omega
  cases d
  exact congrArg Double.mk (UInt64.toNat_inj.mp hbits)

theorem eq_one_of_whole {d : Double} (h : d.whole? = some 1) : d = one := by
  unfold whole? at h
  cases hdenoted : d.denotation with
  | infinite negative =>
      rw [hdenoted] at h
      cases h
  | nan =>
      rw [hdenoted] at h
      cases h
  | finite negative significand exponent =>
      rw [hdenoted] at h
      obtain ⟨value, hmapped, hsigned⟩ := Option.map_eq_some_iff.mp h
      obtain ⟨magnitude, hmagnitude, hvalue⟩ := Option.bind_eq_some_iff.mp hmapped
      have hcast : (magnitude : Int) = value := Option.some.inj hvalue
      have hone : negative = false ∧ magnitude = 1 := by
        cases negative with
        | true =>
            rw [if_pos rfl] at hsigned
            omega
        | false =>
            rw [if_neg Bool.false_ne_true] at hsigned
            exact ⟨rfl, by omega⟩
      obtain ⟨rfl, rfl⟩ := hone
      obtain ⟨hsign, hfields⟩ := denotation_finite hdenoted
      have hfraction := d.fraction_lt
      unfold leadingBit at hfraction hfields
      by_cases hexponent : 0 ≤ exponent
      · rw [if_pos hexponent, Option.some.injEq, Nat.shiftLeft_eq] at hmagnitude
        have hgrows := Nat.le_mul_of_pos_right significand (Nat.two_pow_pos exponent.toNat)
        omega
      · rw [if_neg hexponent] at hmagnitude
        dsimp only at hmagnitude
        split at hmagnitude
        · next hrest =>
          rw [Option.some.injEq] at hmagnitude
          have hunits : significand = 1 <<< (-exponent).toNat := by
            have hdivided := Nat.div_add_mod significand (1 <<< (-exponent).toNat)
            rw [hrest, hmagnitude, Nat.mul_one, Nat.add_zero] at hdivided
            exact hdivided.symm
          have hlarge : ¬ 53 ≤ (-exponent).toNat := by
            intro hmany
            have hunits' : 9007199254740992 ≤ 1 <<< (-exponent).toNat := shift_mono hmany
            omega
          have hsmall : ¬ (-exponent).toNat ≤ 51 := by
            intro hfew
            have hunits' : 1 <<< (-exponent).toNat ≤ 2251799813685248 := shift_mono hfew
            omega
          have hshift : (-exponent).toNat = 52 := by omega
          rw [hshift] at hunits
          change significand = 4503599627370496 at hunits
          rcases hfields with ⟨_, rfl, rfl⟩ | ⟨_, rfl, rfl⟩
          · omega
          · exact eq_one_of_fields hsign.symm (by omega) (by omega)
        · cases hmagnitude

-- One is the only number that equals one.
theorem equals_one_iff (d : Double) : d.equals one = true ↔ d.whole? = some 1 := by
  rw [equals_one]
  constructor
  · rintro rfl
    decide
  · intro h
    exact eq_one_of_whole h

theorem shiftLeft_le {m n : Nat} (h : m ≤ n) (count : Nat) : m <<< count ≤ n <<< count := by
  rw [Nat.shiftLeft_eq, Nat.shiftLeft_eq]
  exact Nat.mul_le_mul_right _ h

theorem roundShift_le (n shift : Nat) : roundShift n shift ≤ n + 1 := by
  have hquotient : n / 1 <<< shift ≤ n := Nat.div_le_self _ _
  unfold roundShift
  dsimp only
  split
  · exact Nat.succ_le_succ hquotient
  · exact Nat.le_succ_of_le hquotient

-- The significand of a number is brought to its place, where no more than one bit stands before it.
theorem placed_le {n : Nat} (h : n.log2 ≤ 52) : n <<< (52 - n.log2) ≤ 0x20000000000000 := by
  have hlog : n ≤ 1 <<< (n.log2 + 1) := by
    rw [Nat.one_shiftLeft]
    exact Nat.le_of_lt Nat.lt_log2_self
  have hplaced := shiftLeft_le hlog (52 - n.log2)
  have hplace : n.log2 + 1 + (52 - n.log2) = 53 := by omega
  rw [← Nat.shiftLeft_add, hplace] at hplaced
  exact hplaced

theorem ofNat_eq_one {n : Nat} (hn : n ≤ 0x8000000000000000) : ofNat n = one ↔ n = 1 := by
  constructor
  · intro h
    unfold ofNat at h
    by_cases hzero : n = 0
    · rw [if_pos hzero] at h
      cases h
    · rw [if_neg hzero] at h
      have htop : n.log2 < 64 := (Nat.log2_lt hzero).mpr (Nat.lt_of_le_of_lt hn (by decide))
      have hsignificand : (if n.log2 ≤ 52 then n <<< (52 - n.log2)
          else roundShift n (n.log2 - 52)) ≤ 0x8000000000000001 := by
        split
        · next hlog => exact Nat.le_trans (placed_le hlog) (by decide)
        · exact Nat.le_trans (roundShift_le _ _) (Nat.succ_le_succ hn)
      have hbits := congrArg (fun d => d.bits.toNat) h
      dsimp only at hbits
      rw [UInt64.toNat_ofNat'] at hbits
      change _ = 0x3FF0000000000000 at hbits
      unfold leadingBit at hbits
      have hlog : n.log2 < 1 := by
        generalize (if n.log2 ≤ 52 then n <<< (52 - n.log2)
          else roundShift n (n.log2 - 52)) = significand at hbits hsignificand
        omega
      have hsmall : n < 2 := (Nat.log2_lt hzero).mp hlog
      omega
  · rintro rfl
    decide

-- An integer of up to 64 bits becomes one only if it is one.
theorem ofInt_eq_one {n : Int} (hn : n.natAbs ≤ 0x8000000000000000) : ofInt n = one ↔ n = 1 := by
  constructor
  · intro h
    unfold ofInt at h
    by_cases hnegative : n < 0
    · rw [if_pos hnegative] at h
      have hsign := congrArg (fun d => d.bits.toNat.testBit 63) h
      dsimp only at hsign
      rw [UInt64.toNat_or, Nat.testBit_or] at hsign
      have hset : Nat.testBit (0x8000000000000000 : UInt64).toNat 63 = true := by decide
      have hclear : one.bits.toNat.testBit 63 = false := by decide
      rw [hset, hclear, Bool.or_true] at hsign
      cases hsign
    · rw [if_neg hnegative, ofNat_eq_one hn] at h
      omega
  · rintro rfl
    decide

end DocWire.Double
