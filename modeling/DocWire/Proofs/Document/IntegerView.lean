import DocWire.Command.Result
import DocWire.Proofs.Number.Exact

namespace DocWire

namespace Double

-- To shift by an exponent is to multiply by a power of two, and fails where that gives a fraction.
theorem shifted_eq_some {significand n : Nat} {exponent : Int} :
    (if 0 ≤ exponent then some (significand <<< exponent.toNat)
      else if significand % (1 <<< (-exponent).toNat) = 0 then
        some (significand / (1 <<< (-exponent).toNat))
      else none) = some n ↔ (significand : ℚ) * 2 ^ exponent = n := by
  by_cases hexponent : 0 ≤ exponent
  · lift exponent to ℕ using hexponent
    rw [if_pos (Int.natCast_nonneg exponent), Option.some.injEq, Nat.shiftLeft_eq, zpow_natCast,
      Int.toNat_natCast]
    norm_cast
  · obtain ⟨count, rfl⟩ : ∃ count : ℕ, exponent = -count := ⟨(-exponent).toNat, by omega⟩
    have hpositive : 0 < 2 ^ count := Nat.two_pow_pos count
    have hpower : (2 : ℚ) ^ count ≠ 0 := pow_ne_zero count two_ne_zero
    rw [if_neg hexponent, neg_neg, Int.toNat_natCast, Nat.one_shiftLeft, zpow_neg, zpow_natCast,
      mul_inv_eq_iff_eq_mul₀ hpower]
    norm_cast
    split
    · next hrest =>
      rw [Option.some.injEq]
      exact Nat.div_eq_iff_eq_mul_left hpositive (Nat.dvd_of_mod_eq_zero hrest)
    · next hrest =>
      refine iff_of_false (by simp) fun h => hrest ?_
      rw [h, Nat.mul_mod_left]

-- An amount is an integer if its magnitude is a natural number.
theorem amount_eq_int {negative : Bool} {significand : Nat} {exponent : Int} {z : ℤ} :
    amount negative significand exponent = z ↔
      ∃ n : Nat, (significand : ℚ) * 2 ^ exponent = n ∧ (if negative then -(n : ℤ) else n) = z := by
  have hnonneg := magnitude_nonneg significand exponent
  unfold amount
  generalize (significand : ℚ) * 2 ^ exponent = a at hnonneg ⊢
  constructor
  · intro h
    cases negative with
    | false =>
        have hz : a = z := by simpa using h
        rw [hz] at hnonneg ⊢
        obtain ⟨n, rfl⟩ := Int.eq_ofNat_of_zero_le (by exact_mod_cast hnonneg : 0 ≤ z)
        exact ⟨n, by simp, by simp⟩
    | true =>
        have hz : a = ((-z : ℤ) : ℚ) := by
          rw [if_pos rfl] at h
          push_cast
          linarith
        rw [hz] at hnonneg ⊢
        obtain ⟨n, hn⟩ := Int.eq_ofNat_of_zero_le (by exact_mod_cast hnonneg : 0 ≤ -z)
        refine ⟨n, by rw [hn]; simp, ?_⟩
        rw [if_pos rfl]
        omega
  · rintro ⟨n, rfl, rfl⟩
    cases negative <;> simp

-- A double is whole if the number that it stands for is an integer.
theorem whole?_eq_some {d : Double} {z : ℤ} :
    d.whole? = some z ↔ d.number? = some (.finite z) := by
  unfold whole? number?
  cases d.denotation with
  | infinite negative => simp
  | nan => simp
  | finite negative significand exponent =>
      rw [Option.some.injEq, Number.finite.injEq, amount_eq_int]
      simp only [← shifted_eq_some]
      generalize (if 0 ≤ exponent then some (significand <<< exponent.toNat) else _) = magnitude
      cases magnitude <;> simp

end Double

-- The 64-bit integer that comes nearest to an integer.
def Nearest (z : ℤ) (n : Int64) : Prop :=
  n.toInt = max Int64.minValue.toInt (min z Int64.maxValue.toInt)

theorem nearest_iff_of_range {z : ℤ} {n : Int64}
    (h : Int64.minValue.toInt ≤ z ∧ z ≤ Int64.maxValue.toInt) : Nearest z n ↔ n.toInt = z := by
  rw [Nearest, min_eq_left h.2, max_eq_right h.1]

theorem nearest_self (n : Int64) : Nearest n.toInt n :=
  (nearest_iff_of_range ⟨n.minValue_le_toInt, n.toInt_le⟩).mpr rfl

theorem nearest_saturate (z : ℤ) : Nearest z (saturate z) := by
  have hleast := Int64.toInt_minValue
  have hgreatest := Int64.toInt_maxValue
  unfold Nearest saturate
  split
  · omega
  · split
    · omega
    · next hlow hhigh =>
      rw [Int64.toInt_ofInt_of_le (by omega) (by omega)]
      omega

theorem saturate_eq_iff {z : ℤ} {n : Int64} : saturate z = n ↔ Nearest z n := by
  constructor
  · rintro rfl
    exact nearest_saturate z
  · intro h
    exact Int64.toInt_inj.mp ((nearest_saturate z).trans h.symm)

namespace Value

-- The exact number that a value stands for, if it is of a numeric type and neither infinite nor a
-- NaN.
def number? : Value → Option ℚ
  | .int32 n => some n.toInt
  | .int64 n => some n.toInt
  | .double d =>
    match d.number? with
    | some (.finite value) => some value
    | _ => none
  | _ => none

theorem number?_double {d : Double} {value : ℚ} :
    (double d).number? = some value ↔ d.number? = some (.finite value) := by
  rw [number?]
  cases d.number? with
  | none => simp
  | some n => cases n <;> simp

-- A number that is a 64-bit integer itself is the only one nearest to it.
theorem exists_nearest_iff {own n : Int64} :
    (∃ z : ℤ, some ((own.toInt : ℤ) : ℚ) = some (z : ℚ) ∧ Nearest z n) ↔ own = n := by
  constructor
  · rintro ⟨z, hz, hnearest⟩
    have hown : own.toInt = z := by exact_mod_cast Option.some.inj hz
    rw [← hown] at hnearest
    exact Int64.toInt_inj.mp ((nearest_self own).trans hnearest.symm)
  · rintro rfl
    exact ⟨own.toInt, rfl, nearest_self own⟩

-- The integer view of a value is there if the value stands for an integer, and is the nearest
-- there is.
theorem asInt?_eq_some {v : Value} {n : Int64} :
    v.asInt? = some n ↔ ∃ z : ℤ, v.number? = some (z : ℚ) ∧ Nearest z n := by
  cases v with
  | double d =>
      simp only [asInt?, Option.map_eq_some_iff, number?_double, Double.whole?_eq_some,
        saturate_eq_iff]
  | int32 own =>
      rw [asInt?, number?, ← Int32.toInt_toInt64, exists_nearest_iff, Option.some.injEq]
  | int64 own => rw [asInt?, number?, exists_nearest_iff, Option.some.injEq]
  | _ => simp [asInt?, number?]

-- The integer view gives the number itself, and gives it if there is a 64-bit integer to give.
def FaithfulView (v : Value) : Prop :=
  ∀ n, v.asInt? = some n ↔ v.number? = some (n.toInt : ℚ)

-- A value that is no integer, or one of those that have a 64-bit integer.
def InRange (v : Value) : Prop :=
  ∀ z : ℤ, v.number? = some (z : ℚ) → Int64.minValue.toInt ≤ z ∧ z ≤ Int64.maxValue.toInt

theorem faithfulView_iff {v : Value} : v.FaithfulView ↔ v.InRange := by
  constructor
  · intro hview z hz
    have hgiven := (hview _).mp (asInt?_eq_some.mpr ⟨z, hz, nearest_saturate z⟩)
    have hself : z = (saturate z).toInt := by exact_mod_cast Option.some.inj (hz.symm.trans hgiven)
    rw [hself]
    exact ⟨(saturate z).minValue_le_toInt, (saturate z).toInt_le⟩
  · intro hrange n
    rw [asInt?_eq_some]
    constructor
    · rintro ⟨z, hz, hnearest⟩
      rw [(nearest_iff_of_range (hrange z hz)).mp hnearest, hz]
    · intro hn
      exact ⟨n.toInt, hn, nearest_self n⟩

end Value

namespace CommandResult

theorem errorCode?_eq_some {r : CommandResult} {n : Int64} :
    r.errorCode? = some n ↔ ∃ v, r.response.get? "code" = some v ∧ v.asInt? = some n :=
  Option.bind_eq_some_iff

end CommandResult

namespace Value

-- An integer has an integer view whatever its size, and the view is the nearest there is, which is
-- the number itself just for those in range. So it is with the code that a failed command reports.
theorem integer_view_nearest (v : Value) (r : CommandResult) :
    (∀ n, v.asInt? = some n ↔ ∃ z : ℤ, v.number? = some (z : ℚ) ∧ Nearest z n) ∧
      (v.FaithfulView ↔ v.InRange) ∧
      ∀ n, r.errorCode? = some n ↔ ∃ code, r.response.get? "code" = some code ∧
        ∃ z : ℤ, code.number? = some (z : ℚ) ∧ Nearest z n := by
  refine ⟨fun n => asInt?_eq_some, faithfulView_iff, fun n => ?_⟩
  simp only [CommandResult.errorCode?_eq_some, asInt?_eq_some]

-- The double 2 ^ 63 is viewed as the integer before it, and so is it as the code of a failure.
theorem view_misses_by_one :
    let code : Value := .double ⟨0x43E0000000000000⟩
    let failure : CommandResult :=
      ⟨⟨[]⟩, ⟨"localhost", 27017⟩, ⟨[("code", code)]⟩, ⟨0⟩⟩
    code.number? = some ((9223372036854775808 : ℤ) : ℚ) ∧
      code.asInt? = some 9223372036854775807 ∧ ¬ code.FaithfulView ∧
      failure.errorCode? = some 9223372036854775807 := by
  intro code failure
  have hnumber : code.number? = some ((9223372036854775808 : ℤ) : ℚ) :=
    number?_double.mpr (Double.whole?_eq_some.mp (by decide))
  have hview : code.asInt? = some 9223372036854775807 := by decide
  have hunfaithful : ¬ code.FaithfulView := by
    intro h
    have hsame := Option.some.inj (hnumber.symm.trans ((h _).mp hview))
    norm_cast at hsame
  exact ⟨hnumber, hview, hunfaithful, CommandResult.errorCode?_eq_some.mpr ⟨code, rfl, hview⟩⟩

end Value

end DocWire
