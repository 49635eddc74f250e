import DocWire.Command.Result
import DocWire.Proofs.Number.One

namespace DocWire

-- The values that are numerically one, and the boolean that stands for it.
inductive Value.IsOne : Value → Prop where
  | boolean : IsOne (.boolean true)
  | int32 {n : Int32} (h : n.toInt = 1) : IsOne (.int32 n)
  | int64 {n : Int64} (h : n.toInt = 1) : IsOne (.int64 n)
  | double {d : Double} (h : d.whole? = some 1) : IsOne (.double d)

-- How a server reports success.
def Succeeds (response : Document) : Prop :=
  ∃ v, response.get? "ok" = some v ∧ v.IsOne

theorem int32_small (n : Int32) : n.toInt.natAbs ≤ 0x8000000000000000 := by
  have hmin : -2147483648 ≤ n.toInt := n.le_toInt
  have hmax : n.toInt < 2147483648 := n.toInt_lt
  omega

theorem int64_small (n : Int64) : n.toInt.natAbs ≤ 0x8000000000000000 := by
  have hmin : -9223372036854775808 ≤ n.toInt := n.le_toInt
  have hmax : n.toInt < 9223372036854775808 := n.toInt_lt
  omega

-- Whether a value is one can be told from the number that it becomes.
theorem Value.isOne_iff (v : Value) :
    v.IsOne ↔ ∃ d, v.asDouble? = some d ∧ d.equals Double.one = true := by
  constructor
  · intro h
    cases h with
    | boolean => exact ⟨Double.one, rfl, by decide⟩
    | int32 h =>
        have hone := (Double.ofInt_eq_one (int32_small _)).mpr h
        exact ⟨_, rfl, Double.equals_one.mpr hone⟩
    | int64 h =>
        have hone := (Double.ofInt_eq_one (int64_small _)).mpr h
        exact ⟨_, rfl, Double.equals_one.mpr hone⟩
    | double h => exact ⟨_, rfl, (Double.equals_one_iff _).mpr h⟩
  · intro h
    obtain ⟨d, hd, hone⟩ := h
    cases v with
    | double d =>
        cases hd
        exact .double ((Double.equals_one_iff d).mp hone)
    | int32 n =>
        cases hd
        exact .int32 ((Double.ofInt_eq_one (int32_small n)).mp (Double.equals_one.mp hone))
    | int64 n =>
        cases hd
        exact .int64 ((Double.ofInt_eq_one (int64_small n)).mp (Double.equals_one.mp hone))
    | boolean b =>
        cases hd
        cases b with
        | true => exact .boolean
        | false => cases hone
    | _ => cases hd

-- A result is ok exactly when the server reports success.
theorem CommandResult.isOk_iff (r : CommandResult) : r.isOk = true ↔ Succeeds r.response := by
  unfold isOk Succeeds
  cases hok : r.response.get? "ok" with
  | none =>
      constructor
      · intro h
        cases h
      · intro h
        obtain ⟨v, hv, _⟩ := h
        cases hv
  | some v =>
      rw [Option.bind_some]
      constructor
      · intro h
        refine ⟨v, rfl, v.isOne_iff.mpr ?_⟩
        split at h
        · next d hd => exact ⟨d, hd, h⟩
        · cases h
      · intro h
        obtain ⟨v', hv, hone⟩ := h
        cases hv
        obtain ⟨d, hd, hequals⟩ := v.isOne_iff.mp hone
        rw [hd]
        exact hequals

end DocWire
