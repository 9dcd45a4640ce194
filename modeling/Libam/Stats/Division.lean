import Libam.Stats
import Mathlib.Tactic.Ring

/-! When `amstat_upd` divides by zero: a count of zero meets an overflow. -/

namespace Libam.Stats

section Arithmetic

theorem add_lt_iff (a b : UInt64) : a + b < a ↔ 2 ^ 64 ≤ a.toNat + b.toNat := by
  rw [UInt64.lt_iff_toNat_lt, UInt64.toNat_add]
  have first := a.toNat_lt
  have second := b.toNat_lt
  omega

theorem mul_self_toNat {val : UInt64} (small : ¬ amstatMaxSsqVal < val) :
    (val * val).toNat = val.toNat * val.toNat := by
  have bound : val.toNat ≤ 2 ^ 32 - 1 := UInt64.le_iff_toNat_le.mp (UInt64.not_lt.mp small)
  have square : val.toNat * val.toNat ≤ (2 ^ 32 - 1) * (2 ^ 32 - 1) := Nat.mul_le_mul bound bound
  rw [UInt64.toNat_mul, Nat.mod_eq_of_lt (by omega)]

end Arithmetic

section Accumulate

structure Fits (stat : AmstatRange) (val : UInt64) : Prop where
  sum : stat.sum.toNat + val.toNat < 2 ^ 64
  ssq : stat.ssq = uint64Max ∨ amstatMaxSsqVal < val ∨
    stat.ssq.toNat + val.toNat * val.toNat < 2 ^ 64

instance (stat : AmstatRange) (val : UInt64) : Decidable (Fits stat val) :=
  decidable_of_iff (stat.sum.toNat + val.toNat < 2 ^ 64 ∧
      (stat.ssq = uint64Max ∨ amstatMaxSsqVal < val ∨
      stat.ssq.toNat + val.toNat * val.toNat < 2 ^ 64))
    ⟨fun h => ⟨h.1, h.2⟩, fun fits => ⟨fits.sum, fits.ssq⟩⟩

theorem ssq_overflow_iff (stat : AmstatRange) (val : UInt64) :
    ssqBefore stat val + squareOf stat val < ssqBefore stat val ↔ ¬ (stat.ssq = uint64Max ∨
      amstatMaxSsqVal < val ∨ stat.ssq.toNat + val.toNat * val.toNat < 2 ^ 64) := by
  rw [ssqBefore, squareOf]
  cases full : saturates stat val with
  | true =>
      simp only [saturates, Bool.or_eq_true, beq_iff_eq, decide_eq_true_eq] at full
      simp only [if_true, UInt64.add_zero, UInt64.lt_irrefl, false_iff, not_not]
      exact full.elim .inl fun large => .inr (.inl large)
  | false =>
      simp only [saturates, Bool.or_eq_false_iff, beq_eq_false_iff_ne,
        decide_eq_false_iff_not] at full
      simp only [Bool.false_eq_true, if_false, add_lt_iff, mul_self_toNat full.2, full.1, full.2,
        false_or, Nat.not_lt]

theorem rescales_iff (stat : AmstatRange) (val : UInt64) :
    (stat.num == uint64Max || stat.sum + val < stat.sum ||
      ssqBefore stat val + squareOf stat val < ssqBefore stat val) = true ↔
    stat.num = uint64Max ∨ ¬ Fits stat val := by
  have sum : stat.sum + val < stat.sum ↔ ¬ stat.sum.toNat + val.toNat < 2 ^ 64 := by
    rw [add_lt_iff, Nat.not_lt]
  simp only [Bool.or_eq_true, beq_iff_eq, decide_eq_true_eq, sum, ssq_overflow_iff, or_assoc]
  refine or_congr_right ⟨?_, fun misfit => ?_⟩
  · rintro (above | above) ⟨sum, ssq⟩
    · exact above sum
    · exact above ssq
  · by_contra neither
    rw [not_or, not_not, not_not] at neither
    exact misfit ⟨neither.1, neither.2⟩

theorem accumulate_num_eq_zero (stat : AmstatRange) (val : UInt64) :
    (amstatAccumulate stat val).num = 0 ↔ stat.num = 0 ∧ ¬ Fits stat val := by
  by_cases full : stat.num = uint64Max
  · have halved : (amstatAccumulate stat val).num = uint64Max / 2 + 1 := by
      simp only [amstatAccumulate]
      rw [if_pos ((rescales_iff stat val).mpr (.inl full))]
      simp [full]
    rw [halved, full]
    simp [uint64Max]
  by_cases fits : Fits stat val
  · have counted : (amstatAccumulate stat val).num = stat.num + 1 := by
      simp only [amstatAccumulate]
      rw [if_neg (mt (rescales_iff stat val).mp (by simp [full, fits]))]
    rw [counted]
    simp only [fits, not_true, and_false, iff_false]
    intro zero
    exact full (by rw [uint64Max]; grind)
  · have halved : (amstatAccumulate stat val).num = (stat.num + 1) / 2 := by
      simp only [amstatAccumulate]
      rw [if_pos ((rescales_iff stat val).mpr (.inr fits))]
      simp [full]
    have number : stat.num.toNat ≠ 2 ^ 64 - 1 := fun same => full (UInt64.toNat_inj.mp same)
    have limit := stat.num.toNat_lt
    have value : ((stat.num + 1) / 2).toNat = (stat.num.toNat + 1) / 2 := by
      rw [UInt64.toNat_div, UInt64.toNat_add, show (1 : UInt64).toNat = 1 from rfl,
        show (2 : UInt64).toNat = 2 from rfl]
      omega
    rw [halved, ← UInt64.toNat_inj, value, ← UInt64.toNat_inj (a := stat.num), UInt64.toNat_zero]
    simp only [fits, not_false_eq_true, and_true]
    omega

end Accumulate

section Runs

variable {A : Type} [DecidableEq A]

def Calm (m : Memory A) : Op A → Prop
  | .upd stat val => (m stat).num = 0 → Fits (m stat) val
  | _ => True

def CalmAll (m : Memory A) : List (Op A) → Prop
  | [] => True
  | op :: ops => Calm m op ∧ ∀ m', apply m op = some m' → CalmAll m' ops

theorem apply_isSome (m : Memory A) (op : Op A) : (apply m op).isSome ↔ Calm m op := by
  cases op with
  | init stat => simp [apply, Calm]
  | add target src => simp [apply, Calm]
  | upd stat val =>
      rw [apply, Calm]
      by_cases zero : (amstatAccumulate (m stat) val).num = 0
      · have here := (accumulate_num_eq_zero (m stat) val).mp zero
        simp [zero, here.1, here.2]
      · have apart := mt (accumulate_num_eq_zero (m stat) val).mpr zero
        simpa [zero] using apart

/-- A sequence of calls divides by zero exactly where it is not calm. -/
theorem amstat_upd_divides_iff (m : Memory A) (ops : List (Op A)) :
    (applyAll m ops).isSome ↔ CalmAll m ops := by
  induction ops generalizing m with
  | nil => simp [applyAll, CalmAll]
  | cons op ops ih =>
      rw [applyAll, CalmAll, ← apply_isSome]
      cases applied : apply m op with
      | none => simp
      | some m' => simp [ih]

/-- Two statistics of one large value each, merged and fed with it again. -/
theorem amstat_upd_divides_by_zero : ∃ m, applyAll (fun _ : Bool => amstatInit)
      [.init false, .init true, .upd false 0xFFFFFFFF, .upd true 0xFFFFFFFF,
        .add false true] = some m ∧
    (amstatAccumulate (m false) 0xFFFFFFFF).num = 0 :=
  ⟨_, rfl, by decide⟩

end Runs

end Libam.Stats
