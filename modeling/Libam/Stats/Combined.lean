import Libam.Stats.Average
import Mathlib.Algebra.Order.BigOperators.Group.List

/-! Where merging two exact statistics keeps the average between the extremes. -/

namespace Libam.Stats

section Exact

variable {stat : AmstatRange}

def Unscaled (stat : AmstatRange) : List UInt64 → Prop
  | [] => True
  | v :: values => stat.num ≠ uint64Max ∧ Fits stat v ∧ Unscaled (amstatUpd stat v) values

instance decidableUnscaled : (stat : AmstatRange) → (values : List UInt64) →
    Decidable (Unscaled stat values)
  | _, [] => inferInstanceAs (Decidable True)
  | stat, v :: values =>
      have := decidableUnscaled (amstatUpd stat v) values
      inferInstanceAs (Decidable (_ ∧ _ ∧ _))

theorem unscaled_append (values : List UInt64) (v : UInt64) :
    Unscaled stat (values ++ [v]) ↔
      Unscaled stat values ∧ (values.foldl amstatUpd stat).num ≠ uint64Max ∧
      Fits (values.foldl amstatUpd stat) v := by
  induction values generalizing stat with
  | nil => simp [Unscaled]
  | cons w values ih => simp only [List.cons_append, Unscaled, ih, List.foldl_cons, and_assoc]

theorem build_exact {values : List UInt64} (unscaled : Unscaled amstatInit values) :
    (build values).sum.toNat = (values.map UInt64.toNat).sum ∧
    (build values).num.toNat = values.length := by
  induction values using List.reverseRecOn with
  | nil => exact ⟨rfl, rfl⟩
  | append_singleton earlier v ih =>
      obtain ⟨before, open', fits⟩ := (unscaled_append earlier v).mp unscaled
      obtain ⟨sum, num⟩ := amstatUpd_added (not_or.mpr ⟨open', not_not.mpr fits⟩)
      obtain ⟨earlierSum, earlierNum⟩ := ih before
      rw [build, List.foldl_append]
      constructor
      · rw [List.map_append, List.sum_append, ← earlierSum, List.map_singleton, List.sum_singleton]
        exact sum
      · rw [List.length_append, ← earlierNum]
        exact num

structure Spread (stat : AmstatRange) : Prop where
  least : stat.min.toNat * stat.num.toNat ≤ stat.sum.toNat
  most : stat.sum.toNat ≤ stat.max.toNat * stat.num.toNat

theorem sum_bounds {values : List UInt64} {least most : UInt64}
    (extremes : Extremes values most least) :
    least.toNat * values.length ≤ (values.map UInt64.toNat).sum ∧
    (values.map UInt64.toNat).sum ≤ most.toNat * values.length := by
  have lower := List.card_nsmul_le_sum (values.map UInt64.toNat) least.toNat
    (by simpa [UInt64.le_iff_toNat_le] using extremes.min_le)
  have upper := List.sum_le_card_nsmul (values.map UInt64.toNat) most.toNat
    (by simpa [UInt64.le_iff_toNat_le] using extremes.le_max)
  simpa [Nat.mul_comm] using And.intro lower upper

theorem spread_build {values : List UInt64} (unscaled : Unscaled amstatInit values) :
    Spread (build values) := by
  obtain ⟨sum, num⟩ := build_exact unscaled
  obtain ⟨lower, upper⟩ := sum_bounds (extremes_build values)
  exact ⟨by rwa [sum, num], by rwa [sum, num]⟩

end Exact

section Halving

variable {A : Type} [DecidableEq A] {m : Memory A} {target src : A}

/-- The sums of squares overflow together, and everything is halved first. -/
def SquaresOverflow (a b : AmstatRange) : Prop :=
  a.ssq ≠ uint64Max ∧ b.ssq ≠ uint64Max ∧ 2 ^ 64 ≤ a.ssq.toNat + b.ssq.toNat

theorem amstatAdd_halved (other : target ≠ src) (overflow : SquaresOverflow (m target) (m src)) :
    amstatAdd m target src target = {
      max := if (m target).max < (m src).max then (m src).max else (m target).max
      min := if (m src).min < (m target).min then (m src).min else (m target).min
      sum := (m target).sum / 2 + (m src).sum / 2
      ssq := (m target).ssq / 2 + (m src).ssq / 2
      avg := if (m target).num / 2 + (m src).num / 2 = 0 then 0
        else ((m target).sum / 2 + (m src).sum / 2) / ((m target).num / 2 + (m src).num / 2)
      num := (m target).num / 2 + (m src).num / 2 } := by
  have apart : src ≠ target := other.symm
  obtain ⟨first, second, large⟩ := overflow
  have wraps : (m target).ssq + (m src).ssq < (m target).ssq := (add_lt_iff _ _).mpr large
  by_cases max : (m target).max < (m src).max <;>
  by_cases min : (m src).min < (m target).min <;>
  simp [amstatAdd, modify, halve, max, min, first, second, wraps, other, apart]

end Halving

section Merging

variable {A : Type} [DecidableEq A] {m : Memory A} {target src : A} {a b : AmstatRange}

def leastOf (a b : AmstatRange) : UInt64 := if b.min < a.min then b.min else a.min

def mostOf (a b : AmstatRange) : UInt64 := if a.max < b.max then b.max else a.max

/-- When the average survives a merge: nothing overflows; or the sum or the count wraps around and
what is left of them still fits; or the squares overflow and the counts lose little enough when they
are halved. -/
inductive MergesWell (a b : AmstatRange) : Prop
  | exact (whole : ¬ SquaresOverflow a b) (sum : a.sum.toNat + b.sum.toNat < 2 ^ 64)
      (num : a.num.toNat + b.num.toNat < 2 ^ 64)
  | wrapped (whole : ¬ SquaresOverflow a b)
      (above : (leastOf a b).toNat * ((a.num.toNat + b.num.toNat) % 2 ^ 64) ≤
        (a.sum.toNat + b.sum.toNat) % 2 ^ 64)
      (below : (a.sum.toNat + b.sum.toNat) % 2 ^ 64 <
        ((mostOf a b).toNat + 1) * ((a.num.toNat + b.num.toNat) % 2 ^ 64))
  | halved (overflow : SquaresOverflow a b)
      (room : a.sum.toNat / 2 + b.sum.toNat / 2 < ((mostOf a b).toNat + 1) *
        (a.num.toNat / 2 + b.num.toNat / 2))

theorem leastOf_le (a b : AmstatRange) :
    (leastOf a b).toNat ≤ a.min.toNat ∧ (leastOf a b).toNat ≤ b.min.toNat := by
  unfold leastOf
  split <;> rename_i test
  · exact ⟨(UInt64.lt_iff_toNat_lt.mp test).le, le_rfl⟩
  · exact ⟨le_rfl, UInt64.le_iff_toNat_le.mp (UInt64.not_lt.mp test)⟩

theorem le_mostOf (a b : AmstatRange) :
    a.max.toNat ≤ (mostOf a b).toNat ∧ b.max.toNat ≤ (mostOf a b).toNat := by
  unfold mostOf
  split <;> rename_i test
  · exact ⟨(UInt64.lt_iff_toNat_lt.mp test).le, le_rfl⟩
  · exact ⟨le_rfl, UInt64.le_iff_toNat_le.mp (UInt64.not_lt.mp test)⟩

theorem Spread.widen {stat : AmstatRange} {least most : ℕ} (spread : Spread stat)
    (lower : least ≤ stat.min.toNat) (upper : stat.max.toNat ≤ most) :
    least * stat.num.toNat ≤ stat.sum.toNat ∧ stat.sum.toNat ≤ most * stat.num.toNat :=
  ⟨(Nat.mul_le_mul_right _ lower).trans spread.least,
    spread.most.trans (Nat.mul_le_mul_right _ upper)⟩

theorem half_spread {least sum num : ℕ} (above : least * num ≤ sum) :
    least * (num / 2) ≤ sum / 2 := by
  rw [Nat.le_div_iff_mul_le two_pos, Nat.mul_assoc]
  exact (Nat.mul_le_mul_left _ (Nat.div_mul_le_self ..)).trans above

theorem MergesWell.of_even (first : Spread a) (second : Spread b) (overflow : SquaresOverflow a b)
    (counted : a.num.toNat + b.num.toNat ≠ 0) (even : Even a.num.toNat ∧ Even b.num.toNat) :
    MergesWell a b := by
  obtain ⟨⟨half, here⟩, ⟨half', there⟩⟩ := even
  have upper := (first.widen (leastOf_le a b).1 (le_mostOf a b).1).2
  have upper' := (second.widen (leastOf_le a b).2 (le_mostOf a b).2).2
  refine .halved overflow ?_
  rw [here, Nat.mul_add] at upper
  rw [there, Nat.mul_add] at upper'
  have halves : a.num.toNat / 2 + b.num.toNat / 2 = half + half' := by omega
  rw [halves, Nat.succ_mul, Nat.mul_add]
  omega

theorem half_add_toNat (x y : UInt64) : (x / 2 + y / 2).toNat = x.toNat / 2 + y.toNat / 2 := by
  have first := x.toNat_lt
  have second := y.toNat_lt
  rw [UInt64.toNat_add, UInt64.toNat_div, UInt64.toNat_div, show (2 : UInt64).toNat = 2 from rfl]
  omega

theorem Spread.merge_sound_iff (other : target ≠ src) (first : Spread (m target))
    (second : Spread (m src)) (counted : 0 < (m target).num.toNat + (m src).num.toNat) :
    Sound (amstatAdd m target src target) ↔ MergesWell (m target) (m src) := by
  obtain ⟨lower, upper⟩ := first.widen (leastOf_le (m target) (m src)).1
    (le_mostOf (m target) (m src)).1
  obtain ⟨lower', upper'⟩ := second.widen (leastOf_le (m target) (m src)).2
    (le_mostOf (m target) (m src)).2
  by_cases overflow : SquaresOverflow (m target) (m src)
  · rw [amstatAdd_halved other overflow, sound_iff fun counts => if_neg counts]
    simp only [half_add_toNat]
    have above := Nat.add_le_add (half_spread lower) (half_spread lower')
    rw [← Nat.mul_add] at above
    constructor
    · rintro ⟨-, room⟩
      exact .halved overflow room
    · rintro (⟨whole⟩ | ⟨whole⟩ | ⟨-, room⟩)
      · exact absurd overflow whole
      · exact absurd overflow whole
      · exact ⟨above, room⟩
  · have calm : (m target).ssq = uint64Max ∨ (m src).ssq = uint64Max ∨
        (m target).ssq.toNat + (m src).ssq.toNat < 2 ^ 64 := by
      rw [SquaresOverflow, not_and_or, not_and_or, not_not, not_not, Nat.not_le] at overflow
      exact overflow
    rw [amstatAdd_eq other calm, sound_iff fun counts => if_neg counts]
    simp only [UInt64.toNat_add]
    constructor
    · rintro ⟨above, below⟩
      exact .wrapped overflow above below
    · rintro (⟨-, sum, num⟩ | ⟨-, above, below⟩ | ⟨squares⟩)
      · rw [Nat.mod_eq_of_lt sum, Nat.mod_eq_of_lt num]
        constructor
        · rw [Nat.mul_add]
          exact Nat.add_le_add lower lower'
        · rw [Nat.succ_mul, Nat.mul_add]
          exact (Nat.add_le_add upper upper').trans_lt (Nat.lt_add_of_pos_right counted)
      · exact ⟨above, below⟩
      · exact absurd squares overflow

/-- Nothing overflows, or the squares do and counts that are even are halved. -/
inductive Mergeable (xs ys : List UInt64) : Prop
  | whole (squares : ¬ SquaresOverflow (build xs) (build ys))
      (sum : (xs.map UInt64.toNat).sum + (ys.map UInt64.toNat).sum < 2 ^ 64)
      (num : xs.length + ys.length < 2 ^ 64)
  | halved (squares : SquaresOverflow (build xs) (build ys))
      (even : Even xs.length ∧ Even ys.length)

theorem Mergeable.mergesWell {xs ys : List UInt64} (mergeable : Mergeable xs ys)
    (unscaled : Unscaled amstatInit xs) (unscaled' : Unscaled amstatInit ys)
    (counted : 0 < xs.length + ys.length) : MergesWell (build xs) (build ys) := by
  obtain ⟨sum, num⟩ := build_exact unscaled
  obtain ⟨sum', num'⟩ := build_exact unscaled'
  cases mergeable with
  | whole squares sums counts =>
      rw [← sum, ← sum'] at sums
      rw [← num, ← num'] at counts
      exact .exact squares sums counts
  | halved squares even =>
      rw [← num, ← num'] at even counted
      exact .of_even (spread_build unscaled) (spread_build unscaled') squares counted.ne' even

/-- The merged average lies between the merged extremes, and there is a count, when nothing wraps
around and no half of a count is lost. -/
theorem amstat_add_sound {xs ys : List UInt64} (other : target ≠ src) (first : m target = build xs)
    (second : m src = build ys) (unscaled : Unscaled amstatInit xs)
    (unscaled' : Unscaled amstatInit ys) (fed : xs ≠ [] ∨ ys ≠ []) (mergeable : Mergeable xs ys) :
    Sound (amstatAdd m target src target) := by
  have counted : 0 < xs.length + ys.length := by
    rcases fed with some | some
    · exact Nat.add_pos_left (List.length_pos_of_ne_nil some) _
    · exact Nat.add_pos_right _ (List.length_pos_of_ne_nil some)
  have well := mergeable.mergesWell unscaled unscaled' counted
  rw [← first, ← second] at well
  refine (Spread.merge_sound_iff other (first ▸ spread_build unscaled)
    (second ▸ spread_build unscaled') ?_).mpr well
  rw [first, second, (build_exact unscaled).2, (build_exact unscaled').2]
  exact counted

/-- Two values and one, none of them large; and two in each, with squares that overflow together. -/
theorem amstat_add_sound_sample :
    Sound (amstatAdd (fun stat => bif stat then build [5] else build [7, 1]) false true false) ∧
      SquaresOverflow (build [0xC0000000, 5]) (build [2, 0xD0000000]) ∧
      Sound (amstatAdd (fun stat => bif stat then build [2, 0xD0000000] else build [0xC0000000, 5])
        false true false) := by
  have overflow : SquaresOverflow (build [0xC0000000, 5]) (build [2, 0xD0000000]) := by
    refine ⟨?_, ?_, ?_⟩ <;> decide
  refine ⟨?_, overflow, ?_⟩
  · exact amstat_add_sound (m := fun stat => bif stat then build [5] else build [7, 1])
      (by decide) rfl rfl (by decide)
      (by decide) (.inl (by decide))
      (.whole (fun squares => absurd squares.2.2 (by decide)) (by decide) (by decide))
  · exact amstat_add_sound
      (m := fun stat => bif stat then build [2, 0xD0000000] else build [0xC0000000, 5])
      (by decide) rfl rfl (by decide) (by decide) (.inl (by decide)) (.halved overflow (by decide))

/-- When the sum wraps around and the values are not far above the smallest of them, the
average is below it. -/
theorem amstat_add_unsound_of_wrapped {xs ys : List UInt64} (other : target ≠ src)
    (first : m target = build xs)
    (second : m src = build ys) (unscaled : Unscaled amstatInit xs)
    (unscaled' : Unscaled amstatInit ys)
    (squares : ¬ SquaresOverflow (build xs) (build ys)) (counts : xs.length + ys.length < 2 ^ 64)
    (wraps : 2 ^ 64 ≤ (xs.map UInt64.toNat).sum + (ys.map UInt64.toNat).sum)
    (near : (xs.map UInt64.toNat).sum + (ys.map UInt64.toNat).sum <
      (leastOf (build xs) (build ys)).toNat * (xs.length + ys.length) + 2 ^ 64) :
    ¬ Sound (amstatAdd m target src target) := by
  obtain ⟨sum, num⟩ := build_exact unscaled
  obtain ⟨sum', num'⟩ := build_exact unscaled'
  have counted : 0 < xs.length + ys.length := by
    by_contra none
    obtain ⟨rfl, rfl⟩ : xs = [] ∧ ys = [] := by
      rw [← List.length_eq_zero_iff, ← List.length_eq_zero_iff]
      omega
    simp at wraps
  intro sound
  rw [Spread.merge_sound_iff other (first ▸ spread_build unscaled) (second ▸ spread_build unscaled')
    (by rw [first, second, num, num']; exact counted), first, second] at sound
  have small := (build xs).sum.toNat_lt
  have small' := (build ys).sum.toNat_lt
  rw [← sum, ← sum'] at wraps near
  rw [← num, ← num'] at counts near
  rcases sound with ⟨-, fits⟩ | ⟨-, above⟩ | ⟨overflow⟩
  · omega
  · rw [Nat.mod_eq_of_lt counts] at above
    omega
  · exact squares overflow

theorem amstat_add_unsound_of_single {xs ys : List UInt64} (other : target ≠ src)
    (first : m target = build xs) (second : m src = build ys) (unscaled : Unscaled amstatInit xs)
    (unscaled' : Unscaled amstatInit ys) (squares : SquaresOverflow (build xs) (build ys))
    (single : xs.length = 1) (single' : ys.length = 1) :
    ¬ Sound (amstatAdd m target src target) := by
  have num := (build_exact unscaled).2.trans single
  have num' := (build_exact unscaled').2.trans single'
  intro sound
  rw [Spread.merge_sound_iff other (first ▸ spread_build unscaled) (second ▸ spread_build unscaled')
    (by rw [first, second, num, num']; exact two_pos), first, second] at sound
  rcases sound with ⟨calm⟩ | ⟨calm⟩ | ⟨-, room⟩
  · exact calm squares
  · exact calm squares
  · rw [num, num'] at room
    exact Nat.not_lt_zero _ room

/-- One value of 2 ^ 63 in each: the sum wraps around to zero. -/
theorem amstat_add_loses_sum : Unscaled amstatInit [0x8000000000000000] ∧
    ¬ Sound (amstatAdd (fun _ => build [0x8000000000000000]) false true false) :=
  ⟨by decide, fun sound => absurd sound.min_le_avg (by decide)⟩

end Merging

end Libam.Stats
