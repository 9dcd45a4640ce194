import Libam.Stats.Division
import Mathlib.Data.List.Induction

/-! Merging two statistics, and collecting all values in one. -/

namespace Libam.Stats

/-- `amstat_upd` over all values, after `amstat_init`. -/
def build (values : List UInt64) : AmstatRange := values.foldl amstatUpd amstatInit

def squares (values : List UInt64) : ℕ :=
  ((values.filter (· ≤ amstatMaxSsqVal)).map fun v => v.toNat * v.toNat).sum

structure Bounded (values : List UInt64) : Prop where
  sum : (values.map UInt64.toNat).sum < 2 ^ 64
  length : values.length < 2 ^ 64
  squares : squares values < 2 ^ 64 - 1

structure Collects (values : List UInt64) (stat : AmstatRange) : Prop where
  le_max : ∀ v ∈ values, v ≤ stat.max
  max_mem : stat.max ∈ values ∨ values = [] ∧ stat.max = 0
  min_le : ∀ v ∈ values, stat.min ≤ v
  min_mem : stat.min ∈ values ∨ values = [] ∧ stat.min = uint64Max
  sum : stat.sum.toNat = (values.map UInt64.toNat).sum
  num : stat.num.toNat = values.length
  saturated : (∃ v ∈ values, amstatMaxSsqVal < v) → stat.ssq = uint64Max
  ssq : (∀ v ∈ values, v ≤ amstatMaxSsqVal) → stat.ssq.toNat = squares values
  avg : stat.avg = if stat.num = 0 then 0 else stat.sum / stat.num

section Extremes

variable {xs ys : List UInt64} {a b c d : UInt64}

/-- The largest and the smallest of the values, or what `amstat_init` sets. -/
structure Extremes (values : List UInt64) (max min : UInt64) : Prop where
  le_max : ∀ v ∈ values, v ≤ max
  max_mem : max ∈ values ∨ values = [] ∧ max = 0
  min_le : ∀ v ∈ values, min ≤ v
  min_mem : min ∈ values ∨ values = [] ∧ min = uint64Max

theorem extremes_single (v : UInt64) : Extremes [v] v v := by
  constructor <;> simp

theorem not_uint64Max_lt (v : UInt64) : ¬ uint64Max < v := by
  rw [UInt64.lt_iff_toNat_lt, show uint64Max.toNat = 2 ^ 64 - 1 from rfl]
  have limit := v.toNat_lt
  omega

theorem Extremes.merge (first : Extremes xs a b) (second : Extremes ys c d) :
    Extremes (xs ++ ys) (if a < c then c else a) (if d < b then d else b) := by
  constructor
  · intro v inside
    rcases List.mem_append.mp inside with left | right <;> split <;> rename_i test
    · exact UInt64.le_of_lt (UInt64.lt_of_le_of_lt (first.le_max v left) test)
    · exact first.le_max v left
    · exact second.le_max v right
    · exact UInt64.le_trans (second.le_max v right) (UInt64.not_lt.mp test)
  · simp only [List.mem_append, List.append_eq_nil_iff]
    split <;> rename_i test
    · rcases second.max_mem with inside | ⟨rfl, zero⟩
      · exact .inl (.inr inside)
      · rw [zero] at test
        exact absurd test UInt64.not_lt_zero
    · rcases first.max_mem with inside | ⟨rfl, zero⟩
      · exact .inl (.inl inside)
      · have same : a = c := by
          rw [zero] at test ⊢
          exact UInt64.le_antisymm UInt64.zero_le (UInt64.not_lt.mp test)
        rcases second.max_mem with inside | ⟨rfl, _⟩
        · exact .inl (.inr (same ▸ inside))
        · exact .inr ⟨⟨rfl, rfl⟩, zero⟩
  · intro v inside
    rcases List.mem_append.mp inside with left | right <;> split <;> rename_i test
    · exact UInt64.le_of_lt (UInt64.lt_of_lt_of_le test (first.min_le v left))
    · exact first.min_le v left
    · exact second.min_le v right
    · exact UInt64.le_trans (UInt64.not_lt.mp test) (second.min_le v right)
  · simp only [List.mem_append, List.append_eq_nil_iff]
    split <;> rename_i test
    · rcases second.min_mem with inside | ⟨rfl, top⟩
      · exact .inl (.inr inside)
      · rw [top] at test
        exact absurd test (not_uint64Max_lt _)
    · rcases first.min_mem with inside | ⟨rfl, top⟩
      · exact .inl (.inl inside)
      · have same : b = d := by
          rw [top] at test ⊢
          exact UInt64.le_antisymm (UInt64.not_lt.mp test) (UInt64.not_lt.mp (not_uint64Max_lt _))
        rcases second.min_mem with inside | ⟨rfl, _⟩
        · exact .inl (.inr (same ▸ inside))
        · exact .inr ⟨⟨rfl, rfl⟩, top⟩

theorem Extremes.unique (first : Extremes xs a b) (second : Extremes xs c d) : a = c ∧ b = d := by
  constructor
  · rcases first.max_mem with inside | ⟨rfl, zero⟩
    · rcases second.max_mem with inside' | ⟨rfl, _⟩
      · exact UInt64.le_antisymm (second.le_max _ inside) (first.le_max _ inside')
      · cases inside
    · rcases second.max_mem with inside | ⟨_, zero'⟩
      · cases inside
      · rw [zero, zero']
  · rcases first.min_mem with inside | ⟨rfl, top⟩
    · rcases second.min_mem with inside' | ⟨rfl, _⟩
      · exact UInt64.le_antisymm (first.min_le _ inside') (second.min_le _ inside)
      · cases inside
    · rcases second.min_mem with inside | ⟨_, top'⟩
      · cases inside
      · rw [top, top']

end Extremes

section Facts

variable {xs ys : List UInt64} {a b : AmstatRange}

theorem Collects.extremes (collects : Collects xs a) : Extremes xs a.max a.min :=
  ⟨collects.le_max, collects.max_mem, collects.min_le, collects.min_mem⟩

theorem squares_append (xs ys : List UInt64) : squares (xs ++ ys) = squares xs + squares ys := by
  simp [squares]

theorem squares_eq_zero (zero : squares xs = 0) (v : UInt64) (inside : v ∈ xs)
    (small : v ≤ amstatMaxSsqVal) : v = 0 := by
  have part := List.sum_eq_zero_iff_forall_eq_nat.mp zero (v.toNat * v.toNat)
    (List.mem_map.mpr ⟨v, List.mem_filter.mpr ⟨inside, by simpa using small⟩, rfl⟩)
  exact UInt64.toNat_inj.mp ((Nat.mul_eq_zero.mp part).elim id id)

theorem squares_zeros (zeros : ∀ v ∈ xs, v = 0) : squares xs = 0 := by
  apply List.sum_eq_zero_iff_forall_eq_nat.mpr
  intro n inside
  obtain ⟨v, member, rfl⟩ := List.mem_map.mp inside
  rw [zeros v (List.mem_filter.mp member).1]
  rfl

theorem Bounded.left (bounded : Bounded (xs ++ ys)) : Bounded xs := by
  obtain ⟨sum, length, sq⟩ := bounded
  simp only [List.map_append, List.sum_append, List.length_append, squares_append] at sum length sq
  exact ⟨by omega, by omega, by omega⟩

theorem Bounded.right (bounded : Bounded (xs ++ ys)) : Bounded ys := by
  obtain ⟨sum, length, sq⟩ := bounded
  simp only [List.map_append, List.sum_append, List.length_append, squares_append] at sum length sq
  exact ⟨by omega, by omega, by omega⟩

theorem Collects.ssq_ne (collects : Collects xs a) (bounded : Bounded xs)
    (small : ∀ v ∈ xs, v ≤ amstatMaxSsqVal) : a.ssq ≠ uint64Max := by
  intro full
  have value := collects.ssq small
  have bound := bounded.squares
  rw [full, show uint64Max.toNat = 2 ^ 64 - 1 from rfl] at value
  omega

theorem Collects.unique (first : Collects xs a) (second : Collects xs b) : a = b := by
  obtain ⟨max, min⟩ := first.extremes.unique second.extremes
  have sum : a.sum = b.sum := UInt64.toNat_inj.mp (first.sum.trans second.sum.symm)
  have num : a.num = b.num := UInt64.toNat_inj.mp (first.num.trans second.num.symm)
  have ssq : a.ssq = b.ssq := by
    by_cases large : ∃ v ∈ xs, amstatMaxSsqVal < v
    · rw [first.saturated large, second.saturated large]
    · have small : ∀ v ∈ xs, v ≤ amstatMaxSsqVal := fun v inside =>
        UInt64.not_lt.mp fun exceeds => large ⟨v, inside, exceeds⟩
      exact UInt64.toNat_inj.mp ((first.ssq small).trans (second.ssq small).symm)
  have avg : a.avg = b.avg := by rw [first.avg, second.avg, num, sum]
  cases a
  cases b
  simp_all

theorem collects_init : Collects [] amstatInit := by
  refine ⟨nofun, .inr ⟨rfl, rfl⟩, nofun, .inr ⟨rfl, rfl⟩, rfl, rfl, ?_, fun _ => rfl, rfl⟩
  rintro ⟨v, inside, _⟩
  cases inside

end Facts

section Feeding

variable {xs : List UInt64} {stat : AmstatRange} {v : UInt64}

theorem Collects.fits (collects : Collects xs stat) (bounded : Bounded (xs ++ [v])) :
    ¬ (stat.num = uint64Max ∨ ¬ Fits stat v) := by
  obtain ⟨sum, length, sq⟩ := bounded
  simp only [List.map_append, List.sum_append, List.length_append, squares_append, List.map_cons,
    List.map_nil, List.sum_cons, List.sum_nil, List.length_cons, List.length_nil] at sum length sq
  rw [not_or, not_not]
  refine ⟨fun full => ?_, by rw [collects.sum]; exact sum, ?_⟩
  · have num := collects.num
    rw [full, show uint64Max.toNat = 2 ^ 64 - 1 from rfl] at num
    omega
  · by_cases large : ∃ w ∈ xs, amstatMaxSsqVal < w
    · exact .inl (collects.saturated large)
    · have small : ∀ w ∈ xs, w ≤ amstatMaxSsqVal := fun w inside =>
        UInt64.not_lt.mp fun exceeds => large ⟨w, inside, exceeds⟩
      by_cases exceeds : amstatMaxSsqVal < v
      · exact .inr (.inl exceeds)
      · refine .inr (.inr ?_)
        have own : squares [v] = v.toNat * v.toNat := by simp [squares, UInt64.not_lt.mp exceeds]
        rw [collects.ssq small]
        omega

theorem amstatUpd_eq (calm : ¬ (stat.num = uint64Max ∨ ¬ Fits stat v)) : amstatUpd stat v = {
    max := if stat.max < v then v else stat.max
    min := if v < stat.min then v else stat.min
    sum := stat.sum + v
    ssq := ssqBefore stat v + squareOf stat v
    avg := (stat.sum + v) / (stat.num + 1)
    num := stat.num + 1 } := by
  simp only [amstatUpd, amstatAccumulate]
  rw [if_neg (mt (rescales_iff stat v).mp calm)]

theorem Collects.upd (collects : Collects xs stat) (bounded : Bounded (xs ++ [v])) :
    Collects (xs ++ [v]) (amstatUpd stat v) := by
  have calm := collects.fits bounded
  rw [amstatUpd_eq calm]
  rw [not_or, not_not] at calm
  obtain ⟨notFull, sumFits, ssqFits⟩ := calm
  have num : (stat.num + 1).toNat = stat.num.toNat + 1 := by
    have other : stat.num.toNat ≠ 2 ^ 64 - 1 := fun same => notFull (UInt64.toNat_inj.mp same)
    have limit := stat.num.toNat_lt
    exact toNat_succ (show stat.num.toNat + 1 < 2 ^ 64 by omega)
  have mem (w : UInt64) : w ∈ xs ++ [v] ↔ w ∈ xs ∨ w = v := by simp
  have saturated : (∃ w ∈ xs ++ [v], amstatMaxSsqVal < w) → saturates stat v = true := by
    rintro ⟨w, inside, exceeds⟩
    simp only [saturates, Bool.or_eq_true, beq_iff_eq, decide_eq_true_eq]
    rcases (mem w).mp inside with earlier | rfl
    · exact .inl (collects.saturated ⟨w, earlier, exceeds⟩)
    · exact .inr exceeds
  obtain ⟨le_max, max_mem, min_le, min_mem⟩ := collects.extremes.merge (extremes_single v)
  refine ⟨le_max, max_mem, min_le, min_mem, ?_, ?_, fun large => ?_, fun small => ?_, ?_⟩
  · rw [UInt64.toNat_add, collects.sum] at *
    simp only [List.map_append, List.sum_append, List.map_cons, List.map_nil, List.sum_cons,
      List.sum_nil]
    exact Nat.mod_eq_of_lt sumFits
  · rw [num, collects.num]
    simp
  · simp [ssqBefore, squareOf, saturated large]
  · have earlier : ∀ w ∈ xs, w ≤ amstatMaxSsqVal := fun w inside => small w (by simp [inside])
    have own : ¬ amstatMaxSsqVal < v := UInt64.not_lt.mpr (small v (by simp))
    have open' : stat.ssq ≠ uint64Max := by
      refine collects.ssq_ne bounded.left earlier
    have value := collects.ssq earlier
    have room := (ssqFits.resolve_left open').resolve_left own
    have single : squares [v] = v.toNat * v.toNat := by simp [squares, UInt64.not_lt.mp own]
    have unsaturated : saturates stat v = false := by simp [saturates, open', own]
    simp only [ssqBefore, squareOf, unsaturated, Bool.false_eq_true, if_false]
    rw [UInt64.toNat_add, mul_self_toNat own, squares_append, single, ← value]
    exact Nat.mod_eq_of_lt room
  · have positive : stat.num + 1 ≠ 0 := fun zero => by
      rw [zero, UInt64.toNat_zero] at num
      omega
    simp only
    rw [if_neg positive]

theorem collects_build {values : List UInt64} (bounded : Bounded values) :
    Collects values (build values) := by
  induction values using List.reverseRecOn with
  | nil => exact collects_init
  | append_singleton earlier v ih =>
      rw [build, List.foldl_append]
      exact (ih bounded.left).upd bounded

end Feeding

section Merging

variable {A : Type} [DecidableEq A] {m : Memory A} {target src : A} {xs ys : List UInt64}

theorem amstatAdd_eq (other : target ≠ src) (calm : (m target).ssq = uint64Max ∨
      (m src).ssq = uint64Max ∨ (m target).ssq.toNat + (m src).ssq.toNat < 2 ^ 64) :
    amstatAdd m target src target = {
      max := if (m target).max < (m src).max then (m src).max else (m target).max
      min := if (m src).min < (m target).min then (m src).min else (m target).min
      sum := (m target).sum + (m src).sum
      ssq := (if (m target).ssq = uint64Max ∨ (m src).ssq = uint64Max then uint64Max
        else (m target).ssq) + (m src).ssq
      avg := if (m target).num + (m src).num = 0 then 0
        else ((m target).sum + (m src).sum) / ((m target).num + (m src).num)
      num := (m target).num + (m src).num } := by
  have apart : src ≠ target := other.symm
  have whole : (m target).ssq = uint64Max ∨ (m src).ssq = uint64Max ∨
      ¬ (m target).ssq + (m src).ssq < (m target).ssq := by
    rw [add_lt_iff, Nat.not_le]
    exact calm
  by_cases full : (m target).ssq = uint64Max ∨ (m src).ssq = uint64Max
  · by_cases max : (m target).max < (m src).max <;>
    by_cases min : (m src).min < (m target).min <;>
    simp [amstatAdd, modify, max, min, full, apart]
  · rw [not_or] at full
    have room := (whole.resolve_left full.1).resolve_left full.2
    by_cases max : (m target).max < (m src).max <;>
    by_cases min : (m src).min < (m target).min <;>
    simp [amstatAdd, modify, max, min, full, apart, room]

theorem Collects.merge {a b : AmstatRange} (first : Collects xs a) (second : Collects ys b)
    (bounded : Bounded (xs ++ ys)) {ssq : UInt64}
    (saturated : (∃ v ∈ xs ++ ys, amstatMaxSsqVal < v) → ssq = uint64Max)
    (unsaturated : (∀ v ∈ xs ++ ys, v ≤ amstatMaxSsqVal) → ssq = a.ssq + b.ssq) :
    Collects (xs ++ ys) {
      max := if a.max < b.max then b.max else a.max
      min := if b.min < a.min then b.min else a.min
      sum := a.sum + b.sum
      ssq := ssq
      avg := if a.num + b.num = 0 then 0 else (a.sum + b.sum) / (a.num + b.num)
      num := a.num + b.num } := by
  obtain ⟨sumBound, length, sq⟩ := bounded
  simp only [List.map_append, List.sum_append, List.length_append, squares_append]
    at sumBound length sq
  obtain ⟨le_max, max_mem, min_le, min_mem⟩ := first.extremes.merge second.extremes
  refine ⟨le_max, max_mem, min_le, min_mem, ?_, ?_, saturated, fun small => ?_, rfl⟩
  · rw [toNat_add_exact (by rwa [first.sum, second.sum]), first.sum, second.sum, List.map_append,
      List.sum_append]
  · rw [toNat_add_exact (by rwa [first.num, second.num]), first.num, second.num, List.length_append]
  · have left := first.ssq fun v inside => small v (List.mem_append_left _ inside)
    have right := second.ssq fun v inside => small v (List.mem_append_right _ inside)
    simp only
    rw [unsaturated small, UInt64.toNat_add, left, right, squares_append]
    exact Nat.mod_eq_of_lt (by omega)

/-- Without large values, or if only zeros are merged into them, merging is collecting; otherwise
the saturated sum of squares wraps around. -/
theorem amstat_add_collects_iff (other : target ≠ src) (bounded : Bounded (xs ++ ys))
    (first : m target = build xs) (second : m src = build ys) :
    amstatAdd m target src target = build (xs ++ ys) ↔
      (∀ v ∈ xs ++ ys, v ≤ amstatMaxSsqVal) ∨ ∀ v ∈ ys, v = 0 := by
  have left : Collects xs (m target) := first ▸ collects_build bounded.left
  have right : Collects ys (m src) := second ▸ collects_build bounded.right
  have whole := collects_build bounded
  by_cases small : ∀ v ∈ xs ++ ys, v ≤ amstatMaxSsqVal
  · have smallLeft : ∀ v ∈ xs, v ≤ amstatMaxSsqVal := fun v inside =>
      small v (List.mem_append_left _ inside)
    have smallRight : ∀ v ∈ ys, v ≤ amstatMaxSsqVal := fun v inside =>
      small v (List.mem_append_right _ inside)
    have room : (m target).ssq.toNat + (m src).ssq.toNat < 2 ^ 64 := by
      rw [left.ssq smallLeft, right.ssq smallRight, ← squares_append]
      exact Nat.lt_of_lt_pred bounded.squares
    have open' : ¬ ((m target).ssq = uint64Max ∨ (m src).ssq = uint64Max) :=
      not_or.mpr ⟨left.ssq_ne bounded.left smallLeft, right.ssq_ne bounded.right smallRight⟩
    refine iff_of_true ?_ (.inl small)
    rw [amstatAdd_eq other (.inr (.inr room)), if_neg open']
    refine Collects.unique (left.merge right bounded (fun large => ?_) fun _ => rfl) whole
    obtain ⟨v, inside, exceeds⟩ := large
    exact absurd exceeds (UInt64.not_lt.mpr (small v inside))
  have large : ∃ v ∈ xs ++ ys, amstatMaxSsqVal < v := by
    by_contra none
    exact small fun v inside => UInt64.not_lt.mp fun exceeds => none ⟨v, inside, exceeds⟩
  have full : (m target).ssq = uint64Max ∨ (m src).ssq = uint64Max := by
    obtain ⟨v, inside, exceeds⟩ := large
    rcases List.mem_append.mp inside with inLeft | inRight
    · exact .inl (left.saturated ⟨v, inLeft, exceeds⟩)
    · exact .inr (right.saturated ⟨v, inRight, exceeds⟩)
  rw [amstatAdd_eq other (full.imp_right .inl), if_pos full]
  constructor
  · intro same
    have zero : (m src).ssq = 0 := by
      have ssq := congrArg AmstatRange.ssq same
      rw [whole.saturated large] at ssq
      grind
    have smallRight : ∀ v ∈ ys, v ≤ amstatMaxSsqVal := fun v inside =>
      UInt64.not_lt.mp fun exceeds =>
        absurd (zero ▸ right.saturated ⟨v, inside, exceeds⟩) (by decide)
    have none : squares ys = 0 := by
      rw [← right.ssq smallRight, zero, UInt64.toNat_zero]
    exact .inr fun v inside => squares_eq_zero none v inside (smallRight v inside)
  · rintro (smallAll | zeros)
    · exact absurd smallAll small
    · have smallRight : ∀ v ∈ ys, v ≤ amstatMaxSsqVal := fun v inside => by
        rw [zeros v inside]
        decide
      have zero : (m src).ssq = 0 := by
        rw [← UInt64.toNat_inj, right.ssq smallRight]
        exact squares_zeros zeros
      rw [zero, UInt64.add_zero]
      refine Collects.unique (left.merge right bounded (fun _ => rfl) fun smallAll => ?_) whole
      exact absurd smallAll small

/-- One large value, and a small one that is merged into it. -/
theorem amstat_add_loses_saturation : Bounded ([0x100000000] ++ [5]) ∧
    amstatAdd (fun stat => bif stat then build [5] else build [0x100000000]) false true false ≠
      build ([0x100000000] ++ [5]) :=
  ⟨⟨by decide, by decide, by decide⟩, by decide⟩

/-- Three small values. -/
theorem amstat_add_collects_sample :
    amstatAdd (fun stat => bif stat then build [5] else build [7, 1]) false true false =
      build ([7, 1] ++ [5]) :=
  have bounded : Bounded ([7, 1] ++ [5]) := ⟨by decide, by decide, by decide⟩
  have small : ∀ v ∈ ([7, 1] : List UInt64) ++ [5], v ≤ amstatMaxSsqVal := fun v inside => by
    simp only [List.cons_append, List.nil_append, List.mem_cons, List.not_mem_nil,
      or_false] at inside
    rcases inside with rfl | rfl | rfl <;> decide
  (amstat_add_collects_iff (m := fun stat => bif stat then build [5] else build [7, 1]) (by decide)
    bounded rfl rfl).mpr (.inl small)

end Merging

end Libam.Stats
