import Libam.Stats.Merge
import Mathlib.Algebra.Group.Nat.Even

/-! Where the average that a statistic reports lies between its extremes. -/

namespace Libam.Stats

section Updates

variable {stat : AmstatRange} {v : UInt64}

/-- The extremes after a value; they never depend on an overflow. -/
theorem amstatUpd_extremes (stat : AmstatRange) (v : UInt64) :
    (amstatUpd stat v).max = (if stat.max < v then v else stat.max) ∧
    (amstatUpd stat v).min = (if v < stat.min then v else stat.min) ∧
    (amstatUpd stat v).avg = (amstatUpd stat v).sum / (amstatUpd stat v).num := by
  simp only [amstatUpd, amstatAccumulate, and_true]
  split <;> exact ⟨rfl, rfl⟩

/-- A value that overflows the count, the sum or the sum of squares halves the sum and the count. -/
theorem amstatUpd_halved (rescales : stat.num = uint64Max ∨ ¬ Fits stat v) :
    (amstatUpd stat v).sum.toNat = (stat.sum.toNat + v.toNat) / 2 ∧
    (amstatUpd stat v).num.toNat = (stat.num.toNat + 1) / 2 := by
  have first := stat.sum.toNat_lt
  have second := v.toNat_lt
  have limit := stat.num.toNat_lt
  simp only [amstatUpd, amstatAccumulate]
  rw [if_pos ((rescales_iff stat v).mpr rescales)]
  refine ⟨UInt64.toNat_ofNat_of_lt' (by simp only [UInt64.size]; omega), ?_⟩
  simp only
  split
  · rename_i full
    rw [eq_of_beq full]
    rfl
  · rename_i other
    have number : stat.num.toNat ≠ 2 ^ 64 - 1 := fun same =>
      other (beq_iff_eq.mpr (UInt64.toNat_inj.mp same))
    rw [UInt64.toNat_div, UInt64.toNat_add, show (1 : UInt64).toNat = 1 from rfl,
      show (2 : UInt64).toNat = 2 from rfl]
    omega

theorem amstatUpd_added (calm : ¬ (stat.num = uint64Max ∨ ¬ Fits stat v)) :
    (amstatUpd stat v).sum.toNat = stat.sum.toNat + v.toNat ∧
    (amstatUpd stat v).num.toNat = stat.num.toNat + 1 := by
  rw [amstatUpd_eq calm]
  rw [not_or, not_not] at calm
  have other : stat.num.toNat ≠ 2 ^ 64 - 1 := fun same => calm.1 (UInt64.toNat_inj.mp same)
  have limit := stat.num.toNat_lt
  have fits := calm.2.sum
  simp only [UInt64.toNat_add, show (1 : UInt64).toNat = 1 from rfl]
  omega

end Updates

section Averages

variable {stat : AmstatRange} {v : UInt64}

/-- There is a count, and the average of it lies between the extremes. -/
structure Sound (stat : AmstatRange) : Prop where
  counted : stat.num ≠ 0
  min_le_avg : stat.min ≤ stat.avg
  avg_le_max : stat.avg ≤ stat.max

theorem sound_iff (avg : stat.num ≠ 0 → stat.avg = stat.sum / stat.num) :
    Sound stat ↔ stat.min.toNat * stat.num.toNat ≤ stat.sum.toNat ∧
      stat.sum.toNat < (stat.max.toNat + 1) * stat.num.toNat := by
  by_cases zero : stat.num = 0
  · refine iff_of_false (fun sound => sound.counted zero) fun bounds => ?_
    rw [zero, UInt64.toNat_zero, Nat.mul_zero] at bounds
    exact absurd bounds.2 (Nat.not_lt_zero _)
  have positive : 0 < stat.num.toNat := Nat.pos_of_ne_zero fun same =>
    zero (UInt64.toNat_inj.mp same)
  have value : stat.avg.toNat = stat.sum.toNat / stat.num.toNat := by
    rw [avg zero, UInt64.toNat_div]
  have lower : stat.min ≤ stat.avg ↔ stat.min.toNat * stat.num.toNat ≤ stat.sum.toNat := by
    rw [UInt64.le_iff_toNat_le, value, Nat.le_div_iff_mul_le positive]
  have upper : stat.avg ≤ stat.max ↔ stat.sum.toNat < (stat.max.toNat + 1) * stat.num.toNat := by
    rw [UInt64.le_iff_toNat_le, value, ← Nat.lt_succ_iff, Nat.div_lt_iff_lt_mul positive]
  rw [← lower, ← upper]
  constructor
  · intro sound
    exact ⟨sound.min_le_avg, sound.avg_le_max⟩
  · rintro ⟨above, below⟩
    exact ⟨zero, above, below⟩

/-- Where the sum and an even count are halved, the value finds room below one more
than the maximum. -/
def Keeps (stat : AmstatRange) (v : UInt64) : Prop :=
  ¬ Fits stat v → Even stat.num.toNat →
    stat.sum.toNat + v.toNat < ((if stat.max < v then v else stat.max).toNat + 1) * stat.num.toNat

/-- Every value that is fed meets the condition in the state that it is fed to. -/
def KeepsAll (stat : AmstatRange) : List UInt64 → Prop
  | [] => True
  | v :: values => Keeps stat v ∧ KeepsAll (amstatUpd stat v) values

theorem keepsAll_append (values : List UInt64) (v : UInt64) :
    KeepsAll stat (values ++ [v]) ↔ KeepsAll stat values ∧
    Keeps (values.foldl amstatUpd stat) v := by
  induction values generalizing stat with
  | nil => simp [KeepsAll]
  | cons w values ih => simp only [List.cons_append, KeepsAll, ih, List.foldl_cons, and_assoc]

theorem half_ge {least sum num : ℕ} (above : least * num ≤ sum) (v : ℕ) (large : least ≤ v) :
    least * ((num + 1) / 2) ≤ (sum + v) / 2 := by
  rw [Nat.le_div_iff_mul_le two_pos]
  calc least * ((num + 1) / 2) * 2 = least * ((num + 1) / 2 * 2) := Nat.mul_assoc ..
    _ ≤ least * (num + 1) := Nat.mul_le_mul_left _ (Nat.div_mul_le_self ..)
    _ = least * num + least := Nat.mul_succ ..
    _ ≤ sum + v := Nat.add_le_add above large

theorem half_lt_iff {most sum num v : ℕ} (below : sum < (most + 1) * num) (small : v ≤ most) :
    (sum + v) / 2 < (most + 1) * ((num + 1) / 2) ↔ (Even num → sum + v < (most + 1) * num) := by
  rw [Nat.div_lt_iff_lt_mul two_pos, Nat.mul_assoc]
  rcases Nat.even_or_odd num with even | odd
  · have halves : (num + 1) / 2 * 2 = num := by
      obtain ⟨half, rfl⟩ := even
      omega
    rw [halves]
    exact ⟨fun fits _ => fits, fun fits => fits even⟩
  · have halves : (num + 1) / 2 * 2 = num + 1 := by
      obtain ⟨half, rfl⟩ := odd
      omega
    have fits : sum + v < (most + 1) * (num + 1) := by
      rw [Nat.mul_succ]
      omega
    rw [halves]
    exact iff_of_true fits fun even => absurd even (Nat.not_even_iff_odd.mpr odd)

theorem fits_init (v : UInt64) : Fits amstatInit v := by
  have limit := v.toNat_lt
  refine ⟨by simpa [amstatInit] using limit, .inr ?_⟩
  by_cases large : amstatMaxSsqVal < v
  · exact .inl large
  · have square := (v * v).toNat_lt
    rw [mul_self_toNat large] at square
    exact .inr (by simpa [amstatInit] using square)

theorem sound_upd_iff (avg : stat.num ≠ 0 → stat.avg = stat.sum / stat.num)
    (before : Sound stat ∨ stat = amstatInit) : Sound (amstatUpd stat v) ↔ Keeps stat v := by
  obtain ⟨max, min, newAvg⟩ := amstatUpd_extremes stat v
  obtain ⟨most, defMost⟩ : ∃ most, most = (if stat.max < v then v else stat.max).toNat := ⟨_, rfl⟩
  obtain ⟨least, defLeast⟩ : ∃ least,
      least = (if v < stat.min then v else stat.min).toNat := ⟨_, rfl⟩
  have grows : stat.max.toNat ≤ most ∧ v.toNat ≤ most := by
    rw [defMost]
    split <;> rename_i test
    · exact ⟨(UInt64.lt_iff_toNat_lt.mp test).le, le_rfl⟩
    · exact ⟨le_rfl, UInt64.le_iff_toNat_le.mp (UInt64.not_lt.mp test)⟩
  have shrinks : least ≤ stat.min.toNat ∧ least ≤ v.toNat := by
    rw [defLeast]
    split <;> rename_i test
    · exact ⟨(UInt64.lt_iff_toNat_lt.mp test).le, le_rfl⟩
    · exact ⟨le_rfl, UInt64.le_iff_toNat_le.mp (UInt64.not_lt.mp test)⟩
  rw [sound_iff fun _ => newAvg, max, min, ← defMost, ← defLeast, Keeps, ← defMost]
  -- A first value is added to nothing; later ones to a sum between its bounds.
  rcases before with sound | rfl
  · obtain ⟨above, below⟩ := (sound_iff avg).mp sound
    have above' : least * stat.num.toNat ≤ stat.sum.toNat :=
      (Nat.mul_le_mul_right _ shrinks.1).trans above
    have below' : stat.sum.toNat < (most + 1) * stat.num.toNat :=
      below.trans_le (Nat.mul_le_mul_right _ (Nat.succ_le_succ grows.1))
    by_cases rescales : stat.num = uint64Max ∨ ¬ Fits stat v
    · obtain ⟨sum, num⟩ := amstatUpd_halved rescales
      rw [sum, num, half_lt_iff below' grows.2]
      constructor
      · rintro ⟨-, room⟩ -
        exact room
      · intro room
        refine ⟨half_ge above' _ shrinks.2, fun even => room ?_ even⟩
        refine rescales.resolve_left fun full => ?_
        rw [full] at even
        exact absurd even (by decide)
    · obtain ⟨sum, num⟩ := amstatUpd_added rescales
      rw [sum, num, Nat.mul_succ, Nat.mul_succ]
      refine iff_of_true ⟨Nat.add_le_add above' shrinks.2, ?_⟩ fun overflow =>
        absurd (.inr overflow) rescales
      exact Nat.add_lt_add_of_lt_of_le below' (grows.2.trans (Nat.le_succ _))
  · have calm : ¬ (amstatInit.num = uint64Max ∨ ¬ Fits amstatInit v) :=
      not_or.mpr ⟨by decide, not_not.mpr (fits_init v)⟩
    obtain ⟨sum, num⟩ := amstatUpd_added calm
    rw [sum, num]
    refine iff_of_true ?_ fun overflow => absurd (fits_init v) overflow
    simp only [amstatInit, UInt64.toNat_zero]
    omega

end Averages

section Feeding

/-- The largest and the smallest value that was fed, and the average between them. -/
structure Describes (values : List UInt64) (stat : AmstatRange) : Prop where
  max_mem : stat.max ∈ values
  le_max : ∀ v ∈ values, v ≤ stat.max
  min_mem : stat.min ∈ values
  min_le : ∀ v ∈ values, stat.min ≤ v
  sound : Sound stat

theorem extremes_build (values : List UInt64) :
    Extremes values (build values).max (build values).min := by
  induction values using List.reverseRecOn with
  | nil => exact collects_init.extremes
  | append_singleton earlier v ih =>
      obtain ⟨max, min, -⟩ := amstatUpd_extremes (build earlier) v
      rw [build, List.foldl_append]
      exact max.symm ▸ min.symm ▸ ih.merge (extremes_single v)

theorem avg_build (values : List UInt64) :
    (build values).num ≠ 0 → (build values).avg = (build values).sum / (build values).num := by
  induction values using List.reverseRecOn with
  | nil => exact fun counted => absurd rfl counted
  | append_singleton earlier v ih =>
      rw [build, List.foldl_append]
      exact fun _ => (amstatUpd_extremes (build earlier) v).2.2

theorem describes_iff {values : List UInt64} (fed : values ≠ []) :
    Describes values (build values) ↔ Sound (build values) := by
  obtain ⟨le_max, max_mem, min_le, min_mem⟩ := extremes_build values
  constructor
  · exact Describes.sound
  · intro sound
    exact ⟨max_mem.resolve_right fun none => fed none.1, le_max,
      min_mem.resolve_right fun none => fed none.1,
      min_le, sound⟩

/-- The extremes are exact and the average is between them after each value exactly where each value
finds room. -/
theorem amstat_upd_describes_iff (values : List UInt64) :
    (∀ fed, fed <+: values → fed ≠ [] → Describes fed (build fed)) ↔
    KeepsAll amstatInit values := by
  induction values using List.reverseRecOn with
  | nil => simp +contextual [KeepsAll]
  | append_singleton earlier v ih =>
      have step (sound : earlier ≠ [] → Sound (build earlier)) :
          Describes (earlier ++ [v]) (build (earlier ++ [v])) ↔ Keeps (build earlier) v := by
        rw [describes_iff (by simp), build, List.foldl_append]
        apply sound_upd_iff (avg_build earlier)
        by_cases none : earlier = []
        · rw [none]
          exact .inr rfl
        · exact .inl (sound none)
      rw [keepsAll_append, ← ih]
      constructor
      · intro all
        have before (fed : List UInt64) (inside : fed <+: earlier) (some : fed ≠ []) :=
          all fed (inside.trans (List.prefix_append ..)) some
        refine ⟨before, (step fun some => (before earlier List.prefix_rfl some).sound).mp ?_⟩
        exact all _ List.prefix_rfl (by simp)
      · rintro ⟨before, keeps⟩ fed inside some
        rcases List.prefix_concat_iff.mp inside with rfl | inside
        · exact (step fun some => (before earlier List.prefix_rfl some).sound).mpr keeps
        · exact before fed inside some

/-- Three equal values; the sum of two still fits. -/
theorem amstat_upd_avg_exceeds_max :
    ¬ Describes (List.replicate 3 0x7FFFFFFFFFFFFFFF)
    (build (List.replicate 3 0x7FFFFFFFFFFFFFFF)) :=
  fun describes => absurd describes.sound.avg_le_max (by decide)

end Feeding

end Libam.Stats
