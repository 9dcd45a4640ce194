import Libam.Concurrency.Interleaving

/-! A lock that one writer holds alone or any number of readers together, among threads that take it
and give it back step by step. A writer may also return without giving it back. -/

namespace Libam.RwLocked

open Libam.Interleaving

section Steps

variable {G L : Type*} (readers : G → ℕ) (writer : G → Bool) (reads writes : L → Bool)

inductive Locks (g : G) (l : L) (g' : G) (l' : L) : Prop
  | quiet (sameReaders : readers g' = readers g) (sameWriter : writer g' = writer g)
      (keepsRead : reads l' = reads l) (keepsWrite : writes l' = writes l)
  | rdlock (free : writer g = false) (more : readers g' = readers g + 1) (still : writer g' = false)
      (outside : reads l = false ∧ writes l = false) (inside : reads l' = true ∧ writes l' = false)
  | wrlock (free : readers g = 0 ∧ writer g = false) (held : readers g' = 0 ∧ writer g' = true)
      (outside : reads l = false ∧ writes l = false) (inside : reads l' = false ∧ writes l' = true)
  | unlock (inside : reads l = true ∨ writes l = true)
      (given : if writer g then writer g' = false ∧ readers g' = readers g
        else writer g' = false ∧ readers g' = readers g - 1)
      (outside : reads l' = false ∧ writes l' = false)
  | keep (sameReaders : readers g' = readers g) (sameWriter : writer g' = writer g)
      (inside : writes l = true ∧ reads l = false) (outside : reads l' = false ∧ writes l' = false)

end Steps

section Runs

variable {Tid G L : Type*} [Fintype Tid] {readers : G → ℕ} {writer : G → Bool}
  {reads writes : L → Bool}

structure Exclusive (readers : G → ℕ) (writer : G → Bool) (reads writes : L → Bool)
    (c : Config Tid G L) : Prop where
  counted : readers c.shared = count (fun l => reads l) c.pc
  held : ∀ t, writes (c.pc t) = true → writer c.shared = true
  alone : count (fun l => writes l) c.pc ≤ 1
  apart : writer c.shared = true → readers c.shared = 0

variable {c : Config Tid G L}

theorem Exclusive.others (exclusive : Exclusive readers writer reads writes c) {t u : Tid}
    (writing : writes (c.pc t) = true) (other : u ≠ t) : reads (c.pc u) = false ∧
    writes (c.pc u) = false := by
  constructor
  · by_contra inside
    have some : 0 < count (fun l => reads l) c.pc := count_pos.mpr ⟨u, by simpa using inside⟩
    have none := exclusive.apart (exclusive.held t writing)
    have counted := exclusive.counted
    omega
  · by_contra inside
    exact other (count_le_one exclusive.alone (by simpa using inside) writing)

variable [DecidableEq Tid]

theorem Exclusive.step (exclusive : Exclusive readers writer reads writes c) {t : Tid} {g : G}
    {l : L} (locks : Locks readers writer reads writes c.shared (c.pc t) g l)
    (single : ¬ (reads (c.pc t) = true ∧ writes (c.pc t) = true)) :
    Exclusive readers writer reads writes ⟨g, Function.update c.pc t l⟩ := by
  obtain ⟨counted, held, alone, apart⟩ := exclusive
  have reading := count_update (fun l => reads l = true) c.pc t l
  have writing := count_update (fun l => writes l = true) c.pc t l
  have heldAfter : (∀ u, u ≠ t → writes (c.pc u) = true → writer g = true) →
      (writes l = true → writer g = true) →
      ∀ u, writes (Function.update c.pc t l u) = true → writer g = true := by
    intro others own u
    by_cases self : u = t
    · rw [self, Function.update_self]
      exact own
    · rw [Function.update_of_ne self]
      exact others u self
  cases locks with
  | quiet sameReaders sameWriter keepsRead keepsWrite =>
      simp only [keepsRead, keepsWrite] at reading writing
      constructor
      · simp only
        omega
      · refine heldAfter (fun u _ inside => sameWriter ▸ held u inside) fun inside => ?_
        exact sameWriter ▸ held t (keepsWrite ▸ inside)
      · simp only
        omega
      · simpa only [sameReaders, sameWriter] using apart
  | rdlock free more still outside inside =>
      simp only [outside.1, outside.2, inside.1, inside.2, Bool.false_eq_true, if_false, if_true]
        at reading writing
      constructor
      · simp only
        omega
      · refine heldAfter (fun u _ inside => ?_) fun own => absurd own (by simp [inside.2])
        rw [held u inside] at free
        cases free
      · simp only
        omega
      · intro taken
        rw [still] at taken
        cases taken
  | wrlock free taken outside inside =>
      simp only [outside.1, outside.2, inside.1, inside.2, Bool.false_eq_true, if_false, if_true]
        at reading writing
      have none : count (fun l => writes l) c.pc = 0 := by
        refine count_eq_zero.mpr fun u own => ?_
        rw [held u own] at free
        cases free.2
      constructor
      · simp only
        omega
      · exact fun _ _ => taken.2
      · simp only
        omega
      · exact fun _ => taken.1
  | unlock inside given outside =>
      simp only [outside.1, outside.2, Bool.false_eq_true, if_false] at reading writing
      by_cases own : writes (c.pc t) = true
      · have unread : ¬ reads (c.pc t) = true := fun read => single ⟨read, own⟩
        have taken := held t own
        have none : count (fun l => writes l) (Function.update c.pc t l) = 0 := by
          rw [if_pos own] at writing
          omega
        rw [if_pos taken] at given
        rw [if_neg unread] at reading
        constructor
        · simp only
          omega
        · intro u there
          exact absurd there (count_eq_zero.mp none u)
        · simp only
          omega
        · intro again
          rw [given.1] at again
          cases again
      · have read : reads (c.pc t) = true := inside.resolve_right own
        have free : ¬ writer c.shared = true := by
          intro taken
          have some : 0 < count (fun l => reads l) c.pc := count_pos.mpr ⟨t, read⟩
          have zero := apart taken
          omega
        rw [if_neg free] at given
        rw [if_pos read] at reading
        rw [if_neg own] at writing
        constructor
        · simp only
          omega
        · refine heldAfter (fun u _ inside => absurd (held u inside) free) fun own => ?_
          rw [outside.2] at own
          cases own
        · simp only
          omega
        · intro again
          rw [given.1] at again
          cases again
  | keep sameReaders sameWriter inside outside =>
      simp only [inside.1, inside.2, outside.1, outside.2, Bool.false_eq_true, if_false, if_true]
        at reading writing
      constructor
      · simp only
        omega
      · refine heldAfter (fun u _ inside => sameWriter ▸ held u inside) fun own => ?_
        rw [outside.2] at own
        cases own
      · simp only
        omega
      · simpa only [sameReaders, sameWriter] using apart

end Runs

end Libam.RwLocked
