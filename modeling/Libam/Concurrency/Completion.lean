import Libam.Concurrency.Interleaving

/-! Completion: whatever the threads are in the midst of, they can all come to rest, when in every
state some thread can get further on its own. -/

namespace Libam.Interleaving

section Runs

variable {S A : Type*} {step : S → A → Option S} {Ok : S → A → S → Prop}

/-- When every state that has a weight is a few steps from one with a smaller weight, a state
without any can be reached. -/
theorem comes_to_rest (Inv : S → Prop) (weight : S → ℕ) (few : ℕ)
    (nearer : ∀ s, Inv s → weight s ≠ 0 → ∃ actions s', Run step Ok s actions s' ∧
      actions.length ≤ few ∧
      Inv s' ∧ weight s' < weight s)
    (s : S) (inv : Inv s) :
      ∃ actions s', Run step Ok s actions s' ∧ actions.length ≤ few * weight s ∧
      Inv s' ∧ weight s' = 0 := by
  generalize bound : weight s = w
  induction w using Nat.strong_induction_on generalizing s with
  | _ w ih =>
      by_cases rest : w = 0
      · exact ⟨[], s, .nil, Nat.zero_le _, inv, bound.trans rest⟩
      · obtain ⟨first, middle, run, short, kept, less⟩ := nearer s inv (bound ▸ rest)
        obtain ⟨later, last, run', short', kept', none⟩ :=
          ih (weight middle) (bound ▸ less) middle kept rfl
        refine ⟨first ++ later, last, run.append run', ?_, kept', none⟩
        have split : few * weight middle + few ≤ few * w := Nat.mul_le_mul_left few (bound ▸ less)
        rw [List.length_append]
        omega

end Runs

section Threads

variable {Tid G L A : Type*}

def Only (a : A) (_ : Config Tid G L) (act : Tid × A) (_ : Config Tid G L) : Prop := act.2 = a

def Reaches (next : G → L → A → Option (G × L)) (a : A) (p : L → Prop) : ℕ → G → L → Prop
  | 0, _, l => p l
  | n + 1, g, l => p l ∨ ∃ g' l', next g l a = some (g', l') ∧ Reaches next a p n g' l'

variable {next : G → L → A → Option (G × L)} {a : A} {p : L → Prop} {g g' : G} {l l' : L} {n : ℕ}

theorem Reaches.here (there : p l) : Reaches next a p n g l := by
  cases n with
  | zero => exact there
  | succ n => exact .inl there

theorem Reaches.tick (fired : next g l a = some (g', l')) (rest : Reaches next a p n g' l') :
    Reaches next a p (n + 1) g l := .inr ⟨g', l', fired, rest⟩

theorem Reaches.mono {m : ℕ} (within : Reaches next a p n g l) (more : n ≤ m) :
    Reaches next a p m g l := by
  induction n generalizing m g l with
  | zero => exact .here within
  | succ n ih =>
      rcases within with there | ⟨g', l', fired, rest⟩
      · exact .here there
      · cases m with
        | zero => omega
        | succ m => exact .tick fired (ih rest (Nat.le_of_succ_le_succ more))

theorem Reaches.imp {q : L → Prop} (within : Reaches next a p n g l) (weaker : ∀ l, p l → q l) :
    Reaches next a q n g l := by
  induction n generalizing g l with
  | zero => exact weaker l within
  | succ n ih =>
      rcases within with there | ⟨g', l', fired, rest⟩
      · exact .here (weaker l there)
      · exact .tick fired (ih rest)

variable [DecidableEq Tid]

theorem Reaches.run (c : Config Tid G L) (t : Tid) (within : Reaches next a p n c.shared (c.pc t)) :
    ∃ actions c', Run (Config.step next) (Only a) c actions c' ∧ actions.length ≤ n ∧
      p (c'.pc t) ∧ c'.pc = Function.update c.pc t (c'.pc t) := by
  induction n generalizing c with
  | zero => exact ⟨[], c, .nil, Nat.le_refl _, within, (Function.update_eq_self t c.pc).symm⟩
  | succ n ih =>
      rcases within with there | ⟨g, l, fired, rest⟩
      · exact ⟨[], c, .nil, Nat.zero_le _, there, (Function.update_eq_self t c.pc).symm⟩
      · have stepped : c.step next (t, a) = some ⟨g, Function.update c.pc t l⟩ :=
          Config.step_eq_some.mpr ⟨g, l, fired, rfl⟩
        have first : Run (Config.step next) (Only a) c ([] ++ [(t, a)])
            ⟨g, Function.update c.pc t l⟩ :=
          .snoc .nil stepped rfl
        obtain ⟨later, c', run, short, there, frame⟩ := ih ⟨g, Function.update c.pc t l⟩ (by
          simpa using rest)
        refine ⟨_, c', first.append run, by simpa using short, there, ?_⟩
        rw [frame]
        simp

variable [Fintype Tid]

/-- All threads come to rest when always one of them, on its own, gets to a point of a
smaller weight. -/
theorem all_come_to_rest {Inv : Config Tid G L → Prop} (weight : L → ℕ) {few most : ℕ}
    (kept : ∀ c act c', Inv c → c.step next act = some c' → act.2 = a → Inv c')
    (bounded : ∀ l, weight l ≤ most)
    (nearer : ∀ c, Inv c → ∀ t, weight (c.pc t) ≠ 0 →
      ∃ u, Reaches next a (fun l => weight l < weight (c.pc u)) few c.shared (c.pc u))
    {c : Config Tid G L} (inv : Inv c) :
      ∃ actions c', Run (Config.step next) (Only a) c actions c' ∧
      actions.length ≤ few * most * Fintype.card Tid ∧ ∀ t, weight (c'.pc t) = 0 := by
  have closer : ∀ c, Inv c → tally weight c.pc ≠ 0 → ∃ actions c',
      Run (Config.step next) (Only a) c actions c' ∧
      actions.length ≤ few ∧ Inv c' ∧ tally weight c'.pc < tally weight c.pc := by
    intro c inv running
    obtain ⟨t, -, heavy⟩ := Finset.exists_ne_zero_of_sum_ne_zero running
    obtain ⟨u, within⟩ := nearer c inv t heavy
    obtain ⟨actions, c', run, short, less, frame⟩ := within.run c u
    refine ⟨actions, c', run, short, run.invariant Inv inv kept, ?_⟩
    have change := tally_update weight c.pc u (c'.pc u)
    rw [← frame] at change
    omega
  obtain ⟨actions, c', run, short, -, rest⟩ :=
    comes_to_rest Inv (fun c => tally weight c.pc) few closer c inv
  refine ⟨actions, c', run, ?_, fun t => Finset.sum_eq_zero_iff.mp rest t (Finset.mem_univ t)⟩
  have total : tally weight c.pc ≤ Fintype.card Tid * most :=
    Finset.sum_le_card_nsmul _ _ most fun t _ => bounded (c.pc t)
  calc actions.length ≤ few * tally weight c.pc := short
    _ ≤ few * (Fintype.card Tid * most) := Nat.mul_le_mul_left few total
    _ = few * most * Fintype.card Tid := by rw [Nat.mul_comm (Fintype.card Tid), Nat.mul_assoc]

end Threads

end Libam.Interleaving
