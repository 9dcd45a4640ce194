import Libam.Concurrency.Linearizable

/-! Words that threads read and then compare and swap. A swap fails only when another thread's has
succeeded since the read, and this bounds the accesses of a thread by its calls and by what the
others have completed. -/

namespace Libam.Contention

open Libam.Interleaving Libam.History

/-- What an action of a thread is: the call, an access that is made once, one that is repeated until
another thread has made its own, and a compare-and-swap that has succeeded or failed. -/
inductive Effort
  | call
  | access
  | wait
  | swap
  | retry
  deriving DecidableEq, Repr

def Effort.counts : Effort → Bool
  | .access => true
  | .swap => true
  | .retry => true
  | _ => false

section Histories

variable {Tid : Type*} [DecidableEq Tid]

def spent (t : Tid) (events : List (Tid × Effort)) : ℕ :=
  events.countP fun e => decide (e.1 = t) && e.2.counts

def calls (t : Tid) (events : List (Tid × Effort)) : ℕ := events.count (t, .call)

def retries (t : Tid) (events : List (Tid × Effort)) : ℕ := events.count (t, .retry)

def swapsOfOthers (t : Tid) (events : List (Tid × Effort)) : ℕ :=
  events.countP fun e => decide (e.1 ≠ t) && decide (e.2 = .swap)

variable (t u : Tid) (e : Effort) (events : List (Tid × Effort))

@[simp] theorem spent_snoc :
    spent t (events ++ [(u, e)]) = spent t events + if u = t ∧ e.counts then 1 else 0 := by
  simp [spent, List.countP_cons]

@[simp] theorem calls_snoc :
    calls t (events ++ [(u, e)]) = calls t events + if u = t ∧ e = .call then 1 else 0 := by
  simp [calls, List.count_cons]

@[simp] theorem retries_snoc :
    retries t (events ++ [(u, e)]) = retries t events + if u = t ∧ e = .retry then 1 else 0 := by
  simp [retries, List.count_cons]

@[simp] theorem swapsOfOthers_snoc :
    swapsOfOthers t (events ++ [(u, e)]) = swapsOfOthers t events + if u ≠ t ∧
    e = .swap then 1 else 0 := by
  simp [swapsOfOthers, List.countP_cons]

end Histories

section Words

variable {G L A W V : Type*} (cell : G → W → V) (view : L → Option (W × V)) (rank : L → ℕ)
  (fixed again : ℕ)

/-- What an action does to the words, to the one that its thread has read, and to how many accesses
its call has still to make. -/
inductive Contends (g : G) (l : L) (g' : G) (l' : L) : Effort → Prop
  | call (same : cell g' = cell g) (unread : view l' = none) (left : rank l' ≤ rank l + fixed) :
      Contends g l g' l' .call
  | access (same : cell g' = cell g)
      (read : ∀ word value, view l' = some (word, value) → view l = some (word, value) ∨
        cell g word = value)
      (left : rank l' < rank l) : Contends g l g' l' .access
  | wait (same : cell g' = cell g) (kept : view l' = view l) (left : rank l' ≤ rank l) :
      Contends g l g' l' .wait
  | swap (unread : view l' = none) (left : rank l' < rank l) : Contends g l g' l' .swap
  | retry (word : W) (value : V) (same : cell g' = cell g) (read : view l = some (word, value))
      (stale : cell g word ≠ value) (unread : view l' = none) (left : rank l' < rank l + again) :
      Contends g l g' l' .retry

def Stale (g : G) (l : L) : Prop := ∃ word value, view l = some (word, value) ∧ cell g word ≠ value

variable {cell view rank fixed again} {g g' : G} {l l' other : L}

theorem not_stale (unread : view l = none) : ¬ Stale cell view g l := by
  rintro ⟨word, value, read, -⟩
  rw [unread] at read
  cases read

theorem Stale.of_same (same : cell g' = cell g) (stale : Stale cell view g' l) :
    Stale cell view g l := by
  obtain ⟨word, value, read, differs⟩ := stale
  exact ⟨word, value, read, same ▸ differs⟩

theorem Contends.stale {e : Effort} (contends : Contends cell view rank fixed again g l g' l' e)
    (stale : Stale cell view g' l') : Stale cell view g l ∧ e ≠ .retry := by
  cases contends with
  | call same unread left => exact absurd stale (not_stale unread)
  | access same read left =>
      obtain ⟨word, value, here, differs⟩ := stale
      rw [same] at differs
      rcases read word value here with before | now
      · exact ⟨⟨word, value, before, differs⟩, by decide⟩
      · exact absurd now differs
  | wait same kept left =>
      refine ⟨?_, by decide⟩
      obtain ⟨word, value, here, differs⟩ := stale
      exact ⟨word, value, kept ▸ here, same ▸ differs⟩
  | swap unread left => exact absurd stale (not_stale unread)
  | retry word value same read differs unread left => exact absurd stale (not_stale unread)

theorem Contends.others {e : Effort} (contends : Contends cell view rank fixed again g l g' l' e)
    (stale : Stale cell view g' other) : Stale cell view g other ∨ e = .swap := by
  cases contends with
  | call same unread left => exact .inl (stale.of_same same)
  | access same read left => exact .inl (stale.of_same same)
  | wait same kept left => exact .inl (stale.of_same same)
  | swap unread left => exact .inr rfl
  | retry word value same read differs unread left => exact .inl (stale.of_same same)

theorem Contends.retry_stale (contends : Contends cell view rank fixed again g l g' l' .retry) :
    Stale cell view g l := by
  cases contends with
  | retry word value same read stale unread left => exact ⟨word, value, read, stale⟩

theorem Contends.rank_le {e : Effort} (contends : Contends cell view rank fixed again g l g' l' e) :
    (if e.counts then 1 else 0) + rank l' ≤
      rank l + (if e = .call then fixed else 0) + (if e = .retry then again else 0) := by
  cases contends with
  | call same unread left => simpa [Effort.counts] using left
  | wait same kept left => simpa [Effort.counts] using left
  | _ =>
      simp [Effort.counts]
      omega

end Words

section Runs

variable {Tid G L A W V : Type*} [DecidableEq Tid] {next : G → L → A → Option (G × L)}
  {Ok : Config Tid G L → Tid × A → Config Tid G L → Prop} {cell : G → W → V}
  {view : L → Option (W × V)} {rank : L → ℕ} {fixed again : ℕ} {start c : Config Tid G L}
  {actions : List (Tid × A)}

open Classical in
/-- Every swap of a thread that fails is paid for by one of another thread that has succeeded, and
every further access by the call or by such a failure. -/
theorem contends_run (effort : G → L → A → Effort)
    (contends : ∀ g l a g' l', next g l a = some (g', l') →
      Contends cell view rank fixed again g l g' l' (effort g l a))
    {t : Tid} (unread : view (start.pc t) = none)
    (run : Run (Config.step next) Ok start actions c) :
    let events := history next (fun g l a => some (effort g l a)) start actions
    retries t events + (if Stale cell view c.shared (c.pc t) then 1 else 0) ≤
      swapsOfOthers t events ∧
      spent t events + rank (c.pc t) ≤ rank (start.pc t) + fixed * calls t events + again * retries
      t events := by
  induction run with
  | nil =>
      have live : ¬ Stale cell view start.shared (start.pc t) := not_stale unread
      simp only [if_neg live]
      simp [history, retries, spent, swapsOfOthers]
  | snoc run fired allowed ih =>
      rename_i actions c c' act
      obtain ⟨few, bound⟩ := ih
      have grown : history next (fun g l a => some (effort g l a)) start (actions ++ [act]) = _ :=
        history_snoc run fired
      obtain ⟨g, l, stepped, rfl⟩ := Config.step_eq_some.mp fired
      have moved := contends _ _ _ _ _ stepped
      simp only [grown, Option.map_some, Option.toList_some]
      generalize effort c.shared (c.pc act.1) act.2 = e at moved
      simp only [retries_snoc, swapsOfOthers_snoc, spent_snoc, calls_snoc]
      by_cases own : act.1 = t
      · rw [own] at moved
        have less := moved.rank_le
        simp only [own, Function.update_self, true_and, ne_eq, not_true_eq_false, false_and,
          if_false, Nat.mul_add]
        constructor
        · by_cases failed : e = .retry
          · subst failed
            have before := moved.retry_stale
            have after : ¬ Stale cell view g l := fun stale => (moved.stale stale).2 rfl
            simpa [before, after] using few
          · by_cases stale : Stale cell view g l
            · simpa [failed, stale, (moved.stale stale).1] using few
            · have kept : retries t
                  (history next (fun g l a => some (effort g l a)) start actions) ≤
                  swapsOfOthers t (history next (fun g l a => some (effort g l a)) start actions) :=
                Nat.le_of_add_right_le few
              simpa [failed, stale] using kept
        · split_ifs at less ⊢ <;> omega
      · have kept : (Function.update c.pc act.1 l) t = c.pc t := Function.update_of_ne
            (Ne.symm own) _ _
        simp only [own, kept, false_and, if_false, Nat.add_zero, ne_eq, not_false_eq_true, true_and]
        refine ⟨?_, bound⟩
        by_cases stale : Stale cell view g (c.pc t)
        · rcases moved.others stale with before | swapped
          · simp only [if_pos before] at few
            split_ifs <;> omega
          · simp only [if_pos stale, if_pos swapped]
            split_ifs at few <;> omega
        · simp only [if_neg stale]
          split_ifs at few <;> omega

/-- A thread that starts outside a call: its accesses against its calls and the
swaps of the others. -/
theorem spent_le (effort : G → L → A → Effort)
    (contends : ∀ g l a g' l', next g l a = some (g', l') →
      Contends cell view rank fixed again g l g' l' (effort g l a))
    {t : Tid} (unread : view (start.pc t) = none) (outside : rank (start.pc t) = 0)
    (run : Run (Config.step next) Ok start actions c) :
    let events := history next (fun g l a => some (effort g l a)) start actions
    retries t events ≤ swapsOfOthers t events ∧
      spent t events ≤ fixed * calls t events + again * swapsOfOthers t events := by
  obtain ⟨few, bound⟩ := contends_run effort contends unread run
  have paid := Nat.le_of_add_right_le few
  refine ⟨paid, ?_⟩
  have more := Nat.mul_le_mul_left again paid
  rw [outside] at bound
  omega

end Runs

end Libam.Contention
