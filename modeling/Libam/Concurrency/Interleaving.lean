import Mathlib.Algebra.BigOperators.Group.Finset.Basic
import Mathlib.Algebra.BigOperators.Group.Finset.Piecewise
import Mathlib.Algebra.Order.BigOperators.Group.Finset
import Mathlib.Data.Fintype.Basic
import Mathlib.Tactic.Abel

/-! Runs of step functions, threads that interleave over a shared state, and the
accounting of what all threads together hold. -/

namespace Libam.Interleaving

section Runs

variable {S A : Type*}

/-- The runs of `step` whose every step meets `Ok`, with the actions taken. -/
inductive Run (step : S → A → Option S) (Ok : S → A → S → Prop) (start : S) : List A → S → Prop
  | nil : Run step Ok start [] start
  | snoc {actions : List A} {s s' : S} {a : A} : Run step Ok start actions s →
      step s a = some s' → Ok s a s' → Run step Ok start (actions ++ [a]) s'

def Any (_ : S) (_ : A) (_ : S) : Prop := True

variable {step : S → A → Option S} {Ok : S → A → S → Prop} {start : S}

theorem Run.invariant (Inv : S → Prop) (initial : Inv start)
    (preserved : ∀ s a s', Inv s → step s a = some s' → Ok s a s' → Inv s')
    {actions : List A} {s : S} (run : Run step Ok start actions s) : Inv s := by
  induction run with
  | nil => exact initial
  | snoc _ fired allowed ih => exact preserved _ _ _ ih fired allowed

theorem Run.mono {Ok' : S → A → S → Prop} (weaker : ∀ s a s', Ok s a s' → Ok' s a s')
    {actions : List A} {s : S} (run : Run step Ok start actions s) :
    Run step Ok' start actions s := by
  induction run with
  | nil => exact .nil
  | snoc _ fired allowed ih => exact .snoc ih fired (weaker _ _ _ allowed)

theorem Run.append {prior later : List A} {middle s : S} (first : Run step Ok start prior middle)
    (second : Run step Ok middle later s) : Run step Ok start (prior ++ later) s := by
  induction second with
  | nil => simpa using first
  | snoc _ fired allowed ih =>
      rw [← List.append_assoc]
      exact .snoc ih fired allowed

theorem Run.length_le (Inv : S → Prop) (measure : S → ℕ) (initial : Inv start)
    (smaller : ∀ s a s', Inv s → step s a = some s' → Ok s a s' → Inv s' ∧ measure s' < measure s)
    {actions : List A} {s : S} (run : Run step Ok start actions s) :
    Inv s ∧ actions.length + measure s ≤ measure start := by
  induction run with
  | nil => exact ⟨initial, by simp⟩
  | snoc _ fired allowed ih =>
      obtain ⟨inv, bound⟩ := ih
      obtain ⟨inv', less⟩ := smaller _ _ _ inv fired allowed
      refine ⟨inv', ?_⟩
      rw [List.length_append, List.length_singleton]
      omega

/-- Runs of a concrete list of actions, computed. -/
def runs (step : S → A → Option S) : S → List A → Option S
  | s, [] => some s
  | s, a :: actions => (step s a).bind fun s' => runs step s' actions

theorem runs_step {s s' : S} {a : A} {actions : List A} (fired : step s a = some s') :
    runs step s (a :: actions) = runs step s' actions := by
  rw [runs, fired, Option.bind_some]

def allowed (step : S → A → Option S) (ok : S → A → S → Bool) : S → List A → Bool
  | _, [] => true
  | s, a :: actions =>
      match step s a with
      | none => true
      | some s' => ok s a s' && allowed step ok s' actions

theorem Run.extend {prior actions : List A} {middle s : S} (ok : S → A → S → Bool)
    (sound : ∀ s a s', ok s a s' = true → Ok s a s') (run : Run step Ok start prior middle)
    (computed : runs step middle actions = some s)
    (checked : allowed step ok middle actions = true) : Run step Ok start (prior ++ actions) s := by
  induction actions generalizing prior middle with
  | nil =>
      cases computed
      simpa using run
  | cons a actions ih =>
      simp only [runs, Option.bind_eq_some_iff] at computed
      obtain ⟨next, fired, rest⟩ := computed
      simp only [allowed, fired, Bool.and_eq_true] at checked
      have extended := ih (.snoc run fired (sound _ _ _ checked.1)) rest checked.2
      simpa using extended

theorem run_of_runs {actions : List A} {s : S} (ok : S → A → S → Bool)
    (sound : ∀ s a s', ok s a s' = true → Ok s a s')
    (computed : runs step start actions = some s) (checked : allowed step ok start actions = true) :
    Run step Ok start actions s := by
  simpa using Run.extend ok sound .nil computed checked

theorem run_any {actions : List A} {s : S} (computed : runs step start actions = some s) :
    Run step Any start actions s := by
  have checked : ∀ (acts : List A) (s : S), allowed step (fun _ _ _ => true) s acts = true := by
    intro acts
    induction acts with
    | nil => intro s; rfl
    | cons a acts ih =>
        intro s
        simp only [allowed]
        split
        · rfl
        · simpa using ih _
  exact run_of_runs (fun _ _ _ => true) (fun _ _ _ _ => trivial) computed (checked _ _)

theorem runs_append (s : S) (prior actions : List A) :
    runs step s (prior ++ actions) = (runs step s prior).bind fun s => runs step s actions := by
  induction prior generalizing s with
  | nil => rfl
  | cons a prior ih =>
      rw [List.cons_append, runs, runs, Option.bind_assoc]
      exact congrArg _ (funext ih)

theorem Run.runs_eq {actions : List A} {s : S} (run : Run step Ok start actions s) :
    runs step start actions = some s := by
  induction run with
  | nil => rfl
  | snoc _ fired _ ih =>
      rw [runs_append, ih, Option.bind_some, runs, fired]
      rfl

/-- What is computed of the end of a run. -/
theorem Run.shown {β : Type*} {view : S → β} {value : β} {actions : List A} {s : S}
    (run : Run step Ok start actions s)
    (computed : (runs step start actions).map view = some value) : view s = value := by
  rw [run.runs_eq, Option.map_some] at computed
  exact Option.some.inj computed

/-- Where each step is one of another system, or none of it that is seen there, each run is a run of
that system. -/
theorem Run.stutters {S' A' : Type*} {step' : S' → A' → Option S'} {Ok' : S' → A' → S' → Prop}
    (view : S → S') (matched : ∀ s a s', step s a = some s' → Ok s a s' →
      view s' = view s ∨ ∃ a', step' (view s) a' = some (view s') ∧ Ok' (view s) a' (view s'))
    {actions : List A} {s : S} (run : Run step Ok start actions s) :
    ∃ actions', Run step' Ok' (view start) actions' (view s) := by
  induction run with
  | nil => exact ⟨[], .nil⟩
  | snoc _ fired allowed ih =>
      obtain ⟨actions', run'⟩ := ih
      rcases matched _ _ _ fired allowed with same | ⟨a', fired', allowed'⟩
      · exact ⟨actions', same ▸ run'⟩
      · exact ⟨actions' ++ [a'], .snoc run' fired' allowed'⟩

/-- For an invariant, each state that is reached shows one that the other system reaches. -/
theorem Run.invariant_over {S' A' : Type*} {step' : S' → A' → Option S'} {Ok' : S' → A' → S' → Prop}
    (view : S → S') (matched : ∀ s a s', step s a = some s' → Ok s a s' →
      view s' = view s ∨ ∃ a', step' (view s) a' = some (view s') ∧ Ok' (view s) a' (view s'))
    (Inv : S → Prop) (initial : Inv start)
    (preserved : ∀ s a s', (∃ actions', Run step' Ok' (view start) actions' (view s)) → Inv s →
      step s a = some s' → Inv s')
    {actions : List A} {s : S} (run : Run step Ok start actions s) : Inv s := by
  induction run with
  | nil => exact initial
  | snoc run fired allowed ih => exact preserved _ _ _ (run.stutters view matched) ih fired

def seen {E : Type*} (step : S → A → Option S) (see : S → S → Option E) : S → List A → List E
  | _, [] => []
  | s, a :: actions =>
      match step s a with
      | none => []
      | some s' => (see s s').toList ++ seen step see s' actions

theorem seen_append {E : Type*} {see : S → S → Option E} {s s' : S} {prior : List A}
    (computed : runs step s prior = some s') (actions : List A) :
    seen step see s (prior ++ actions) = seen step see s prior ++ seen step see s' actions := by
  induction prior generalizing s with
  | nil =>
      cases computed
      rfl
  | cons a prior ih =>
      simp only [runs, Option.bind_eq_some_iff] at computed
      obtain ⟨next, fired, rest⟩ := computed
      simp only [List.cons_append, seen, fired, ih rest, List.append_assoc]

theorem Run.seen_snoc {E : Type*} {see : S → S → Option E} {actions : List A} {s s' : S} {a : A}
    (run : Run step Ok start actions s) (fired : step s a = some s') :
    seen step see start (actions ++ [a]) = seen step see start actions ++ (see s s').toList := by
  rw [seen_append run.runs_eq]
  simp [seen, fired]

theorem Run.unsnoc {actions : List A} {a : A} {s' : S}
    (extended : Run step Ok start (actions ++ [a]) s') :
    ∃ s, Run step Ok start actions s ∧ step s a = some s' ∧ Ok s a s' := by
  obtain ⟨list, same⟩ : ∃ list, list = actions ++ [a] := ⟨_, rfl⟩
  rw [← same] at extended
  cases extended with
  | nil => simp at same
  | snoc earlier fired allowed =>
      obtain ⟨rfl, last⟩ := List.append_inj' same rfl
      cases last
      exact ⟨_, earlier, fired, allowed⟩

theorem Run.last {Ok' : S → A → S → Prop} {actions : List A} {a : A} {s s' : S}
    (run : Run step Ok start actions s) (extended : Run step Ok' start (actions ++ [a]) s') :
    Run step Ok' start actions s ∧ Ok' s a s' := by
  obtain ⟨before, earlier, fired, allowed⟩ := extended.unsnoc
  cases Option.some.inj (earlier.runs_eq.symm.trans run.runs_eq)
  exact ⟨earlier, allowed⟩

theorem allowed_append (ok : S → A → S → Bool) (s : S) (prior actions : List A) :
    allowed step ok s (prior ++ actions) = (allowed step ok s prior &&
      match runs step s prior with
      | none => true
      | some s' => allowed step ok s' actions) := by
  induction prior generalizing s with
  | nil => simp [allowed, runs]
  | cons a prior ih =>
      rw [List.cons_append, allowed, allowed, runs]
      cases step s a with
      | none => rfl
      | some s' =>
          simp only [Option.bind_some]
          rw [ih, Bool.and_assoc]

theorem Run.checked {Ok' : S → A → S → Prop} (ok : S → A → S → Bool)
    (sound : ∀ s a s', Ok s a s' → ok s a s' = true → Ok' s a s') {actions : List A} {s : S}
    (run : Run step Ok start actions s) (checked : allowed step ok start actions = true) :
    Run step Ok' start actions s := by
  induction run with
  | nil => exact .nil
  | @snoc actions s s' a earlier fired holds ih =>
      rw [allowed_append, earlier.runs_eq, Bool.and_eq_true] at checked
      have last : ok s a s' = true := by simpa [allowed, fired] using checked.2
      exact (ih checked.1).snoc fired (sound s a s' holds last)

end Runs

section Threads

variable {Tid G L A M : Type*}

structure Config (Tid G L : Type*) where
  shared : G
  pc : Tid → L

/-- One atomic step of one thread: `next` sees the shared state and the thread's own. -/
def Config.step [DecidableEq Tid] (next : G → L → A → Option (G × L)) (c : Config Tid G L)
    (act : Tid × A) : Option (Config Tid G L) :=
  (next c.shared (c.pc act.1) act.2).map fun r => ⟨r.1, Function.update c.pc act.1 r.2⟩

theorem Config.step_eq_some [DecidableEq Tid] {next : G → L → A → Option (G × L)}
    {c c' : Config Tid G L} {act : Tid × A} : c.step next act = some c' ↔
      ∃ g l, next c.shared (c.pc act.1) act.2 = some (g, l) ∧
        c' = ⟨g, Function.update c.pc act.1 l⟩ := by
  simp only [Config.step, Option.map_eq_some_iff, Prod.exists, eq_comm (a := c')]

/-- An invariant of the shared state and one of every thread alone, which a step of
one thread keeps. -/
theorem Run.threads [DecidableEq Tid] {next : G → L → A → Option (G × L)}
    {Ok : Config Tid G L → Tid × A → Config Tid G L → Prop} {start c : Config Tid G L}
    {actions : List (Tid × A)} (Inv : G → Prop) (Own : L → Prop)
    (initial : Inv start.shared ∧ ∀ t, Own (start.pc t))
    (preserved : ∀ g l a g' l', Inv g → Own l → next g l a = some (g', l') → Inv g' ∧ Own l')
    (run : Run (Config.step next) Ok start actions c) : Inv c.shared ∧ ∀ t, Own (c.pc t) := by
  refine run.invariant (fun c => Inv c.shared ∧ ∀ t, Own (c.pc t)) initial ?_
  rintro c act c' ⟨inv, own⟩ fired -
  obtain ⟨g, l, stepped, rfl⟩ := Config.step_eq_some.mp fired
  obtain ⟨inv', own'⟩ := preserved _ _ _ _ _ inv (own act.1) stepped
  exact ⟨inv', (Function.forall_update_iff c.pc fun _ => Own).mpr ⟨own', fun u _ => own u⟩⟩

/-- A step that changes nothing of what is seen of its own thread changes nothing of what
is seen of any. -/
theorem update_kept [DecidableEq Tid] (view : L → A) {pc : Tid → L} {t : Tid} {l : L}
    (kept : view l = view (pc t)) (u : Tid) : view (Function.update pc t l u) = view (pc u) := by
  by_cases self : u = t
  · rw [self, Function.update_self, kept]
  · rw [Function.update_of_ne self]

theorem exists_update [DecidableEq Tid] (p : L → Prop) {pc : Tid → L} {t : Tid} {l : L}
    (stays : p (pc t) → p l) (there : ∃ u, p (pc u)) : ∃ u, p (Function.update pc t l u) := by
  obtain ⟨u, at'⟩ := there
  by_cases self : u = t
  · exact ⟨t, by rw [Function.update_self]; exact stays (self ▸ at')⟩
  · exact ⟨u, by rwa [Function.update_of_ne self]⟩

/-- Two threads still never hold one thing when the step gives its thread what no
other one holds. -/
theorem alone_update [DecidableEq Tid] {V : Type*} (holds : L → V → Prop) {pc : Tid → L} {t : Tid}
    {l : L} (alone : ∀ t u v, holds (pc t) v → holds (pc u) v → t = u)
    (fresh : ∀ v, holds l v → ∀ u, u ≠ t → ¬ holds (pc u) v) (u w : Tid) (v : V)
    (first : holds (Function.update pc t l u) v) (second : holds (Function.update pc t l w) v) :
    u = w := by
  by_cases left : u = t <;> by_cases right : w = t
  · rw [left, right]
  · rw [left, Function.update_self] at first
    rw [Function.update_of_ne right] at second
    exact absurd second (fresh v first w right)
  · rw [Function.update_of_ne left] at first
    rw [right, Function.update_self] at second
    exact absurd first (fresh v second u left)
  · rw [Function.update_of_ne left] at first
    rw [Function.update_of_ne right] at second
    exact alone u w v first second

variable [Fintype Tid] [AddCommMonoid M]

def tally (weight : L → M) (pc : Tid → L) : M := ∑ t, weight (pc t)

theorem tally_eq_zero (weight : L → M) (pc : Tid → L) (none : ∀ t, weight (pc t) = 0) :
    tally weight pc = 0 :=
  Finset.sum_eq_zero fun t _ => none t

def count (p : L → Prop) [DecidablePred p] (pc : Tid → L) : ℕ :=
  (Finset.univ.filter fun t => p (pc t)).card

theorem count_eq_tally (p : L → Prop) [DecidablePred p] (pc : Tid → L) :
    count p pc = tally (fun l => if p l then 1 else 0) pc :=
  Finset.card_filter _ _

theorem count_eq_zero {p : L → Prop} [DecidablePred p] {pc : Tid → L} :
    count p pc = 0 ↔ ∀ t, ¬ p (pc t) := by
  simp [count, Finset.filter_eq_empty_iff]

theorem count_pos {p : L → Prop} [DecidablePred p] {pc : Tid → L} :
    0 < count p pc ↔ ∃ t, p (pc t) := by
  simp [count, Finset.card_pos, Finset.Nonempty]

theorem count_le_one {p : L → Prop} [DecidablePred p] {pc : Tid → L} (few : count p pc ≤ 1)
    {t u : Tid} (first : p (pc t)) (second : p (pc u)) : t = u :=
  Finset.card_le_one.mp few t (by simpa using first) u (by simpa using second)

theorem count_mono {p q : L → Prop} [DecidablePred p] [DecidablePred q]
    (weaker : ∀ l, p l → q l) (pc : Tid → L) : count p pc ≤ count q pc :=
  Finset.card_le_card (Finset.monotone_filter_right _ fun t _ => weaker (pc t))

variable [DecidableEq Tid]

theorem tally_update (weight : L → M) (pc : Tid → L) (t : Tid) (l : L) :
    tally weight (Function.update pc t l) + weight (pc t) = tally weight pc + weight l := by
  have split (f : Tid → L) : tally weight f =
      weight (f t) + ∑ u ∈ Finset.univ.erase t, weight (f u) :=
    (Finset.add_sum_erase _ _ (Finset.mem_univ t)).symm
  have others : ∑ u ∈ Finset.univ.erase t, weight (Function.update pc t l u) =
      ∑ u ∈ Finset.univ.erase t, weight (pc u) :=
    Finset.sum_congr rfl fun u member => by
      rw [Function.update_of_ne (Finset.ne_of_mem_erase member)]
  rw [split (Function.update pc t l), split pc, others, Function.update_self]
  abel

/-- An account that the threads' holdings complete stays balanced when a step of one
thread balances it. -/
theorem tally_balance {M : Type*} [AddCancelCommMonoid M] (weight : L → M) {pc : Tid → L} {t : Tid}
    {l : L} {total total' kept kept' : M} (balanced : total = kept + tally weight pc)
    (step : total' + kept + weight (pc t) = total + kept' + weight l) :
    total' = kept' + tally weight (Function.update pc t l) := by
  have change := tally_update weight pc t l
  apply add_right_cancel (b := kept + weight (pc t))
  calc total' + (kept + weight (pc t)) = total' + kept + weight (pc t) := by abel
    _ = total + kept' + weight l := step
    _ = kept' + (tally weight pc + weight l) + kept := by rw [balanced]; abel
    _ = kept' + tally weight (Function.update pc t l) + (kept + weight (pc t)) := by
        rw [← change]; abel

theorem count_update (p : L → Prop) [DecidablePred p] (pc : Tid → L) (t : Tid) (l : L) :
    count p (Function.update pc t l) + (if p (pc t) then 1 else 0) =
      count p pc + (if p l then 1 else 0) := by
  rw [count_eq_tally, count_eq_tally]
  exact tally_update _ pc t l

end Threads

end Libam.Interleaving
