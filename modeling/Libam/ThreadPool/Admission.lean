import Libam.ThreadPool.Counters

/-! `max_threads` bounds the live workers, although a start counts itself before it is refused. -/

namespace Libam.ThreadPool

open Libam.Interleaving

variable {Ptr : Type}

/-- A start that counts in `threads_created` and may still take itself back. -/
def Loc.undecided : Loc Ptr → Bool
  | .compare _ _ => true
  | .rollback _ => true
  | _ => false

def Loc.earlier (bound : ℤ) : Loc Ptr → Bool
  | .compare _ created => created < bound
  | _ => false

@[simp ↓] theorem resume_undecided (k : Caller Ptr) (ret : Amrc) :
    (k.resume ret).undecided = false := by
  cases k <;> cases ret <;> rfl

@[simp ↓] theorem resume_earlier (bound : ℤ) (k : Caller Ptr) (ret : Amrc) :
    (k.resume ret).earlier bound = false := by
  cases k <;> cases ret <;> rfl

theorem undecided_of_earlier {bound : ℤ} {l : Loc Ptr} (early : l.earlier bound = true) :
    l.undecided = true := by
  cases l <;> first | rfl | cases early

theorem starting_of_undecided {l : Loc Ptr} (open' : l.undecided = true) : l.starting = true := by
  cases l <;> first | rfl | cases open'

section Moves

variable {Tid : Type} {g g' : Pool Ptr} {l l' : Loc Ptr} {a : Act Tid Ptr}

theorem move_maxThreads (moved : Move g l a g' l') :
    g'.config.maxThreads = g.config.maxThreads := by
  cases moved <;> rfl

theorem move_ticket {k : Caller Ptr} {created : ℤ} (moved : Move g l a g' l')
    (tested : l' = .compare k created) : created = g.threadsCreated ∧ l.undecided = false := by
  have undecided : l'.undecided = true := tested ▸ rfl
  cases moved <;> first | cases tested <;> exact ⟨rfl, rfl⟩ | simp at undecided

/-- Only an admission changes what is created for good; a new start reads the count of now. -/
theorem move_admission (moved : Move g l a g' l') :
    (∃ k created, l = .compare k created ∧ l' = .spawn k ∧ g' = g ∧ g.full created = false) ∨
    (g'.threadsCreated + (if l.undecided then 1 else 0) =
        g.threadsCreated + (if l'.undecided then 1 else 0) ∧
      ∀ bound, l'.earlier bound = true → l.earlier bound = true ∨
        l.undecided = false ∧ g.threadsCreated < bound) := by
  cases moved with
  | passes k created room => exact .inl ⟨k, created, rfl, rfl, rfl, by simpa using room⟩
  | _ => exact .inr (by simp [Loc.undecided, Loc.earlier])

/-- The test lets no start pass whose count is `max_threads` or more over the workers gone, unless
the difference does not fit in 64 bits. -/
theorem full_of_le {g : Pool Ptr} {created : ℤ} (limited : 0 < g.config.maxThreads)
    (above : g.config.maxThreads.toNat + g.threadsDestroyed ≤ created)
    (fits : created - g.threadsDestroyed < 2 ^ 64) : g.full created = true := by
  have same : (created - g.threadsDestroyed) % 2 ^ 64 = created - g.threadsDestroyed :=
    Int.emod_eq_of_lt (by omega) fits
  simp only [Pool.full, same, decide_eq_true_eq]
  exact ⟨limited, by omega⟩

end Moves

section Runs

variable {Tid : Type} [Fintype Tid] [DecidableEq Tid]

def admitted (c : Config Tid (Pool Ptr) (Loc Ptr)) : ℤ :=
  c.shared.threadsCreated - count (fun l => l.undecided) c.pc

/-- Where admissions can lead: if `j` further ones would exceed `max_threads`, at most `j` of the
starts under way have a count that is small enough. -/
structure Limited (max : ℕ) (c : Config Tid (Pool Ptr) (Loc Ptr)) : Prop where
  config : c.shared.config.maxThreads.toNat = max
  bound : admitted c ≤ max + c.shared.threadsDestroyed
  room : ∀ j : ℕ, count (fun l => l.earlier (admitted c + j)) c.pc ≤ j ∨
    admitted c + j + 1 ≤ max + c.shared.threadsDestroyed
  tickets : ∀ t k created, c.pc t = .compare k created →
    created < max + c.shared.threadsDestroyed + Fintype.card Tid

variable {max : ℕ} {c c' : Config Tid (Pool Ptr) (Loc Ptr)}

omit [DecidableEq Tid] in
theorem Limited.keep (limited : Limited max c)
    (config : c'.shared.config.maxThreads = c.shared.config.maxThreads)
    (gone : c.shared.threadsDestroyed ≤ c'.shared.threadsDestroyed)
    (same : admitted c' = admitted c)
    (fewer : ∀ bound, count (fun l => l.earlier bound) c'.pc ≤
        count (fun l => l.earlier bound) c.pc ∨
      count (fun l => l.earlier bound) c'.pc ≤ count (fun l => l.undecided) c.pc + 1 ∧
        c.shared.threadsCreated < bound)
    (tickets : ∀ t k created, c'.pc t = .compare k created →
      created < max + c'.shared.threadsDestroyed + Fintype.card Tid) : Limited max c' := by
  have bound := limited.bound
  refine ⟨config ▸ limited.config, by omega, fun j => ?_, tickets⟩
  rw [same]
  rcases limited.room j with small | wide
  · rcases fewer (admitted c + j) with fewer | ⟨fewer, fresh⟩
    · exact .inl (fewer.trans small)
    · -- All starts under way are the `created - admitted` undecided ones.
      simp only [admitted] at fresh fewer small ⊢
      exact .inl (by omega)
  · exact .inr (by omega)

/-- The test lets a start pass: its count is below `max_threads` over the workers gone, and one of
the starts that may still pass is used up. -/
theorem Limited.passes (limited : Limited max c) (positive : 0 < max)
    (fits : max + Fintype.card Tid ≤ 2 ^ 64) {t : Tid} {k : Caller Ptr} {created : ℤ}
    (point : c.pc t = .compare k created) (room : c.shared.full created = false) :
    Limited max ⟨c.shared, Function.update c.pc t (.spawn k)⟩ := by
  have undecided : count (fun l : Loc Ptr => l.undecided) (Function.update c.pc t (.spawn k)) + 1 =
      count (fun l => l.undecided) c.pc := by
    have change := count_update (fun l : Loc Ptr => l.undecided) c.pc t (.spawn k)
    rwa [point] at change
  have below : created < max + c.shared.threadsDestroyed := by
    by_contra above
    have config := limited.config
    have ticket := limited.tickets t k created point
    have full : c.shared.full created = true := by
      refine full_of_le ?_ (by omega) (by omega)
      rw [UInt64.lt_iff_toNat_lt]
      exact config ▸ positive
    rw [full] at room
    cases room
  have earlier (bound : ℤ) :
      count (fun l : Loc Ptr => l.earlier bound) (Function.update c.pc t (.spawn k)) +
        (if created < bound then 1 else 0) = count (fun l => l.earlier bound) c.pc := by
    have change := count_update (fun l : Loc Ptr => l.earlier bound) c.pc t (.spawn k)
    rw [point] at change
    simpa only [Loc.earlier, decide_eq_true_eq, Bool.false_eq_true, reduceIte,
      add_zero] using change
  have one_more : admitted (⟨c.shared, Function.update c.pc t (.spawn k)⟩ :
      Config Tid (Pool Ptr) (Loc Ptr)) = admitted c + 1 := by
    simp only [admitted]
    omega
  refine ⟨limited.config, ?_, fun j => ?_, ?_⟩
  · have first := earlier (admitted c + (0 : ℕ))
    have room := limited.room 0
    rw [one_more]
    simp only
    split_ifs at first <;> omega
  · have next := limited.room (j + 1)
    have change := earlier (admitted c + (j + 1 : ℕ))
    rw [one_more, add_assoc, add_comm (1 : ℤ)]
    push_cast at next change ⊢
    split_ifs at change <;> omega
  · intro u k' created' here
    by_cases same : u = t
    · subst same
      simp only [Function.update_self] at here
      cases here
    · simp only [Function.update_of_ne same] at here
      exact limited.tickets u k' created' here

theorem limited_step (positive : 0 < max) (fits : max + Fintype.card Tid ≤ 2 ^ 64)
    (act : Tid × Act Tid Ptr) (limited : Limited max c) (fired : step c act = some c') :
    Limited max c' := by
  obtain ⟨t, a⟩ := act
  rcases step_cases fired with ⟨g, l, moved, rfl⟩ | ⟨k, child, spawned⟩
  · rcases move_admission moved with ⟨k, created, point, rfl, rfl, room⟩ | ⟨balance, fresh⟩
    · exact limited.passes positive fits point room
    have undecided := count_update (fun l : Loc Ptr => l.undecided) c.pc t l
    have gone := (move_destroyed moved).1
    refine limited.keep (move_maxThreads moved) gone ?_ (fun bound => ?_) ?_
    · simp only [admitted]
      split_ifs at balance undecided <;> omega
    · have earlier := count_update (fun l : Loc Ptr => l.earlier bound) c.pc t l
      simp only
      by_cases early : l.earlier bound = true
      · rcases fresh bound early with before | ⟨decided, small⟩
        · simp only [early, before] at earlier
          exact .inl (by omega)
        · have weaker (l : Loc Ptr) (early : l.earlier bound = true) : l.undecided = true :=
              undecided_of_earlier early
          have all := count_mono weaker (Function.update c.pc t l)
          simp only [decided, Bool.false_eq_true, reduceIte] at undecided
          refine .inr ⟨?_, small⟩
          split_ifs at undecided <;> omega
      · simp only [early, Bool.false_eq_true, reduceIte] at earlier
        exact .inl (by omega)
    · intro u k created here
      by_cases same : u = t
      · subst same
        simp only [Function.update_self] at here
        obtain ⟨rfl, decided⟩ := move_ticket moved here
        have others : count (fun l => l.undecided) (Function.update c.pc u l) ≤ Fintype.card Tid :=
          Finset.card_le_univ _
        have counts : l.undecided = true := here ▸ rfl
        have bound := limited.bound
        simp only [decided, counts, Bool.false_eq_true, reduceIte] at undecided
        simp only [admitted] at bound ⊢
        omega
      · simp only [Function.update_of_ne same] at here
        have before := limited.tickets u k created here
        simp only
        omega
  · have undecided : count (fun l => l.undecided) c'.pc = count (fun l => l.undecided) c.pc :=
      count_spawn (·.undecided) spawned (resume_undecided ..) rfl
    have earlier (bound : ℤ) : count (fun l => l.earlier bound) c'.pc =
        count (fun l => l.earlier bound) c.pc :=
      count_spawn (·.earlier bound) spawned (resume_earlier ..) rfl
    have same := spawned.shared
    refine limited.keep (by rw [same]) (by rw [same]) ?_ (fun bound => .inl (earlier bound).le) ?_
    · rw [admitted, admitted, undecided, same]
    · intro u k' created here
      rw [same]
      rcases spawned.cases u with ⟨born, -⟩ | ⟨resumed, -⟩ | ⟨other, -, -⟩
      · cases born.symm.trans here
      · have undecided := resume_undecided k .success
        rw [resumed.symm.trans here] at undecided
        cases undecided
      · exact limited.tickets u k' created (other.symm.trans here)

omit [DecidableEq Tid] in
theorem limited_start (config : PoolConfig Ptr) {main : Tid} {pc : Tid → Loc Ptr}
    (starting : Starting main pc) :
    Limited config.withDefaults.maxThreads.toNat (start config pc) := by
  have none (p : Loc Ptr → Bool) := starting.count_eq_zero p
  have undecided := none (·.undecided) rfl rfl rfl
  have earlier (bound : ℤ) := none (·.earlier bound) rfl rfl rfl
  refine ⟨rfl, ?_, fun j => .inl ?_, fun t k created here => ?_⟩
  · simp [admitted, start, undecided]
  · rw [start, earlier]
    exact Nat.zero_le j
  · have tested : (pc t).undecided = true := (congrArg Loc.undecided here).trans rfl
    exact absurd tested (count_eq_zero.mp undecided t)

variable {config : PoolConfig Ptr} {main : Tid} {pc : Tid → Loc Ptr}
  {actions : List (Tid × Act Tid Ptr)}

/-- Each thread takes up more than one byte of a 64-bit address space. -/
theorem live_workers_bounded (starting : Starting main pc) (few : Fintype.card Tid ≤ 2 ^ 63)
    (positive : 0 < config.withDefaults.maxThreads)
    (run : Run step Any (start config pc) actions c) :
    count (fun l => l.alive) c.pc ≤ config.withDefaults.maxThreads.toNat := by
  by_cases many : Fintype.card Tid ≤ config.withDefaults.maxThreads.toNat
  · exact (Finset.card_le_univ _).trans many
  have limited : Limited config.withDefaults.maxThreads.toNat c :=
    run.invariant (Limited _) (limited_start config starting) fun c act c' limited fired _ =>
      limited_step (by simpa [UInt64.lt_iff_toNat_lt] using positive) (by omega) act limited fired
  have counted : Counted c := run.invariant Counted (counted_start config starting)
    fun c act c' counted fired _ => counted_step c act c' counted fired
  have undecided := count_mono (fun l : Loc Ptr => starting_of_undecided (l := l)) c.pc
  have created := counted.created
  have bound := limited.bound
  simp only [admitted] at bound
  omega

/-- Of two starts that count themselves at once the later one is refused. -/
theorem live_workers_bounded_sample : ∃ c : Config (Fin 4) (Pool ℕ) (Loc ℕ),
    c.pc 3 = .begin ∧ count (fun l => l.alive) c.pc ≤ 1 := by
  have starting : Starting (0 : Fin 4) ![(.createLoop 0 : Loc ℕ), .outside, .outside, .absent] :=
    ⟨rfl, by decide⟩
  have run : Run step Any
      (start ⟨true, false, none, 0, 1, 1⟩ ![.createLoop 0, .outside, .outside, .absent])
      [(0, .tick), (1, .run (some 7) 1 none), (1, .tick), (1, .tick), (1, .tick),
        (2, .run (some 7) 2 none), (2, .tick), (2, .tick), (2, .tick), (1, .tick), (2, .tick),
        (1, .tick), (2, .tick), (2, .tick), (1, .tick), (2, .tick), (1, .created 3)] _ :=
    run_any rfl
  exact ⟨_, rfl, live_workers_bounded starting (by simp) (by decide) run⟩

end Runs

end Libam.ThreadPool
