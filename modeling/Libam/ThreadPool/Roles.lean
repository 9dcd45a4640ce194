import Libam.ThreadPool.Counters

/-! One thread creates and destroys the pool; nobody else has the handle before and after. -/

namespace Libam.ThreadPool

open Libam.Interleaving

variable {Ptr : Type}

def Caller.creating : Caller Ptr → Bool
  | .create _ => true
  | _ => false

/-- For whom a thread is in `lam_thread_pool_start_thread`. -/
def Loc.caller : Loc Ptr → Option (Caller Ptr)
  | .checkDrain k => some k
  | .ticket k => some k
  | .compare k _ => some k
  | .rollback k => some k
  | .spawn k => some k
  | _ => none

/-- In the loop of `lam_thread_pool_create`, or about to drain after a failure there. -/
def Loc.creating : Loc Ptr → Bool
  | .createLoop _ => true
  | .createDrain => true
  | l => l.caller.any Caller.creating

/-- In `lam_thread_pool_create`: nobody has got the handle yet. -/
def Loc.early : Loc Ptr → Bool
  | .createWait => true
  | .createFree => true
  | l => l.creating

def Loc.managing : Loc Ptr → Bool
  | .createWait => true
  | .createFree => true
  | .owner => true
  | .destroyDrain => true
  | .destroyRead => true
  | .destroyCompare _ => true
  | .destroyFree => true
  | .ended => true
  | l => l.creating

def Loc.calling : Loc Ptr → Bool
  | .enter _ _ _ => true
  | .countTask _ => true
  | .readIdle _ => true
  | .push _ => true
  | .survey _ => true
  | .raise _ _ _ => true
  | l => l.caller.any fun k => !k.creating

@[simp ↓] theorem resume_creating (k : Caller Ptr) (ret : Amrc) :
    (k.resume ret).creating = k.creating := by
  cases k <;> cases ret <;> rfl

@[simp ↓] theorem resume_managing (k : Caller Ptr) (ret : Amrc) :
    (k.resume ret).managing = k.creating := by
  cases k <;> cases ret <;> rfl

@[simp ↓] theorem resume_early (k : Caller Ptr) (ret : Amrc) :
    (k.resume ret).early = k.creating := by
  cases k <;> cases ret <;> rfl

theorem calling_of_resume {k : Caller Ptr} {ret : Amrc} (inside : (k.resume ret).calling = true) :
    k.creating = false := by
  cases k <;> cases ret <;> first | rfl | cases inside

theorem managing_of_creating {l : Loc Ptr} (creating : l.creating = true) :
    l.managing = true := by
  cases l <;> first | rfl | exact creating

theorem managing_of_early {l : Loc Ptr} (early : l.early = true) : l.managing = true := by
  cases l <;> first | rfl | exact early

theorem not_owner_of_early {l : Loc Ptr} (early : l.early = true) : l ≠ .owner := by
  rintro rfl
  cases early

section Moves

variable {Tid : Type} {g g' : Pool Ptr} {l l' : Loc Ptr} {a : Act Tid Ptr}

theorem move_managing (moved : Move g l a g' l') : l'.managing = l.managing := by
  cases moved <;> simp [Loc.managing, Loc.creating, Loc.caller, Caller.creating]

theorem move_creating (moved : Move g l a g' l') (creating : l'.creating = true) :
    l.creating = true := by
  cases moved <;> simp_all [Loc.creating, Loc.caller, Caller.creating]

theorem move_early (moved : Move g l a g' l') (early : l'.early = true) : l.early = true := by
  cases moved <;> simp_all [Loc.early, Loc.creating, Loc.caller, Caller.creating]

theorem move_calling (moved : Move g l a g' l') (calling : l'.calling = true) :
    l.calling = true ∨ g.isOpen = true := by
  cases moved with
  | startDrained k drain => simp [Loc.calling, Loc.caller, calling_of_resume calling]
  | rollback k => simp [Loc.calling, Loc.caller, calling_of_resume calling]
  | spawnFailed k => simp [Loc.calling, Loc.caller, calling_of_resume calling]
  | _ => simp_all [Loc.calling, Loc.caller, Caller.creating]

theorem move_drain (moved : Move g l a g' l') :
    g'.drainSignal = g.drainSignal ∨
    g'.drainSignal = true ∧ g'.isOpen = g.isOpen ∧ (l = .createDrain ∨ l = .destroyDrain) ∧
      l'.creating = false := by
  cases moved <;> simp [Loc.creating, Loc.caller]

theorem move_open (moved : Move g l a g' l') :
    g'.isOpen = g.isOpen ∨ g'.isOpen = false ∧ l = .owner ∨
    g'.isOpen = true ∧ l.creating = true ∧ l' = .owner := by
  cases moved <;> simp [Loc.creating]

theorem move_owner (moved : Move g .owner a g' l') : g'.isOpen = false := by
  cases moved
  rfl

end Moves

section Runs

variable {Tid : Type}

structure Roles (c : Config Tid (Pool Ptr) (Loc Ptr)) : Prop where
  single : ∀ t u, (c.pc t).managing = true → (c.pc u).managing = true → t = u
  shared : c.shared.isOpen = true → ∀ t, (c.pc t).managing = true → c.pc t = .owner
  drained : c.shared.drainSignal = true →
    c.shared.isOpen = false ∧ ∀ t, (c.pc t).creating = false
  unshared : ∀ t, (c.pc t).early = true → ∀ u, (c.pc u).calling = false

theorem Roles.alone {c : Config Tid (Pool Ptr) (Loc Ptr)} (roles : Roles c) {t u : Tid}
    (first : (c.pc t).managing = true) (other : u ≠ t) : (c.pc u).managing = false := by
  by_contra second
  exact other (roles.single u t (by simpa using second) first)

theorem Roles.closed {c : Config Tid (Pool Ptr) (Loc Ptr)} (roles : Roles c) {t : Tid}
    (managing : (c.pc t).managing = true) (elsewhere : c.pc t ≠ .owner) :
    c.shared.isOpen = false := by
  by_contra opened
  exact elsewhere (roles.shared (by simpa using opened) t managing)

theorem roles_start (config : PoolConfig Ptr) {main : Tid} {pc : Tid → Loc Ptr}
    (starting : Starting main pc) : Roles (start config pc) := by
  have creator (t : Tid) (managing : (pc t).managing = true) : t = main := by
    by_contra other
    rcases starting.others t other with point | point <;> rw [point] at managing <;> cases managing
  refine ⟨fun t u first second => ?_, by simp [start], by simp [start], fun t early u => ?_⟩
  · exact (creator t first).trans (creator u second).symm
  · exact starting.all (fun l => l.calling = false) rfl rfl rfl u

variable [DecidableEq Tid]

theorem step_managing {c c' : Config Tid (Pool Ptr) (Loc Ptr)} {act : Tid × Act Tid Ptr}
    (fired : step c act = some c') (u : Tid) : (c'.pc u).managing = (c.pc u).managing := by
  refine step_points (fun l l' => l'.managing = l.managing) (fun _ => rfl) move_managing
    rfl ?_ fired u
  intro k
  exact resume_managing k .success

theorem step_creating {c c' : Config Tid (Pool Ptr) (Loc Ptr)} {act : Tid × Act Tid Ptr}
    (fired : step c act = some c') (u : Tid) :
    (c'.pc u).creating = true → (c.pc u).creating = true := by
  refine step_points (fun l l' => l'.creating = true → l.creating = true)
    (fun _ => id) move_creating id ?_ fired u
  intro k creating
  exact (resume_creating k .success).symm.trans creating

theorem step_early {c c' : Config Tid (Pool Ptr) (Loc Ptr)} {act : Tid × Act Tid Ptr}
    (fired : step c act = some c') (u : Tid) : (c'.pc u).early = true → (c.pc u).early = true := by
  refine step_points (fun l l' => l'.early = true → l.early = true)
    (fun _ => id) move_early id ?_ fired u
  intro k early
  exact (resume_early k .success).symm.trans early

theorem step_calling {c c' : Config Tid (Pool Ptr) (Loc Ptr)} {act : Tid × Act Tid Ptr}
    (fired : step c act = some c') (u : Tid) :
    (c'.pc u).calling = true → (c.pc u).calling = true ∨ c.shared.isOpen = true := by
  refine step_points (fun l l' => l'.calling = true → l.calling = true ∨ c.shared.isOpen = true)
    (fun _ => .inl)
    move_calling .inl ?_ fired u
  intro k calling
  exact .inl (by simp [Loc.calling, Loc.caller, calling_of_resume calling])

theorem roles_step (c : Config Tid (Pool Ptr) (Loc Ptr)) (act : Tid × Act Tid Ptr)
    (c' : Config Tid (Pool Ptr) (Loc Ptr)) (roles : Roles c) (fired : step c act = some c') :
    Roles c' := by
  have managing := step_managing fired
  have creating := step_creating fired
  obtain ⟨t, a⟩ := act
  have early := step_early fired
  have calling := step_calling fired
  refine ⟨fun u v first second => ?_, fun opened u inside => ?_, fun drained => ?_,
    fun u inside v => ?_⟩
  · exact roles.single u v (managing u ▸ first) (managing v ▸ second)
  · rcases step_cases fired with ⟨g, l, moved, rfl⟩ | ⟨k, child, spawned⟩
    · have before : (c.pc u).managing = true := managing u ▸ inside
      by_cases same : u = t
      · subst same
        simp only [Function.update_self]
        rcases move_open moved with kept | ⟨closed, -⟩ | ⟨-, -, here⟩
        · have owner := roles.shared (kept ▸ opened) u before
          rw [owner] at moved
          cases opened.symm.trans (move_owner moved)
        · cases opened.symm.trans closed
        · exact here
      · simp only [Function.update_of_ne same]
        rcases move_open moved with kept | ⟨closed, -⟩ | ⟨-, creator, -⟩
        · exact roles.shared (kept ▸ opened) u before
        · cases opened.symm.trans closed
        · exact absurd (roles.single u t before (managing_of_creating creator)) same
    · have before : (c.pc u).managing = true := managing u ▸ inside
      have owner := roles.shared (spawned.shared ▸ opened) u before
      rcases spawned.cases u with ⟨-, rfl⟩ | ⟨-, rfl⟩ | ⟨other, -, -⟩
      · cases spawned.absent.symm.trans owner
      · cases spawned.point.symm.trans owner
      · exact other.trans owner
  · rcases step_cases fired with ⟨g, l, moved, rfl⟩ | ⟨k, child, spawned⟩
    · rcases move_drain moved with kept | ⟨-, same, here, calm⟩
      · obtain ⟨closed, none⟩ := roles.drained (kept ▸ drained)
        constructor
        · rcases move_open moved with open' | ⟨closed', -⟩ | ⟨-, creator, -⟩
          · exact open'.trans closed
          · exact closed'
          · cases (none t).symm.trans creator
        · intro u
          by_contra inside
          simpa [none u] using creating u (by simpa using inside)
      · have manager : (c.pc t).managing = true := by
          rcases here with here | here <;> rw [here] <;> rfl
        have elsewhere : c.pc t ≠ .owner := by rcases here with here | here <;> rw [here] <;> simp
        refine ⟨same.trans (roles.closed manager elsewhere), fun u => ?_⟩
        by_cases self : u = t
        · subst self
          simpa using calm
        · have none := roles.alone manager self
          by_contra inside
          have before := managing_of_creating (creating u (by simpa using inside))
          cases none.symm.trans before
    · obtain ⟨closed, none⟩ := roles.drained (spawned.shared ▸ drained)
      refine ⟨spawned.shared ▸ closed, fun u => ?_⟩
      by_contra inside
      simpa [none u] using creating u (by simpa using inside)
  · by_contra busy
    have before := early u inside
    rcases calling v (by simpa using busy) with already | opened
    · cases (roles.unshared u before v).symm.trans already
    · exact not_owner_of_early before (roles.shared opened u (managing_of_early before))

end Runs

end Libam.ThreadPool
