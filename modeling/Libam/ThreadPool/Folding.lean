import Libam.Concurrency.RwLock
import Libam.ThreadPool.Measured

/-! The workers merge what they have collected into the statistics of the pool, one
after the other. -/

namespace Libam.ThreadPool

open Libam.Interleaving Libam.RwLocked Libam.Stats

variable {Tid Ptr : Type}

def Loc.looping : Loc Ptr → Bool
  | .pop _ => true
  | .noTask _ => true
  | .readDrain _ => true
  | .shouldStop _ => true
  | .suspend _ => true
  | .gotTask _ _ => true
  | .process _ _ => true
  | .store _ _ _ => true
  | .release _ => true
  | _ => false

/-- A worker whose `local_stats` are initialised and not merged. -/
def Loc.recording : Loc Ptr → Bool
  | .fold => true
  | l => l.looping

def Station.pending (p : Station Ptr) : List Measure :=
  match p.stage with
  | .load rest => rest
  | .store m _ rest => m :: rest
  | _ => if p.loc.recording then measures else []

section Stations

variable {s s' : Measured Ptr} {p p' : Station Ptr}

theorem mem_measures (m : Measure) : m ∈ measures := by
  cases m <;> decide

theorem measures_nodup : measures.Nodup := by
  decide

def Station.Tracks (p : Station Ptr) : Prop := ∀ m, p.stats m = build (p.kept m)

theorem Station.Tracks.record (tracks : p.Tracks) (entry : Measure × UInt64) :
    (p.record entry).Tracks := by
  intro m
  by_cases own : m = entry.1
  · subst own
    simp only [Station.record, Function.update_self, build, List.foldl_append, List.foldl_cons,
      List.foldl_nil]
    rw [tracks, build]
  · simp only [Station.record, Function.update_of_ne own]
    exact tracks m

theorem Station.Tracks.recordAll (entries : List (Measure × UInt64)) (tracks : p.Tracks) :
    (entries.foldl Station.record p).Tracks := by
  induction entries generalizing p with
  | nil => exact tracks
  | cons entry entries ih => exact ih (tracks.record entry)

theorem Station.Tracks.accounts (tracks : p.Tracks)
    (begun : ∀ threadId, p.loc ≠ .countIdle threadId) (a : Act Tid Ptr) :
    (p.accounts s a).Tracks := by
  unfold Station.accounts
  split
  · rename_i point
    exact absurd point (begun _)
  · split
    · exact tracks.record _
    · exact tracks
  · split
    · exact tracks.record _
    · exact tracks
  · exact tracks.recordAll _
  · exact tracks

theorem accounts_kept (outside : p.loc.recording = false) (a : Act Tid Ptr) :
    (p.accounts s a).kept = p.kept := by
  unfold Station.accounts
  split
  · rfl
  all_goals first
    | rfl
    | rename_i point
      rw [point] at outside
      cases outside

/-- A worker begins to record when it has counted itself idle, and it is done when
it leaves `fold`. -/
theorem move_recording {g g' : Pool Ptr} {l l' : Loc Ptr} {a : Act Tid Ptr}
    (moved : Move g l a g' l') (folded : l ≠ .fold) :
    l'.recording = l.recording ∨ (∃ threadId, l = .countIdle threadId) ∧ l'.recording = true := by
  cases moved with
  | countIdle threadId now => exact .inr ⟨⟨threadId, rfl⟩, rfl⟩
  | fold => exact absurd rfl folded
  | startDrained k drain => cases k <;> exact .inl rfl
  | rollback k => cases k <;> exact .inl rfl
  | spawnFailed k => cases k <;> exact .inl rfl
  | _ => exact .inl rfl

structure Station.Keeps (p : Station Ptr) : Prop where
  inside : p.stage.locking = true → p.loc = .fold
  distinct : p.pending.Nodup
  kept : ∀ m ∈ p.pending, p.stats m = build (p.kept m)
  none : ∀ m, m ∉ p.pending → p.kept m = []

theorem pending_unlocked (unlocked : p.stage.locking = false) :
    p.pending = if p.loc.recording then measures else [] := by
  unfold Station.pending
  split
  · rename_i rest stage
    rw [stage] at unlocked
    cases unlocked
  · rename_i m seen rest stage
    rw [stage] at unlocked
    cases unlocked
  · rfl

theorem Station.Keeps.unlocked (keeps : p.Keeps) (apart : p.loc ≠ .fold) :
    p.stage.locking = false := by
  by_contra locking
  exact apart (keeps.inside (by simpa using locking))

theorem Station.Keeps.idle (keeps : p.Keeps) (outside : p.loc.recording = false) (m : Measure) :
    p.kept m = [] := by
  have apart : p.loc ≠ .fold := by
    intro point
    rw [point] at outside
    cases outside
  apply keeps.none
  rw [pending_unlocked (keeps.unlocked apart), outside]
  exact List.not_mem_nil

theorem keeps_of_idle (unlocked : p.stage.locking = false) (outside : p.loc.recording = false)
    (idle : ∀ m, p.kept m = []) : p.Keeps := by
  have pending : p.pending = [] := by
    rw [pending_unlocked unlocked, outside]
    rfl
  refine ⟨fun locking => ?_, ?_, ?_, fun m _ => idle m⟩
  · cases unlocked.symm.trans locking
  · rw [pending]
    exact List.nodup_nil
  · rw [pending]
    exact fun m inside => absurd inside List.not_mem_nil

theorem keeps_of_tracks (unlocked : p.stage.locking = false) (inside : p.loc.recording = true)
    (tracks : p.Tracks) : p.Keeps := by
  have pending : p.pending = measures := by
    rw [pending_unlocked unlocked, inside]
    rfl
  refine ⟨fun locking => ?_, ?_, fun m _ => tracks m, fun m apart => ?_⟩
  · cases unlocked.symm.trans locking
  · rw [pending]
    exact measures_nodup
  · rw [pending] at apart
    exact absurd (mem_measures m) apart

theorem Station.Keeps.tracks (keeps : p.Keeps) (unlocked : p.stage.locking = false)
    (inside : p.loc.recording = true) : p.Tracks := by
  intro m
  apply keeps.kept
  rw [pending_unlocked unlocked, inside]
  exact mem_measures m

theorem Station.Keeps.move {a : Act Tid Ptr} {g : Pool Ptr} {l : Loc Ptr} (keeps : p.Keeps)
    (apart : p.loc ≠ .fold) (moved : Move s.pool p.loc a g l) :
    Station.Keeps { p.accounts s a with loc := l, stage := .plain } := by
  have unlocked := keeps.unlocked apart
  rcases move_recording moved apart with same | ⟨⟨threadId, point⟩, inside⟩
  · cases outside : p.loc.recording with
    | false =>
        refine keeps_of_idle rfl (same.trans outside) fun m => ?_
        simp only [accounts_kept outside]
        exact keeps.idle outside m
    | true =>
        refine keeps_of_tracks rfl (same.trans outside) ?_
        refine (keeps.tracks unlocked outside).accounts (fun threadId point => ?_) a
        rw [point] at outside
        cases outside
  · refine keeps_of_tracks rfl inside fun m => ?_
    have idle := keeps.idle (by rw [point]; rfl) m
    simp only [Station.accounts, point, statsInit, idle]
    rfl

theorem Station.Keeps.step (keeps : p.Keeps) (measured : Measures Tid s p s' p') : p'.Keeps := by
  cases measured with
  | reads task stage point outside =>
      have idle : p.loc.recording = false := by
        rw [point]
        rfl
      exact keeps_of_idle outside idle (keeps.idle idle)
  | surveys task numbers point ordered moved =>
      have idle : p.loc.recording = false := by
        rw [point]
        rfl
      refine keeps_of_idle rfl ?_ (keeps.idle idle)
      cases moved <;> rfl
  | locks point stage free =>
      have inside : p.loc.recording = true := by
        rw [point]
        rfl
      have tracks := keeps.tracks (by rw [stage]; rfl) inside
      exact ⟨fun _ => point, measures_nodup, fun m _ => tracks m, fun m apart =>
        absurd (mem_measures m) apart⟩
  | loads m rest point stage =>
      have pending : p.pending = m :: rest := by
        rw [Station.pending, stage]
      obtain ⟨-, distinct, kept, none⟩ := keeps
      rw [pending] at distinct kept none
      exact ⟨fun _ => point, distinct, kept, none⟩
  | stores m seen rest point stage =>
      have pending : p.pending = m :: rest := by
        rw [Station.pending, stage]
      have distinct := keeps.distinct
      rw [pending, List.nodup_cons] at distinct
      refine ⟨fun _ => point, distinct.2, fun n inside => ?_, fun n apart => ?_⟩
      · have other : n ≠ m := fun same => distinct.1 (same ▸ inside)
        simp only [Function.update_of_ne other]
        exact keeps.kept n (pending ▸ List.mem_cons_of_mem m inside)
      · by_cases own : n = m
        · simp only [own, Function.update_self]
        · simp only [Function.update_of_ne own]
          apply keeps.none
          rw [pending, List.mem_cons]
          exact not_or.mpr ⟨own, apart⟩
  | unlocks point stage =>
      refine keeps_of_idle rfl rfl fun m => keeps.none m ?_
      rw [Station.pending, stage]
      exact List.not_mem_nil
  | resumes k point =>
      have idle : p.loc.recording = false := by
        rw [point]
        rfl
      refine keeps_of_idle (keeps.unlocked (by simp [point])) ?_ (keeps.idle idle)
      cases k <;> rfl
  | begins point =>
      have idle : p.loc.recording = false := by
        rw [point]
        rfl
      exact keeps_of_idle (keeps.unlocked (by simp [point])) rfl (keeps.idle idle)
  | follows a folded surveyed moved => exact keeps.move folded moved

theorem accounts_shared (s : Measured Ptr) (p : Station Ptr) (a : Act Tid Ptr) :
    (s.accounts p a).stats = s.stats ∧ (s.accounts p a).locked = s.locked ∧
    (s.accounts p a).merged = s.merged ∧
    (s.accounts p a).numbers = s.numbers := by
  unfold Measured.accounts
  split
  · exact ⟨rfl, rfl, rfl, rfl⟩
  · split <;> exact ⟨rfl, rfl, rfl, rfl⟩
  · exact ⟨rfl, rfl, rfl, rfl⟩
  · exact ⟨rfl, rfl, rfl, rfl⟩

theorem Station.Keeps.locks (keeps : p.Keeps) (measured : Measures Tid s p s' p') :
    Locks (fun _ => 0) Measured.locked (fun _ => false) (fun p => p.stage.locking) s p s' p' := by
  cases measured with
  | reads task stage point outside =>
      exact .quiet rfl rfl rfl (outside.trans (keeps.unlocked (by simp [point])).symm)
  | surveys task numbers point ordered moved =>
      exact .quiet rfl rfl rfl (keeps.unlocked (by simp [point])).symm
  | locks point stage free =>
      exact .wrlock ⟨rfl, free⟩ ⟨rfl, rfl⟩ ⟨rfl, by rw [stage]; rfl⟩ ⟨rfl, rfl⟩
  | loads m rest point stage => exact .quiet rfl rfl rfl (by rw [stage]; rfl)
  | stores m seen rest point stage => exact .quiet rfl rfl rfl (by rw [stage]; rfl)
  | unlocks point stage =>
      refine .unlock (.inr (by rw [stage]; rfl)) ?_ ⟨rfl, rfl⟩
      split <;> exact ⟨rfl, rfl⟩
  | resumes k point => exact .quiet rfl rfl rfl rfl
  | begins point => exact .quiet rfl rfl rfl rfl
  | follows a folded surveyed moved =>
      exact .quiet rfl (accounts_shared s p a).2.1 rfl (keeps.unlocked folded).symm

theorem measures_stats (measured : Measures Tid s p s' p') :
    (s'.stats = s.stats ∧ s'.merged = s.merged) ∨ p.stage.locking = true := by
  cases measured with
  | stores m seen rest point stage => exact .inr (by rw [stage]; rfl)
  | follows a folded surveyed moved =>
      exact .inl ⟨(accounts_shared s p a).1, (accounts_shared s p a).2.2.1⟩
  | _ => exact .inl ⟨rfl, rfl⟩

theorem measures_seen (measured : Measures Tid s p s' p') {m : Measure} {seen : AmstatRange}
    {rest : List Measure} (unlocked : p.loc ≠ .fold → p.stage.locking = false)
    (stage : p'.stage = .store m seen rest) : seen = s'.stats m := by
  cases measured with
  | reads task stage point outside =>
      simp only at stage
      rw [stage] at outside
      cases outside
  | loads m rest point here =>
      cases stage
      rfl
  | resumes k point =>
      have outside := unlocked (by simp [point])
      rw [show p.stage = _ from stage] at outside
      cases outside
  | begins point =>
      have outside := unlocked (by simp [point])
      rw [show p.stage = _ from stage] at outside
      cases outside
  | _ => cases stage

end Stations

section Runs

variable [Fintype Tid] {c c' : Config Tid (Measured Ptr) (Station Ptr)}

structure Folding (c : Config Tid (Measured Ptr) (Station Ptr)) : Prop where
  keeps : ∀ t, (c.pc t).Keeps
  lock : Exclusive (fun _ => 0) Measured.locked (fun _ => false) (fun p => p.stage.locking) c
  seen : ∀ t m seen rest, (c.pc t).stage = .store m seen rest → seen = c.shared.stats m
  exact : ∀ m, Tame (c.shared.merged m) → Collects (c.shared.merged m) (c.shared.stats m)

theorem folding_start {config : PoolConfig Ptr} {pc : Tid → Loc Ptr} {main : Tid}
    (starting : Starting main pc) (unmeasured : Unmeasured config pc c) : Folding c := by
  have outside (t : Tid) : (c.pc t).stage.locking = false := by
    rw [(unmeasured.threads t).1]
    rfl
  have loc (t : Tid) : (c.pc t).loc = pc t := congrFun (congrArg Config.pc unmeasured.plain) t
  have idle := starting.all (fun l => l.recording = false) rfl rfl rfl
  refine ⟨fun t => keeps_of_idle (outside t)
    ((congrArg Loc.recording (loc t)).trans (idle t)) fun m => ?_,
    ⟨?_, ?_, ?_, ?_⟩, fun t m seen rest stage => ?_, fun m _ => ?_⟩
  · rw [(unmeasured.threads t).2]
  · exact (Interleaving.count_eq_zero.mpr fun t => Bool.false_ne_true).symm
  · intro t inside
    cases (outside t).symm.trans inside
  · rw [Interleaving.count_eq_zero.mpr fun t => by simp [outside t]]
    exact Nat.zero_le 1
  · exact fun _ => rfl
  · cases (unmeasured.threads t).1.symm.trans stage
  · rw [unmeasured.merged, unmeasured.stats]
    exact collects_init

variable [DecidableEq Tid]

theorem Folding.step {t : Tid} {s : Measured Ptr} {p : Station Ptr} (folding : Folding c)
    (measured : Measures Tid c.shared (c.pc t) s p) : Folding ⟨s, Function.update c.pc t p⟩ := by
  have own := folding.keeps t
  have others {u : Tid} (other : u ≠ t) (locking : (c.pc u).stage.locking = true) :
      s.stats = c.shared.stats := by
    rcases measures_stats measured with same | inside
    · exact same.1
    · exact absurd inside (by simp [(folding.lock.others locking other.symm).2])
  constructor
  · exact (Function.forall_update_iff c.pc fun _ => Station.Keeps).mpr
      ⟨own.step measured, fun u _ => folding.keeps u⟩
  · exact folding.lock.step (own.locks measured) (by simp)
  · intro u m seen rest stage
    simp only at stage ⊢
    by_cases self : u = t
    · rw [self, Function.update_self] at stage
      exact measures_seen measured own.unlocked stage
    · rw [Function.update_of_ne self] at stage
      rw [others self (by rw [stage]; rfl)]
      exact folding.seen u m seen rest stage
  · intro m tame
    cases measured with
    | stores n seen rest point stage =>
        simp only at tame ⊢
        by_cases here : m = n
        · subst here
          rw [Function.update_self] at tame ⊢
          rw [Function.update_self, folding.seen t m seen rest stage]
          have pending : m ∈ (c.pc t).pending := by
            rw [Station.pending, stage]
            exact List.mem_cons_self
          have local' : Collects ((c.pc t).kept m) ((c.pc t).stats m) := by
            rw [own.kept m pending]
            exact collects_build tame.right.bounded
          exact (folding.exact m tame.left).added local' tame
        · rw [Function.update_of_ne here] at tame ⊢
          rw [Function.update_of_ne here]
          exact folding.exact m tame
    | follows a folded surveyed moved =>
        simp only [(accounts_shared c.shared (c.pc t) a).1,
          (accounts_shared c.shared (c.pc t) a).2.2.1] at tame ⊢
        exact folding.exact m tame
    | _ => exact folding.exact m tame

end Runs

end Libam.ThreadPool
