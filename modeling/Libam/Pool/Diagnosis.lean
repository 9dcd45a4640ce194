import Libam.Pool.Labels
import Libam.Pool.Sequential

/-! `ampool_elem_diag` while other threads allocate and free. -/

namespace Libam.Pool.Diagnosis

open Libam.Interleaving

section Model

/-- A callback, with what it does to its `user_data`. -/
abbrev Callback (UserData : Type) := AmpoolElemDiag → UserData → Amrc × UserData

def elemDiag (memory : Addr → AmpoolChunk) (c : Addr) : AmpoolElemDiag :=
  ⟨dataPtr c 0, (memory c).name, (memory c).size⟩

variable {Thread Observer UserData : Type}

/-- `_ampool_elem_diag` on a used list: the chunks that the callback is called for, and
its last result. -/
def elemDiagBucket (callback : Callback UserData) (memory : Addr → AmpoolChunk) :
    List Addr → UserData → List Addr × Amrc × UserData
  | [], data => ([], .success, data)
  | c :: chunks, data =>
      match callback (elemDiag memory c) data with
      | (.success, data) =>
          let (told, rc, data) := elemDiagBucket callback memory chunks data
          (c :: told, rc, data)
      | (rc, data) => ([c], rc, data)

/-- A running call of `ampool_elem_diag`: the buckets that it has still to go through. -/
structure DiagCall (UserData : Type) where
  callback : Callback UserData
  data : UserData
  buckets : List BucketId

/-- A pool and the calls of `ampool_elem_diag` on it. `requests` has the request that owns a chunk
on a used list, and `reports` what the callbacks were told, each with the request that owned the
element then. -/
structure Diagnosed (Thread Observer UserData : Type) where
  pool : Ampool Thread
  requests : Addr → Option Request
  calls : Observer → Option (DiagCall UserData)
  reports : List (AmpoolElemDiag × Option Request)

def diagnosed (Thread Observer UserData : Type) (memory : Addr → AmpoolChunk) :
    Diagnosed Thread Observer UserData where
  pool := ampoolPoolAlloc Thread memory
  requests := fun _ => none
  calls := fun _ => none
  reports := []

/-- A step of the threads that allocate and free, a call of `ampool_elem_diag`, or the section of
such a call on its next bucket. -/
inductive Act (Thread Observer UserData : Type)
  | pool (a : Action Thread)
  | call (o : Observer) (callback : Option (Callback UserData)) (data : UserData)
  | bucket (o : Observer)

variable [DecidableEq Thread] [DecidableEq Observer]

def step (cfg : Config) (s : Diagnosed Thread Observer UserData)
    (a : Act Thread Observer UserData) : Option (Diagnosed Thread Observer UserData) :=
  match a with
  | .pool a => (Pool.step cfg s.pool a).map fun pool =>
      { s with pool := pool, requests := requestsAfter s.pool s.requests pool a }
  | .call o callback data =>
      if s.pool.fault.isSome || (s.calls o).isSome then none
      else match callback with
        | none => some s
        | some callback => some { s with
            calls := Function.update s.calls o (some ⟨callback, data, allBuckets⟩) }
  | .bucket o =>
      if s.pool.fault.isSome then none
      else match s.calls o with
        | none => none
        | some ⟨_, _, []⟩ => some { s with calls := Function.update s.calls o none }
        | some ⟨callback, data, b :: buckets⟩ =>
            let (told, rc, data) :=
              elemDiagBucket callback s.pool.memory (s.pool.buckets b).usedList data
            let next := if rc = .success then some ⟨callback, data, buckets⟩ else none
            some { s with
              calls := Function.update s.calls o next
              reports := s.reports ++ told.map fun c => (elemDiag s.pool.memory c, s.requests c) }

/-- The report has the name and the size of the request that owns the element. -/
def Current (report : AmpoolElemDiag × Option Request) : Prop :=
  report.2 = some ⟨report.1.elemName, report.1.elemSize⟩

instance (report : AmpoolElemDiag × Option Request) : Decidable (Current report) :=
  inferInstanceAs (Decidable (_ = _))

/-- No callback is called for a chunk whose name or size has still to be written. -/
def Written (s : Diagnosed Thread Observer UserData) (a : Act Thread Observer UserData)
    (_ : Diagnosed Thread Observer UserData) : Prop :=
  match a with
  | .bucket o => ∀ callback data b buckets, s.calls o = some ⟨callback, data, b :: buckets⟩ →
      ∀ c ∈ (elemDiagBucket callback s.pool.memory (s.pool.buckets b).usedList data).1,
        ¬ Unwritten s.pool c
  | _ => True

end Model

section Runs

variable {Thread Observer UserData : Type} {cfg : Config} {callback : Callback UserData}

theorem elemDiagBucket_told {memory : Addr → AmpoolChunk} {chunks : List Addr} {data : UserData}
    {c : Addr} (told : c ∈ (elemDiagBucket callback memory chunks data).1) : c ∈ chunks := by
  induction chunks generalizing data with
  | nil => simp [elemDiagBucket] at told
  | cons d chunks ih =>
      rw [elemDiagBucket] at told
      split at told
      · rcases List.mem_cons.mp told with rfl | rest
        · exact List.mem_cons_self
        · exact List.mem_cons_of_mem _ (ih rest)
      · rw [List.mem_singleton.mp told]
        exact List.mem_cons_self

variable [DecidableEq Thread] [DecidableEq Observer] {s s' : Diagnosed Thread Observer UserData}
  {a : Act Thread Observer UserData}

theorem labelled_step (inv : Labelled s.pool s.requests) (fired : step cfg s a = some s') :
    Labelled s'.pool s'.requests := by
  cases a with
  | pool a =>
      obtain ⟨pool, moved, rfl⟩ := Option.map_eq_some_iff.mp fired
      exact inv.step moved
  | call o callback data =>
      simp only [step] at fired
      split at fired
      · cases fired
      · cases callback <;> cases fired <;> exact inv
  | bucket o =>
      simp only [step] at fired
      split at fired
      · cases fired
      · split at fired <;> cases fired <;> exact inv

theorem current_step (inv : Labelled s.pool s.requests)
    (told : ∀ report ∈ s.reports, Current report) (fired : step cfg s a = some s')
    (written : Written s a s') : ∀ report ∈ s'.reports, Current report := by
  cases a with
  | pool a =>
      obtain ⟨pool, -, rfl⟩ := Option.map_eq_some_iff.mp fired
      exact told
  | call o callback data =>
      simp only [step] at fired
      split at fired
      · cases fired
      · cases callback <;> cases fired <;> exact told
  | bucket o =>
      simp only [step] at fired
      split at fired
      · cases fired
      split at fired
      · cases fired
      · cases fired
        exact told
      · rename_i callback data b buckets running
        cases fired
        intro report member
        rcases List.mem_append.mp member with before | new
        · exact told report before
        · obtain ⟨c, here, rfl⟩ := List.mem_map.mp new
          exact inv.current (elemDiagBucket_told here)
            (written callback data b buckets running c here)

/-- While callbacks are called only for chunks that have their names and sizes, each is told the
name and the size of the request that owns the element. -/
theorem ampool_elem_diag_current {memory : Addr → AmpoolChunk}
    {actions : List (Act Thread Observer UserData)}
    (run : Run (step cfg) Written (diagnosed Thread Observer UserData memory) actions s) :
    ∀ report ∈ s.reports, Current report := by
  have inv : Labelled s.pool s.requests ∧ ∀ report ∈ s.reports, Current report :=
    Run.invariant (fun s => Labelled s.pool s.requests ∧ ∀ report ∈ s.reports, Current report)
      ⟨labelled_init memory, fun _ member => by cases member⟩ (fun _ _ _ inv fired written =>
        ⟨labelled_step inv.1 fired, current_step inv.1 inv.2 fired written⟩) run
  exact inv.2

def accept : Callback Unit := fun _ data => (.success, data)

def garbage : AmpoolChunk := { AmpoolChunk.zero with name := "garbage", size := 7 }

def join : List (Action Bool) := [.alloc true 16 "block", .advance true (some (64, garbage))]

def joinAgain : List (Action Bool) :=
  allocAndFree ++ steps false 22 ++ [.alloc true 16 "second", .advance true none]

/-- The actions of the threads, then a call of `ampool_elem_diag` with its first section. -/
def thenDiag (actions : List (Action Bool)) : List (Act Bool Unit Unit) :=
  actions.map .pool ++ [.call () (some accept) (), .bucket ()]

def settledPc : Pc → Bool
  | .allocName .. | .allocSize _ => false
  | _ => true

/-- A diagnosis after the name and the size are written. -/
theorem ampool_elem_diag_current_block : ∃ s : Diagnosed Bool Unit Unit,
    s.reports = [(⟨96, "block", 16⟩, some ⟨"block", 16⟩)] ∧ ∀ report ∈ s.reports,
    Current report := by
  have computed : (runs (step ⟨0x12345678, true⟩) (diagnosed Bool Unit Unit fun _ => .zero)
      (thenDiag (join ++ steps true 2))).map Diagnosed.reports =
      some [(⟨96, "block", 16⟩, some ⟨"block", 16⟩)] := by decide +kernel
  have checked : allowed (step ⟨0x12345678, true⟩) (fun s a _ => match a with
      | .bucket _ => settledPc (s.pool.pc false) && settledPc (s.pool.pc true)
      | _ => true) (diagnosed Bool Unit Unit fun _ => .zero)
          (thenDiag (join ++ steps true 2)) = true := by
    decide +kernel
  obtain ⟨s, computed, reports⟩ := Option.map_eq_some_iff.mp computed
  refine ⟨s, reports, ampool_elem_diag_current
    (run_of_runs _ (fun s a s' fine => ?_) computed checked)⟩
  cases a with
  | pool | call => trivial
  | bucket o =>
      simp only [Bool.and_eq_true] at fine
      rintro _ _ _ _ _ c _ ⟨i, call, _, at'⟩
      have settled : settledPc (s.pool.pc i) = true := by cases i <;> simp [fine]
      rcases at' with ⟨name, at'⟩ | at' <;> simp [at', settledPc] at settled

/-- A callback is told what was in the memory that `malloc` gave, or the name of
an earlier owner. -/
theorem ampool_elem_diag_early :
    (∃ actions s, Run (step ⟨0x12345678, true⟩) Any
      (diagnosed Bool Unit Unit fun _ => .zero) actions s ∧
      s.reports = [(⟨96, "garbage", 7⟩, some ⟨"block", 16⟩)] ∧ ¬ ∀ report ∈ s.reports,
      Current report) ∧
    ∃ actions s, Run (step ⟨0x12345678, true⟩) Any
      (diagnosed Bool Unit Unit fun _ => .zero) actions s ∧
      s.reports = [(⟨96, "first", 16⟩, some ⟨"second", 16⟩)] ∧ ¬ ∀ report ∈ s.reports,
      Current report := by
  have fresh : (runs (step ⟨0x12345678, true⟩) (diagnosed Bool Unit Unit fun _ => .zero)
      (thenDiag join)).map Diagnosed.reports =
      some [(⟨96, "garbage", 7⟩, some ⟨"block", 16⟩)] := by decide +kernel
  have reused : (runs (step ⟨0x12345678, true⟩) (diagnosed Bool Unit Unit fun _ => .zero)
      (thenDiag joinAgain)).map Diagnosed.reports =
      some [(⟨96, "first", 16⟩, some ⟨"second", 16⟩)] := by decide +kernel
  obtain ⟨s, computed, reports⟩ := Option.map_eq_some_iff.mp fresh
  obtain ⟨s', computed', reports'⟩ := Option.map_eq_some_iff.mp reused
  refine ⟨⟨_, s, run_any computed, reports, fun told => ?_⟩, _, s', run_any computed', reports',
    fun told => ?_⟩
  · rw [reports] at told
    exact absurd (told _ List.mem_cons_self) (by decide)
  · rw [reports'] at told
    exact absurd (told _ List.mem_cons_self) (by decide)

end Runs

end Libam.Pool.Diagnosis
