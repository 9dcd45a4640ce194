import Libam.Log.Model
import Mathlib.Algebra.Order.BigOperators.Group.Finset
import Mathlib.Algebra.Order.Group.Multiset
import Mathlib.Data.Fin.VecNotation

/-! Where the lines of the log thread's buffer are. -/

namespace Libam.Log

open Libam.Interleaving

variable {Ptr : Type}

/-- The line that a thread has taken from one of the queues of the log thread. -/
def Loc.held : Loc Ptr → Option ℕ
  | .copy _ (.line i) _ => some i
  | .enqueue _ (.line i) _ => some i
  | .lockLine i => some i
  | .deliver i _ => some i
  | .passOn i _ _ _ => some i
  | .enq i => some i
  | _ => none

def Loc.lines (l : Loc Ptr) : Multiset ℕ := (l.held.toList : List ℕ)

def LogThread.queued (thread : LogThread) : Multiset ℕ :=
  (thread.outQueue : Multiset ℕ) + (thread.inQueue : List ℕ)

theorem queued_initial (size : ℕ) (lines : ℕ → AmlogLine) :
    LogThread.queued ⟨true, [], List.range size, lines⟩ = (List.range size : Multiset ℕ) :=
  add_zero _

def Loc.threaded : Loc Ptr → Bool
  | .deq => true
  | .readRunning => true
  | .lockLine _ => true
  | .deliver _ _ => true
  | .passOn _ _ _ _ => true
  | .enq _ => true
  | .ended => true
  | _ => false

section Moves

variable [DecidableEq Ptr] {g g' : Logger Ptr} {l l' : Loc Ptr} {a : Act Ptr}

theorem move_lines (moved : Move g l a g' l') {thread' : LogThread}
    (here' : g'.logThread = some thread') :
    ∃ thread, g.logThread = some thread ∧ thread'.queued + l'.lines = thread.queued + l.lines := by
  cases moved with
  | takeLine call sink rest thread i out own here first =>
      cases here'
      refine ⟨thread, here, ?_⟩
      simp only [LogThread.queued, Loc.lines, Loc.held, first, Option.toList_some,
        Option.toList_none, ← Multiset.cons_coe, ← Multiset.singleton_add, Multiset.coe_nil]
      abel
  | copyLine call i rest thread here =>
      cases here'
      exact ⟨thread, here, rfl⟩
  | placeLine call i rest thread here room =>
      cases here'
      refine ⟨thread, here, ?_⟩
      simp only [LogThread.queued, Loc.lines, Loc.held, ← Multiset.coe_add, Option.toList_some,
        Option.toList_none]
      abel
  | deqLine thread i rest here first =>
      cases here'
      refine ⟨thread, here, ?_⟩
      simp only [LogThread.queued, Loc.lines, Loc.held, first, Option.toList_some,
        Option.toList_none, ← Multiset.cons_coe, ← Multiset.singleton_add, Multiset.coe_nil]
      abel
  | enqLine i thread here room =>
      cases here'
      refine ⟨thread, here, ?_⟩
      simp only [LogThread.queued, Loc.lines, Loc.held, ← Multiset.coe_add, Option.toList_some,
        Option.toList_none]
      abel
  | stop thread here =>
      cases here'
      exact ⟨thread, here, rfl⟩
  | release => cases here'
  | noLine _ _ _ _ _ _ _ _ _ missed | noForeign _ _ _ _ _ _ _ _ missed =>
      obtain ⟨aborted, rfl, rfl | rfl⟩ := noLine_cases missed <;> exact ⟨thread', here', rfl⟩
  | _ => exact ⟨thread', here', rfl⟩

theorem move_threaded (moved : Move g l a g' l') : l'.threaded = l.threaded := by
  cases moved with
  | noLine _ _ _ _ _ _ _ _ _ missed | noForeign _ _ _ _ _ _ _ _ missed =>
      obtain ⟨-, -, rfl | rfl⟩ := noLine_cases missed <;> rfl
  | _ => rfl

end Moves

section Runs

variable {Tid : Type} [Fintype Tid] [DecidableEq Tid] [DecidableEq Ptr] {log : Tid}
  {start c c' : Config Tid (Logger Ptr) (Loc Ptr)} {acts : List (Tid × Act Ptr)}
  {Ok : Config Tid (Logger Ptr) (Loc Ptr) → Tid × Act Ptr → Config Tid (Logger Ptr)
    (Loc Ptr) → Prop}

def Accounted (c : Config Tid (Logger Ptr) (Loc Ptr)) : Prop :=
  ∀ thread, c.shared.logThread = some thread →
    (List.range threadLineBufferSize : Multiset ℕ) = thread.queued + tally Loc.lines c.pc

omit [DecidableEq Ptr] in
theorem accounted_started (started : Started log start) : Accounted start := by
  obtain ⟨⟨g, flags, outcomes, -, threaded, success⟩, atLog, others⟩ := started
  have shared := init_success threaded success
  intro thread here
  have none : tally Loc.lines start.pc = 0 := by
    apply tally_eq_zero _ _
    intro t
    by_cases isLog : t = log
    · rw [isLog, atLog]
      rfl
    · rw [others t isLog]
      rfl
  rw [shared] at here
  calc (List.range threadLineBufferSize : Multiset ℕ)
      = LogThread.queued ⟨true, [], List.range threadLineBufferSize, fun _ => clearLine⟩ :=
        (queued_initial threadLineBufferSize _).symm
    _ = thread.queued := congrArg LogThread.queued (Option.some.inj here)
    _ = thread.queued + tally Loc.lines start.pc := by rw [none, add_zero]

theorem Accounted.step {t : Tid} {a : Act Ptr} (accounted : Accounted c)
    (fired : step c (t, a) = some c') : Accounted c' := by
  obtain ⟨g, l, moved, rfl⟩ := step_cases fired
  intro thread' here'
  obtain ⟨thread, here, balance⟩ := move_lines moved here'
  apply tally_balance Loc.lines (accounted thread here)
  rw [add_assoc, add_assoc, balance]

theorem run_accounted (started : Started log start) (run : Run step Ok start acts c) :
    Accounted c := by
  apply run.invariant Accounted (accounted_started started)
  intro before act after accounted fired _
  exact accounted.step fired

omit [Fintype Tid] in
theorem run_threaded (started : Started log start) (run : Run step Ok start acts c) (t : Tid) :
    (c.pc t).threaded = true ↔ t = log := by
  refine run.invariant (fun c => ∀ t, (c.pc t).threaded = true ↔ t = log) (fun t => ?_)
    (fun before act after roles fired _ t => ?_) t
  · by_cases isLog : t = log
    · rw [isLog, started.thread]
      exact iff_of_true rfl rfl
    · rw [started.others t isLog]
      exact iff_of_false (by simp [Loc.threaded]) isLog
  · obtain ⟨g, l, moved, rfl⟩ := step_cases fired
    show (Function.update before.pc act.1 l t).threaded = true ↔ t = log
    by_cases mover : t = act.1
    · subst mover
      rw [Function.update_self, move_threaded moved]
      exact roles act.1
    · rw [Function.update_of_ne mover]
      exact roles t

end Runs

section Places

variable {Tid : Type} [Fintype Tid] {log : Tid} {start c : Config Tid (Logger Ptr) (Loc Ptr)}
  {thread : LogThread}

inductive Place (Tid : Type)
  | outQueue
  | inQueue
  | thread (t : Tid)
  deriving DecidableEq, Repr

def InPlace (c : Config Tid (Logger Ptr) (Loc Ptr)) (thread : LogThread) (i : ℕ) : Place Tid → Prop
  | .outQueue => i ∈ thread.outQueue
  | .inQueue => i ∈ thread.inQueue
  | .thread t => (c.pc t).held = some i

def Loc.writes : Loc Ptr → Option ℕ
  | .copy _ (.line i) _ => some i
  | _ => none

def Loc.reads : Loc Ptr → Option ℕ
  | .deliver i (_ :: _) => some i
  | _ => none

/-- Every line is in one place, so that no queue is ever too short and nobody writes a
line that is read. -/
structure Conserved (c : Config Tid (Logger Ptr) (Loc Ptr)) (thread : LogThread) : Prop where
  once : ∀ i < threadLineBufferSize, ∃! place, InPlace c thread i place
  known : ∀ i place, InPlace c thread i place → i < threadLineBufferSize
  distinct : thread.outQueue.Nodup ∧ thread.inQueue.Nodup
  short : thread.outQueue.length ≤ threadLineBufferSize ∧
    thread.inQueue.length ≤ threadLineBufferSize
  roomIn : ∀ t call i rest, c.pc t = .enqueue call (.line i) rest →
    thread.inQueue.length < threadLineBufferSize
  roomOut : ∀ t i, c.pc t = .enq i → thread.outQueue.length < threadLineBufferSize
  apart : ∀ t u i, (c.pc t).writes = some i → (c.pc u).reads ≠ some i

theorem held_of_writes {l : Loc Ptr} {i : ℕ} (writes : l.writes = some i) : l.held = some i ∧
    l.threaded = false := by
  unfold Loc.writes at writes
  split at writes
  · cases writes
    exact ⟨rfl, rfl⟩
  · cases writes

theorem held_of_reads {l : Loc Ptr} {i : ℕ} (reads : l.reads = some i) : l.held = some i ∧
    l.threaded = true := by
  unfold Loc.reads at reads
  split at reads
  · cases reads
    exact ⟨rfl, rfl⟩
  · cases reads

theorem count_lines (l : Loc Ptr) (i : ℕ) : l.lines.count i = if l.held = some i then 1 else 0 := by
  rw [Loc.lines]
  cases l.held with
  | none => rfl
  | some j => simp [Multiset.count_singleton, eq_comm]

theorem Accounted.count (accounted : Accounted c) (here : c.shared.logThread = some thread)
    (i : ℕ) :
    (if i < threadLineBufferSize then 1 else 0) = thread.outQueue.count i + thread.inQueue.count i +
      count (fun l : Loc Ptr => l.held = some i) c.pc := by
  have balance := congrArg (Multiset.count i) (accounted thread here)
  rw [Multiset.coe_count, LogThread.queued, Multiset.count_add, Multiset.count_add,
    Multiset.coe_count, Multiset.coe_count, tally, Multiset.count_sum'] at balance
  rw [count_eq_tally, tally]
  have held (t : Tid) : (c.pc t).lines.count i = if (c.pc t).held = some i then 1 else 0 :=
    count_lines _ i
  simp only [held] at balance
  rw [← balance]
  generalize threadLineBufferSize = size
  split
  · next below => exact (List.count_eq_one_of_mem List.nodup_range (List.mem_range.mpr below)).symm
  · next above => exact (List.count_eq_zero.mpr fun inside => above (List.mem_range.mp inside)).symm

theorem Accounted.length (accounted : Accounted c) (here : c.shared.logThread = some thread) :
    threadLineBufferSize = thread.outQueue.length + thread.inQueue.length +
    (tally Loc.lines c.pc).card := by
  have balance := congrArg Multiset.card (accounted thread here)
  rwa [Multiset.coe_card, List.length_range, LogThread.queued, Multiset.card_add, Multiset.card_add,
    Multiset.coe_card, Multiset.coe_card] at balance

theorem lines_le (c : Config Tid (Logger Ptr) (Loc Ptr)) (t : Tid) :
    (c.pc t).lines.card ≤ (tally Loc.lines c.pc).card :=
  Multiset.card_le_card
    (Finset.single_le_sum (f := fun t => (c.pc t).lines) (fun _ _ => Multiset.zero_le _)
      (Finset.mem_univ t))

theorem Accounted.once (accounted : Accounted c) (here : c.shared.logThread = some thread) {i : ℕ}
    (below : i < threadLineBufferSize) : ∃! place, InPlace c thread i place := by
  have total := accounted.count here i
  rw [if_pos below] at total
  have outside {queue : List ℕ} (none : queue.count i = 0) : i ∉ queue := List.count_eq_zero.mp none
  have nobody (none : Interleaving.count (fun l : Loc Ptr => l.held = some i) c.pc = 0) (t : Tid) :
      (c.pc t).held ≠ some i := count_eq_zero.mp none t
  by_cases out : i ∈ thread.outQueue
  · have one := List.count_pos_iff.mpr out
    refine ⟨.outQueue, out, fun place atPlace => ?_⟩
    cases place with
    | outQueue => rfl
    | inQueue => exact absurd atPlace (outside (by omega))
    | thread t => exact absurd atPlace (nobody (by omega) t)
  by_cases inn : i ∈ thread.inQueue
  · have one := List.count_pos_iff.mpr inn
    refine ⟨.inQueue, inn, fun place atPlace => ?_⟩
    cases place with
    | outQueue => exact absurd atPlace out
    | inQueue => rfl
    | thread t => exact absurd atPlace (nobody (by omega) t)
  · have none := List.count_eq_zero.mpr out
    have none' := List.count_eq_zero.mpr inn
    obtain ⟨t, holds⟩ := count_pos.mp
      (show 0 < Interleaving.count (fun l : Loc Ptr => l.held = some i) c.pc by omega)
    refine ⟨.thread t, holds, fun place atPlace => ?_⟩
    cases place with
    | outQueue => exact absurd atPlace out
    | inQueue => exact absurd atPlace inn
    | thread u =>
        have few : Interleaving.count (fun l : Loc Ptr => l.held = some i) c.pc ≤ 1 := by omega
        exact congrArg Place.thread (count_le_one few atPlace holds)

theorem Accounted.conserved (accounted : Accounted c) (here : c.shared.logThread = some thread) :
    Conserved c thread := by
  have known (i : ℕ) (place : Place Tid) (atPlace : InPlace c thread i place) :
      i < threadLineBufferSize := by
    by_contra above
    have total := accounted.count here i
    rw [if_neg above] at total
    cases place with
    | outQueue => exact absurd atPlace (List.count_eq_zero.mp (by omega))
    | inQueue => exact absurd atPlace (List.count_eq_zero.mp (by omega))
    | thread t =>
        have nobody : Interleaving.count (fun l : Loc Ptr => l.held = some i) c.pc = 0 := by omega
        exact count_eq_zero.mp nobody t atPlace
  have single (i : ℕ) : thread.outQueue.count i ≤ 1 ∧ thread.inQueue.count i ≤ 1 := by
    have total := accounted.count here i
    split at total <;> omega
  have length := accounted.length here
  refine ⟨fun i below => accounted.once here below, known, ?_, ?_, ?_, ?_, ?_⟩
  · exact ⟨List.nodup_iff_count_le_one.mpr fun i => (single i).1,
      List.nodup_iff_count_le_one.mpr fun i => (single i).2⟩
  · omega
  · intro t call i rest point
    have one : (c.pc t).lines.card = 1 := by rw [point]; rfl
    have held := lines_le c t
    omega
  · intro t i point
    have one : (c.pc t).lines.card = 1 := by rw [point]; rfl
    have held := lines_le c t
    omega
  · intro t u i writes reads
    obtain ⟨holdsT, notThread⟩ := held_of_writes writes
    obtain ⟨holdsU, isThread⟩ := held_of_reads reads
    have unique := (accounted.once here (known i (.thread t) holdsT)).unique
      (show InPlace c thread i (.thread t) from holdsT)
      (show InPlace c thread i (.thread u) from holdsU)
    cases unique
    cases notThread.symm.trans isThread

variable [DecidableEq Tid] [DecidableEq Ptr] {acts : List (Tid × Act Ptr)}

/-- For as long as there is a log thread, in every interleaving, each line of its buffer is in
exactly one place: in a queue, with one call of `amlog_sink_message`, or with the log thread. So a
queue has room for each line that is put into it, and no line is written while it is read. -/
theorem amlog_lines_conserved (started : Started log start) (run : Run step Any start acts c)
    (here : c.shared.logThread = some thread) :
    Conserved c thread ∧ ∀ t, (c.pc t).threaded = true ↔ t = log :=
  ⟨(run_accounted started run).conserved here, run_threaded started run⟩

def sampleSink : DirectSink ℕ := ⟨7, 0xFFFFFFFFFFFFFFFF, 0⟩

def sampleLogger (out : List ℕ) : Logger ℕ where
  useSourceLocation := true
  abortOnError := false
  blockOnError := false
  logThread := some ⟨true, [], out, fun _ => clearLine⟩
  directSinks := [sampleSink]
  queuedSinks := [threadSink]
  directReaders := 0
  queuedReaders := 0
  foreign := fun _ => []
  foreignLines := fun _ => clearLine
  threadDone := false
  aborted := false
  logged := []
  placed := []
  received := fun _ => []

theorem sample_init {out : List ℕ} (free : out = List.range threadLineBufferSize) :
    amlogSinkInit { sampleLogger [] with logThread := none, queuedSinks := [] }
      ⟨true, false, false, false⟩
      ⟨true, true, true, true, true⟩ = some (sampleLogger out, .success) := by
  unfold amlogSinkInit
  generalize threadLineBufferSize = size at free ⊢
  rw [free, fillOutQueue_spec]
  rfl

theorem sample_started : ∃ out : List ℕ, out.length < threadLineBufferSize ∧
    Started (0 : Fin 2) ⟨sampleLogger (0 :: out), ![.deq, .outside]⟩ := by
  obtain ⟨out, free⟩ : ∃ out, 0 :: out = List.range threadLineBufferSize :=
    ⟨_, List.range_succ_eq_map.symm⟩
  have length : out.length + 1 = threadLineBufferSize := by
    rw [← List.length_cons, free, List.length_range]
  refine ⟨out, by omega, ⟨_, _, _, ?_, rfl, sample_init free⟩, rfl, ?_⟩
  · exact ⟨nofun, List.nodup_singleton _, ⟨rfl, rfl, rfl⟩, rfl, rfl, fun _ => rfl⟩
  · intro t other
    match t with
    | 0 => exact absurd rfl other
    | 1 => rfl

def sampleRequest : Request := ⟨some "main.c", 3, 1, 0, some [104, 105]⟩

/-- A call has taken the first line. -/
theorem amlog_lines_conserved_sample :
    ∃ (c : Config (Fin 2) (Logger ℕ) (Loc ℕ)) (thread : LogThread),
    (c.pc 1).writes = some 0 ∧ Conserved c thread ∧ ∀ t, (c.pc t).threaded = true ↔ t = 0 := by
  obtain ⟨out, -, started⟩ := sample_started
  obtain ⟨c, thread, here, writes, run⟩ : ∃ c thread, c.shared.logThread = some thread ∧
      (c.pc 1).writes = some 0 ∧
      Run step Any ⟨sampleLogger (0 :: out), ![.deq, .outside]⟩
        [(1, .message sampleRequest clearLine), (1, .tick), (1, .clock 5), (1, .tick)] c :=
    ⟨_, _, rfl, rfl, run_any rfl⟩
  exact ⟨c, thread, writes, amlog_lines_conserved started run here⟩

end Places

end Libam.Log
