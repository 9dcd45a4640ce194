import Libam.Log.Delivery

/-! What `amlog_sink_term` leaves behind: the log thread has passed on every line unless it stops
while its queue has one. -/

namespace Libam.Log

open Libam.Interleaving

variable {Ptr : Type} [DecidableEq Ptr] {g g' : Logger Ptr} {l l' : Loc Ptr} {a : Act Ptr}
  {thread thread' : LogThread}

def Loc.logging : Loc Ptr → Bool
  | .lockQueued _ => true
  | .queued _ _ => true
  | .dequeue _ _ _ => true
  | .copy _ _ _ => true
  | .enqueue _ _ _ => true
  | .readThread _ => true
  | .lockDirect _ => true
  | .direct _ _ => true
  | .callback _ _ _ => true
  | _ => false

def Loc.terminating : Loc Ptr → Bool
  | .stop => true
  | .join => true
  | .unregister => true
  | .release => true
  | _ => false

def Loc.joined : Loc Ptr → Bool
  | .unregister => true
  | .release => true
  | _ => false

section Moves

theorem move_logging (moved : Move g l a g' l') (logs : l'.logging = true) :
    l.logging = true ∨ ∃ request stack, a = .message request stack := by
  cases moved with
  | message request stack => exact .inr ⟨request, stack, rfl⟩
  | noLine => exact .inl rfl
  | noForeign => exact .inl rfl
  | _ => first | exact .inl rfl | cases logs

theorem move_terminating (moved : Move g l a g' l') (ends : l'.terminating = true) :
    l.terminating = true ∨ a = .term := by
  cases moved with
  | term => exact .inr rfl
  | noLine _ _ _ _ _ _ _ _ _ missed | noForeign _ _ _ _ _ _ _ _ missed =>
      obtain ⟨-, -, rfl | rfl⟩ := noLine_cases missed <;> cases ends
  | _ => first | exact .inl rfl | cases ends

theorem terminating_lasts (moved : Move g l a g' l') (ends : l.terminating = true)
    (here' : g'.logThread = some thread') : l'.terminating = true := by
  cases moved with
  | release => cases here'
  | _ => first | rfl | cases ends

theorem move_joined (moved : Move g l a g' l') (joined : l'.joined = true) :
    l.joined = true ∨ g.threadDone = true := by
  cases moved with
  | join finished => exact .inr finished
  | noLine _ _ _ _ _ _ _ _ _ missed | noForeign _ _ _ _ _ _ _ _ missed =>
      obtain ⟨-, -, rfl | rfl⟩ := noLine_cases missed <;> cases joined
  | _ => first | exact .inl rfl | cases joined

theorem move_keepRunning (moved : Move g l a g' l') (here' : g'.logThread = some thread')
    (stops : thread'.keepRunning = false) :
    l'.terminating = true ∨ ∃ thread, g.logThread = some thread ∧ thread.keepRunning = false := by
  cases moved with
  | takeLine call sink rest thread i out own here first =>
      cases here'
      exact .inr ⟨thread, here, stops⟩
  | copyLine call i rest thread here =>
      cases here'
      exact .inr ⟨thread, here, stops⟩
  | placeLine call i rest thread here room =>
      cases here'
      exact .inr ⟨thread, here, stops⟩
  | deqLine thread i rest here first =>
      cases here'
      exact .inr ⟨thread, here, stops⟩
  | enqLine i thread here room =>
      cases here'
      exact .inr ⟨thread, here, stops⟩
  | stop => exact .inl rfl
  | release => cases here'
  | noLine _ _ _ _ _ _ _ _ _ missed | noForeign _ _ _ _ _ _ _ _ missed =>
      obtain ⟨aborted, rfl, -⟩ := noLine_cases missed
      exact .inr ⟨thread', here', stops⟩
  | _ => exact .inr ⟨thread', here', stops⟩

theorem move_threadDone (moved : Move g l a g' l') (finished : g'.threadDone = true) :
    g.threadDone = true ∨ l = .readRunning ∧ l' = .ended ∧ g' = { g with threadDone := true } ∧
      ∃ thread, g.logThread = some thread ∧ thread.keepRunning = false := by
  cases moved with
  | stopped thread here stops =>
      exact .inr ⟨rfl, rfl, rfl, thread, here, Bool.eq_false_iff.mpr stops⟩
  | noLine _ _ _ _ _ _ _ _ _ missed | noForeign _ _ _ _ _ _ _ _ missed =>
      obtain ⟨aborted, rfl, -⟩ := noLine_cases missed
      exact .inl finished
  | _ => exact .inl finished

theorem stopped_ends (moved : Move g .readRunning a g' l') (here : g.logThread = some thread)
    (stops : thread.keepRunning = false) : g'.threadDone = true := by
  cases moved with
  | running _ at' keeps =>
      cases here.symm.trans at'
      cases stops.symm.trans keeps
  | stopped => rfl

theorem keepRunning_lasts (moved : Move g l a g' l') (here : g.logThread = some thread)
    (here' : g'.logThread = some thread') (stops : thread.keepRunning = false) :
    thread'.keepRunning = false := by
  cases moved with
  | takeLine _ _ _ _ _ _ _ at' =>
      cases here.symm.trans at'
      cases here'
      exact stops
  | copyLine _ _ _ _ at' =>
      cases here.symm.trans at'
      cases here'
      exact stops
  | placeLine _ _ _ _ at' =>
      cases here.symm.trans at'
      cases here'
      exact stops
  | deqLine _ _ _ at' =>
      cases here.symm.trans at'
      cases here'
      exact stops
  | enqLine _ _ at' =>
      cases here.symm.trans at'
      cases here'
      exact stops
  | stop =>
      cases here'
      rfl
  | release => cases here'
  | noLine _ _ _ _ _ _ _ _ _ missed | noForeign _ _ _ _ _ _ _ _ missed =>
      obtain ⟨aborted, rfl, -⟩ := noLine_cases missed
      cases here.symm.trans here'
      exact stops
  | _ =>
      cases here.symm.trans here'
      exact stops

theorem threadDone_lasts (moved : Move g l a g' l') (finished : g.threadDone = true) :
    g'.threadDone = true := by
  cases moved with
  | stopped => rfl
  | noLine _ _ _ _ _ _ _ _ _ missed | noForeign _ _ _ _ _ _ _ _ missed =>
      obtain ⟨aborted, rfl, -⟩ := noLine_cases missed
      exact finished
  | _ => exact finished

theorem move_gone (moved : Move g l a g' l') (left : g'.logThread = none) : g.logThread = none ∨
    l = .release := by
  cases moved with
  | release => exact .inr rfl
  | takeLine => cases left
  | copyLine => cases left
  | placeLine => cases left
  | deqLine => cases left
  | enqLine => cases left
  | stop => cases left
  | noLine _ _ _ _ _ _ _ _ _ missed | noForeign _ _ _ _ _ _ _ _ missed =>
      obtain ⟨aborted, rfl, -⟩ := noLine_cases missed
      exact .inl left
  | _ => exact .inl left

theorem ended_still (moved : Move g l a g' l') : l ≠ .ended := by
  cases moved <;> nofun

theorem move_record (moved : Move g l a g' l') (silent : l.logging = false)
    (foreign : l.threaded = false) :
    g'.placed = g.placed ∧ g'.received = g.received ∧ g'.directSinks = g.directSinks := by
  cases moved with
  | placeLine => cases silent
  | callback => cases silent
  | passOn => cases foreign
  | noLine => cases silent
  | noForeign => cases silent
  | _ => exact ⟨rfl, rfl, rfl⟩

end Moves

section Runs

variable {Tid : Type} [DecidableEq Tid] {log t : Tid}
  {start c c' : Config Tid (Logger Ptr) (Loc Ptr)} {acts : List (Tid × Act Ptr)}

/-- `amlog_sink_term` is called when every call of `amlog_sink_message` has returned,
and none follows. -/
def Orderly (c : Config Tid (Logger Ptr) (Loc Ptr)) (act : Tid × Act Ptr)
    (_ : Config Tid (Logger Ptr) (Loc Ptr)) : Prop :=
  (act.2 = .term → ∀ u, (c.pc u).logging = false) ∧
  (∀ request stack, act.2 = .message request stack →
    c.shared.logThread.isSome = true ∧ ∀ u, (c.pc u).terminating = false)

def Settled (g : Logger Ptr) (thread : LogThread) : Prop :=
  ∀ i ∈ thread.inQueue, ∀ sink ∈ g.directSinks, sink.admits (thread.lineBuffer i) = false

/-- The log thread does not stop while a line in its queue is for a direct sink. -/
def Attended (c : Config Tid (Logger Ptr) (Loc Ptr)) (act : Tid × Act Ptr)
    (c' : Config Tid (Logger Ptr) (Loc Ptr)) : Prop :=
  Orderly c act c' ∧ (c.pc act.1 = .readRunning → ∀ thread, c.shared.logThread = some thread →
    thread.keepRunning = false → Settled c.shared thread)

structure Phases (log : Tid) (c : Config Tid (Logger Ptr) (Loc Ptr)) : Prop where
  quiet : ∀ t u, (c.pc t).terminating = true → (c.pc u).logging = false
  stopped : ∀ thread, c.shared.logThread = some thread → thread.keepRunning = false →
    ∃ t, (c.pc t).terminating = true
  finished : c.shared.threadDone = true → c.pc log = .ended ∧
    ∀ thread, c.shared.logThread = some thread → thread.keepRunning = false
  joined : ∀ t, (c.pc t).joined = true → c.shared.threadDone = true
  gone : c.shared.logThread = none → c.shared.threadDone = true ∧ ∀ u, (c.pc u).logging = false

omit [DecidableEq Ptr] in
theorem phases_started (started : Started log start) : Phases log start := by
  obtain ⟨⟨g, flags, outcomes, -, threaded, success⟩, atLog, others⟩ := started
  have shared := init_success threaded success
  have outside (p : Loc Ptr → Bool) (atDeq : p .deq = false)
      (atOutside : p .outside = false) (t : Tid) :
      p (start.pc t) = false := by
    by_cases isLog : t = log
    · rw [isLog, atLog]
      exact atDeq
    · rw [others t isLog]
      exact atOutside
  have running : start.shared.threadDone = false := by rw [shared]
  refine ⟨?_, ?_, ?_, ?_, ?_⟩
  · intro t u ends
    cases ends.symm.trans (outside Loc.terminating rfl rfl t)
  · intro thread here stops
    rw [shared] at here
    rw [← Option.some.inj here] at stops
    cases stops
  · intro finished
    cases finished.symm.trans running
  · intro t joined
    cases joined.symm.trans (outside Loc.joined rfl rfl t)
  · intro none
    rw [shared] at none
    cases none

theorem update_cases {L : Type} (pc : Tid → L) (t : Tid) (l : L) (u : Tid) :
    (u = t ∧ Function.update pc t l u = l) ∨ (u ≠ t ∧ Function.update pc t l u = pc u) := by
  by_cases mover : u = t
  · exact .inl ⟨mover, by rw [mover, Function.update_self]⟩
  · exact .inr ⟨mover, Function.update_of_ne mover ..⟩

theorem Phases.quiet_step (phases : Phases log c) (moved : Move c.shared (c.pc t) a g' l')
    (orderly : Orderly c (t, a) ⟨g', Function.update c.pc t l'⟩) (v u : Tid)
    (ends : (Function.update c.pc t l' v).terminating = true) :
    (Function.update c.pc t l' u).logging = false := by
  have before : (∃ v, (c.pc v).terminating = true) ∨ a = .term := by
    rcases update_cases c.pc t l' v with ⟨-, point⟩ | ⟨-, point⟩ <;> rw [point] at ends
    · exact (move_terminating moved ends).imp_left fun ends => ⟨t, ends⟩
    · exact .inl ⟨v, ends⟩
  have silent (w : Tid) : (c.pc w).logging = false := by
    rcases before with ⟨v, ends⟩ | isTerm
    · exact phases.quiet v w ends
    · exact orderly.1 isTerm w
  rcases update_cases c.pc t l' u with ⟨-, point⟩ | ⟨-, point⟩ <;> rw [point]
  · apply Bool.eq_false_iff.mpr
    intro logs
    rcases move_logging moved logs with earlier | ⟨request, stack, isMessage⟩
    · cases earlier.symm.trans (silent t)
    · rcases before with ⟨v, ends⟩ | isTerm
      · cases ends.symm.trans ((orderly.2 request stack isMessage).2 v)
      · cases isTerm.symm.trans isMessage
  · exact silent u

theorem Phases.finished_step (phases : Phases log c)
    (roles : ∀ t, (c.pc t).threaded = true ↔ t = log) (moved : Move c.shared (c.pc t) a g' l')
    (finished : g'.threadDone = true) :
    Function.update c.pc t l' log = .ended ∧ ∀ thread, g'.logThread = some thread →
    thread.keepRunning = false := by
  rcases move_threadDone moved finished with earlier | ⟨atRead, ended, same, thread, here, stops⟩
  · obtain ⟨ended, stopped⟩ := phases.finished earlier
    constructor
    · rcases update_cases c.pc t l' log with ⟨rfl, -⟩ | ⟨-, point⟩
      · exact absurd ended (ended_still moved)
      · exact point.trans ended
    · intro thread' here'
      obtain ⟨thread, here⟩ := move_logThread moved here'
      exact keepRunning_lasts moved here here' (stopped thread here)
  · have isLog : t = log := (roles t).mp (by rw [atRead]; rfl)
    refine ⟨by rw [isLog, Function.update_self, ended], fun thread' here' => ?_⟩
    rw [same] at here'
    cases here.symm.trans here'
    exact stops

theorem Phases.step (phases : Phases log c) (roles : ∀ t, (c.pc t).threaded = true ↔ t = log)
    (orderly : Orderly c (t, a) c') (fired : step c (t, a) = some c') : Phases log c' := by
  obtain ⟨g', l', moved, rfl⟩ := step_cases fired
  refine ⟨phases.quiet_step moved orderly, fun thread' here' stops => ?_, fun finished => ?_,
    fun u after => ?_,
    fun none => ?_⟩
  · rcases move_keepRunning moved here' stops with ends | ⟨thread, here, stops⟩
    · exact ⟨t, by simpa using ends⟩
    · obtain ⟨v, ends⟩ := phases.stopped thread here stops
      refine ⟨v, show (Function.update c.pc t l' v).terminating = true from ?_⟩
      rcases update_cases c.pc t l' v with ⟨rfl, point⟩ | ⟨-, point⟩ <;> rw [point]
      · exact terminating_lasts moved ends here'
      · exact ends
  · exact phases.finished_step roles moved finished
  · have joined : (Function.update c.pc t l' u).joined = true := after
    rcases update_cases c.pc t l' u with ⟨-, point⟩ | ⟨-, point⟩ <;> rw [point] at joined
    · rcases move_joined moved joined with earlier | finished
      · exact threadDone_lasts moved (phases.joined t earlier)
      · exact threadDone_lasts moved finished
    · exact threadDone_lasts moved (phases.joined u joined)
  · have before : c.shared.threadDone = true ∧ ∀ u, (c.pc u).logging = false := by
      rcases move_gone moved none with none | isRelease
      · exact phases.gone none
      · exact ⟨phases.joined t (by rw [isRelease]; rfl), fun u =>
          phases.quiet t u (by rw [isRelease]; rfl)⟩
    refine ⟨threadDone_lasts moved before.1, fun u => ?_⟩
    show (Function.update c.pc t l' u).logging = false
    rcases update_cases c.pc t l' u with ⟨-, point⟩ | ⟨-, point⟩ <;> rw [point]
    · apply Bool.eq_false_iff.mpr
      intro logs
      rcases move_logging moved logs with earlier | ⟨request, stack, isMessage⟩
      · cases earlier.symm.trans (before.2 t)
      · obtain ⟨present, calm⟩ := orderly.2 request stack isMessage
        rcases move_gone moved none with none | isRelease
        · rw [none] at present
          cases present
        · have ends := calm t
          rw [isRelease] at ends
          cases ends
    · exact before.2 u

omit [DecidableEq Ptr] [DecidableEq Tid] in
theorem Phases.silent (phases : Phases log c) (finished : c.shared.threadDone = true) (u : Tid) :
    (c.pc u).logging = false := by
  cases here : c.shared.logThread with
  | none => exact (phases.gone here).2 u
  | some thread =>
      obtain ⟨t, ends⟩ := phases.stopped thread here ((phases.finished finished).2 thread here)
      exact phases.quiet t u ends

theorem run_phases (started : Started log start) (run : Run step Orderly start acts c) :
    Phases log c := by
  induction run with
  | nil => exact phases_started started
  | snoc earlier fired orderly ih => exact ih.step (run_threaded started earlier) orderly fired

/-- Each direct sink was called, once and in their order, with the lines for it that were placed in
the queue of the log thread. -/
def Complete (g : Logger Ptr) : Prop :=
  ∀ sink ∈ g.directSinks, g.received sink.handle = g.placed.filter sink.admits

theorem Delivered.complete_iff (delivered : Delivered g thread .ended) : Complete g ↔
    Settled g thread := by
  obtain ⟨done, placed, received⟩ := delivered.ordered
  have missing (sink : DirectSink Ptr) (member : sink ∈ g.directSinks) :
      g.received sink.handle = g.placed.filter sink.admits ↔
        ∀ i ∈ thread.inQueue, sink.admits (thread.lineBuffer i) = false := by
    rw [received sink member, placed]
    simp [Loc.current, Loc.held, Loc.left]
  constructor
  · intro complete i waiting sink member
    exact (missing sink member).mp (complete sink member) i waiting
  · intro settled sink member
    exact (missing sink member).mpr fun i waiting => settled i waiting sink member

omit [DecidableEq Tid] in
theorem Phases.ended_step (phases : Phases log c) (roles : ∀ t, (c.pc t).threaded = true ↔ t = log)
    (finished : c.shared.threadDone = true) (moved : Move c.shared (c.pc t) a g' l') :
    c.pc t ≠ .readRunning ∧ (Complete g' ↔ Complete c.shared) := by
  have foreign : (c.pc t).threaded = false := by
    refine Bool.eq_false_iff.mpr fun own => ended_still moved ?_
    rw [(roles t).mp own, (phases.finished finished).1]
  obtain ⟨placed, received, sinks⟩ := move_record moved (phases.silent finished t) foreign
  refine ⟨fun atRead => ?_, by rw [Complete, Complete, placed, received, sinks]⟩
  rw [atRead] at foreign
  cases foreign

variable [Fintype Tid]

theorem run_complete (started : Started log start) (run : Run step Orderly start acts c) :
    (c.shared.threadDone = false → Run step Attended start acts c) ∧
      (c.shared.threadDone = true → (Complete c.shared ↔ Run step Attended start acts c)) := by
  induction run with
  | nil =>
      obtain ⟨g, flags, outcomes, -, threaded, success⟩ := started.init
      refine ⟨fun _ => .nil, fun finished => ?_⟩
      rw [init_success threaded success] at finished
      cases finished
  | @snoc prior c c' act earlier fired orderly ih =>
      have roles := run_threaded started earlier
      have phases := run_phases started earlier
      have delivering := run_delivering started (earlier.snoc fired orderly)
      have extend (before : Run step Attended start prior c)
          (settled : c.pc act.1 = .readRunning → ∀ thread, c.shared.logThread = some thread →
            thread.keepRunning = false → Settled c.shared thread) :
          Run step Attended start (prior ++ [act]) c' := before.snoc fired ⟨orderly, settled⟩
      obtain ⟨t, a⟩ := act
      obtain ⟨g', l', moved, rfl⟩ := step_cases fired
      by_cases finished : c.shared.threadDone = true
      · obtain ⟨elsewhere, same⟩ := phases.ended_step roles finished moved
        refine ⟨fun running => ?_, fun _ =>
          same.trans ((ih.2 finished).trans ⟨fun before => ?_, fun all => ?_⟩)⟩
        · cases running.symm.trans (threadDone_lasts moved finished)
        · exact extend before fun atRead => absurd atRead elsewhere
        · exact (earlier.last all).1
      · have before := ih.1 (Bool.eq_false_iff.mpr finished)
        refine ⟨fun running => extend before fun atRead thread here stops => ?_, fun ends => ?_⟩
        · rw [show c.pc t = .readRunning from atRead] at moved
          cases running.symm.trans (stopped_ends moved here stops)
        · obtain ⟨atRead, ended, same, thread, here, stops⟩ :=
              (move_threadDone moved ends).resolve_left finished
          have here' : g'.logThread = some thread := by rw [same, here]
          have delivered : Delivered g' thread .ended := by
            have atLog : Delivered g' thread (Function.update c.pc t l' log) :=
              (delivering thread here').2
            rwa [(phases.finished_step roles moved ends).1] at atLog
          have settled : Settled g' thread ↔ Settled c.shared thread := by rw [same]; exact Iff.rfl
          refine (delivered.complete_iff.trans settled).trans ⟨fun settled => ?_, fun all => ?_⟩
          · apply extend before
            intro _ other at' _
            cases here.symm.trans at'
            exact settled
          · exact (earlier.last all).2.2 atRead thread here stops

/-- `amlog_sink_term` is called when all calls of `amlog_sink_message` have returned. When it
returns, every line was delivered if and only if the log thread has not found the flag cleared while
a line in its queue was for a direct sink. -/
theorem amlog_term_delivers_iff (started : Started log start) (run : Run step Orderly start acts c)
    (left : c.shared.logThread = none) :
    (∀ sink ∈ c.shared.directSinks, c.shared.received sink.handle = c.shared.placed.filter
      sink.admits) ↔
      Run step Attended start acts c :=
  (run_complete started run).2 ((run_phases started run).gone left).1

end Runs

section Samples

variable {Tid : Type} [Fintype Tid] [DecidableEq Tid] {c c' : Config Tid (Logger Ptr) (Loc Ptr)}
  {act : Tid × Act Ptr}

def orderly (c : Config Tid (Logger Ptr) (Loc Ptr)) (act : Tid × Act Ptr) : Bool :=
  match act.2 with
  | .term => decide (∀ u, (c.pc u).logging = false)
  | .message _ _ => c.shared.logThread.isSome && decide (∀ u, (c.pc u).terminating = false)
  | _ => true

def attended (c : Config Tid (Logger Ptr) (Loc Ptr)) (act : Tid × Act Ptr) : Bool :=
  orderly c act && match c.pc act.1, c.shared.logThread with
    | .readRunning, some thread => thread.keepRunning || thread.inQueue.isEmpty
    | _, _ => true

omit [DecidableEq Ptr] [DecidableEq Tid] in
theorem orderly_sound (checked : orderly c act = true) : Orderly c act c' := by
  constructor
  · intro isTerm
    rw [orderly, isTerm] at checked
    exact of_decide_eq_true checked
  · intro request stack isMessage
    rw [orderly, isMessage] at checked
    obtain ⟨present, calm⟩ := Bool.and_eq_true_iff.mp checked
    exact ⟨present, of_decide_eq_true calm⟩

omit [DecidableEq Ptr] [DecidableEq Tid] in
theorem attended_sound (checked : attended c act = true) : Attended c act c' := by
  obtain ⟨calls, flag⟩ := Bool.and_eq_true_iff.mp checked
  refine ⟨orderly_sound calls, fun atRead thread here stops => ?_⟩
  rw [atRead, here] at flag
  have empty : thread.inQueue = [] := by simpa [stops] using flag
  intro i waiting
  rw [empty] at waiting
  cases waiting

omit [Fintype Tid] in
theorem step_enq {t : Tid} {i : ℕ} (point : c.pc t = .enq i)
    (here : c.shared.logThread = some thread) (runs : c.shared.aborted = false)
    (room : thread.outQueue.length < threadLineBufferSize) :
    step c (t, .tick) = some
      ⟨{ c.shared with logThread := some { thread with outQueue := thread.outQueue ++ [i] } },
        Function.update c.pc t .deq⟩ := by
  simp [step, Config.step, next, point, here, runs, room]

/-- A call of `amlog_sink_message` by the second thread, alone, from its start to its return. -/
def sampleCall : List (Fin 2 × Act ℕ) :=
  [(1, .message sampleRequest clearLine), (1, .tick), (1, .clock 5), (1, .tick), (1, .tick),
    (1, .tick), (1, .tick), (1, .tick), (1, .tick)]

/-- The log thread has passed on a line before it is stopped. -/
theorem amlog_term_delivers_iff_sample : ∃ c : Config (Fin 2) (Logger ℕ) (Loc ℕ),
    c.shared.logThread = none ∧ c.shared.placed.length = 1 ∧
      c.shared.received 7 = c.shared.placed.filter sampleSink.admits := by
  obtain ⟨out, room, started⟩ := sample_started
  have before : Run step Attended ⟨sampleLogger (0 :: out), ![.deq, .outside]⟩
      (sampleCall ++ [(0, .tick), (0, .tick), (0, .tick), (0, .tick), (0, .tick)]) _ :=
    run_of_runs (fun c act _ => attended c act) (fun _ _ _ => attended_sound) rfl rfl
  have returned := Run.snoc before (step_enq (t := 0) rfl rfl rfl room) (attended_sound (by rfl))
  have run := Run.extend (fun c act _ => attended c act) (fun _ _ _ => attended_sound) returned
    (show runs step _ [(0, .tick), (1, .term), (1, .tick), (0, .tick), (1, .tick), (1, .tick),
      (1, .tick)] = _ from rfl)
    rfl
  have orderly := run.mono fun _ _ _ attended => attended.1
  exact ⟨_, rfl, rfl, (amlog_term_delivers_iff started orderly rfl).mpr run sampleSink
    List.mem_cons_self⟩

/-- The log thread has found its queue empty, but looks at the flag only after a line was placed and
`amlog_sink_term` was called. The line is lost. -/
theorem amlog_term_loses_line : ∃ start c : Config (Fin 2) (Logger ℕ) (Loc ℕ),
    Started 0 start ∧ (∃ acts, Run step Orderly start acts c) ∧ c.shared.logThread = none ∧
      sampleSink ∈ c.shared.directSinks ∧
      c.shared.received sampleSink.handle ≠ c.shared.placed.filter sampleSink.admits := by
  obtain ⟨out, -, started⟩ := sample_started
  have run : Run step Orderly ⟨sampleLogger (0 :: out), ![.deq, .outside]⟩
      ((0, .tick) :: sampleCall ++ [(1, .term), (1, .tick), (0, .tick), (1, .tick), (1, .tick),
        (1, .tick)]) _ :=
    run_of_runs (fun c act _ => orderly c act) (fun _ _ _ => orderly_sound) rfl rfl
  refine ⟨_, _, started, ⟨_, run⟩, rfl, List.mem_cons_self, fun same => ?_⟩
  have length : 0 = 1 := congrArg List.length same
  cases length

end Samples

end Libam.Log
