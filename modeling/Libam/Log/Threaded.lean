import Libam.Log.Unthreaded

/-! With the log thread the direct sinks are called with the same lines as without it. -/

namespace Libam.Log

open Libam.Interleaving

variable {Ptr : Type} [DecidableEq Ptr] {g g' : Logger Ptr} {l l' : Loc Ptr} {a : Act Ptr}
  {thread thread' : LogThread}

def Loc.visits (g : Logger Ptr) : Loc Ptr → List (QueuedSink Ptr)
  | .lockQueued _ => g.queuedSinks
  | .queued _ rest => rest
  | .dequeue _ sink rest => sink :: rest
  | .copy _ (.line _) rest => threadSink :: rest
  | .copy _ (.foreign _ _) rest => rest
  | .enqueue _ (.line _) rest => threadSink :: rest
  | .enqueue _ (.foreign _ _) rest => rest
  | _ => []

def owned (sinks : List (QueuedSink Ptr)) : List (QueuedSink Ptr) := sinks.filter fun sink =>
    sink.queues = .thread

def Loc.pending (g : Logger Ptr) (l : Loc Ptr) : List AmlogLine :=
  (owned (l.visits g)).flatMap fun _ => l.line.toList

def Loc.copied : Loc Ptr → Option (ℕ × AmlogLine)
  | .enqueue call (.line i) _ => some (i, call.ent)
  | _ => none

structure Placing (g : Logger Ptr) (l : Loc Ptr) : Prop where
  balance : g.placed.map AmlogLine.content ++ l.pending g = g.logged.filterMap
    (lineOf g.useSourceLocation)
  single : (owned (l.visits g)).Sublist [threadSink]
  ready : l.ready = true
  written : ∀ i ent thread, l.copied = some (i, ent) → g.logThread = some thread →
    thread.lineBuffer i = ent

section Moves

omit [DecidableEq Ptr] in
theorem threadSink_admits (ent : AmlogLine) :
    ¬ skips (threadSink : QueuedSink Ptr).level (threadSink : QueuedSink Ptr).mask ent = true := by
  have level : ¬ (0xFFFFFFFFFFFFFFFF : UInt64) < ent.level := by
    have bound := ent.level.toNat_lt
    rw [UInt64.lt_iff_toNat_lt]
    exact Nat.not_lt.mpr (Nat.le_of_lt_succ bound)
  simp [skips, threadSink, level]

theorem owned_cons_self (rest : List (QueuedSink Ptr)) :
    owned (threadSink :: rest) = threadSink :: owned rest :=
  List.filter_cons_of_pos (by simp [threadSink])

theorem owned_cons_foreign {sink : QueuedSink Ptr} (foreign : sink.queues ≠ .thread)
    (rest : List (QueuedSink Ptr)) : owned (sink :: rest) = owned rest :=
  List.filter_cons_of_neg (by simp [foreign])

theorem single_head {sink : QueuedSink Ptr} {rest : List (QueuedSink Ptr)}
    (single : (owned (sink :: rest)).Sublist [threadSink])
    (own : sink.queues = .thread) : sink = threadSink ∧ owned rest = [] := by
  have cons : owned (sink :: rest) = sink :: owned rest := List.filter_cons_of_pos (by simp [own])
  rw [cons] at single
  have member : sink ∈ [threadSink] := single.subset List.mem_cons_self
  refine ⟨List.mem_singleton.mp member, List.length_eq_zero_iff.mp ?_⟩
  have length := single.length_le
  simp only [List.length_cons, List.length_nil] at length
  omega

theorem pending_nil (none : owned (l.visits g) = []) : l.pending g = [] := by
  rw [Loc.pending, none]
  rfl

theorem pending_failed (failed : l.line = none) : l.pending g = [] := by
  rw [Loc.pending, failed]
  exact List.flatMap_eq_nil_iff.mpr fun _ _ => rfl

omit [DecidableEq Ptr] in
theorem visits_silent (silent : l.logging = false) : l.visits g = [] := by
  cases l with
  | copy => cases silent
  | enqueue => cases silent
  | _ => first | rfl | cases silent

omit [DecidableEq Ptr] in
theorem copied_silent (silent : l.logging = false) : l.copied = none := by
  cases l with
  | enqueue => cases silent
  | _ => rfl

theorem Placing.congr (placing : Placing g l) (placed : g'.placed = g.placed)
    (logged : g'.logged = g.logged)
    (locations : g'.useSourceLocation = g.useSourceLocation) (pending : l'.pending g' = l.pending g)
    (single : (owned (l'.visits g')).Sublist [threadSink]) (ready : l'.ready = true)
    (written : ∀ i ent thread, l'.copied = some (i, ent) → g'.logThread = some thread →
      thread.lineBuffer i = ent) :
    Placing g' l' := by
  refine ⟨?_, single, ready, written⟩
  rw [placed, logged, locations, pending]
  exact placing.balance

theorem Placing.message (placing : Placing g .outside)
    (registered : owned g.queuedSinks = [threadSink]) (request : Request) (stack : AmlogLine) :
    Placing { g with logged := g.logged ++ [request] } (.lockQueued (g.enter request stack)) := by
  refine ⟨?_, registered ▸ List.Sublist.refl _, rfl, nofun⟩
  have before := placing.balance
  rw [pending_nil rfl, List.append_nil] at before
  show g.placed.map AmlogLine.content ++ (owned g.queuedSinks).flatMap
    (fun _ => (g.enter request stack).line.toList) =
    (g.logged ++ [request]).filterMap (lineOf g.useSourceLocation)
  rw [before, registered, enter_line, List.filterMap_append]
  cases isLine : lineOf g.useSourceLocation request <;> simp [isLine]

theorem Placing.call (placing : Placing g l) (here : g.logThread = some thread)
    (free : ∀ call sink rest, l = .dequeue call sink rest → sink.queues = .thread →
      thread.outQueue ≠ [])
    (moved : Move g l a g' l') (logs : l.logging = true) : Placing g' l' := by
  have ready := move_ready moved placing.ready
  cases moved with
  | lockQueued | queuedEnd | queuedReady | copyForeign | placeForeign | threaded
      | lockDirect | directEnd
  | directSkip | directReady | directFailed | directFormat | callback =>
      exact placing.congr rfl rfl rfl rfl placing.single ready nofun
  | queuedSkip call sink rest now skipped =>
      have foreign : sink.queues ≠ .thread := fun own => by
        rw [(single_head placing.single own).1] at skipped
        exact threadSink_admits call.ent skipped
      have same : owned (sink :: rest) = owned rest := owned_cons_foreign foreign rest
      refine placing.congr rfl rfl rfl ?_ (same ▸ placing.single) ready nofun
      exact congrArg (List.flatMap fun _ => call.line.toList) same.symm
  | queuedFailed call sink rest now admitted fresh failed =>
      have none : (Loc.queued call (sink :: rest)).line = none := line_failed failed fresh
      exact placing.congr rfl rfl rfl (pending_failed none).symm (List.nil_sublist _) ready nofun
  | queuedFormat call sink rest now admitted fresh fits =>
      refine placing.congr rfl rfl rfl ?_ placing.single ready nofun
      show (owned (sink :: rest)).flatMap (fun _ => (Call.line _).toList) = _
      rw [line_formatted fits fresh]
      rfl
  | takeLine call sink rest _ i out own at' first =>
      have same := (single_head placing.single own).1
      subst same
      exact placing.congr rfl rfl rfl rfl placing.single ready nofun
  | takeForeign call sink rest inQueue outQueue buffer out other first =>
      have same : owned (sink :: rest) = owned rest :=
        owned_cons_foreign (by rw [other]; exact nofun) rest
      refine placing.congr rfl rfl rfl ?_ (same ▸ placing.single) ready nofun
      exact congrArg (List.flatMap fun _ => call.line.toList) same.symm
  | noLine call sink rest _ _ _ own at' empty missed =>
      cases here.symm.trans at'
      exact absurd empty (free call sink rest rfl own)
  | noForeign call sink rest inQueue outQueue _ _ other missed =>
      have same : owned (sink :: rest) = owned rest :=
        owned_cons_foreign (by rw [other]; exact nofun) rest
      obtain ⟨aborted, rfl, rfl | rfl⟩ := noLine_cases missed
      · exact placing.congr rfl rfl rfl rfl placing.single ready nofun
      · refine placing.congr rfl rfl rfl ?_ (same ▸ placing.single) ready nofun
        exact congrArg (List.flatMap fun _ => call.line.toList) same.symm
  | copyLine call i rest _ at' =>
      refine placing.congr rfl rfl rfl rfl placing.single ready ?_
      intro j ent thread' point here'
      cases point
      cases here'
      exact Function.update_self ..
  | placeLine call i rest _ at' room =>
      have none := (single_head placing.single rfl).2
      have line : (Loc.enqueue call (.line i) rest).line = some call.ent.content :=
        if_pos placing.ready
      have before := placing.balance
      rw [Loc.pending, line, show Loc.visits g (.enqueue call (.line i) rest) = threadSink ::
        rest from rfl, owned_cons_self, none] at before
      refine ⟨?_, none ▸ List.nil_sublist _, ready, nofun⟩
      show (g.placed ++ [_]).map AmlogLine.content ++ (owned rest).flatMap
          (fun _ => call.line.toList) = _
      rw [none, List.flatMap_nil, List.append_nil, List.map_append,
        placing.written i call.ent _ rfl at']
      exact before
  | placeWait call i rest _ at' full => exact placing
  | noThread call none => cases here.symm.trans none
  | _ => cases logs

theorem move_lineBuffer (moved : Move g l a g' l') (silent : l.logging = false)
    (here : g.logThread = some thread) (here' : g'.logThread = some thread') :
    thread'.lineBuffer = thread.lineBuffer := by
  cases moved with
  | takeLine => cases silent
  | copyLine => cases silent
  | placeLine => cases silent
  | noLine => cases silent
  | noForeign => cases silent
  | deqLine _ _ _ at' =>
      cases here.symm.trans at'
      cases here'
      rfl
  | enqLine _ _ at' =>
      cases here.symm.trans at'
      cases here'
      rfl
  | stop _ at' =>
      cases here.symm.trans at'
      cases here'
      rfl
  | release => cases here'
  | _ =>
      cases here.symm.trans here'
      rfl

theorem move_placed (moved : Move g l a g' l') (silent : l.logging = false) :
    g'.placed = g.placed := by
  cases moved with
  | placeLine => cases silent
  | noLine => cases silent
  | noForeign => cases silent
  | _ => rfl

theorem move_queuedSinks (moved : Move g l a g' l') (calm : l.terminating = false) :
    g'.queuedSinks = g.queuedSinks := by
  cases moved with
  | unregister => cases calm
  | noLine _ _ _ _ _ _ _ _ _ missed | noForeign _ _ _ _ _ _ _ _ missed =>
      obtain ⟨aborted, rfl, -⟩ := noLine_cases missed
      rfl
  | _ => rfl

theorem Placing.frame {k k' : Loc Ptr} (placing : Placing g l) (moved : Move g k a g' k')
    (silent : k.logging = false) (calls : ∀ request stack, a ≠ .message request stack)
    (sinks : l.logging = true → g'.queuedSinks = g.queuedSinks) : Placing g' l := by
  have visits : l.visits g' = l.visits g := by
    cases l with
    | lockQueued call => exact sinks rfl
    | copy call slot rest => cases slot <;> rfl
    | enqueue call slot rest => cases slot <;> rfl
    | _ => rfl
  refine placing.congr (move_placed moved silent) (move_logged moved calls)
    (move_settings moved).1 ?_
    (visits ▸ placing.single) placing.ready fun i ent thread' point here' => ?_
  · rw [Loc.pending, Loc.pending, visits]
  · obtain ⟨thread, here⟩ := move_logThread moved here'
    rw [move_lineBuffer moved silent here here']
    exact placing.written i ent thread point here

theorem Placing.silent (placing : Placing g l) (silent : l.logging = false)
    (silent' : l'.logging = false) (ready : l'.ready = true) : Placing g l' := by
  have none : owned (l.visits g) = [] := by rw [visits_silent silent]; rfl
  have none' : owned (l'.visits g) = [] := by rw [visits_silent silent']; rfl
  refine placing.congr rfl rfl rfl ?_ (none' ▸ List.nil_sublist _) ready
    fun i ent thread point _ => ?_
  · rw [pending_nil none, pending_nil none']
  · cases (copied_silent silent').symm.trans point

theorem Placing.step (placing : Placing g l) (moved : Move g l a g' l')
    (present : l.logging = true → ∃ thread, g.logThread = some thread ∧
      ∀ call sink rest, l = .dequeue call sink rest → sink.queues = .thread → thread.outQueue ≠ [])
    (registered : ∀ request stack, a = .message request stack →
      owned g.queuedSinks = [threadSink]) :
    Placing g' l' := by
  cases logs : l.logging with
  | true =>
      obtain ⟨thread, here, free⟩ := present logs
      exact placing.call here free moved logs
  | false =>
      by_cases isMessage : ∃ request stack, a = .message request stack
      · obtain ⟨request, stack, rfl⟩ := isMessage
        cases moved with
        | message => exact placing.message (registered request stack rfl) request stack
      · have calls (request : Request) (stack : AmlogLine) :
            a ≠ .message request stack := fun same =>
          isMessage ⟨request, stack, same⟩
        have after : Placing g' l := placing.frame moved logs calls fun logs' =>
          nomatch logs.symm.trans logs'
        refine after.silent logs ?_ (move_ready moved placing.ready)
        apply Bool.eq_false_iff.mpr
        intro logs'
        rcases move_logging moved logs' with earlier | message
        · cases earlier.symm.trans logs
        · exact isMessage message

end Moves

section Runs

variable {Tid : Type} [DecidableEq Tid] {log main : Tid}
  {start c c' : Config Tid (Logger Ptr) (Loc Ptr)} {acts : List (Tid × Act Ptr)} {t : Tid}

/-- One thread logs, there is always a free line for it, and `amlog_sink_term` is not called before
its calls have returned. -/
def Supplied (main : Tid) (c : Config Tid (Logger Ptr) (Loc Ptr)) (act : Tid × Act Ptr)
    (c' : Config Tid (Logger Ptr) (Loc Ptr)) : Prop :=
  Solo main c act c' ∧ Orderly c act c' ∧ ∀ call sink rest thread,
    c.pc act.1 = .dequeue call sink rest →
    sink.queues = .thread → c.shared.logThread = some thread → thread.outQueue ≠ []

/-- Only one thread logs, and the sink of the log thread stays until `amlog_sink_term` is called. -/
structure Threaded (main : Tid) (c : Config Tid (Logger Ptr) (Loc Ptr)) : Prop where
  others : ∀ t, t ≠ main → (c.pc t).logging = false
  registered : c.shared.logThread.isSome = true → (∀ t, (c.pc t).terminating = false) →
    owned c.shared.queuedSinks = [threadSink]
  placing : Placing c.shared (c.pc main)

theorem threaded_started (started : Started log start) : Threaded main start := by
  obtain ⟨⟨g, flags, outcomes, fresh, threaded, success⟩, atLog, others⟩ := started
  have shared := init_success threaded success
  have silent (t : Tid) : (start.pc t).logging = false ∧ (start.pc t).ready = true := by
    by_cases isLog : t = log
    · rw [isLog, atLog]
      exact ⟨rfl, rfl⟩
    · rw [others t isLog]
      exact ⟨rfl, rfl⟩
  refine ⟨fun t _ => (silent t).1, fun _ _ => ?_, ?_⟩
  · rw [shared]
    have none : owned g.queuedSinks = [] :=
      List.filter_eq_nil_iff.mpr fun sink member => by simpa using fresh.foreign sink member
    show owned (threadSink :: g.queuedSinks) = [threadSink]
    rw [owned_cons_self, none]
  · have before : Placing start.shared .outside := by
      rw [shared]
      refine ⟨?_, List.nil_sublist _, rfl, nofun⟩
      show g.placed.map _ ++ [] = g.logged.filterMap _
      rw [fresh.record.1, fresh.record.2.1]
      rfl
    exact before.silent rfl (silent main).1 (silent main).2

theorem Threaded.step (threaded : Threaded main c) (phases : Phases log c)
    (supplied : Supplied main c (t, a) c') (fired : step c (t, a) = some c') :
    Threaded main c' := by
  obtain ⟨g', l', moved, rfl⟩ := step_cases fired
  obtain ⟨solo, orderly, free⟩ := supplied
  refine ⟨?_, ?_, ?_⟩
  · intro u other
    show (Function.update c.pc t l' u).logging = false
    rcases update_cases c.pc t l' u with ⟨rfl, point⟩ | ⟨-, point⟩ <;> rw [point]
    · apply Bool.eq_false_iff.mpr
      intro logs
      rcases move_logging moved logs with earlier | ⟨request, stack, isMessage⟩
      · cases earlier.symm.trans (threaded.others u other)
      · exact other (solo request stack isMessage)
    · exact threaded.others u other
  · intro present calm
    obtain ⟨thread', here'⟩ := Option.isSome_iff_exists.mp present
    obtain ⟨thread, here⟩ := move_logThread moved here'
    have before (u : Tid) : (c.pc u).terminating = false := by
      have after : (Function.update c.pc t l' u).terminating = false := calm u
      rcases update_cases c.pc t l' u with ⟨rfl, point⟩ | ⟨-, point⟩ <;> rw [point] at after
      · apply Bool.eq_false_iff.mpr
        intro ends
        cases (terminating_lasts moved ends here').symm.trans after
      · exact after
    show owned g'.queuedSinks = [threadSink]
    rw [move_queuedSinks moved (before t)]
    exact threaded.registered (by rw [here]; rfl) before
  · show Placing g' (Function.update c.pc t l' main)
    rcases update_cases c.pc t l' main with ⟨rfl, point⟩ | ⟨other, point⟩ <;> rw [point]
    · refine threaded.placing.step moved (fun logs => ?_) fun request stack isMessage => ?_
      · cases here : c.shared.logThread with
        | none => cases logs.symm.trans ((phases.gone here).2 main)
        | some thread =>
            exact ⟨thread, rfl, fun call sink rest point own =>
              free call sink rest thread point own here⟩
      · obtain ⟨present, calm⟩ := orderly.2 request stack isMessage
        exact threaded.registered present calm
    · refine threaded.placing.frame moved (threaded.others t (Ne.symm other))
        (fun request stack isMessage => ?_)
        fun logs => move_queuedSinks moved (Bool.eq_false_iff.mpr fun ends => ?_)
      · exact other (solo request stack isMessage).symm
      · cases logs.symm.trans (phases.quiet t main ends)

theorem run_threaded_solo (started : Started log start)
    (run : Run step (Supplied main) start acts c) : Threaded main c := by
  induction run with
  | nil => exact threaded_started started
  | snoc earlier fired supplied ih =>
      have orderly := earlier.mono fun _ _ _ supplied => supplied.2.1
      exact ih.step (run_phases started orderly) supplied fired

theorem Delivered.drained (delivered : Delivered g thread l) (empty : thread.inQueue = [])
    (idle : l.held = none) {sink : DirectSink Ptr} (member : sink ∈ g.directSinks) :
    g.received sink.handle = g.placed.filter sink.admits := by
  obtain ⟨done, placed, received⟩ := delivered.ordered
  have left : l.left g = [] := by
    cases l with
    | lockLine => cases idle
    | deliver => cases idle
    | passOn => cases idle
    | _ => rfl
  rw [placed, received sink member, left, empty, Loc.current, idle]
  simp

variable [Fintype Tid]

/-- Between two calls, when the log thread has passed on all lines, each direct sink was called with
what the calls stand for. -/
theorem threaded_received (started : Started log start)
    (run : Run step (Supplied main) start acts c) (returned : (c.pc main).logging = false)
    (here : c.shared.logThread = some thread) (empty : thread.inQueue = [])
    (idle : (c.pc log).held = none) (sink : DirectSink Ptr) (member : sink ∈ c.shared.directSinks) :
    (c.shared.received sink.handle).map AmlogLine.content =
      expected c.shared.useSourceLocation c.shared.logged sink := by
  have balance := (run_threaded_solo started run).placing.balance
  rw [pending_nil (by rw [visits_silent returned]; rfl), List.append_nil] at balance
  have drained := (run_delivering started run thread here).2.drained empty idle member
  calc (c.shared.received sink.handle).map AmlogLine.content
      = (c.shared.placed.filter sink.admits).map AmlogLine.content := by rw [drained]
    _ = (c.shared.placed.map AmlogLine.content).filter sink.admits := by
        rw [List.filter_map]
        rfl
    _ = expected c.shared.useSourceLocation c.shared.logged sink := by rw [balance, expected]

variable {Tid' : Type} [DecidableEq Tid'] {main' : Tid'}
  {start' d : Config Tid' (Logger Ptr) (Loc Ptr)} {acts' : List (Tid' × Act Ptr)}

/-- One thread makes the same calls of `amlog_sink_message` with a log thread, which then passes on
all of its lines, and without one: each direct sink is called with the same lines, whatever the
interleaving. -/
theorem amlog_modes_agree (started : Started log start)
    (run : Run step (Supplied main) start acts c) (returned : (c.pc main).logging = false)
    (here : c.shared.logThread = some thread) (empty : thread.inQueue = [])
    (idle : (c.pc log).held = none) (started' : StartedUnthreaded start')
    (run' : Run step (Solo main') start' acts' d) (returned' : (d.pc main').logging = false)
    (sinks : start'.shared.directSinks = start.shared.directSinks)
    (locations : start'.shared.useSourceLocation = start.shared.useSourceLocation)
    (calls : d.shared.logged = c.shared.logged) (sink : DirectSink Ptr)
    (member : sink ∈ start.shared.directSinks) :
    (d.shared.received sink.handle).map AmlogLine.content =
      (c.shared.received sink.handle).map AmlogLine.content := by
  obtain ⟨sameLocations, sameSinks⟩ := run_settings run
  obtain ⟨sameLocations', sameSinks'⟩ := run_settings run'
  have threaded := threaded_received started run returned here empty idle sink (sameSinks ▸ member)
  have unthreaded := (run_unthreaded started' run').received returned' sink
    (by rw [sameSinks', sinks]; exact member)
  calc (d.shared.received sink.handle).map AmlogLine.content
      = expected d.shared.useSourceLocation d.shared.logged sink := unthreaded
    _ = expected c.shared.useSourceLocation c.shared.logged sink := by
        rw [sameLocations, sameLocations', locations, calls]
    _ = (c.shared.received sink.handle).map AmlogLine.content := threaded.symm

end Runs

section Samples

variable {Tid : Type} [Fintype Tid] [DecidableEq Tid] {main : Tid}
  {c c' : Config Tid (Logger Ptr) (Loc Ptr)} {act : Tid × Act Ptr}

def solo (main : Tid) (act : Tid × Act Ptr) : Bool :=
  match act.2 with
  | .message _ _ => decide (act.1 = main)
  | _ => true

def supplied (main : Tid) (c : Config Tid (Logger Ptr) (Loc Ptr)) (act : Tid × Act Ptr) : Bool :=
  solo main act && orderly c act && match c.pc act.1, c.shared.logThread with
    | .dequeue _ _ _, some thread => !thread.outQueue.isEmpty
    | _, _ => true

omit [DecidableEq Ptr] [Fintype Tid] in
theorem solo_sound (checked : solo main act = true) : Solo main c act c' := by
  intro request stack isMessage
  rw [solo, isMessage] at checked
  exact of_decide_eq_true checked

omit [DecidableEq Ptr] in
theorem supplied_sound (checked : supplied main c act = true) : Supplied main c act c' := by
  obtain ⟨calls, free⟩ := Bool.and_eq_true_iff.mp checked
  obtain ⟨alone, order⟩ := Bool.and_eq_true_iff.mp calls
  refine ⟨solo_sound alone, orderly_sound order, fun call sink rest thread point _ here empty => ?_⟩
  rw [point, here] at free
  simp [empty] at free

def sampleUnthreaded : Config (Fin 2) (Logger ℕ) (Loc ℕ) :=
  ⟨{ sampleLogger [] with logThread := none, queuedSinks := [] }, ![.outside, .outside]⟩

theorem sample_unthreaded : StartedUnthreaded sampleUnthreaded := by
  refine ⟨⟨sampleUnthreaded.shared, ⟨false, false, false, false⟩, ⟨true, true, true, true, true⟩,
    ?_, ?_, rfl, rfl⟩,
    fun t => ?_⟩
  · exact ⟨nofun, List.nodup_singleton _, ⟨rfl, rfl, rfl⟩, rfl, rfl, fun _ => rfl⟩
  · rfl
  · match t with
    | 0 => rfl
    | 1 => rfl

/-- One call, with the log thread and without it. -/
theorem amlog_modes_agree_sample : ∃ c d : Config (Fin 2) (Logger ℕ) (Loc ℕ),
    (c.shared.received 7).length = 1 ∧
      (d.shared.received 7).map AmlogLine.content = (c.shared.received 7).map
      AmlogLine.content := by
  obtain ⟨out, room, started⟩ := sample_started
  have before : Run step (Supplied 1) ⟨sampleLogger (0 :: out), ![.deq, .outside]⟩
      (sampleCall ++ [(0, .tick), (0, .tick), (0, .tick), (0, .tick), (0, .tick)]) _ :=
    run_of_runs (fun c act _ => supplied 1 c act) (fun _ _ _ => supplied_sound) rfl rfl
  have run := Run.snoc before (step_enq (t := 0) rfl rfl rfl room) (supplied_sound (by rfl))
  have run' : Run step (Solo 1) sampleUnthreaded
      [(1, .message sampleRequest clearLine), (1, .tick), (1, .tick), (1, .tick), (1, .tick),
        (1, .clock 8), (1, .tick), (1, .tick), (1, .tick)] _ :=
    run_of_runs (fun _ act _ => solo 1 act) (fun _ _ _ => solo_sound) rfl rfl
  exact ⟨_, _, rfl, amlog_modes_agree started run rfl rfl rfl rfl sample_unthreaded run' rfl rfl rfl
    rfl sampleSink
    List.mem_cons_self⟩

end Samples

end Libam.Log
