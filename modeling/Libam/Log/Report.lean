import Libam.Log.Expected

/-! What the result of `amlog_sink_message` says about the queues of the sinks. -/

namespace Libam.Log

open Libam.Interleaving

variable {Ptr : Type}

section Events

/-- The queue where the lines of a sink go; none is the one of the log thread. -/
def QueuedSink.inQueue (sink : QueuedSink Ptr) : Option Ptr :=
  match sink.queues with
  | .thread => none
  | .foreign inQueue _ => some inQueue

def Slot.inQueue : Slot Ptr → Option Ptr
  | .line _ => none
  | .foreign inQueue _ => some inQueue

def Loc.takes : Loc Ptr → Loc Ptr → Option (Slot Ptr)
  | .dequeue _ _ _, .copy _ slot _ => some slot
  | _, _ => none

def Loc.puts : Loc Ptr → Loc Ptr → Option (Slot Ptr × AmlogLine)
  | .enqueue call slot _, .queued _ _ => some (slot, call.ent)
  | _, _ => none

variable {Tid : Type}

def taken (t : Tid) (c c' : Config Tid (Logger Ptr) (Loc Ptr)) : Option (Slot Ptr) :=
  (c.pc t).takes (c'.pc t)

def put (t : Tid) (c c' : Config Tid (Logger Ptr) (Loc Ptr)) : Option (Slot Ptr × AmlogLine) :=
  (c.pc t).puts (c'.pc t)

/-- Whether a line is in the `out_queue` of a sink. -/
def Logger.free (g : Logger Ptr) (sink : QueuedSink Ptr) : Bool :=
  match sink.queues, g.logThread with
  | .thread, none => false
  | .thread, some thread => !thread.outQueue.isEmpty
  | .foreign _ outQueue, _ => !(g.foreign outQueue).isEmpty

def Call.admits (call : Call) (sink : QueuedSink Ptr) : Bool := !skips sink.level sink.mask call.ent

def Reached (line : Option AmlogLine) (sink : QueuedSink Ptr)
    (event : Slot Ptr × AmlogLine) : Prop :=
  event.1.inQueue = sink.inQueue ∧ line = some event.2.content

structure Entered (t : Tid) (request : Request) (stack : AmlogLine)
    (c : Config Tid (Logger Ptr) (Loc Ptr)) : Prop where
  call : c.pc t = .queued (c.shared.enter request stack) c.shared.queuedSinks
  flags : c.shared.abortOnError = false ∧ c.shared.blockOnError = false

def Single (t : Tid) (_ : Config Tid (Logger Ptr) (Loc Ptr)) (act : Tid × Act Ptr)
    (_ : Config Tid (Logger Ptr) (Loc Ptr)) : Prop :=
  ∀ request stack, act ≠ (t, .message request stack)

/-- The call finds a line in the `out_queue` of a sink when it is about to take one. -/
def Found (t : Tid) (c : Config Tid (Logger Ptr) (Loc Ptr)) (act : Tid × Act Ptr)
    (_ : Config Tid (Logger Ptr) (Loc Ptr)) : Prop :=
  ∀ call sink rest, act.1 = t → c.pc t = .dequeue call sink rest → c.shared.free sink = true

structure Reported (sinks : List (QueuedSink Ptr)) (line : Option AmlogLine) (rc : Amrc)
    (taken : List (Slot Ptr)) (put : List (Slot Ptr × AmlogLine)) : Prop where
  reached : rc = .success → List.Forall₂ (Reached line) sinks put
  kept : taken = put.map Prod.fst

end Events

section Moves

variable [DecidableEq Ptr] {g g' : Logger Ptr} {l l' : Loc Ptr} {a : Act Ptr}

theorem move_flags (moved : Move g l a g' l') :
    g'.abortOnError = g.abortOnError ∧ g'.blockOnError = g.blockOnError := by
  cases moved with
  | noLine _ _ _ _ _ _ _ _ _ missed | noForeign _ _ _ _ _ _ _ _ missed =>
      obtain ⟨aborted, rfl, -⟩ := noLine_cases missed
      exact ⟨rfl, rfl⟩
  | _ => exact ⟨rfl, rfl⟩

theorem next_missed {call : Call} {sink : QueuedSink Ptr} {rest : List (QueuedSink Ptr)}
    {inQueue outQueue : Ptr} (fired : next g (.dequeue call sink rest) .tick = some (g', l'))
    (other : sink.queues = .foreign inQueue outQueue)
    (missed : g.noLine call sink rest = (g', l')) : g.foreign outQueue = [] := by
  cases first : g.foreign outQueue with
  | nil => rfl
  | cons buffer out =>
      simp only [next, other, first, Option.some.injEq, Prod.mk.injEq] at fired
      obtain ⟨-, rfl⟩ := fired
      obtain ⟨_, -, left | left⟩ := noLine_cases missed <;> cases left

omit [DecidableEq Ptr] in
theorem takes_self (l : Loc Ptr) : l.takes l = none := by
  cases l <;> rfl

omit [DecidableEq Ptr] in
theorem puts_self (l : Loc Ptr) : l.puts l = none := by
  cases l <;> rfl

end Moves

section Progress

variable {origin call : Call} {sinks done rest : List (QueuedSink Ptr)} {sink : QueuedSink Ptr}
  {slot : Slot Ptr} {taken : List (Slot Ptr)} {put : List (Slot Ptr × AmlogLine)}
  {found found' : Prop}

/-- What a call has done for the first sinks; `found` says that it has found a line whenever it
wanted to take one. -/
structure Pass (origin call : Call) (done : List (QueuedSink Ptr)) (taken : List (Slot Ptr))
    (put : List (Slot Ptr × AmlogLine)) (found : Prop) : Prop where
  level : call.ent.level = origin.ent.level
  mask : call.ent.mask = origin.ent.mask
  line : call.line = origin.line
  fresh : call.formatted = false → found
  kept : taken = put.map Prod.fst
  outcome : found ∧ List.Forall₂ (Reached origin.line) (done.filter origin.admits) put ∨
    ¬ found ∧ put.length < (done.filter origin.admits).length

structure Carrying (origin call : Call) (sinks : List (QueuedSink Ptr)) (slot : Slot Ptr)
    (rest : List (QueuedSink Ptr)) (taken : List (Slot Ptr)) (put : List (Slot Ptr × AmlogLine))
    (found : Prop) : Prop where
  formatted : call.formatted = true
  pass : ∃ done sink before, sinks = done ++ sink :: rest ∧ origin.admits sink = true ∧
    slot.inQueue = sink.inQueue ∧ taken = before ++ [slot] ∧ Pass origin call done before put found

def Progress (origin : Call) (sinks : List (QueuedSink Ptr)) (taken : List (Slot Ptr))
    (put : List (Slot Ptr × AmlogLine)) (found : Prop) : Loc Ptr → Prop
  | .lockQueued _ => False
  | .queued call rest => ∃ done, sinks = done ++ rest ∧ Pass origin call done taken put found
  | .dequeue call sink rest => call.formatted = true ∧ origin.admits sink = true ∧
      ∃ done, sinks = done ++ sink :: rest ∧ Pass origin call done taken put found
  | .copy call slot rest => Carrying origin call sinks slot rest taken put found
  | .enqueue call slot rest => Carrying origin call sinks slot rest taken put found
  | .readThread call => Pass origin call sinks taken put found
  | .lockDirect call => Pass origin call sinks taken put found
  | .direct call _ => Pass origin call sinks taken put found
  | .callback call _ _ => Pass origin call sinks taken put found
  | .returned rc => taken = put.map Prod.fst ∧
      (found ∧ (rc = .success → List.Forall₂ (Reached origin.line)
        (sinks.filter origin.admits) put) ∨
        ¬ found ∧ rc = .success ∧ put.length < (sinks.filter origin.admits).length)
  | _ => True

theorem Pass.admits (pass : Pass origin call done taken put found) (sink : QueuedSink Ptr) :
    origin.admits sink = !skips sink.level sink.mask call.ent := by
  simp only [Call.admits, skips, pass.level, pass.mask]

theorem Pass.skip (pass : Pass origin call done taken put found)
    (skipped : skips sink.level sink.mask call.ent = true) :
    Pass origin call (done ++ [sink]) taken put found := by
  have out : origin.admits sink = false := by rw [pass.admits, skipped]; rfl
  have same : (done ++ [sink]).filter origin.admits = done.filter origin.admits := by simp [out]
  refine ⟨pass.level, pass.mask, pass.line, pass.fresh, pass.kept, ?_⟩
  rw [same]
  exact pass.outcome

theorem Pass.format (pass : Pass origin call done taken put found) {now : UInt64}
    (fresh : ¬ call.formatted = true)
    (fits : ¬ (formatEnt call.ent now call.text).messageLength < 0) :
    Pass origin ⟨formatEnt call.ent now call.text, true, call.text⟩ done taken put found :=
  ⟨pass.level, pass.mask, (line_formatted fits fresh).trans pass.line, nofun,
    pass.kept, pass.outcome⟩

theorem Pass.delivered (pass : Pass origin call done taken put found)
    (formatted : call.formatted = true) (admitted : origin.admits sink = true)
    (queue : slot.inQueue = sink.inQueue) :
    Pass origin call (done ++ [sink]) (taken ++ [slot]) (put ++ [(slot, call.ent)]) found := by
  have more : (done ++ [sink]).filter origin.admits = done.filter origin.admits ++ [sink] := by
    simp [admitted]
  have line : origin.line = some call.ent.content := by
    rw [← pass.line, Call.line, if_pos formatted]
  refine ⟨pass.level, pass.mask, pass.line, pass.fresh, by simp [pass.kept], ?_⟩
  rw [more]
  rcases pass.outcome with ⟨all, reached⟩ | ⟨missed, fewer⟩
  · exact .inl ⟨all, List.rel_append reached (.cons ⟨queue, line⟩ .nil)⟩
  · refine .inr ⟨missed, ?_⟩
    simp only [List.length_append, List.length_singleton]
    omega

theorem Pass.miss (pass : Pass origin call done taken put found) (formatted : call.formatted = true)
    (admitted : origin.admits sink = true) (missed : ¬ found') :
    Pass origin call (done ++ [sink]) taken put found' := by
  have more : (done ++ [sink]).filter origin.admits = done.filter origin.admits ++ [sink] := by
    simp [admitted]
  refine ⟨pass.level, pass.mask, pass.line, fun fresh => ?_, pass.kept, .inr ⟨missed, ?_⟩⟩
  · cases fresh.symm.trans formatted
  · rw [more, List.length_append, List.length_singleton]
    rcases pass.outcome with ⟨-, reached⟩ | ⟨-, fewer⟩
    · have length := reached.length_eq
      omega
    · omega

theorem Pass.queued (pass : Pass origin call (done ++ [sink]) taken put found)
    (split : sinks = done ++ sink :: rest) :
    Progress origin sinks taken put found (.queued call rest) := by
  refine ⟨done ++ [sink], ?_, pass⟩
  rw [split, List.append_assoc, List.singleton_append]

theorem Progress.carry (progress : Progress origin sinks taken put found (.dequeue call sink rest))
    (queue : slot.inQueue = sink.inQueue) :
    Carrying origin call sinks slot rest (taken ++ [slot]) put found := by
  obtain ⟨formatted, admitted, done, split, pass⟩ := progress
  exact ⟨formatted, done, sink, taken, split, admitted, queue, rfl, pass⟩

theorem Carrying.delivered (carrying : Carrying origin call sinks slot rest taken put found) :
    Progress origin sinks taken (put ++ [(slot, call.ent)]) found (.queued call rest) := by
  obtain ⟨formatted, done, sink, before, split, admitted, queue, rfl, pass⟩ := carrying
  exact (pass.delivered formatted admitted queue).queued split

theorem Pass.success (pass : Pass origin call sinks taken put found) :
    Progress origin sinks taken put found (.returned .success) := by
  refine ⟨pass.kept, ?_⟩
  rcases pass.outcome with ⟨all, reached⟩ | ⟨missed, fewer⟩
  · exact .inl ⟨all, fun _ => reached⟩
  · exact .inr ⟨missed, rfl, fewer⟩

theorem Pass.error (pass : Pass origin call done taken put found)
    (fresh : ¬ call.formatted = true) : Progress origin sinks taken put found (.returned .error) :=
  ⟨pass.kept, .inl ⟨pass.fresh (Bool.eq_false_iff.mpr fresh), nofun⟩⟩

variable [DecidableEq Ptr] {g g' : Logger Ptr} {l l' : Loc Ptr} {a : Act Ptr}

theorem Progress.step (progress : Progress origin sinks taken put found l)
    (fired : next g l a = some (g', l')) (silent : ∀ request stack, a ≠ .message request stack)
    (flags : g.abortOnError = false ∧ g.blockOnError = false)
    (now : found' ↔ found ∧ ∀ call sink rest, l = .dequeue call sink rest → g.free sink = true) :
    Progress origin sinks (taken ++ (l.takes l').toList) (put ++ (l.puts l').toList) found' l' := by
  have unchanged (elsewhere : ∀ call sink rest, l ≠ .dequeue call sink rest) : found' = found := by
    refine propext (now.trans (and_iff_left fun call sink rest point => ?_))
    exact absurd point (elsewhere call sink rest)
  -- What is left of a sink that has no line, when neither flag is set.
  have missing {call : Call} {sink : QueuedSink Ptr} {rest : List (QueuedSink Ptr)}
      (point : l = .dequeue call sink rest) (empty : g.free sink = false)
      (missed : g.noLine call sink rest = (g', l')) :
      Progress origin sinks (taken ++ (l.takes l').toList)
      (put ++ (l.puts l').toList) found' l' := by
    rw [Logger.noLine, flags.1, flags.2] at missed
    cases missed
    subst point
    obtain ⟨formatted, admitted, done, split, pass⟩ := progress
    have gone : ¬ found' := fun all => by
      have there := (now.mp all).2 call sink rest rfl
      cases empty.symm.trans there
    simpa [Loc.takes, Loc.puts] using (pass.miss formatted admitted gone).queued split
  have moved := next_move fired
  cases moved with
  | message request stack => exact absurd rfl (silent request stack)
  | queuedSkip call sink rest now' skipped =>
      obtain ⟨done, split, pass⟩ := progress
      rw [unchanged (by simp)]
      simpa [Loc.takes, Loc.puts] using (pass.skip skipped).queued split
  | queuedReady call sink rest now' admitted formatted =>
      obtain ⟨done, split, pass⟩ := progress
      rw [unchanged (by simp)]
      refine ⟨formatted, ?_, done, split, by simpa [Loc.takes, Loc.puts] using pass⟩
      rw [pass.admits, Bool.eq_false_iff.mpr admitted]
      rfl
  | queuedFailed call sink rest now' admitted fresh failed =>
      obtain ⟨done, split, pass⟩ := progress
      rw [unchanged (by simp)]
      have failed' : Progress origin sinks taken put found (.returned .error) := pass.error fresh
      simpa [Loc.takes, Loc.puts] using failed'
  | queuedFormat call sink rest now' admitted fresh fits =>
      obtain ⟨done, split, pass⟩ := progress
      rw [unchanged (by simp)]
      refine ⟨rfl, ?_, done, split, by simpa [Loc.takes, Loc.puts] using pass.format fresh fits⟩
      rw [pass.admits, Bool.eq_false_iff.mpr admitted]
      rfl
  | queuedEnd call =>
      obtain ⟨done, split, pass⟩ := progress
      rw [unchanged (by simp)]
      rw [List.append_nil] at split
      subst split
      simpa [Progress, Loc.takes, Loc.puts] using pass
  | takeLine call sink rest thread i out own here first =>
      have same : found' = found := by
        refine propext (now.trans (and_iff_left fun _ _ _ point => ?_))
        cases point
        simp [Logger.free, own, here, first]
      rw [same]
      simpa [Progress, Loc.takes, Loc.puts] using progress.carry
        (by simp [QueuedSink.inQueue, own, Slot.inQueue])
  | takeForeign call sink rest inQueue outQueue buffer out other first =>
      have same : found' = found := by
        refine propext (now.trans (and_iff_left fun _ _ _ point => ?_))
        cases point
        simp [Logger.free, other, first]
      rw [same]
      simpa [Progress, Loc.takes, Loc.puts] using progress.carry
        (by simp [QueuedSink.inQueue, other, Slot.inQueue])
  | noLine call sink rest thread _ _ own here empty missed =>
      exact missing rfl (by simp [Logger.free, own, here, empty]) missed
  | noForeign call sink rest inQueue outQueue _ _ other missed =>
      have empty := next_missed fired other missed
      exact missing rfl (by simp [Logger.free, other, empty]) missed
  | copyLine call i rest thread here | copyForeign call inQueue buffer rest
  | placeWait call i rest thread here full =>
      rw [unchanged (by simp)]
      simpa [Progress, Loc.takes, Loc.puts] using progress
  | placeLine call i rest thread here room | placeForeign call inQueue buffer rest =>
      rw [unchanged (by simp)]
      simpa [Loc.takes, Loc.puts] using Carrying.delivered progress
  | threaded call thread here =>
      rw [unchanged (by simp)]
      simpa [Loc.takes, Loc.puts] using progress.success
  | directEnd call =>
      rw [unchanged (by simp)]
      simpa [Loc.takes, Loc.puts] using progress.success
  | directFailed call sink rest now' admitted fresh failed =>
      rw [unchanged (by simp)]
      have failed' : Progress origin sinks taken put found (.returned .error) :=
        progress.error fresh
      simpa [Loc.takes, Loc.puts] using failed'
  | directFormat call sink rest now' admitted fresh fits =>
      rw [unchanged (by simp)]
      simpa [Progress, Loc.takes, Loc.puts] using progress.format fresh fits
  | noThread | lockDirect | directSkip | directReady | callback =>
      rw [unchanged (by simp)]
      simpa [Progress, Loc.takes, Loc.puts] using progress
  | _ => trivial

end Progress

section Runs

variable {Tid : Type} [DecidableEq Tid] [DecidableEq Ptr] {t : Tid} {request : Request}
  {stack : AmlogLine} {rc : Amrc} {start c : Config Tid (Logger Ptr) (Loc Ptr)}
  {acts : List (Tid × Act Ptr)}

theorem run_progress (entered : Entered t request stack start)
    (run : Run step (Single t) start acts c) :
    (c.shared.abortOnError = false ∧ c.shared.blockOnError = false) ∧
      Progress (start.shared.enter request stack) start.shared.queuedSinks
        (seen step (taken t) start acts)
        (seen step (put t) start acts) (Run step (Found t) start acts c) (c.pc t) := by
  induction run with
  | nil =>
      refine ⟨entered.flags, ?_⟩
      rw [entered.call]
      exact ⟨[], rfl, rfl, rfl, rfl, fun _ => .nil, rfl, .inl ⟨.nil, .nil⟩⟩
  | @snoc prior c c' act earlier fired single ih =>
      obtain ⟨u, a⟩ := act
      have now : Run step (Found t) start (prior ++ [(u, a)]) c' ↔
          Run step (Found t) start prior c ∧ Found t c (u, a) c' :=
        ⟨earlier.last, fun both => both.1.snoc fired both.2⟩
      rw [earlier.seen_snoc fired, earlier.seen_snoc fired]
      obtain ⟨flags, progress⟩ := ih
      have running : c.shared.aborted = false := by
        cases ends : c.shared.aborted with
        | false => rfl
        | true => simp [step, ends] at fired
      rw [step, running] at fired
      obtain ⟨g, l, accessed, rfl⟩ := Config.step_eq_some.mp fired
      obtain ⟨abort, block⟩ := move_flags (next_move accessed)
      refine ⟨⟨abort.trans flags.1, block.trans flags.2⟩, ?_⟩
      by_cases mover : u = t
      · subst mover
        have moved := progress.step accessed
          (fun request stack same => single request stack (congrArg (Prod.mk u) same)) flags
          (now.trans (and_congr_right fun _ =>
            ⟨fun found call sink rest => found call sink rest rfl,
            fun found call sink rest _ => found call sink rest⟩))
        simpa only [taken, put, Function.update_self] using moved
      · have still : Function.update c.pc u l t = c.pc t := Function.update_of_ne
            (Ne.symm mover) _ _
        have same : Run step (Found t) start (prior ++ [(u, a)]) ⟨g, Function.update c.pc u l⟩ =
            Run step (Found t) start prior c :=
          propext (now.trans (and_iff_left fun _ _ _ own => absurd own mover))
        simpa only [taken, put, still, takes_self, puts_self, Option.toList_none, List.append_nil,
          same] using progress

/-- A call of `amlog_sink_message` without the two flags, among any steps of other threads: when
it returns, its result tells whether every queued sink was reached and no line is lost, if and
only if it has found a line in the `out_queue` of each sink that admits the line, or was in error
before it looked. -/
theorem amlog_sink_message_reports_iff (entered : Entered t request stack start)
    (run : Run step (Single t) start acts c) (returned : c.pc t = .returned rc) :
    Reported (start.shared.queuedSinks.filter (start.shared.enter request stack).admits)
        (lineOf start.shared.useSourceLocation request) rc (seen step (taken t) start acts)
        (seen step (put t) start acts) ↔
      Run step (Found t) start acts c := by
  obtain ⟨-, progress⟩ := run_progress entered run
  rw [returned] at progress
  obtain ⟨kept, outcome⟩ := progress
  rw [enter_line] at outcome
  rcases outcome with ⟨found, reached⟩ | ⟨missed, success, fewer⟩
  · exact ⟨fun _ => found, fun _ => ⟨reached, kept⟩⟩
  · refine ⟨fun reported => ?_, fun found => absurd found missed⟩
    have length := (reported.reached success).length_eq
    omega

end Runs

section Samples

variable {Tid : Type} {t : Tid} {c c' : Config Tid (Logger Ptr) (Loc Ptr)} {act : Tid × Act Ptr}

def silent (act : Tid × Act Ptr) : Bool :=
  match act.2 with
  | .message _ _ => false
  | _ => true

def finds (c : Config Tid (Logger Ptr) (Loc Ptr)) (act : Tid × Act Ptr) : Bool :=
  match c.pc act.1 with
  | .dequeue _ sink _ => c.shared.free sink
  | _ => true

theorem silent_sound (checked : silent act = true) : Single t c act c' := by
  rintro request stack rfl
  cases checked

theorem finds_sound (checked : finds c act = true) : Found t c act c' := by
  rintro call sink rest rfl point
  rwa [finds, point] at checked

def sampleQueued (first second : List ℕ) : Config (Fin 1) (Logger ℕ) (Loc ℕ) :=
  let sinks := [⟨0xFFFFFFFFFFFFFFFF, 0, .foreign 1 2⟩, ⟨0xFFFFFFFFFFFFFFFF, 0, .foreign 3 4⟩]
  let foreign := fun queue => if queue = 2 then first else if queue = 4 then second else []
  let g := { sampleLogger [] with
    logThread := none, directSinks := [], queuedSinks := sinks, foreign := foreign }
  ⟨g, fun _ => .queued (g.enter sampleRequest clearLine) sinks⟩

theorem sample_entered (first second : List ℕ) :
    Entered 0 sampleRequest clearLine (sampleQueued first second) :=
  ⟨rfl, rfl, rfl⟩

/-- Each sink has a line. -/
theorem amlog_sink_message_reports_iff_sample :
    ∃ acts c, Run step (Single 0) (sampleQueued [50] [60]) acts c ∧
    c.pc 0 = .returned .success ∧ c.shared.foreign 1 = [50] ∧ c.shared.foreign 3 = [60] ∧
      Reported (sampleQueued [50] [60]).shared.queuedSinks (lineOf true sampleRequest) .success
        (seen step (taken 0) (sampleQueued [50] [60]) acts)
        (seen step (put 0) (sampleQueued [50] [60]) acts) := by
  have run : Run step (Single 0) (sampleQueued [50] [60])
      [(0, .clock 5), (0, .tick), (0, .tick), (0, .tick),
      (0, .clock 6), (0, .tick), (0, .tick), (0, .tick), (0, .tick), (0, .tick), (0, .tick),
      (0, .tick)] _ :=
    run_of_runs (fun _ act _ => silent act) (fun _ _ _ => silent_sound) rfl rfl
  have found : Run step (Found 0) (sampleQueued [50] [60]) _ _ :=
    run_of_runs (fun c act _ => finds c act) (fun _ _ _ => finds_sound) run.runs_eq rfl
  exact ⟨_, _, run, rfl, rfl, rfl,
    (amlog_sink_message_reports_iff (sample_entered _ _) run rfl).mpr found⟩

/-- The first sink has no line; the call goes on with the second one and succeeds. -/
theorem amlog_sink_message_hides_loss :
    ∃ acts c, Run step (Single 0) (sampleQueued [] [60]) acts c ∧
    c.pc 0 = .returned .success ∧ c.shared.foreign 1 = [] ∧ c.shared.foreign 3 = [60] ∧
      ¬ Reported (sampleQueued [] [60]).shared.queuedSinks (lineOf true sampleRequest) .success
        (seen step (taken 0) (sampleQueued [] [60]) acts)
        (seen step (put 0) (sampleQueued [] [60]) acts) := by
  have run : Run step (Single 0) (sampleQueued [] [60])
      [(0, .clock 5), (0, .tick), (0, .clock 6), (0, .tick),
      (0, .tick), (0, .tick), (0, .tick), (0, .tick), (0, .tick), (0, .tick)] _ :=
    run_of_runs (fun _ act _ => silent act) (fun _ _ _ => silent_sound) rfl rfl
  refine ⟨_, _, run, rfl, rfl, rfl, fun reported => ?_⟩
  have length : 2 = 1 := (reported.reached rfl).length_eq
  cases length

end Samples

end Libam.Log
