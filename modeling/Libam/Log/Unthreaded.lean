import Libam.Log.Expected
import Libam.Log.Termination

/-! Without a log thread each call of `amlog_sink_message` calls the direct sinks itself. -/

namespace Libam.Log

open Libam.Interleaving

variable {Ptr : Type} [DecidableEq Ptr] {g g' : Logger Ptr} {l l' : Loc Ptr} {a : Act Ptr}

def Loc.ahead (g : Logger Ptr) : Loc Ptr → List (DirectSink Ptr)
  | .lockQueued _ => g.directSinks
  | .queued _ _ => g.directSinks
  | .dequeue _ _ _ => g.directSinks
  | .copy _ _ _ => g.directSinks
  | .enqueue _ _ _ => g.directSinks
  | .readThread _ => g.directSinks
  | .lockDirect _ => g.directSinks
  | .direct _ rest => rest
  | .callback _ sink rest => sink :: rest
  | _ => []

def Loc.due (g : Logger Ptr) (l : Loc Ptr) (sink : DirectSink Ptr) : List AmlogLine :=
  if sink ∈ l.ahead g then l.line.toList.filter sink.admits else []

structure Owing (g : Logger Ptr) (l : Loc Ptr) : Prop where
  balance : ∀ sink ∈ g.directSinks, (g.received sink.handle).map AmlogLine.content ++ l.due g sink =
    expected g.useSourceLocation g.logged sink
  suffix : l.ahead g <:+ g.directSinks
  ready : l.ready = true
  handles : (g.directSinks.map (·.handle)).Nodup

section Moves

omit [DecidableEq Ptr] in
theorem expected_snoc (useSourceLocation : Bool) (logged : List Request) (request : Request)
    (sink : DirectSink Ptr) :
    expected useSourceLocation (logged ++ [request]) sink =
      expected useSourceLocation logged sink ++ (lineOf useSourceLocation request).toList.filter
      sink.admits := by
  rw [expected, expected, List.filterMap_append, List.filter_append]
  cases isLine : lineOf useSourceLocation request <;> simp [isLine]

omit [DecidableEq Ptr] in
theorem ahead_silent (silent : l.logging = false) : l.ahead g = [] := by
  cases l with
  | direct => cases silent
  | callback => cases silent
  | _ => first | rfl | cases silent

theorem due_silent (silent : l.logging = false) (sink : DirectSink Ptr) : l.due g sink = [] := by
  rw [Loc.due, ahead_silent silent, if_neg List.not_mem_nil]

theorem due_failed (failed : l.line = none) (sink : DirectSink Ptr) : l.due g sink = [] := by
  rw [Loc.due, failed]
  split <;> rfl

theorem move_logged (moved : Move g l a g' l')
    (silent : ∀ request stack, a ≠ .message request stack) : g'.logged = g.logged := by
  cases moved with
  | message request stack => exact absurd rfl (silent request stack)
  | noLine _ _ _ _ _ _ _ _ _ missed | noForeign _ _ _ _ _ _ _ _ missed =>
      obtain ⟨aborted, rfl, -⟩ := noLine_cases missed
      rfl
  | _ => rfl

theorem Owing.congr (owing : Owing g l) (received : g'.received = g.received)
    (sinks : g'.directSinks = g.directSinks) (logged : g'.logged = g.logged)
    (locations : g'.useSourceLocation = g.useSourceLocation)
    (due : ∀ sink, l'.due g' sink = l.due g sink) (suffix : l'.ahead g' <:+ g'.directSinks)
    (ready : l'.ready = true) : Owing g' l' := by
  refine ⟨fun sink member => ?_, suffix, ready, sinks ▸ owing.handles⟩
  rw [received, due, locations, logged]
  exact owing.balance sink (sinks ▸ member)

theorem Owing.message (owing : Owing g .outside) (request : Request) (stack : AmlogLine) :
    Owing { g with logged := g.logged ++ [request] } (.lockQueued (g.enter request stack)) := by
  refine ⟨fun sink member => ?_, List.suffix_rfl, rfl, owing.handles⟩
  have before := owing.balance sink member
  rw [due_silent rfl, List.append_nil] at before
  show (g.received sink.handle).map AmlogLine.content ++ Loc.due
      _ (.lockQueued (g.enter request stack)) sink = _
  rw [before, Loc.due, if_pos (show sink ∈ (Loc.lockQueued _).ahead _ from member), expected_snoc]
  rw [show (Loc.lockQueued (g.enter request stack)).line = _ from enter_line g request stack]

theorem Owing.visited {call : Call} {sink : DirectSink Ptr} {rest : List (DirectSink Ptr)}
    (owing : Owing g l)
    (ahead : l.ahead g = sink :: rest) (line : l.line = call.line)
    (sinks : g'.directSinks = g.directSinks)
    (logged : g'.logged = g.logged) (locations : g'.useSourceLocation = g.useSourceLocation)
    (calls : ∀ other ∈ g.directSinks, (g'.received other.handle).map AmlogLine.content =
      (g.received other.handle).map AmlogLine.content ++
        if other = sink then call.line.toList.filter sink.admits else []) :
    Owing g' (.direct call rest) := by
  have suffix : sink :: rest <:+ g.directSinks := ahead ▸ owing.suffix
  have fresh : sink ∉ rest := (List.nodup_cons.mp (owing.handles.of_map.sublist suffix.sublist)).1
  refine ⟨fun other member => ?_, sinks ▸ (List.suffix_cons sink rest).trans suffix, rfl,
    sinks ▸ owing.handles⟩
  rw [sinks] at member
  have before := owing.balance other member
  rw [Loc.due, ahead, line] at before
  rw [calls other member, locations, logged, ← before, List.append_assoc]
  show _ ++ (_ ++ if other ∈ rest then call.line.toList.filter other.admits else []) = _
  by_cases same : other = sink
  · rw [same, if_pos rfl, if_neg fresh, if_pos List.mem_cons_self, List.append_nil]
  · rw [if_neg same]
    simp only [List.mem_cons, same, false_or, List.nil_append]

theorem Owing.call (owing : Owing g l) (absent : g.logThread = none) (moved : Move g l a g' l')
    (logs : l.logging = true) : Owing g' l' := by
  have ready := move_ready moved owing.ready
  cases moved with
  | lockQueued | queuedEnd | queuedSkip | queuedReady | takeForeign | copyForeign
      | placeForeign | noThread
  | lockDirect =>
      exact owing.congr rfl rfl rfl rfl (fun _ => rfl) List.suffix_rfl ready
  | queuedFailed call sink rest now admitted fresh failed =>
      have none : (Loc.queued call (sink :: rest)).line = none := line_failed failed fresh
      exact owing.congr rfl rfl rfl rfl (fun _ => (due_failed none _).symm) List.nil_suffix ready
  | queuedFormat call sink rest now admitted fresh fits =>
      refine owing.congr rfl rfl rfl rfl (fun other => ?_) List.suffix_rfl ready
      show (if other ∈ g.directSinks then (Call.line _).toList.filter other.admits else []) = _
      rw [line_formatted fits fresh]
      rfl
  | noLine call sink rest _ _ _ own here => cases absent.symm.trans here
  | noForeign call sink rest inQueue outQueue _ _ other missed =>
      obtain ⟨aborted, rfl, rfl | rfl⟩ := noLine_cases missed <;>
        exact owing.congr rfl rfl rfl rfl (fun _ => rfl) List.suffix_rfl ready
  | takeLine call sink rest thread i out own here => cases absent.symm.trans here
  | copyLine call i rest thread here => cases absent.symm.trans here
  | placeLine call i rest thread here => cases absent.symm.trans here
  | placeWait call i rest thread here => cases absent.symm.trans here
  | threaded call thread here => cases absent.symm.trans here
  | directEnd call =>
      exact owing.congr rfl rfl rfl rfl (fun _ => rfl) List.nil_suffix ready
  | directSkip call sink rest now skipped =>
      apply owing.visited rfl rfl rfl rfl rfl
      intro other member
      rw [line_admits, if_pos skipped, ite_self, List.append_nil]
  | directReady call sink rest now admitted formatted =>
      exact owing.congr rfl rfl rfl rfl (fun _ => rfl) owing.suffix ready
  | directFailed call sink rest now admitted fresh failed =>
      have none : (Loc.direct call (sink :: rest)).line = none := line_failed failed fresh
      exact owing.congr rfl rfl rfl rfl (fun _ => (due_failed none _).symm) List.nil_suffix ready
  | directFormat call sink rest now admitted fresh fits =>
      refine owing.congr rfl rfl rfl rfl (fun other => ?_) owing.suffix ready
      show (if other ∈ sink :: rest then (Call.line _).toList.filter other.admits else []) = _
      rw [line_formatted fits fresh]
      rfl
  | callback call sink rest =>
      have member : sink ∈ g.directSinks := owing.suffix.subset List.mem_cons_self
      obtain ⟨formatted, admitted⟩ := Bool.and_eq_true_iff.mp owing.ready
      have line : call.line = some call.ent.content := if_pos formatted
      refine owing.visited rfl rfl rfl rfl rfl ?_
      intro other inside
      show (Function.update g.received sink.handle _ other.handle).map AmlogLine.content = _
      by_cases same : other = sink
      · rw [same, Function.update_self, if_pos rfl, List.map_append, line_admits,
          if_neg (by simpa [DirectSink.admits] using admitted), line]
        rfl
      · have apart : other.handle ≠ sink.handle := fun handle =>
          same (handles_injective owing.handles inside member handle)
        rw [Function.update_of_ne apart, if_neg same, List.append_nil]
  | _ => cases logs

theorem Owing.frame {k k' : Loc Ptr} (owing : Owing g l) (moved : Move g k a g' k')
    (silent : k.logging = false) (foreign : k.threaded = false)
    (calls : ∀ request stack, a ≠ .message request stack) : Owing g' l := by
  obtain ⟨-, received, sinks⟩ := move_record moved silent foreign
  have ahead : l.ahead g' = l.ahead g := by
    cases l <;> first | rfl | exact sinks
  refine owing.congr received sinks (move_logged moved calls) (move_settings moved).1
    (fun sink => ?_) ?_
    owing.ready
  · rw [Loc.due, Loc.due, ahead]
  · rw [ahead, sinks]
    exact owing.suffix

theorem Owing.silent (owing : Owing g l) (silent : l.logging = false) (silent' : l'.logging = false)
    (ready : l'.ready = true) : Owing g l' := by
  refine owing.congr rfl rfl rfl rfl (fun sink => ?_) ?_ ready
  · rw [due_silent silent, due_silent silent']
  · rw [ahead_silent silent']
    exact List.nil_suffix

theorem Owing.step (owing : Owing g l) (absent : g.logThread = none) (foreign : l.threaded = false)
    (moved : Move g l a g' l') : Owing g' l' := by
  cases logs : l.logging with
  | true => exact owing.call absent moved logs
  | false =>
      by_cases isMessage : ∃ request stack, a = .message request stack
      · obtain ⟨request, stack, rfl⟩ := isMessage
        cases moved with
        | message => exact owing.message request stack
      · have calls (request : Request) (stack : AmlogLine) :
            a ≠ .message request stack := fun same =>
          isMessage ⟨request, stack, same⟩
        refine (owing.frame moved logs foreign calls).silent logs ?_ (move_ready moved owing.ready)
        apply Bool.eq_false_iff.mpr
        intro logs'
        rcases move_logging moved logs' with earlier | message
        · cases earlier.symm.trans logs
        · exact isMessage message

theorem move_absent (moved : Move g l a g' l') (absent : g.logThread = none) :
    g'.logThread = none := by
  cases here' : g'.logThread with
  | none => rfl
  | some thread' =>
      obtain ⟨thread, here⟩ := move_logThread moved here'
      cases absent.symm.trans here

theorem terminating_absent (moved : Move g l a g' l') (absent : g.logThread = none)
    (calm : l.terminating = false) : l'.terminating = false := by
  apply Bool.eq_false_iff.mpr
  intro ends
  rcases move_terminating moved ends with earlier | isTerm
  · cases calm.symm.trans earlier
  · subst isTerm
    cases moved with
    | termNone => cases ends
    | term thread here => cases absent.symm.trans here

end Moves

section Runs

variable {Tid : Type} [DecidableEq Tid] {main : Tid}
  {start c c' : Config Tid (Logger Ptr) (Loc Ptr)} {acts : List (Tid × Act Ptr)} {t : Tid}

/-- `amlog_sink_init` has succeeded, without a log thread, and no call of
`amlog_sink_message` is running. -/
structure StartedUnthreaded (c : Config Tid (Logger Ptr) (Loc Ptr)) : Prop where
  init : ∃ g flags outcomes, Fresh g ∧ g.logThread = none ∧ flags.useThread = false ∧
    amlogSinkInit g flags outcomes = some (c.shared, .success)
  idle : ∀ t, c.pc t = .outside

/-- `amlog_sink_message` is called by one thread. -/
def Solo (main : Tid) (_ : Config Tid (Logger Ptr) (Loc Ptr)) (act : Tid × Act Ptr)
    (_ : Config Tid (Logger Ptr) (Loc Ptr)) : Prop :=
  ∀ request stack, act.2 = .message request stack → act.1 = main

structure Unthreaded (main : Tid) (c : Config Tid (Logger Ptr) (Loc Ptr)) : Prop where
  absent : c.shared.logThread = none
  calm : ∀ t, (c.pc t).threaded = false ∧ (c.pc t).terminating = false
  others : ∀ t, t ≠ main → (c.pc t).logging = false
  owing : Owing c.shared (c.pc main)

omit [DecidableEq Tid] in
theorem unthreaded_started (started : StartedUnthreaded start) : Unthreaded main start := by
  obtain ⟨⟨g, flags, outcomes, fresh, absent, direct, success⟩, idle⟩ := started
  have shared : start.shared = { g with
      abortOnError := flags.abortOnError, blockOnError := flags.blockOnError
      useSourceLocation := !flags.avoidSourceLines } := by
    unfold amlogSinkInit at success
    generalize threadLineBufferSize = size at success
    have unthreaded : ¬ flags.useThread = true := Bool.eq_false_iff.mp direct
    rw [if_neg unthreaded] at success
    split at success
    · cases success
    · exact (congrArg Prod.fst (Option.some.inj success)).symm
  refine ⟨?_, ?_, ?_, ?_⟩
  · rw [shared]
    exact absent
  · intro t
    rw [idle t]
    exact ⟨rfl, rfl⟩
  · intro t _
    rw [idle t]
    rfl
  · rw [idle main, shared]
    refine ⟨fun sink member => ?_, List.nil_suffix, rfl, fresh.handles⟩
    show (g.received sink.handle).map _ ++ [] = expected _ g.logged sink
    rw [fresh.record.1, fresh.record.2.2]
    rfl

theorem Unthreaded.step (unthreaded : Unthreaded main c) (solo : Solo main c (t, a) c')
    (fired : step c (t, a) = some c') : Unthreaded main c' := by
  obtain ⟨g', l', moved, rfl⟩ := step_cases fired
  obtain ⟨foreign, calm⟩ := unthreaded.calm t
  refine ⟨move_absent moved unthreaded.absent, fun u => ?_, fun u other => ?_, ?_⟩
  · show (Function.update c.pc t l' u).threaded = false ∧
        (Function.update c.pc t l' u).terminating = false
    rcases update_cases c.pc t l' u with ⟨-, point⟩ | ⟨-, point⟩ <;> rw [point]
    · exact ⟨(move_threaded moved).trans foreign, terminating_absent moved unthreaded.absent calm⟩
    · exact unthreaded.calm u
  · show (Function.update c.pc t l' u).logging = false
    rcases update_cases c.pc t l' u with ⟨rfl, point⟩ | ⟨-, point⟩ <;> rw [point]
    · apply Bool.eq_false_iff.mpr
      intro logs
      rcases move_logging moved logs with earlier | ⟨request, stack, isMessage⟩
      · cases earlier.symm.trans (unthreaded.others u other)
      · exact other (solo request stack isMessage)
    · exact unthreaded.others u other
  · show Owing g' (Function.update c.pc t l' main)
    rcases update_cases c.pc t l' main with ⟨rfl, point⟩ | ⟨other, point⟩ <;> rw [point]
    · exact unthreaded.owing.step unthreaded.absent foreign moved
    · exact unthreaded.owing.frame moved (unthreaded.others t (Ne.symm other)) foreign
        fun request stack isMessage =>
        other (solo request stack isMessage).symm

theorem run_unthreaded (started : StartedUnthreaded start)
    (run : Run step (Solo main) start acts c) : Unthreaded main c := by
  induction run with
  | nil => exact unthreaded_started started
  | snoc _ fired solo ih => exact ih.step solo fired

omit [DecidableEq Tid] in
theorem Unthreaded.received (unthreaded : Unthreaded main c) (idle : (c.pc main).logging = false)
    (sink : DirectSink Ptr) (member : sink ∈ c.shared.directSinks) :
    (c.shared.received sink.handle).map AmlogLine.content =
      expected c.shared.useSourceLocation c.shared.logged sink := by
  have balance := unthreaded.owing.balance sink member
  rwa [due_silent idle, List.append_nil] at balance

end Runs

end Libam.Log
