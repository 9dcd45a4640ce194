import Libam.Log.Threaded
import Mathlib.Data.List.TakeWhile

/-! The messages that sinks receive, and what `message_length` says about them. -/

namespace Libam.Log

open Libam.Interleaving

variable {Ptr : Type}

section Lines

structure Proper (text : List UInt8) (ent : AmlogLine) : Prop where
  terminated : 0 ∈ ent.message.take messageSize
  beginning : ent.content.message <+: text
  whole : text.length < messageSize → ent.content.message = text
  length : ent.messageLength = ent.content.message.length

theorem lineOf_some {useSourceLocation : Bool} {request : Request} {text : List UInt8}
    {ent : AmlogLine} (given : request.text = some text)
    (isLine : lineOf useSourceLocation request = some ent) :
    ent.message = (text.take (messageSize - 2)).takeWhile (· ≠ 0) ∧
    ent.messageLength = text.length := by
  simp only [lineOf, given, AmlogLine.written, Option.ite_none_right_eq_some,
    Option.some.injEq] at isLine
  obtain ⟨-, rfl⟩ := isLine
  exact ⟨rfl, rfl⟩

theorem takeWhile_length_eq {α : Type} {p : α → Bool} {l : List α} :
    (l.takeWhile p).length = l.length ↔ ∀ x ∈ l, p x = true := by
  rw [← List.takeWhile_eq_self_iff]
  exact ⟨fun same => (List.takeWhile_prefix p).eq_of_length same, congrArg List.length⟩

/-- The length of the text is the one of what is stored when nothing of it is left out. -/
theorem proper_iff {text : List UInt8} {ent : AmlogLine}
    (terminated : 0 ∈ ent.message.take messageSize)
    (message : ent.content.message = (text.take (messageSize - 2)).takeWhile (· ≠ 0))
    (length : ent.messageLength = text.length) :
    Proper text ent ↔ text.length < messageSize - 1 ∧ 0 ∉ text := by
  constructor
  · intro proper
    have same : text.length = ((text.take (messageSize - 2)).takeWhile (· ≠ 0)).length := by
      have stored := length.symm.trans proper.length
      rw [message] at stored
      exact_mod_cast stored
    have cut := (List.takeWhile_prefix (l := text.take (messageSize - 2))
      (· ≠ (0 : UInt8))).length_le
    have short : text.length ≤ messageSize - 2 := by
      rw [← same, List.length_take] at cut
      omega
    rw [List.take_of_length_le short] at same
    refine ⟨lt_of_le_of_lt short (by decide), fun zero => ?_⟩
    simpa using takeWhile_length_eq.mp same.symm 0 zero
  · rintro ⟨short, noZero⟩
    have stored : ent.content.message = text := by
      rw [message, List.take_of_length_le
        (show text.length ≤ messageSize - 2 from Nat.le_sub_one_of_lt short),
        List.takeWhile_eq_self_iff]
      intro byte member
      have nonzero : byte ≠ 0 := by
        rintro rfl
        exact noZero member
      simpa using nonzero
    exact ⟨terminated, stored ▸ List.prefix_rfl, fun _ => stored, by rw [length, stored]⟩

theorem format_terminated (ent : AmlogLine) (now : UInt64) (text : Option (List UInt8))
    (fits : ¬ (formatEnt ent now text).messageLength < 0) :
    0 ∈ (formatEnt ent now text).message.take messageSize := by
  cases text with
  | none => exact absurd (by decide : (-1 : ℤ) < 0) fits
  | some text =>
      have short : (text.take (messageSize - 2)).length ≤ messageSize - 2 := List.length_take_le _ _
      obtain ⟨k, last⟩ : ∃ k, messageSize - 1 - (text.take (messageSize - 2)).length = k + 1 :=
        ⟨messageSize - 2 - (text.take (messageSize - 2)).length,
          by simp only [messageSize] at *; omega⟩
      have message : (formatEnt ent now (some text)).message = (text.take (messageSize - 2) ++
          0 :: ent.message.drop (min text.length (messageSize - 2) + 1)).set
          (messageSize - 1) 0 := rfl
      rw [List.set_append_right _ _ (short.trans (by decide)), last, List.set_cons_succ,
        List.append_cons]
        at message
      have kept : text.take (messageSize - 2) ++ [0] <+:
          (formatEnt ent now (some text)).message.take messageSize := by
        rw [message, List.prefix_take_iff]
        refine ⟨List.prefix_append _ _, ?_⟩
        simp only [List.length_append, List.length_singleton]
        simp only [messageSize] at *
        omega
      exact kept.subset (by simp)

end Lines

section Written

structure LineWritten (g : Logger Ptr) (ent : AmlogLine) : Prop where
  line : ∃ request ∈ g.logged, lineOf g.useSourceLocation request = some ent.content
  terminated : 0 ∈ ent.message.take messageSize

def Logger.WrittenAt (g : Logger Ptr) (i : ℕ) : Prop :=
  ∀ thread, g.logThread = some thread → LineWritten g (thread.lineBuffer i)

def Slot.Written (g : Logger Ptr) : Slot Ptr → Prop
  | .line i => g.WrittenAt i
  | .foreign _ buffer => LineWritten g (g.foreignLines buffer)

structure Call.Made (g : Logger Ptr) (call : Call) : Prop where
  line : ∃ request ∈ g.logged, lineOf g.useSourceLocation request = call.line
  terminated : call.formatted = true → 0 ∈ call.ent.message.take messageSize

def Loc.Written (g : Logger Ptr) : Loc Ptr → Prop
  | .lockQueued call => call.Made g
  | .queued call _ => call.Made g
  | .dequeue call _ _ => call.Made g
  | .copy call _ _ => call.Made g
  | .enqueue call slot _ => call.Made g ∧ slot.Written g
  | .readThread call => call.Made g
  | .lockDirect call => call.Made g
  | .direct call _ => call.Made g
  | .callback call _ _ => call.Made g
  | .lockLine i => g.WrittenAt i
  | .deliver i _ => g.WrittenAt i
  | .passOn i _ ent _ => g.WrittenAt i ∧ LineWritten g ent
  | _ => True

def Logger.QueueWritten (g : Logger Ptr) : Prop :=
  ∀ thread, g.logThread = some thread → ∀ i ∈ thread.inQueue, LineWritten g (thread.lineBuffer i)

structure Onward (g g' : Logger Ptr) : Prop where
  logged : ∀ request ∈ g.logged, request ∈ g'.logged
  settings : g'.useSourceLocation = g.useSourceLocation
  lines : ∀ thread', g'.logThread = some thread' → ∃ thread, g.logThread = some thread ∧
    ∀ i, thread'.lineBuffer i = thread.lineBuffer i ∨ LineWritten g' (thread'.lineBuffer i)
  foreign : ∀ buffer, g'.foreignLines buffer = g.foreignLines buffer ∨
    LineWritten g' (g'.foreignLines buffer)

variable {g g' : Logger Ptr} {call : Call} {ent : AmlogLine} {i : ℕ}

theorem Call.Made.written (made : call.Made g) (formatted : call.formatted = true) :
    LineWritten g call.ent := by
  obtain ⟨request, member, line⟩ := made.line
  rw [Call.line, if_pos formatted] at line
  exact ⟨⟨request, member, line⟩, made.terminated formatted⟩

theorem Onward.written (onward : Onward g g') (written : LineWritten g ent) :
    LineWritten g' ent := by
  obtain ⟨⟨request, member, line⟩, terminated⟩ := written
  exact ⟨⟨request, onward.logged request member, onward.settings ▸ line⟩, terminated⟩

theorem Onward.made (onward : Onward g g') (made : call.Made g) : call.Made g' := by
  obtain ⟨⟨request, member, line⟩, terminated⟩ := made
  exact ⟨⟨request, onward.logged request member, onward.settings ▸ line⟩, terminated⟩

theorem Onward.writtenAt (onward : Onward g g') (written : g.WrittenAt i) : g'.WrittenAt i := by
  intro thread' here'
  obtain ⟨thread, here, lines⟩ := onward.lines thread' here'
  rcases lines i with same | other
  · exact same ▸ onward.written (written thread here)
  · exact other

theorem Onward.slot (onward : Onward g g') {slot : Slot Ptr} (written : slot.Written g) :
    slot.Written g' := by
  cases slot with
  | line i => exact onward.writtenAt written
  | foreign inQueue buffer =>
      rcases onward.foreign buffer with same | other
      · exact (congrArg (LineWritten g') same).mpr (onward.written written)
      · exact other

theorem Onward.loc (onward : Onward g g') {l : Loc Ptr} (written : l.Written g) : l.Written g' := by
  cases l with
  | enqueue call slot rest => exact ⟨onward.made written.1, onward.slot written.2⟩
  | lockLine i => exact onward.writtenAt written
  | deliver i rest => exact onward.writtenAt written
  | passOn i sink ent rest => exact ⟨onward.writtenAt written.1, onward.written written.2⟩
  | _ => first | trivial | exact onward.made written

end Written

section Moves

variable [DecidableEq Ptr] {g g' : Logger Ptr} {l l' : Loc Ptr} {a : Act Ptr}

theorem move_onward (moved : Move g l a g' l') (written : l.Written g) (ready : l.ready = true) :
    Onward g g' := by
  cases moved with
  | message request stack =>
      exact ⟨fun _ member => List.mem_append_left _ member, rfl,
        fun thread' here' => ⟨thread', here', fun _ => .inl rfl⟩, fun _ => .inl rfl⟩
  | takeLine call sink rest thread i out own here first =>
      refine ⟨fun _ member => member, rfl, fun thread' here' => ?_, fun _ => .inl rfl⟩
      cases here'
      exact ⟨thread, here, fun _ => .inl rfl⟩
  | copyLine call i rest thread here =>
      refine ⟨fun _ member => member, rfl, fun thread' here' => ?_, fun _ => .inl rfl⟩
      cases here'
      refine ⟨thread, here, fun j => ?_⟩
      by_cases same : j = i
      · right
        simp only [same, Function.update_self]
        exact ⟨(written.written ready).line, (written.written ready).terminated⟩
      · exact .inl (Function.update_of_ne same ..)
  | copyForeign call inQueue buffer rest =>
      refine ⟨fun _ member => member, rfl, fun thread' here' => ⟨thread', here', fun _ => .inl rfl⟩,
        fun other => ?_⟩
      by_cases same : other = buffer
      · right
        simp only [same, Function.update_self]
        exact ⟨(written.written ready).line, (written.written ready).terminated⟩
      · exact .inl (Function.update_of_ne same ..)
  | placeLine call i rest thread here room =>
      refine ⟨fun _ member => member, rfl, fun thread' here' => ?_, fun _ => .inl rfl⟩
      cases here'
      exact ⟨thread, here, fun _ => .inl rfl⟩
  | deqLine thread i rest here first =>
      refine ⟨fun _ member => member, rfl, fun thread' here' => ?_, fun _ => .inl rfl⟩
      cases here'
      exact ⟨thread, here, fun _ => .inl rfl⟩
  | enqLine i thread here room =>
      refine ⟨fun _ member => member, rfl, fun thread' here' => ?_, fun _ => .inl rfl⟩
      cases here'
      exact ⟨thread, here, fun _ => .inl rfl⟩
  | stop thread here =>
      refine ⟨fun _ member => member, rfl, fun thread' here' => ?_, fun _ => .inl rfl⟩
      cases here'
      exact ⟨thread, here, fun _ => .inl rfl⟩
  | release => exact ⟨fun _ member => member, rfl, nofun, fun _ => .inl rfl⟩
  | noLine _ _ _ _ _ _ _ _ _ missed | noForeign _ _ _ _ _ _ _ _ missed =>
      obtain ⟨aborted, rfl, -⟩ := noLine_cases missed
      exact ⟨fun _ member => member, rfl, fun thread' here' => ⟨thread', here', fun _ => .inl rfl⟩,
        fun _ => .inl rfl⟩
  | _ =>
      exact ⟨fun _ member => member, rfl, fun thread' here' => ⟨thread', here', fun _ => .inl rfl⟩,
        fun _ => .inl rfl⟩

omit [DecidableEq Ptr] in
theorem made_formatted {call : Call} {now : UInt64} (made : call.Made g)
    (fresh : ¬ call.formatted = true)
    (fits : ¬ (formatEnt call.ent now call.text).messageLength < 0) :
    (⟨formatEnt call.ent now call.text, true, call.text⟩ : Call).Made g := by
  obtain ⟨request, member, line⟩ := made.line
  exact ⟨⟨request, member, line.trans (line_formatted fits fresh).symm⟩, fun _ =>
    format_terminated _ _ _ fits⟩

theorem move_written (moved : Move g l a g' l') (written : l.Written g) (ready : l.ready = true)
    (queue : g.QueueWritten) : l'.Written g' := by
  have onward := move_onward moved written ready
  cases moved with
  | message request stack =>
      exact ⟨⟨request, by simp, (enter_line g request stack).symm⟩, nofun⟩
  | queuedFormat call sink rest now admitted fresh fits => exact made_formatted written fresh fits
  | directFormat call sink rest now admitted fresh fits => exact made_formatted written fresh fits
  | takeLine call sink rest thread i out own here first => exact onward.made written
  | copyLine call i rest thread here =>
      refine ⟨onward.made written, fun thread' here' => ?_⟩
      cases here'
      simp only [Function.update_self]
      exact onward.written (written.written ready)
  | copyForeign call inQueue buffer rest =>
      refine ⟨onward.made written, ?_⟩
      show LineWritten _ (Function.update g.foreignLines buffer call.ent buffer)
      rw [Function.update_self]
      exact onward.written (written.written ready)
  | placeLine call i rest thread here room => exact onward.made written.1
  | placeForeign call inQueue buffer rest => exact onward.made written.1
  | deqLine thread i rest here first =>
      intro thread' here'
      cases here'
      exact onward.written (queue thread here i (by rw [first]; exact List.mem_cons_self))
  | deliverCopy i sink rest thread here admitted => exact ⟨written, written thread here⟩
  | passOn i sink ent rest => exact onward.writtenAt written.1
  | noLine _ _ _ _ _ _ _ _ _ missed | noForeign _ _ _ _ _ _ _ _ missed =>
      obtain ⟨-, -, rfl | rfl⟩ := noLine_cases missed <;> exact onward.made written
  | _ => first | trivial | exact onward.made written | exact onward.writtenAt written

theorem move_queueWritten (moved : Move g l a g' l') (written : l.Written g)
    (ready : l.ready = true) (queue : g.QueueWritten) : g'.QueueWritten := by
  have onward := move_onward moved written ready
  have kept {thread thread' : LogThread} (here : g.logThread = some thread)
      (here' : g'.logThread = some thread')
      (fewer : ∀ i ∈ thread'.inQueue, i ∈ thread.inQueue) : g'.QueueWritten := by
    intro other here'' i member
    cases here'.symm.trans here''
    obtain ⟨before, was, lines⟩ := onward.lines thread' here'
    cases here.symm.trans was
    rcases lines i with same | new
    · exact same ▸ onward.written (queue thread here i (fewer i member))
    · exact new
  cases moved with
  | takeLine call sink rest thread i out own here first =>
      exact kept here rfl fun _ member => member
  | copyLine call i rest thread here => exact kept here rfl fun _ member => member
  | placeLine call i rest thread here room =>
      intro thread' here' j member
      cases here'
      rcases List.mem_append.mp member with old | new
      · exact onward.written (queue thread here j old)
      · rw [List.mem_singleton.mp new]
        exact onward.written (written.2 thread here)
  | deqLine thread i rest here first =>
      refine kept here rfl fun j member => ?_
      rw [first]
      exact List.mem_cons_of_mem _ member
  | enqLine i thread here room => exact kept here rfl fun _ member => member
  | stop thread here => exact kept here rfl fun _ member => member
  | release => exact nofun
  | noLine _ _ _ _ _ _ _ _ _ missed | noForeign _ _ _ _ _ _ _ _ missed =>
      obtain ⟨aborted, rfl, -⟩ := noLine_cases missed
      exact fun thread here => kept here here (fun _ member => member) thread here
  | _ => exact fun thread here => kept here here (fun _ member => member) thread here

end Moves

section Runs

variable {Tid : Type} [DecidableEq Tid] {log t : Tid}
  {start c c' : Config Tid (Logger Ptr) (Loc Ptr)} {acts : List (Tid × Act Ptr)}
  {act : Tid × Act Ptr} {a : Act Ptr} {ent : AmlogLine}

/-- The line that a step hands to a sink: what is in the buffer that it puts into a queue, or what
it calls a direct sink with. -/
def Logger.delivers (g : Logger Ptr) : Loc Ptr → Loc Ptr → Option AmlogLine
  | .enqueue _ (.line i) _, .queued _ _ => g.logThread.map (·.lineBuffer i)
  | .enqueue _ (.foreign _ buffer) _, .queued _ _ => some (g.foreignLines buffer)
  | .callback call _ _, _ => some call.ent
  | .passOn _ _ ent _, _ => some ent
  | _, _ => none

def delivered [DecidableEq Ptr] (c : Config Tid (Logger Ptr) (Loc Ptr)) (act : Tid × Act Ptr) :
    Option AmlogLine :=
  (step c act).bind fun c' => c.shared.delivers (c.pc act.1) (c'.pc act.1)

structure Sourced (c : Config Tid (Logger Ptr) (Loc Ptr)) : Prop where
  places : ∀ t, (c.pc t).Written c.shared ∧ (c.pc t).ready = true
  queue : c.shared.QueueWritten

omit [DecidableEq Tid] in
theorem delivers_written {l l' : Loc Ptr} {g : Logger Ptr} (written : l.Written g)
    (ready : l.ready = true) (delivers : g.delivers l l' = some ent) : LineWritten g ent := by
  cases l with
  | enqueue call slot rest =>
      cases slot with
      | line i =>
          cases l' with
          | queued call' rest' =>
              obtain ⟨thread, here, rfl⟩ := Option.map_eq_some_iff.mp delivers
              exact written.2 thread here
          | _ => cases delivers
      | foreign inQueue buffer =>
          cases l' with
          | queued call' rest' =>
              cases delivers
              exact written.2
          | _ => cases delivers
  | callback call sink rest =>
      cases delivers
      simp only [Loc.ready, Bool.and_eq_true] at ready
      exact written.written ready.1
  | passOn i sink line rest =>
      cases delivers
      exact written.2
  | _ => cases delivers

variable [DecidableEq Ptr]

omit [DecidableEq Tid] [DecidableEq Ptr] in
theorem sourced_started (started : Started log start) : Sourced start := by
  obtain ⟨⟨g, flags, outcomes, -, threaded, success⟩, atLog, others⟩ := started
  refine ⟨fun t => ?_, ?_⟩
  · by_cases isLog : t = log
    · rw [isLog, atLog]
      exact ⟨trivial, rfl⟩
    · rw [others t isLog]
      exact ⟨trivial, rfl⟩
  · rw [init_success threaded success]
    intro thread here
    cases here
    exact nofun

omit [DecidableEq Tid] in
theorem sourced_unthreaded (started : StartedUnthreaded start) (main : Tid) : Sourced start := by
  refine ⟨fun t => ?_, ?_⟩
  · rw [started.idle t]
    exact ⟨trivial, rfl⟩
  · intro thread here
    have unthreaded : Unthreaded main start := unthreaded_started started
    cases unthreaded.absent.symm.trans here

theorem sourced_step (sourced : Sourced c) (fired : step c (t, a) = some c') : Sourced c' := by
  obtain ⟨g, l, moved, rfl⟩ := step_cases fired
  obtain ⟨written, ready⟩ := sourced.places t
  have onward := move_onward moved written ready
  refine ⟨?_, move_queueWritten moved written ready sourced.queue⟩
  exact (Function.forall_update_iff _ fun _ (l : Loc Ptr) => l.Written g ∧ l.ready = true).mpr
    ⟨⟨move_written moved written ready sourced.queue, move_ready moved ready⟩,
      fun u _ => ⟨onward.loc (sourced.places u).1, (sourced.places u).2⟩⟩

/-- Every line that a sink gets is the one of a call, terminated, and begins like its text. It is
what it is promised to be if and only if the text has less bytes than `vsnprintf` was given, and
none is zero. -/
theorem amlog_sink_message_proper_iff
    (started : (∃ log, Started log start) ∨ StartedUnthreaded start)
    (run : Run step Any start acts c) (delivers : delivered c act = some ent) :
    (∃ request ∈ c.shared.logged, lineOf c.shared.useSourceLocation request = some ent.content) ∧
      ∀ request text, request.text = some text →
        lineOf c.shared.useSourceLocation request = some ent.content →
        0 ∈ ent.message.take messageSize ∧ ent.content.message <+: text ∧
          (Proper text ent ↔ text.length < messageSize - 1 ∧ 0 ∉ text) := by
  have sourced : Sourced c := by
    refine run.invariant Sourced ?_ fun _ _ _ sourced fired _ => sourced_step sourced fired
    exact started.elim (fun ⟨_, threaded⟩ => sourced_started threaded) fun started =>
      sourced_unthreaded started act.1
  obtain ⟨c', -, delivers⟩ := Option.bind_eq_some_iff.mp delivers
  have written := delivers_written (sourced.places act.1).1 (sourced.places act.1).2 delivers
  refine ⟨written.line, fun request text given isLine => ?_⟩
  obtain ⟨message, length⟩ := lineOf_some given isLine
  refine ⟨written.terminated, ?_, proper_iff written.terminated message length⟩
  rw [message]
  exact (List.takeWhile_prefix _).trans (List.take_prefix _ _)

end Runs

section Samples

/-- The line of a call without a log thread. -/
theorem amlog_sink_message_proper_iff_sample : ∃ ent : AmlogLine,
    ent.content.message = [104, 105] ∧ Proper [104, 105] ent := by
  have run : Run step Any sampleUnthreaded
      [(1, .message sampleRequest clearLine), (1, .tick), (1, .tick), (1, .tick), (1, .tick),
        (1, .clock 8)] _ :=
    run_any rfl
  have proper := (amlog_sink_message_proper_iff (.inr sample_unthreaded) run
    (show delivered _ ((1 : Fin 2), Act.tick) = some _ from rfl)).2 sampleRequest [104, 105] rfl rfl
  exact ⟨_, rfl, proper.2.2.mpr (by decide)⟩

set_option maxRecDepth 10000 in
/-- A text of 255 bytes loses its last one, which `message_length` counts. -/
theorem amlog_sink_message_overstates : ∃ acts c ent, StartedUnthreaded sampleUnthreaded ∧
    Run step Any sampleUnthreaded acts c ∧ delivered c ((1 : Fin 2), Act.tick) = some ent ∧
    c.shared.logged = [⟨some "main.c", 3, 1, 0, some (List.replicate 255 65)⟩] ∧
    ent.messageLength = 255 ∧ ¬ Proper (List.replicate 255 65) ent := by
  have run : Run step Any sampleUnthreaded
      [(1, .message ⟨some "main.c", 3, 1, 0, some (List.replicate 255 65)⟩ clearLine),
        (1, .tick), (1, .tick), (1, .tick), (1, .tick), (1, .clock 8)] _ :=
    run_any rfl
  refine ⟨_, _, _, sample_unthreaded, run, rfl, rfl, rfl, fun proper => ?_⟩
  have length : (255 : ℤ) = 254 := proper.length
  cases length

end Samples

end Libam.Log
