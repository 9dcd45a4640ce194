import Libam.Types
import Libam.Concurrency.Interleaving

/-! The log sinks of `libam_log.c`, one access to shared data at a time: calls of
`amlog_sink_message`, the thread that passes lines to the direct sinks, and `amlog_sink_term`. A
call of a queue is a single step. -/

namespace Libam.Log

open Libam.Interleaving

variable {Tid Ptr : Type}

section Lines

/-- `amlog_line_t`. A NULL pointer is `none`; `message` are the bytes of the array. -/
structure AmlogLine where
  timestamp : UInt64
  level : UInt64
  mask : UInt64
  file : Option String
  line : ℤ
  message : List UInt8
  messageLength : ℤ
  deriving DecidableEq, Repr

/-- The arguments of `amlog_sink_message`. `text` is what the format gives, or none if
it is in error. -/
structure Request where
  file : Option String
  line : ℤ
  level : UInt64
  mask : UInt64
  text : Option (List UInt8)
  deriving DecidableEq, Repr

/-- `sizeof(ent.message)`. -/
def messageSize : ℕ := 256

/-- At most `size - 1` bytes and a zero are written, and the length of the whole text is returned; a
length that is no `int` is an error. -/
def vsnprintf (buffer : List UInt8) (size : ℕ) : Option (List UInt8) → List UInt8 × ℤ
  | none => (buffer, -1)
  | some text =>
      (text.take (size - 1) ++ 0 :: buffer.drop (min text.length (size - 1) + 1),
        if text.length < 2 ^ 31 then text.length else -1)

def formatEnt (ent : AmlogLine) (now : UInt64) (text : Option (List UInt8)) : AmlogLine :=
  let (message, messageLength) := vsnprintf ent.message (messageSize - 1) text
  { ent with
    timestamp := now, message := message.set (messageSize - 1) 0, messageLength := messageLength }

def skips (level mask : UInt64) (ent : AmlogLine) : Bool :=
  decide (mask ≠ 0 ∧ ent.mask ≠ 0 ∧ mask &&& ent.mask = 0) || decide (level < ent.level)

end Lines

section Sinks

/-- A sink of `direct_sinks`, told from all others by `handle`. -/
structure DirectSink (Ptr : Type) where
  handle : Ptr
  level : UInt64
  mask : UInt64
  deriving DecidableEq, Repr

/-- The queues of a sink: those of the log thread, which are known in `libam_log.c` only, or queues
that were given to `amlog_sink_register_queued`. -/
inductive SinkQueues (Ptr : Type)
  | thread
  | foreign (inQueue outQueue : Ptr)
  deriving DecidableEq, Repr

structure QueuedSink (Ptr : Type) where
  level : UInt64
  mask : UInt64
  queues : SinkQueues Ptr
  deriving DecidableEq, Repr

def threadLineBufferSize : ℕ := 2048

/-- `log_thread_t`. The queues hold numbers of lines of `lineBuffer`. -/
structure LogThread where
  keepRunning : Bool
  inQueue : List ℕ
  outQueue : List ℕ
  lineBuffer : ℕ → AmlogLine

/-- The global variables, how many calls hold the two locks for reading, the queues of the other
sinks with their lines, whether the log thread has ended, and whether `abort` was called. The fields
from `logged` on are a record that no code reads: the calls of `amlog_sink_message`, the lines that
were placed in the queue of the log thread, and those that each direct sink was called with. -/
structure Logger (Ptr : Type) where
  useSourceLocation : Bool
  abortOnError : Bool
  blockOnError : Bool
  logThread : Option LogThread
  directSinks : List (DirectSink Ptr)
  queuedSinks : List (QueuedSink Ptr)
  directReaders : ℕ
  queuedReaders : ℕ
  foreign : Ptr → List Ptr
  foreignLines : Ptr → AmlogLine
  threadDone : Bool
  aborted : Bool
  logged : List Request
  placed : List AmlogLine
  received : Ptr → List AmlogLine

end Sinks

section Init

structure AmlogFlags where
  useThread : Bool
  avoidSourceLines : Bool
  blockOnError : Bool
  abortOnError : Bool
  deriving DecidableEq, Repr

/-- What the allocations of `amlog_sink_init` and `pthread_create` come to. -/
structure InitOutcomes where
  thread : Bool
  inQueue : Bool
  outQueue : Bool
  sink : Bool
  created : Bool
  deriving DecidableEq, Repr

/-- The loop that puts the first lines of the buffer into `out_queue`. -/
def fillOutQueue (thread : LogThread) : ℕ → LogThread
  | 0 => thread
  | i + 1 =>
      let thread := fillOutQueue thread i
      { thread with outQueue := thread.outQueue ++ [i] }

def clearLine : AmlogLine := ⟨0, 0, 0, none, 0, List.replicate messageSize 0, 0⟩

def threadSink : QueuedSink Ptr := ⟨0xFFFFFFFFFFFFFFFF, 0, .thread⟩

/-- No result is a failed assertion. What was set up before an error is undone. -/
def amlogSinkInit (g : Logger Ptr) (flags : AmlogFlags) (outcomes : InitOutcomes) :
    Option (Logger Ptr × Amrc) :=
  if flags.blockOnError && flags.abortOnError then some (g, .error)
  else
    let g := { g with
      abortOnError := flags.abortOnError, blockOnError := flags.blockOnError
      useSourceLocation := !flags.avoidSourceLines }
    if flags.useThread then
      if g.logThread.isSome then none
      else if outcomes.thread && outcomes.inQueue && outcomes.outQueue && outcomes.sink &&
        outcomes.created then
        let thread := fillOutQueue ⟨true, [], [], fun _ => clearLine⟩ threadLineBufferSize
        some ({ g with
          logThread := some thread, queuedSinks := threadSink :: g.queuedSinks
          threadDone := false },
          .success)
      else some (g, .error)
    else some (g, .success)

theorem fillOutQueue_spec (thread : LogThread) (n : ℕ) :
    fillOutQueue thread n = { thread with outQueue := thread.outQueue ++ List.range n } := by
  induction n with
  | zero => simp [fillOutQueue]
  | succ n ih => simp [fillOutQueue, ih, List.range_succ]

end Init

section Steps

/-- The local variables of `amlog_sink_message`, with the text of its format. -/
structure Call where
  ent : AmlogLine
  formatted : Bool
  text : Option (List UInt8)
  deriving DecidableEq, Repr

inductive Slot (Ptr : Type)
  | line (i : ℕ)
  | foreign (inQueue : Ptr) (buffer : Ptr)
  deriving DecidableEq, Repr

inductive Loc (Ptr : Type)
  -- `amlog_sink_message`
  | outside
  | lockQueued (call : Call)
  | queued (call : Call) (rest : List (QueuedSink Ptr))
  | dequeue (call : Call) (sink : QueuedSink Ptr) (rest : List (QueuedSink Ptr))
  | copy (call : Call) (slot : Slot Ptr) (rest : List (QueuedSink Ptr))
  | enqueue (call : Call) (slot : Slot Ptr) (rest : List (QueuedSink Ptr))
  | readThread (call : Call)
  | lockDirect (call : Call)
  | direct (call : Call) (rest : List (DirectSink Ptr))
  | callback (call : Call) (sink : DirectSink Ptr) (rest : List (DirectSink Ptr))
  | returned (rc : Amrc)
  -- `amlog_direct_callback_thread_func`
  | deq
  | readRunning
  | lockLine (i : ℕ)
  | deliver (i : ℕ) (rest : List (DirectSink Ptr))
  | passOn (i : ℕ) (sink : DirectSink Ptr) (ent : AmlogLine) (rest : List (DirectSink Ptr))
  | enq (i : ℕ)
  | ended
  -- `amlog_sink_term`
  | stop
  | join
  | unregister
  | release
  deriving DecidableEq, Repr

/-- What the next access needs besides the state: a reading of the clock, the arguments of a call
with what its stack holds, or what the owner of a queue makes of it. -/
inductive Act (Ptr : Type)
  | tick
  | clock (now : UInt64)
  | message (request : Request) (stack : AmlogLine)
  | term
  | supply (queue : Ptr) (buffers : List Ptr)
  deriving DecidableEq, Repr

variable [DecidableEq Ptr]

def Logger.enter (g : Logger Ptr) (request : Request) (stack : AmlogLine) : Call where
  ent := { stack with
    level := request.level, mask := request.mask
    file := if g.useSourceLocation then request.file else some "N/A"
    line := if g.useSourceLocation then request.line else 0 }
  formatted := false
  text := request.text

/-- No line is free: `amlog_sink_dequeue` aborts, tries again or fails. -/
def Logger.noLine (g : Logger Ptr) (call : Call) (sink : QueuedSink Ptr)
    (rest : List (QueuedSink Ptr)) : Logger Ptr × Loc Ptr :=
  if g.abortOnError then ({ g with aborted := true }, .dequeue call sink rest)
  else if g.blockOnError then (g, .dequeue call sink rest)
  else (g, .queued call rest)

def Logger.receive (g : Logger Ptr) (sink : DirectSink Ptr) (ent : AmlogLine) : Logger Ptr :=
  { g with received := Function.update g.received sink.handle (g.received sink.handle ++ [ent]) }

/-- One access of one thread. A lock for writing is held within one step only. A line is never NULL,
so `amcqueue_enq` succeeds. -/
def next (g : Logger Ptr) : Loc Ptr → Act Ptr → Option (Logger Ptr × Loc Ptr)
  | .outside, .supply queue buffers =>
      some ({ g with foreign := Function.update g.foreign queue buffers }, .outside)
  | .outside, .message request stack =>
      some ({ g with logged := g.logged ++ [request] }, .lockQueued (g.enter request stack))
  | .lockQueued call, .tick =>
      some ({ g with queuedReaders := g.queuedReaders + 1 }, .queued call g.queuedSinks)
  | .queued call [],
      .tick => some ({ g with queuedReaders := g.queuedReaders - 1 }, .readThread call)
  | .queued call (sink :: rest), .clock now =>
      if skips sink.level sink.mask call.ent then some (g, .queued call rest)
      else if call.formatted then some (g, .dequeue call sink rest)
      else
        let ent := formatEnt call.ent now call.text
        if ent.messageLength < 0 then
          some ({ g with queuedReaders := g.queuedReaders - 1 }, .returned .error)
        else some (g, .dequeue ⟨ent, true, call.text⟩ sink rest)
  | .dequeue call sink rest, .tick =>
      match sink.queues, g.logThread with
      | .thread, none => none
      | .thread, some thread =>
          match thread.outQueue with
          | [] => some (g.noLine call sink rest)
          | i :: out =>
              some ({ g with logThread := some { thread with outQueue := out } },
                .copy call (.line i) rest)
      | .foreign inQueue outQueue, _ =>
          match g.foreign outQueue with
          | [] => some (g.noLine call sink rest)
          | buffer :: out =>
              some ({ g with foreign := Function.update g.foreign outQueue out },
                .copy call (.foreign inQueue buffer) rest)
  | .copy call (.line i) rest, .tick =>
      match g.logThread with
      | none => none
      | some thread =>
          some ({ g with
            logThread := some { thread with
              lineBuffer := Function.update thread.lineBuffer i call.ent } },
            .enqueue call (.line i) rest)
  | .copy call (.foreign inQueue buffer) rest, .tick =>
      some ({ g with foreignLines := Function.update g.foreignLines buffer call.ent },
        .enqueue call (.foreign inQueue buffer) rest)
  | .enqueue call (.line i) rest, .tick =>
      match g.logThread with
      | none => none
      | some thread =>
          if thread.inQueue.length < threadLineBufferSize then
            some ({ g with
              logThread := some { thread with inQueue := thread.inQueue ++ [i] }
              placed := g.placed ++ [thread.lineBuffer i] }, .queued call rest)
          else some (g, .enqueue call (.line i) rest)
  | .enqueue call (.foreign inQueue buffer) rest, .tick =>
      some ({ g with foreign := Function.update g.foreign inQueue (g.foreign inQueue ++ [buffer]) },
        .queued call rest)
  | .readThread call, .tick =>
      match g.logThread with
      | none => some (g, .lockDirect call)
      | some _ => some (g, .returned .success)
  | .lockDirect call, .tick =>
      some ({ g with directReaders := g.directReaders + 1 }, .direct call g.directSinks)
  | .direct _ [], .tick =>
      some ({ g with directReaders := g.directReaders - 1 }, .returned .success)
  | .direct call (sink :: rest), .clock now =>
      if skips sink.level sink.mask call.ent then some (g, .direct call rest)
      else if call.formatted then some (g, .callback call sink rest)
      else
        let ent := formatEnt call.ent now call.text
        if ent.messageLength < 0 then
          some ({ g with directReaders := g.directReaders - 1 }, .returned .error)
        else some (g, .callback ⟨ent, true, call.text⟩ sink rest)
  | .callback call sink rest, .tick => some (g.receive sink call.ent, .direct call rest)
  | .returned _, .tick => some (g, .outside)
  | .deq, .tick =>
      match g.logThread with
      | none => none
      | some thread =>
          match thread.inQueue with
          | [] => some (g, .readRunning)
          | i :: rest =>
              some ({ g with logThread := some { thread with inQueue := rest } }, .lockLine i)
  | .readRunning, .tick =>
      match g.logThread with
      | none => none
      | some thread =>
          if thread.keepRunning then some (g, .deq)
            else some ({ g with threadDone := true }, .ended)
  | .lockLine i, .tick =>
      some ({ g with directReaders := g.directReaders + 1 }, .deliver i g.directSinks)
  | .deliver i [], .tick => some ({ g with directReaders := g.directReaders - 1 }, .enq i)
  | .deliver i (sink :: rest), .tick =>
      match g.logThread with
      | none => none
      | some thread =>
          if skips sink.level sink.mask (thread.lineBuffer i) then some (g, .deliver i rest)
          else some (g, .passOn i sink (thread.lineBuffer i) rest)
  | .passOn i sink ent rest, .tick => some (g.receive sink ent, .deliver i rest)
  | .enq i, .tick =>
      match g.logThread with
      | none => none
      | some thread =>
          if thread.outQueue.length < threadLineBufferSize then
            some ({ g with logThread := some { thread with outQueue := thread.outQueue ++ [i] } },
              .deq)
          else some (g, .enq i)
  | .outside, .term =>
      match g.logThread with
      | none => some (g, .outside)
      | some _ => some (g, .stop)
  | .stop, .tick =>
      match g.logThread with
      | none => none
      | some thread =>
          some ({ g with logThread := some { thread with keepRunning := false } }, .join)
  | .join, .tick => if g.threadDone then some (g, .unregister) else none
  | .unregister, .tick =>
      if g.queuedReaders = 0 then
        some ({ g with queuedSinks := g.queuedSinks.filter fun sink => sink.queues ≠ .thread },
          .release)
      else none
  | .release, .tick => some ({ g with logThread := none }, .outside)
  | _, _ => none

inductive Move (g : Logger Ptr) : Loc Ptr → Act Ptr → Logger Ptr → Loc Ptr → Prop
  | supply (queue : Ptr) (buffers : List Ptr) :
      Move g .outside (.supply queue buffers)
      { g with foreign := Function.update g.foreign queue buffers } .outside
  | message (request : Request) (stack : AmlogLine) :
      Move g .outside (.message request stack) { g with logged := g.logged ++ [request] }
        (.lockQueued (g.enter request stack))
  | lockQueued (call : Call) :
      Move g (.lockQueued call) .tick { g with queuedReaders := g.queuedReaders + 1 }
      (.queued call g.queuedSinks)
  | queuedEnd (call : Call) :
      Move g (.queued call []) .tick { g with queuedReaders := g.queuedReaders - 1 }
      (.readThread call)
  | queuedSkip (call : Call) (sink : QueuedSink Ptr) (rest : List (QueuedSink Ptr)) (now : UInt64)
      (skipped : skips sink.level sink.mask call.ent = true) :
      Move g (.queued call (sink :: rest)) (.clock now) g (.queued call rest)
  | queuedReady (call : Call) (sink : QueuedSink Ptr) (rest : List (QueuedSink Ptr)) (now : UInt64)
      (admitted : ¬ skips sink.level sink.mask call.ent = true)
      (formatted : call.formatted = true) :
      Move g (.queued call (sink :: rest)) (.clock now) g (.dequeue call sink rest)
  | queuedFailed (call : Call) (sink : QueuedSink Ptr) (rest : List (QueuedSink Ptr)) (now : UInt64)
      (admitted : ¬ skips sink.level sink.mask call.ent = true) (fresh : ¬ call.formatted = true)
      (failed : (formatEnt call.ent now call.text).messageLength < 0) :
      Move g (.queued call (sink :: rest)) (.clock now)
        { g with queuedReaders := g.queuedReaders - 1 }
        (.returned .error)
  | queuedFormat (call : Call) (sink : QueuedSink Ptr) (rest : List (QueuedSink Ptr)) (now : UInt64)
      (admitted : ¬ skips sink.level sink.mask call.ent = true) (fresh : ¬ call.formatted = true)
      (fits : ¬ (formatEnt call.ent now call.text).messageLength < 0) :
      Move g (.queued call (sink :: rest)) (.clock now) g
        (.dequeue ⟨formatEnt call.ent now call.text, true, call.text⟩ sink rest)
  | takeLine (call : Call) (sink : QueuedSink Ptr) (rest : List (QueuedSink Ptr))
      (thread : LogThread) (i : ℕ)
      (out : List ℕ) (own : sink.queues = .thread) (here : g.logThread = some thread)
      (first : thread.outQueue = i :: out) :
      Move g (.dequeue call sink rest) .tick
        { g with logThread := some { thread with outQueue := out } }
        (.copy call (.line i) rest)
  | takeForeign (call : Call) (sink : QueuedSink Ptr) (rest : List (QueuedSink Ptr))
      (inQueue outQueue buffer : Ptr)
      (out : List Ptr) (other : sink.queues = .foreign inQueue outQueue)
      (first : g.foreign outQueue = buffer :: out) :
      Move g (.dequeue call sink rest) .tick
        { g with foreign := Function.update g.foreign outQueue out }
        (.copy call (.foreign inQueue buffer) rest)
  | noLine (call : Call) (sink : QueuedSink Ptr) (rest : List (QueuedSink Ptr)) (thread : LogThread)
      (g' : Logger Ptr) (l' : Loc Ptr) (own : sink.queues = .thread)
      (here : g.logThread = some thread)
      (empty : thread.outQueue = []) (missed : g.noLine call sink rest = (g', l')) :
      Move g (.dequeue call sink rest) .tick g' l'
  | noForeign (call : Call) (sink : QueuedSink Ptr) (rest : List (QueuedSink Ptr))
      (inQueue outQueue : Ptr)
      (g' : Logger Ptr) (l' : Loc Ptr) (other : sink.queues = .foreign inQueue outQueue)
      (missed : g.noLine call sink rest = (g', l')) : Move g (.dequeue call sink rest) .tick g' l'
  | copyLine (call : Call) (i : ℕ) (rest : List (QueuedSink Ptr)) (thread : LogThread)
      (here : g.logThread = some thread) :
      Move g (.copy call (.line i) rest) .tick
        { g with
          logThread := some { thread with
            lineBuffer := Function.update thread.lineBuffer i call.ent } }
        (.enqueue call (.line i) rest)
  | copyForeign (call : Call) (inQueue buffer : Ptr) (rest : List (QueuedSink Ptr)) :
      Move g (.copy call (.foreign inQueue buffer) rest) .tick
        { g with foreignLines := Function.update g.foreignLines buffer call.ent }
        (.enqueue call (.foreign inQueue buffer) rest)
  | placeLine (call : Call) (i : ℕ) (rest : List (QueuedSink Ptr)) (thread : LogThread)
      (here : g.logThread = some thread) (room : thread.inQueue.length < threadLineBufferSize) :
      Move g (.enqueue call (.line i) rest) .tick
        { g with
          logThread := some { thread with inQueue := thread.inQueue ++ [i] }
          placed := g.placed ++ [thread.lineBuffer i] }
        (.queued call rest)
  | placeWait (call : Call) (i : ℕ) (rest : List (QueuedSink Ptr)) (thread : LogThread)
      (here : g.logThread = some thread) (full : ¬ thread.inQueue.length < threadLineBufferSize) :
      Move g (.enqueue call (.line i) rest) .tick g (.enqueue call (.line i) rest)
  | placeForeign (call : Call) (inQueue buffer : Ptr) (rest : List (QueuedSink Ptr)) :
      Move g (.enqueue call (.foreign inQueue buffer) rest) .tick
        { g with foreign := Function.update g.foreign inQueue (g.foreign inQueue ++ [buffer]) }
        (.queued call rest)
  | noThread (call : Call) (none : g.logThread = none) : Move g (.readThread call) .tick g
      (.lockDirect call)
  | threaded (call : Call) (thread : LogThread) (here : g.logThread = some thread) :
      Move g (.readThread call) .tick g (.returned .success)
  | lockDirect (call : Call) :
      Move g (.lockDirect call) .tick { g with directReaders := g.directReaders + 1 }
      (.direct call g.directSinks)
  | directEnd (call : Call) :
      Move g (.direct call []) .tick { g with directReaders := g.directReaders - 1 }
      (.returned .success)
  | directSkip (call : Call) (sink : DirectSink Ptr) (rest : List (DirectSink Ptr)) (now : UInt64)
      (skipped : skips sink.level sink.mask call.ent = true) :
      Move g (.direct call (sink :: rest)) (.clock now) g (.direct call rest)
  | directReady (call : Call) (sink : DirectSink Ptr) (rest : List (DirectSink Ptr)) (now : UInt64)
      (admitted : ¬ skips sink.level sink.mask call.ent = true)
      (formatted : call.formatted = true) :
      Move g (.direct call (sink :: rest)) (.clock now) g (.callback call sink rest)
  | directFailed (call : Call) (sink : DirectSink Ptr) (rest : List (DirectSink Ptr)) (now : UInt64)
      (admitted : ¬ skips sink.level sink.mask call.ent = true) (fresh : ¬ call.formatted = true)
      (failed : (formatEnt call.ent now call.text).messageLength < 0) :
      Move g (.direct call (sink :: rest)) (.clock now)
        { g with directReaders := g.directReaders - 1 }
        (.returned .error)
  | directFormat (call : Call) (sink : DirectSink Ptr) (rest : List (DirectSink Ptr)) (now : UInt64)
      (admitted : ¬ skips sink.level sink.mask call.ent = true) (fresh : ¬ call.formatted = true)
      (fits : ¬ (formatEnt call.ent now call.text).messageLength < 0) :
      Move g (.direct call (sink :: rest)) (.clock now) g
        (.callback ⟨formatEnt call.ent now call.text, true, call.text⟩ sink rest)
  | callback (call : Call) (sink : DirectSink Ptr) (rest : List (DirectSink Ptr)) :
      Move g (.callback call sink rest) .tick (g.receive sink call.ent) (.direct call rest)
  | returned (rc : Amrc) : Move g (.returned rc) .tick g .outside
  | deqEmpty (thread : LogThread) (here : g.logThread = some thread) (empty : thread.inQueue = []) :
      Move g .deq .tick g .readRunning
  | deqLine (thread : LogThread) (i : ℕ) (rest : List ℕ) (here : g.logThread = some thread)
      (first : thread.inQueue = i :: rest) :
      Move g .deq .tick { g with logThread := some { thread with inQueue := rest } } (.lockLine i)
  | running (thread : LogThread) (here : g.logThread = some thread)
      (keeps : thread.keepRunning = true) :
      Move g .readRunning .tick g .deq
  | stopped (thread : LogThread) (here : g.logThread = some thread)
      (stops : ¬ thread.keepRunning = true) :
      Move g .readRunning .tick { g with threadDone := true } .ended
  | lockLine (i : ℕ) :
      Move g (.lockLine i) .tick { g with directReaders := g.directReaders + 1 }
      (.deliver i g.directSinks)
  | deliverEnd (i : ℕ) :
      Move g (.deliver i []) .tick { g with directReaders := g.directReaders - 1 } (.enq i)
  | deliverSkip (i : ℕ) (sink : DirectSink Ptr) (rest : List (DirectSink Ptr)) (thread : LogThread)
      (here : g.logThread = some thread)
      (skipped : skips sink.level sink.mask (thread.lineBuffer i) = true) :
      Move g (.deliver i (sink :: rest)) .tick g (.deliver i rest)
  | deliverCopy (i : ℕ) (sink : DirectSink Ptr) (rest : List (DirectSink Ptr)) (thread : LogThread)
      (here : g.logThread = some thread)
      (admitted : ¬ skips sink.level sink.mask (thread.lineBuffer i) = true) :
      Move g (.deliver i (sink :: rest)) .tick g (.passOn i sink (thread.lineBuffer i) rest)
  | passOn (i : ℕ) (sink : DirectSink Ptr) (ent : AmlogLine) (rest : List (DirectSink Ptr)) :
      Move g (.passOn i sink ent rest) .tick (g.receive sink ent) (.deliver i rest)
  | enqLine (i : ℕ) (thread : LogThread) (here : g.logThread = some thread)
      (room : thread.outQueue.length < threadLineBufferSize) :
      Move g (.enq i) .tick { g with
        logThread := some { thread with outQueue := thread.outQueue ++ [i] } } .deq
  | enqWait (i : ℕ) (thread : LogThread) (here : g.logThread = some thread)
      (full : ¬ thread.outQueue.length < threadLineBufferSize) : Move g (.enq i) .tick g (.enq i)
  | termNone (none : g.logThread = none) : Move g .outside .term g .outside
  | term (thread : LogThread) (here : g.logThread = some thread) : Move g .outside .term g .stop
  | stop (thread : LogThread) (here : g.logThread = some thread) :
      Move g .stop .tick { g with logThread := some { thread with keepRunning := false } } .join
  | join (finished : g.threadDone = true) : Move g .join .tick g .unregister
  | unregister (free : g.queuedReaders = 0) :
      Move g .unregister .tick
        { g with queuedSinks := g.queuedSinks.filter fun sink => sink.queues ≠ .thread } .release
  | release : Move g .release .tick { g with logThread := none } .outside

theorem next_move {g g' : Logger Ptr} {l l' : Loc Ptr} {a : Act Ptr}
    (fired : next g l a = some (g', l')) : Move g l a g' l' := by
  -- One case for each access, and below it one for each branch of its tests.
  unfold next at fired
  split at fired
  all_goals
    (try dsimp only at fired)
    (try split at fired)
    all_goals (try split at fired)
    all_goals (try split at fired)
    all_goals first
      | (injection fired with missed; exact .noLine _ _ _ _ _ _ ‹_› ‹_› ‹_› missed)
      | (injection fired with missed; exact .noForeign _ _ _ _ _ _ _ ‹_› missed)
      | (cases fired <;> constructor <;> assumption)

variable [DecidableEq Tid]

def step (c : Config Tid (Logger Ptr) (Loc Ptr)) (act : Tid × Act Ptr) :
    Option (Config Tid (Logger Ptr) (Loc Ptr)) :=
  if c.shared.aborted then none else c.step next act

theorem step_cases {c c' : Config Tid (Logger Ptr) (Loc Ptr)} {t : Tid} {a : Act Ptr}
    (fired : step c (t, a) = some c') :
    ∃ g l, Move c.shared (c.pc t) a g l ∧ c' = ⟨g, Function.update c.pc t l⟩ := by
  unfold step at fired
  split at fired
  · cases fired
  · obtain ⟨g, l, accessed, rfl⟩ := Config.step_eq_some.mp fired
    exact ⟨g, l, next_move accessed, rfl⟩

omit [DecidableEq Ptr] [DecidableEq Tid] in
theorem noLine_cases {g g' : Logger Ptr} {call : Call} {sink : QueuedSink Ptr}
    {rest : List (QueuedSink Ptr)} {l' : Loc Ptr} (missed : g.noLine call sink rest = (g', l')) :
    ∃ aborted, g' = { g with aborted := aborted } ∧
    (l' = .dequeue call sink rest ∨ l' = .queued call rest) := by
  unfold Logger.noLine at missed
  split at missed
  · cases missed
    exact ⟨true, rfl, .inl rfl⟩
  · split at missed <;> cases missed
    · exact ⟨g.aborted, rfl, .inl rfl⟩
    · exact ⟨g.aborted, rfl, .inr rfl⟩

end Steps

section Starts

/-- Before `amlog_sink_init`: the sinks that are there have queues of their own, and nothing was
logged yet. -/
structure Fresh (g : Logger Ptr) : Prop where
  foreign : ∀ sink ∈ g.queuedSinks, sink.queues ≠ .thread
  handles : (g.directSinks.map (·.handle)).Nodup
  idle : g.directReaders = 0 ∧ g.queuedReaders = 0 ∧ g.aborted = false
  record : g.logged = [] ∧ g.placed = [] ∧ ∀ sink, g.received sink = []

/-- `amlog_sink_init` has succeeded, with a log thread, and no call of
`amlog_sink_message` is running. -/
structure Started (log : Tid) (c : Config Tid (Logger Ptr) (Loc Ptr)) : Prop where
  init : ∃ g flags outcomes, Fresh g ∧ flags.useThread = true ∧
    amlogSinkInit g flags outcomes = some (c.shared, .success)
  thread : c.pc log = .deq
  others : ∀ t, t ≠ log → c.pc t = .outside

theorem init_success {g g' : Logger Ptr} {flags : AmlogFlags} {outcomes : InitOutcomes}
    (threaded : flags.useThread = true)
    (success : amlogSinkInit g flags outcomes = some (g', .success)) :
    g' = { g with
      abortOnError := flags.abortOnError, blockOnError := flags.blockOnError
      useSourceLocation := !flags.avoidSourceLines
      logThread := some ⟨true, [], List.range threadLineBufferSize, fun _ => clearLine⟩
      queuedSinks := threadSink :: g.queuedSinks, threadDone := false } := by
  unfold amlogSinkInit at success
  -- The number of lines stays a variable, or it would be counted out.
  generalize threadLineBufferSize = size at success ⊢
  rw [if_pos threaded] at success
  split at success
  · cases success
  · split at success
    · cases success
    · split at success
      · rw [fillOutQueue_spec] at success
        cases success
        rfl
      · cases success

end Starts

end Libam.Log
