import Libam.Types

/-! The periodic clock of `libam_time.c`: its thread and the thread that uses it, one access of the
handle at a time. -/

namespace Libam.Time

def amtimeUsec : UInt64 := 1

def amtimeMsec : UInt64 := amtimeUsec * 1000

def amtimeDefaultRefreshPeriod : UInt64 := amtimeMsec

structure AmtimeThread where
  thread : UInt64
  refreshPeriod : UInt64
  maxDrift : UInt64
  now : UInt64
  stop : UInt8
  threadFree : UInt8
  ignoreDrift : UInt8
  deriving DecidableEq, Repr

def periodOf (refreshPeriod : UInt64) : UInt64 :=
  if refreshPeriod > 0 then refreshPeriod else amtimeDefaultRefreshPeriod

/-- The handle that the caller gets: `malloc` may fail, `clock` is what `amtime_now` reads, and
`created` is the thread, if there is one. -/
def amtimePreiodicStart (refreshPeriod : UInt64) (malloc : Bool) (clock : UInt64)
    (created : Option UInt64) : Option AmtimeThread :=
  if malloc then
    created.map fun thread =>
      { thread := thread
        refreshPeriod := periodOf refreshPeriod
        maxDrift := 1
        now := clock
        stop := 0
        threadFree := 0
        ignoreDrift := 0 }
  else none

/-- The next step of `amtime_preiodic_thread_func`, with the values its local variables hold. -/
inductive ThreadPc
  | readStop
  | clock
  | readPeriod (newNow : UInt64)
  | readIgnore (newNow refPeriod : UInt64)
  | resetDrift (refPeriod : UInt64)
  | clearIgnore (refPeriod : UInt64)
  | readNow (newNow refPeriod : UInt64)
  | readDrift (drift refPeriod : UInt64)
  | writeDrift (drift refPeriod : UInt64)
  | clockNow (refPeriod : UInt64)
  | writeNow (now refPeriod : UInt64)
  | usleep (refPeriod : UInt64)
  | readFree
  | free
  | ended
  deriving DecidableEq, Repr

inductive Call
  | now
  | getRefreshPeriod
  | getMaxDrift
  | setRefreshPeriod (refreshPeriod : UInt64)
  | delMaxDrift
  | stop (shouldBlock : UInt8)
  deriving DecidableEq, Repr

inductive ClientPc
  | idle
  | now
  | getRefreshPeriod
  | getMaxDrift
  | setIgnore (refreshPeriod : UInt64)
  | setPeriod (refreshPeriod : UInt64)
  | delMaxDrift
  | done (value : UInt64)
  | stopFree
  | stopSignal
  | stopTest
  | stopDrift
  | stopped (drift : UInt64)
  | joinSignal
  | joinThread
  | join (thread : UInt64)
  | joinTest
  | joinDrift
  | joinFree (drift : UInt64)
  | joined (drift : UInt64)
  deriving DecidableEq, Repr

/-- Where a call starts. On a NULL handle it returns at once. -/
def Call.entry (isNull : Bool) : Call → ClientPc
  | .now => if isNull then .done 0 else .now
  | .getRefreshPeriod => if isNull then .done 0 else .getRefreshPeriod
  | .getMaxDrift => if isNull then .done 0 else .getMaxDrift
  | .setRefreshPeriod refreshPeriod => if isNull then .done 0 else .setIgnore refreshPeriod
  | .delMaxDrift => if isNull then .done 0 else .delMaxDrift
  | .stop shouldBlock =>
      if isNull then .done 0 else if shouldBlock = 0 then .stopFree else .joinSignal

def threadAccess (handle : AmtimeThread) : ThreadPc → Option (AmtimeThread × ThreadPc)
  | .readStop => some (handle, if handle.stop = 0 then .clock else .readFree)
  | .clock => none
  | .readPeriod newNow => some (handle, .readIgnore newNow handle.refreshPeriod)
  | .readIgnore newNow refPeriod =>
      some (handle, if handle.ignoreDrift = 0 then .readNow newNow refPeriod
        else .resetDrift refPeriod)
  | .resetDrift refPeriod => some ({ handle with maxDrift := 1 }, .clearIgnore refPeriod)
  | .clearIgnore refPeriod => some ({ handle with ignoreDrift := 0 }, .clockNow refPeriod)
  | .readNow newNow refPeriod =>
      some (handle,
        if newNow - handle.now > refPeriod then .readDrift (newNow - handle.now) refPeriod
        else .clockNow refPeriod)
  | .readDrift drift refPeriod =>
      some (handle, if drift > handle.maxDrift then .writeDrift drift refPeriod
        else .clockNow refPeriod)
  | .writeDrift drift refPeriod => some ({ handle with maxDrift := drift }, .clockNow refPeriod)
  | .clockNow _ => none
  | .writeNow now refPeriod => some ({ handle with now := now }, .usleep refPeriod)
  | .usleep _ => some (handle, .readStop)
  | .readFree => some (handle, if handle.threadFree = 0 then .ended else .free)
  | .free => some (handle, .ended)
  | .ended => none

def ThreadPc.timed (now : UInt64) : ThreadPc → Option ThreadPc
  | .clock => some (.readPeriod now)
  | .clockNow refPeriod => some (.writeNow now refPeriod)
  | _ => none

/-- One step of a call. `pthread_join` returns when the thread has ended. -/
def clientAccess (handle : AmtimeThread) (thread : ThreadPc) : ClientPc →
    Option (AmtimeThread × ClientPc)
  | .idle => none
  | .now => some (handle, .done handle.now)
  | .getRefreshPeriod => some (handle, .done handle.refreshPeriod)
  | .getMaxDrift => some (handle, .done handle.maxDrift)
  | .setIgnore refreshPeriod => some ({ handle with ignoreDrift := 1 }, .setPeriod refreshPeriod)
  | .setPeriod refreshPeriod =>
      some ({ handle with refreshPeriod := periodOf refreshPeriod }, .done 0)
  | .delMaxDrift => some ({ handle with maxDrift := 1 }, .done 0)
  | .done _ => some (handle, .idle)
  | .stopFree => some ({ handle with threadFree := 1 }, .stopSignal)
  | .stopSignal => some ({ handle with stop := 1 }, .stopTest)
  | .stopTest => some (handle, if handle.maxDrift > 0 then .stopDrift else .stopped 1)
  | .stopDrift => some (handle, .stopped handle.maxDrift)
  | .stopped _ => none
  | .joinSignal => some ({ handle with stop := 1 }, .joinThread)
  | .joinThread => some (handle, .join handle.thread)
  | .join _ => if thread = .ended then some (handle, .joinTest) else none
  | .joinTest => some (handle, if handle.maxDrift > 0 then .joinDrift else .joinFree 1)
  | .joinDrift => some (handle, .joinFree handle.maxDrift)
  | .joinFree drift => some (handle, .joined drift)
  | .joined _ => none

inductive Party
  | thread
  | client
  deriving DecidableEq, Repr

structure State where
  handle : AmtimeThread
  thread : ThreadPc
  client : ClientPc
  freed : List Party
  deriving DecidableEq, Repr

inductive Act
  | thread
  | clock (now : UInt64)
  | call (call : Call) (isNull : Bool)
  | client
  | joinError
  deriving DecidableEq, Repr

def ThreadPc.frees : ThreadPc → Bool
  | .free => true
  | _ => false

def ClientPc.frees : ClientPc → Bool
  | .joinFree _ => true
  | _ => false

def step (s : State) : Act → Option State
  | .thread => (threadAccess s.handle s.thread).map fun r =>
      { s with
        handle := r.1
        thread := r.2
        freed := if s.thread.frees then .thread :: s.freed else s.freed }
  | .clock now => (s.thread.timed now).map fun thread => { s with thread := thread }
  | .call call isNull =>
      if s.client = .idle then some { s with client := call.entry isNull } else none
  | .client => (clientAccess s.handle s.thread s.client).map fun r =>
      { s with
        handle := r.1
        client := r.2
        freed := if s.client.frees then .client :: s.freed else s.freed }
  | .joinError =>
      match s.client with
      | .join _ => some { s with client := .joined 0 }
      | _ => none

def start (handle : AmtimeThread) : State := ⟨handle, .readStop, .idle, []⟩

def ThreadPc.touches : ThreadPc → Bool
  | .clock | .clockNow _ | .usleep _ | .free | .ended => false
  | _ => true

def ClientPc.touches : ClientPc → Bool
  | .idle | .done _ | .stopped _ | .join _ | .joinFree _ | .joined _ => false
  | _ => true

def touches (s : State) : Act → Bool
  | .thread => s.thread.touches
  | .client => s.client.touches
  | .clock _ | .call _ _ | .joinError => false

inductive Move (s : State) : Act → State → Prop
  | thread {handle : AmtimeThread} {pc : ThreadPc}
      (access : threadAccess s.handle s.thread = some (handle, pc)) :
      Move s .thread { s with
        handle := handle
        thread := pc
        freed := if s.thread.frees then .thread :: s.freed else s.freed }
  | clock {now : UInt64} {pc : ThreadPc} (timed : s.thread.timed now = some pc) :
      Move s (.clock now) { s with thread := pc }
  | call (call : Call) (isNull : Bool) (idle : s.client = .idle) :
      Move s (.call call isNull) { s with client := call.entry isNull }
  | client {handle : AmtimeThread} {pc : ClientPc}
      (access : clientAccess s.handle s.thread s.client = some (handle, pc)) :
      Move s .client { s with
        handle := handle
        client := pc
        freed := if s.client.frees then .client :: s.freed else s.freed }
  | joinError {thread : UInt64} (joins : s.client = .join thread) :
      Move s .joinError { s with client := .joined 0 }

theorem step_move {s s' : State} {a : Act} (fired : step s a = some s') : Move s a s' := by
  cases a with
  | thread =>
      simp only [step, Option.map_eq_some_iff] at fired
      obtain ⟨⟨handle, pc⟩, access, rfl⟩ := fired
      exact .thread access
  | clock now =>
      simp only [step, Option.map_eq_some_iff] at fired
      obtain ⟨pc, timed, rfl⟩ := fired
      exact .clock timed
  | call call isNull =>
      simp only [step, Option.ite_none_right_eq_some, Option.some.injEq] at fired
      obtain ⟨idle, rfl⟩ := fired
      exact .call call isNull idle
  | client =>
      simp only [step, Option.map_eq_some_iff] at fired
      obtain ⟨⟨handle, pc⟩, access, rfl⟩ := fired
      exact .client access
  | joinError =>
      simp only [step] at fired
      cases joins : s.client with
      | join thread =>
          rw [joins] at fired
          cases fired
          exact .joinError joins
      | _ =>
          rw [joins] at fired
          cases fired

end Libam.Time
