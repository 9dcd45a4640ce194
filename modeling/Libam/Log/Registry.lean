import Libam.Concurrency.Interleaving
import Libam.Lists.Amlist
import Mathlib.Data.Fin.VecNotation
import Mathlib.Data.UInt

/-! The two lists of sinks of `libam_log.c` and their locks: `amlog_sink_unregister` one access to
shared data at a time, between calls that register sinks. The unlinking itself is one step. -/

namespace Libam.Log.Registry

open Libam.Lists Libam.Interleaving

variable {Tid Ptr : Type}

/-- `direct_rwlock` with `direct_sinks`, and `queued_rwlock` with `queued_sinks`. -/
inductive Side
  | direct
  | queued
  deriving DecidableEq, Repr

/-- `amlog_sink_t` without its link. A NULL pointer is `none`. -/
structure AmlogSink (Ptr : Type) where
  name : Option String
  userData : Option Ptr
  level : UInt64
  mask : UInt64
  callback : Option Ptr
  inQueue : Option Ptr
  outQueue : Option Ptr
  deriving DecidableEq, Repr

def AmlogSink.side (sink : AmlogSink Ptr) : Side :=
  if sink.callback.isNone then .queued else .direct

inductive Link (Ptr : Type)
  | anchor (side : Side)
  | sink (sink : Ptr)
  deriving DecidableEq, Repr

/-- All links, the allocated sinks, the thread that holds a lock for writing, and the static
variable `lock` of `amlog_sink_unregister`, which all its calls share. -/
structure Shared (Tid Ptr : Type) where
  links : Links (Link Ptr)
  sinks : Ptr → Option (AmlogSink Ptr)
  writer : Side → Option Tid
  lock : Option Side

def Shared.initial : Shared Tid Ptr where
  links := fun
    | .anchor side => ⟨some (.anchor side), some (.anchor side)⟩
    | .sink _ => ⟨none, none⟩
  sinks := fun _ => none
  writer := fun _ => none
  lock := none

/-- The next access of a thread. A call that has acquired a lock remembers which, and the one that
it is about to release; the code has `lock` only. -/
inductive Loc (Ptr : Type)
  | outside
  | choose (sink : Ptr)
  | readLock (sink : Ptr)
  | wrlock (sink : Ptr) (lock : Side)
  | del (sink : Ptr) (acquired : Side)
  | readUnlock (sink : Ptr) (acquired : Side)
  | unlock (sink : Ptr) (acquired released : Side)
  | free (sink : Ptr)
  deriving DecidableEq, Repr

/-- A call, with what `malloc` gives to it, or the next access of the call under way. -/
inductive Act (Ptr : Type)
  | registerDirect (malloc : Option Ptr) (name : Option String) (callback userData : Option Ptr)
  | registerQueued (malloc : Option Ptr) (name : Option String)
      (inQueue outQueue userData : Option Ptr)
  | unregister (sink : Option Ptr)
  | tick
  deriving DecidableEq, Repr

section Steps

variable [DecidableEq Ptr] {t u : Tid} {g g' : Shared Tid Ptr} {l l' : Loc Ptr} {a : Act Ptr}

/-- The common end of the two registrations: the lock is held for the addition only. None if another
thread holds it, or if `malloc` gave a block that is in use. -/
def Shared.add (g : Shared Tid Ptr) (side : Side) (sink : Ptr) (content : AmlogSink Ptr) :
    Option (Shared Tid Ptr) :=
  if (g.writer side).isNone && (g.sinks sink).isNone then
    (amlistAdd g.links (.anchor side) (.sink sink)).map fun links =>
      { g with links := links, sinks := Function.update g.sinks sink (some content) }
  else none

def amlogSinkRegisterDirect (g : Shared Tid Ptr) (malloc : Option Ptr) (name : Option String)
    (callback userData : Option Ptr) : Option (Shared Tid Ptr × Option Ptr) :=
  if callback.isNone then some (g, none)
  else
    match malloc with
    | none => some (g, none)
    | some sink =>
        (g.add .direct sink ⟨name, userData, 0xFFFFFFFFFFFFFFFF, 0, callback, none, none⟩).map
          fun g => (g, some sink)

def amlogSinkRegisterQueued (g : Shared Tid Ptr) (malloc : Option Ptr) (name : Option String)
    (inQueue outQueue userData : Option Ptr) : Option (Shared Tid Ptr × Option Ptr) :=
  if inQueue.isNone || outQueue.isNone then some (g, none)
  else
    match malloc with
    | none => some (g, none)
    | some sink =>
        (g.add .queued sink ⟨name, userData, 0xFFFFFFFFFFFFFFFF, 0, none, inQueue, outQueue⟩).map
          fun g =>
          (g, some sink)

variable [DecidableEq Tid]

/-- `pthread_rwlock_unlock` by a thread. The release of a lock that it does not hold is undefined,
and changes nothing here. -/
def Shared.release (g : Shared Tid Ptr) (t : Tid) (side : Side) : Shared Tid Ptr :=
  if g.writer side = some t then { g with writer := Function.update g.writer side none } else g

def next (t : Tid) (g : Shared Tid Ptr) : Loc Ptr → Act Ptr → Option (Shared Tid Ptr × Loc Ptr)
  | .outside, .registerDirect malloc name callback userData =>
      (amlogSinkRegisterDirect g malloc name callback userData).map fun r => (r.1, .outside)
  | .outside, .registerQueued malloc name inQueue outQueue userData =>
      (amlogSinkRegisterQueued g malloc name inQueue outQueue userData).map fun r => (r.1, .outside)
  | .outside, .unregister none => some (g, .outside)
  | .outside, .unregister (some sink) => some (g, .choose sink)
  | .choose sink, .tick =>
      (g.sinks sink).map fun content => ({ g with lock := some content.side }, .readLock sink)
  | .readLock sink, .tick => g.lock.map fun lock => (g, .wrlock sink lock)
  | .wrlock sink lock, .tick =>
      if (g.writer lock).isNone then
        some ({ g with writer := Function.update g.writer lock (some t) }, .del sink lock)
      else none
  | .del sink acquired, .tick =>
      (amlistDel g.links (.sink sink)).map fun links =>
        ({ g with links := links }, .readUnlock sink acquired)
  | .readUnlock sink acquired,
      .tick => g.lock.map fun released => (g, .unlock sink acquired released)
  | .unlock sink _ released, .tick => some (g.release t released, .free sink)
  | .free sink, .tick => some ({ g with sinks := Function.update g.sinks sink none }, .outside)
  | _, _ => none

def step (c : Config Tid (Shared Tid Ptr) (Loc Ptr)) (act : Tid × Act Ptr) :
    Option (Config Tid (Shared Tid Ptr) (Loc Ptr)) :=
  c.step (next act.1) act

inductive Move (t : Tid) (g : Shared Tid Ptr) : Loc Ptr → Act Ptr → Shared Tid Ptr → Loc Ptr → Prop
  | refused (a : Act Ptr) (call : ∀ sink, a ≠ .unregister (some sink)) :
      Move t g .outside a g .outside
  | add (a : Act Ptr) (call : ∀ sink, a ≠ .unregister (some sink)) (side : Side) (sink : Ptr)
      (content : AmlogSink Ptr) (links : Links (Link Ptr)) (kind : content.side = side)
      (free : g.writer side = none) (fresh : g.sinks sink = none)
      (added : amlistAdd g.links (.anchor side) (.sink sink) = some links) :
      Move t g .outside a
        { g with links := links, sinks := Function.update g.sinks sink (some content) } .outside
  | unregister (sink : Ptr) : Move t g .outside (.unregister (some sink)) g (.choose sink)
  | choose (sink : Ptr) (content : AmlogSink Ptr) (here : g.sinks sink = some content) :
      Move t g (.choose sink) .tick { g with lock := some content.side } (.readLock sink)
  | readLock (sink : Ptr) (lock : Side) (here : g.lock = some lock) :
      Move t g (.readLock sink) .tick g (.wrlock sink lock)
  | wrlock (sink : Ptr) (lock : Side) (free : g.writer lock = none) :
      Move t g (.wrlock sink lock) .tick { g with writer := Function.update g.writer lock (some t) }
      (.del sink lock)
  | del (sink : Ptr) (acquired : Side) (links : Links (Link Ptr))
      (deleted : amlistDel g.links (.sink sink) = some links) :
      Move t g (.del sink acquired) .tick { g with links := links } (.readUnlock sink acquired)
  | readUnlock (sink : Ptr) (acquired released : Side) (here : g.lock = some released) :
      Move t g (.readUnlock sink acquired) .tick g (.unlock sink acquired released)
  | unlock (sink : Ptr) (acquired released : Side) :
      Move t g (.unlock sink acquired released) .tick (g.release t released) (.free sink)
  | free (sink : Ptr) : Move t g (.free sink) .tick
      { g with sinks := Function.update g.sinks sink none } .outside

theorem add_move {side : Side} {sink : Ptr} {content : AmlogSink Ptr}
    (call : ∀ sink, a ≠ .unregister (some sink)) (kind : content.side = side)
    (added : g.add side sink content = some g') : Move t g .outside a g' .outside := by
  unfold Shared.add at added
  split at added
  · rename_i calm
    obtain ⟨free, fresh⟩ := Bool.and_eq_true_iff.mp calm
    obtain ⟨links, linked, rfl⟩ := Option.map_eq_some_iff.mp added
    exact .add a call side sink content links kind (Option.isNone_iff_eq_none.mp free)
      (Option.isNone_iff_eq_none.mp fresh) linked
  · cases added

theorem registerDirect_move {malloc : Option Ptr} {name : Option String}
    {callback userData ret : Option Ptr}
    (called : amlogSinkRegisterDirect g malloc name callback userData = some (g', ret))
    (call : ∀ sink, a ≠ .unregister (some sink)) : Move t g .outside a g' .outside := by
  unfold amlogSinkRegisterDirect at called
  split at called
  · cases called
    exact .refused a call
  · rename_i given
    cases malloc with
    | none =>
        cases called
        exact .refused a call
    | some sink =>
        obtain ⟨_, added, same⟩ := Option.map_eq_some_iff.mp called
        cases same
        refine add_move call ?_ added
        exact if_neg given

theorem registerQueued_move {malloc : Option Ptr} {name : Option String}
    {inQueue outQueue userData ret : Option Ptr}
    (called : amlogSinkRegisterQueued g malloc name inQueue outQueue userData = some (g', ret))
    (call : ∀ sink, a ≠ .unregister (some sink)) : Move t g .outside a g' .outside := by
  unfold amlogSinkRegisterQueued at called
  split at called
  · cases called
    exact .refused a call
  · cases malloc with
    | none =>
        cases called
        exact .refused a call
    | some sink =>
        obtain ⟨_, added, same⟩ := Option.map_eq_some_iff.mp called
        cases same
        refine add_move call ?_ added
        rfl

theorem next_move (fired : next t g l a = some (g', l')) : Move t g l a g' l' := by
  unfold next at fired
  split at fired
  · obtain ⟨⟨_, _⟩, called, same⟩ := Option.map_eq_some_iff.mp fired
    cases same
    exact registerDirect_move called (by simp)
  · obtain ⟨⟨_, _⟩, called, same⟩ := Option.map_eq_some_iff.mp fired
    cases same
    exact registerQueued_move called (by simp)
  · cases fired
    exact .refused _ (by simp)
  · cases fired
    exact .unregister _
  · obtain ⟨content, here, same⟩ := Option.map_eq_some_iff.mp fired
    cases same
    exact .choose _ content here
  · obtain ⟨lock, here, same⟩ := Option.map_eq_some_iff.mp fired
    cases same
    exact .readLock _ lock here
  · split at fired
    · rename_i free
      cases fired
      exact .wrlock _ _ (Option.isNone_iff_eq_none.mp free)
    · cases fired
  · obtain ⟨links, deleted, same⟩ := Option.map_eq_some_iff.mp fired
    cases same
    exact .del _ _ links deleted
  · obtain ⟨lock, here, same⟩ := Option.map_eq_some_iff.mp fired
    cases same
    exact .readUnlock _ _ lock here
  · cases fired
    exact .unlock _ _ _
  · cases fired
    exact .free _
  · cases fired

theorem step_cases {c c' : Config Tid (Shared Tid Ptr) (Loc Ptr)}
    (fired : step c (t, a) = some c') :
    ∃ g l, Move t c.shared (c.pc t) a g l ∧ c' = ⟨g, Function.update c.pc t l⟩ := by
  obtain ⟨g, l, accessed, rfl⟩ := Config.step_eq_some.mp fired
  exact ⟨g, l, next_move accessed, rfl⟩

end Steps

end Libam.Log.Registry
