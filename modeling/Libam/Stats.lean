import Libam.Types
import Mathlib.Logic.Function.Basic

/-! The statistics of `libam_stats.h`. -/

namespace Libam.Stats

structure AmstatRange where
  max : UInt64
  min : UInt64
  sum : UInt64
  ssq : UInt64
  avg : UInt64
  num : UInt64
  deriving DecidableEq, Repr

def uint64Max : UInt64 := 0xFFFFFFFFFFFFFFFF

def amstatMaxSsqVal : UInt64 := 0xFFFFFFFF

def amstatInit : AmstatRange :=
  { max := 0, min := uint64Max, sum := 0, ssq := 0, avg := 0, num := 0 }

def halfSum (a b : UInt64) : UInt64 := .ofNat ((a.toNat + b.toNat) / 2)

def saturates (stat : AmstatRange) (val : UInt64) : Bool :=
  stat.ssq == uint64Max || amstatMaxSsqVal < val

/-- `stat->ssq` at the test for overflow. -/
def ssqBefore (stat : AmstatRange) (val : UInt64) : UInt64 :=
  if saturates stat val then uint64Max else stat.ssq

def squareOf (stat : AmstatRange) (val : UInt64) : UInt64 :=
  if saturates stat val then 0 else val * val

/-- `amstat_upd` up to the division that sets `avg`. -/
def amstatAccumulate (stat : AmstatRange) (val : UInt64) : AmstatRange :=
  let max := if stat.max < val then val else stat.max
  let min := if val < stat.min then val else stat.min
  let ssq := ssqBefore stat val
  let square := squareOf stat val
  if stat.num == uint64Max || stat.sum + val < stat.sum || ssq + square < ssq then
    { stat with
      max := max
      min := min
      sum := halfSum stat.sum val
      ssq := if ssq ≠ uint64Max then halfSum ssq square else ssq
      num := if stat.num == uint64Max then uint64Max / 2 + 1 else (stat.num + 1) / 2 }
  else
    { stat with
      max := max
      min := min
      sum := stat.sum + val
      ssq := ssq + square
      num := stat.num + 1 }

def amstatUpd (stat : AmstatRange) (val : UInt64) : AmstatRange :=
  let stat := amstatAccumulate stat val
  { stat with avg := stat.sum / stat.num }

section Memory

variable {A : Type} [DecidableEq A]

abbrev Memory (A : Type) := A → AmstatRange

def modify (m : Memory A) (a : A) (f : AmstatRange → AmstatRange) : Memory A :=
  Function.update m a (f (m a))

def halve (stat : AmstatRange) : AmstatRange :=
  { stat with num := stat.num / 2, sum := stat.sum / 2, ssq := stat.ssq / 2 }

def amstatAdd (m : Memory A) (target src : A) : Memory A :=
  let m := if (m target).max < (m src).max then modify m target fun s =>
    { s with max := (m src).max } else m
  let m := if (m src).min < (m target).min then modify m target fun s =>
    { s with min := (m src).min } else m
  let m :=
    if (m target).ssq == uint64Max || (m src).ssq == uint64Max then
      modify m target fun s => { s with ssq := uint64Max }
    else if (m target).ssq + (m src).ssq < (m target).ssq then modify
      (modify m target halve) src halve
    else m
  let m := modify m target fun s => { s with ssq := s.ssq + (m src).ssq }
  let m := modify m target fun s => { s with sum := s.sum + (m src).sum }
  let m := modify m target fun s => { s with num := s.num + (m src).num }
  modify m target fun s => { s with avg := if s.num = 0 then 0 else s.sum / s.num }

inductive Op (A : Type)
  | init (stat : A)
  | upd (stat : A) (val : UInt64)
  | add (target src : A)

def apply (m : Memory A) : Op A → Option (Memory A)
  | .init stat => some (Function.update m stat amstatInit)
  | .upd stat val =>
      if (amstatAccumulate (m stat) val).num = 0 then none
      else some (modify m stat fun s => amstatUpd s val)
  | .add target src => some (amstatAdd m target src)

def applyAll (m : Memory A) : List (Op A) → Option (Memory A)
  | [] => some m
  | op :: ops => (apply m op).bind fun m => applyAll m ops

end Memory

end Libam.Stats
