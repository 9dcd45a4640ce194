import Libam.Opts.Model
import Libam.Text.Numerals

/-! `amlog_dump`: a buffer as lines of 16 columns, built in two local arrays and
printed line by line. -/

namespace Libam.Log

open Libam.Text
open Libam.Opts (isprint)

section Model

/-- `sizeof(hex)` and `sizeof(asc)`. -/
def hexSize : ℕ := 16 * 3 + 2
def ascSize : ℕ := 16 + 2

/-- The variables of a line: the arrays and the places in them, the bytes to skip and
those from `ptr` on. -/
structure DumpLine where
  hex : ℕ → UInt8
  asc : ℕ → UInt8
  hi : ℕ
  ai : ℕ
  skip : UInt8
  ptr : List UInt8

def store (size : ℕ) (array : ℕ → UInt8) (place : ℕ) (bytes : List UInt8) : Option (ℕ → UInt8) :=
  if place + bytes.length ≤ size then some (poke array place bytes) else none

def separate (i : ℕ) (line : DumpLine) : Option DumpLine :=
  if i = 8 then do
    let hex ← store hexSize line.hex line.hi [0x20]
    let asc ← store ascSize line.asc line.ai [0x20]
    pure { line with hex := hex, hi := line.hi + 1, asc := asc, ai := line.ai + 1 }
  else some line

/-- A column of three spaces. `skip` wraps at the end of the data. -/
def blankColumn (line : DumpLine) : Option DumpLine := do
  let hex ← store hexSize line.hex line.hi [0x20, 0x20, 0x20, 0]
  let asc ← store ascSize line.asc line.ai [0x20]
  pure { line with
    hex := hex, hi := line.hi + 3, asc := asc, ai := line.ai + 1, skip := line.skip - 1 }

def byteColumn (byte : UInt8) (rest : List UInt8) (line : DumpLine) : Option DumpLine := do
  let asc ← store ascSize line.asc line.ai [if isprint byte then byte else 0x2E]
  let hex ← store hexSize line.hex line.hi (numeral 16 2 byte.toNat ++ [0x20, 0])
  pure { line with hex := hex, hi := line.hi + 3, asc := asc, ai := line.ai + 1, ptr := rest }

def dumpColumn (i : ℕ) (line : DumpLine) : Option DumpLine :=
  (separate i line).bind fun line =>
    match line.ptr with
    | [] => blankColumn line
    | byte :: rest => if line.skip > 0 then blankColumn line else byteColumn byte rest line

def dumpColumns (i : ℕ) : ℕ → DumpLine → Option DumpLine
  | 0, line => some line
  | columns + 1, line => (dumpColumn i line).bind (dumpColumns (i + 1) columns)

def lineFormat (lineAddress : UInt64) (hex asc : List UInt8) : List UInt8 :=
  numeral 16 6 lineAddress.toNat ++ [0x20] ++ hex ++ [0x20] ++ asc ++ [0x0A]

/-- One line: its text, and the variables after it. -/
def dumpLine (lineAddress : UInt64) (line : DumpLine) : Option (List UInt8 × DumpLine) := do
  let line ← dumpColumns 0 16 { line with hi := 0, ai := 0 }
  let hex ← store hexSize line.hex line.hi [0]
  let asc ← store ascSize line.asc line.ai [0]
  let hexText ← string hex 0 hexSize
  let ascText ← string asc 0 ascSize
  pure (lineFormat lineAddress hexText ascText, { line with hex := hex, asc := asc })

/-- The loop over the lines in front of `bound`: where the output ends, and the memory. A line takes
room of the output, so there are at most as many rounds as it has bytes. -/
def dumpLoop (bound : UInt64) : ℕ → UInt64 → DumpLine → (ℕ → UInt8) → ℕ → ℤ →
    Option (ℕ × (ℕ → UInt8))
  | 0, _, _, _, _, _ => none
  | rounds + 1, lineAddress, line, memory, output, outputLength =>
      if lineAddress < bound then
        (dumpLine lineAddress line).bind fun (text, line) =>
          let (memory, added) := snprintf memory output outputLength.toNat text
          if added ≥ outputLength then some (output + (outputLength - 1).toNat, memory)
          else dumpLoop bound rounds (lineAddress + 16) line memory (output + added.toNat)
            (outputLength - added)
      else some (output, memory)

/-- `amlog_dump(buf, length, output, output_length, start_offset)`, with what the local arrays hold
at first. Room for a zero is the caller's matter. -/
def amlogDump (hex asc : ℕ → UInt8) (buf : List UInt8) (memory : ℕ → UInt8) (output : ℕ)
    (outputLength : ℤ) (startOffset : UInt64) : Option (ℤ × (ℕ → UInt8)) :=
  let skip := (startOffset &&& 0xF).toUInt8
  let lineAddress := startOffset - skip.toUInt64
  (dumpLoop (startOffset + .ofNat buf.length) outputLength.toNat lineAddress
    ⟨hex, asc, 0, 0, skip, buf⟩
    memory output outputLength).map fun (finish, memory) =>
    ((finish : ℤ) - output, poke memory finish [0])

end Model

end Libam.Log
