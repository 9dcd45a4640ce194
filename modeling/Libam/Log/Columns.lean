import Libam.Log.Dump

/-! The text that `amlog_dump` stands for, and that its arrays never overflow
while they print it. -/

namespace Libam.Log

open Libam.Text
open Libam.Opts (isprint)

section Text

/-- A column of a line: blank, or a byte. -/
abbrev Cell := Option UInt8

def hexCell : Cell → List UInt8
  | none => [0x20, 0x20, 0x20]
  | some byte => numeral 16 2 byte.toNat ++ [0x20]

def ascCell : Cell → List UInt8
  | none => [0x20]
  | some byte => [if isprint byte then byte else 0x2E]

def printed (print : Cell → List UInt8) : ℕ → List Cell → List UInt8
  | _, [] => []
  | i, cell :: cells => (if i = 8 then [0x20] else []) ++ print cell ++ printed print (i + 1) cells

def lineText (address : ℕ) (cells : List Cell) : List UInt8 :=
  numeral 16 6 address ++ [0x20] ++ printed hexCell 0 cells ++ [0x20] ++ printed ascCell 0 cells

def cellAt (lead : ℕ) (buf : List UInt8) (position : ℕ) : Cell :=
  if position < lead then none else buf[position - lead]?

def cellsFrom (lead : ℕ) (buf : List UInt8) (position columns : ℕ) : List Cell :=
  (List.range' position columns).map (cellAt lead buf)

@[simp] theorem length_cellsFrom (lead : ℕ) (buf : List UInt8) (position columns : ℕ) :
    (cellsFrom lead buf position columns).length = columns := by
  simp [cellsFrom]

theorem cellsFrom_succ (lead : ℕ) (buf : List UInt8) (position columns : ℕ) :
    cellsFrom lead buf position (columns + 1) =
      cellAt lead buf position :: cellsFrom lead buf (position + 1) columns := by
  rw [cellsFrom, List.range'_succ, List.map_cons]
  rfl

@[simp] theorem length_hexCell (cell : Cell) : (hexCell cell).length = 3 := by
  cases cell with
  | none => rfl
  | some byte => simp [hexCell]

@[simp] theorem length_ascCell (cell : Cell) : (ascCell cell).length = 1 := by
  cases cell <;> rfl

theorem length_printed {print : Cell → List UInt8} {width : ℕ}
    (same : ∀ cell, (print cell).length = width) (i : ℕ) (cells : List Cell) :
      (printed print i cells).length =
      width * cells.length + if i ≤ 8 ∧ 8 < i + cells.length then 1 else 0 := by
  induction cells generalizing i with
  | nil =>
      rw [if_neg (by simp only [List.length_nil]; omega)]
      rfl
  | cons cell cells ih =>
      rw [printed, List.length_append, List.length_append, same, ih, List.length_cons, Nat.mul_add]
      split_ifs <;> simp <;> omega

theorem hexCell_printed {cell : Cell} {c : UInt8} (member : c ∈ hexCell cell) : 0x20 ≤ c := by
  cases cell with
  | none => simp_all [hexCell]
  | some byte =>
      rcases List.mem_append.mp member with digit | space
      · exact UInt8.le_of_lt (numeral_printed (by decide) (by decide) digit)
      · exact UInt8.le_of_eq (List.mem_singleton.mp space).symm

theorem ascCell_printed {cell : Cell} {c : UInt8} (member : c ∈ ascCell cell) : 0x20 ≤ c := by
  cases cell with
  | none => simp_all [ascCell]
  | some byte =>
      rw [ascCell, List.mem_singleton] at member
      rw [member]
      split
      · next shown =>
          simp only [isprint, Bool.and_eq_true, decide_eq_true_eq] at shown
          exact shown.1
      · decide

theorem printed_printed {print : Cell → List UInt8} (shown : ∀ cell, ∀ c ∈ print cell, 0x20 ≤ c)
    {i : ℕ} {cells : List Cell} {c : UInt8} (member : c ∈ printed print i cells) : 0x20 ≤ c := by
  induction cells generalizing i with
  | nil => cases member
  | cons cell cells ih =>
      simp only [printed, List.mem_append] at member
      rcases member with (space | here) | rest
      · split at space
        · exact UInt8.le_of_eq (List.mem_singleton.mp space).symm
        · cases space
      · exact shown cell c here
      · exact ih rest

end Text

section Columns

variable {lead position i : ℕ} {buf : List UInt8} {line line' line'' : DumpLine}

structure Aligned (lead : ℕ) (buf : List UInt8) (position : ℕ) (line : DumpLine) : Prop where
  ahead : position < lead → line.skip.toNat = lead - position ∧ line.ptr = buf
  inside : lead ≤ position → line.ptr = buf.drop (position - lead) ∧ (line.ptr ≠ [] → line.skip = 0)

structure Shows (line line' : DumpLine) (hex asc : List UInt8) : Prop where
  hi : line'.hi = line.hi + hex.length
  ai : line'.ai = line.ai + asc.length
  hex : poke line'.hex line'.hi [0] = poke line.hex line.hi (hex ++ [0])
  asc : poke line'.asc line'.ai [0] = poke line.asc line.ai (asc ++ [0])

theorem poke_shown {array array' : ℕ → UInt8} {place : ℕ} {first second : List UInt8}
    (shown : poke array' (place + first.length) [0] = poke array place (first ++ [0])) :
    poke array' (place + first.length) (second ++ [0]) = poke array place
    (first ++ second ++ [0]) := by
  have again : poke (poke array' (place + first.length) [0]) (place + first.length)
      (second ++ [0]) =
      poke array' (place + first.length) (second ++ [0]) :=
    poke_over _ _ [] (by simp)
  rw [← again, shown, poke_over _ _ _ (by simp), List.append_assoc]

theorem Shows.trans {hex hex' asc asc' : List UInt8} (first : Shows line line' hex asc)
    (second : Shows line' line'' hex' asc') : Shows line line'' (hex ++ hex') (asc ++ asc') := by
  obtain ⟨hi, ai, hexText, ascText⟩ := first
  refine ⟨?_, ?_, ?_, ?_⟩
  · rw [second.hi, hi, List.length_append, Nat.add_assoc]
  · rw [second.ai, ai, List.length_append, Nat.add_assoc]
  · rw [hi] at hexText
    rw [second.hex, hi, poke_shown hexText]
  · rw [ai] at ascText
    rw [second.asc, ai, poke_shown ascText]

theorem store_some {size place : ℕ} {array : ℕ → UInt8} {bytes : List UInt8}
    (room : place + bytes.length ≤ size) :
    store size array place bytes = some (poke array place bytes) := if_pos room

theorem separate_spec (i : ℕ) (line : DumpLine)
    (hexRoom : line.hi + (if i = 8 then 1 else 0) < hexSize)
    (ascRoom : line.ai + (if i = 8 then 1 else 0) < ascSize) :
    ∃ line', separate i line = some line' ∧ line'.skip = line.skip ∧ line'.ptr = line.ptr ∧
      Shows line line' (if i = 8 then [0x20] else []) (if i = 8 then [0x20] else []) := by
  rw [separate]
  split_ifs at hexRoom ascRoom ⊢ with middle
  · rw [store_some (Nat.le_of_lt hexRoom), store_some (Nat.le_of_lt ascRoom)]
    exact ⟨_, rfl, rfl, rfl, rfl, rfl, poke_poke, poke_poke⟩
  · exact ⟨line, rfl, rfl, rfl, rfl, rfl, rfl, rfl⟩

theorem blankColumn_spec (hexRoom : line.hi + 3 < hexSize) (ascRoom : line.ai + 1 < ascSize) :
    ∃ line', blankColumn line = some line' ∧ line'.skip = line.skip - 1 ∧ line'.ptr = line.ptr ∧
      Shows line line' (hexCell none) (ascCell none) := by
  rw [blankColumn, store_some (by simp; omega), store_some (by simp; omega)]
  exact ⟨_, rfl, rfl, rfl, rfl, rfl, poke_over _ _ [0x20, 0x20, 0x20] (by simp), poke_poke⟩

theorem byteColumn_spec (byte : UInt8) (rest : List UInt8) (hexRoom : line.hi + 3 < hexSize)
    (ascRoom : line.ai + 1 < ascSize) :
    ∃ line', byteColumn byte rest line = some line' ∧ line'.skip = line.skip ∧ line'.ptr = rest ∧
      Shows line line' (hexCell (some byte)) (ascCell (some byte)) := by
  rw [byteColumn, store_some (by simp; omega), store_some (by simp; omega)]
  refine ⟨_, rfl, rfl, rfl, ?_, rfl, ?_, poke_poke⟩
  · rw [length_hexCell]
  · have digits : numeral 16 2 byte.toNat ++ [0x20, 0] = hexCell (some byte) ++ [0] := by
      rw [hexCell, List.append_assoc]
      rfl
    have length := length_hexCell (some byte)
    dsimp only
    rw [digits, ← length, poke_over _ _ _ (by simp)]

theorem Aligned.blank (aligned : Aligned lead buf position line)
    (blank : cellAt lead buf position = none) (skip : line'.skip = line.skip - 1)
    (ptr : line'.ptr = line.ptr) : Aligned lead buf (position + 1) line' := by
  obtain ⟨ahead, inside⟩ := aligned
  by_cases before : position < lead
  · obtain ⟨left, whole⟩ := ahead before
    have one : (1 : UInt8) ≤ line.skip := UInt8.le_iff_toNat_le.mpr (by simp; omega)
    have less : line'.skip.toNat = lead - (position + 1) := by
      rw [skip, UInt8.toNat_sub_of_le _ _ one, left]
      exact Nat.sub_sub _ _ _
    refine ⟨fun _ => ⟨less, ptr.trans whole⟩, fun reached => ⟨?_, fun _ => ?_⟩⟩
    · rw [ptr, whole, Nat.sub_eq_zero_of_le (by omega), List.drop_zero]
    · exact UInt8.toNat_inj.mp (less.trans (Nat.sub_eq_zero_of_le reached))
  · obtain ⟨rest, -⟩ := inside (Nat.not_lt.mp before)
    rw [cellAt, if_neg before, List.getElem?_eq_none_iff] at blank
    have ended : line'.ptr = [] := by
      rw [ptr, rest, List.drop_eq_nil_of_le blank]
    refine ⟨fun early => absurd early (by omega), fun _ => ⟨?_, fun more => absurd ended more⟩⟩
    rw [ended, List.drop_eq_nil_of_le (by omega)]

theorem Aligned.byte {byte : UInt8} (aligned : Aligned lead buf position line)
    (here : cellAt lead buf position = some byte) (skip : line'.skip = line.skip)
    (ptr : line'.ptr = buf.drop (position - lead + 1)) : Aligned lead buf (position + 1) line' := by
  have reached : lead ≤ position := by
    by_contra before
    rw [cellAt, if_pos (by omega)] at here
    cases here
  rw [cellAt, if_neg (by omega)] at here
  obtain ⟨rest, done⟩ := aligned.inside reached
  have more : line.ptr ≠ [] := by
    rw [rest]
    intro ended
    rw [List.drop_eq_nil_iff, ← List.getElem?_eq_none_iff, here] at ended
    cases ended
  refine ⟨fun early => absurd early (by omega), fun _ => ⟨?_, fun _ => skip.trans (done more)⟩⟩
  rw [ptr, Nat.sub_add_comm reached]

theorem Aligned.column (aligned : Aligned lead buf position line')
    (separated : separate i line = some line') :
    dumpColumn i line =
      match cellAt lead buf position with
      | none => blankColumn line'
      | some byte => byteColumn byte (buf.drop (position - lead + 1)) line' := by
  rw [dumpColumn, separated, Option.bind_some]
  by_cases before : position < lead
  · obtain ⟨left, -⟩ := aligned.ahead before
    have skipped : line'.skip > 0 := UInt8.lt_iff_toNat_lt.mpr (by simp; omega)
    rw [cellAt, if_pos before]
    split
    · rfl
    · rw [if_pos skipped]
  · obtain ⟨rest, done⟩ := aligned.inside (Nat.not_lt.mp before)
    rw [cellAt, if_neg before, rest]
    by_cases inside : position - lead < buf.length
    · have more : line'.ptr ≠ [] := by
        rw [rest]
        exact fun ended => absurd (List.drop_eq_nil_iff.mp ended) (Nat.not_le.mpr inside)
      rw [List.drop_eq_getElem_cons inside, List.getElem?_eq_getElem inside, done more]
      rfl
    · rw [List.drop_eq_nil_of_le (by omega), List.getElem?_eq_none (by omega)]

theorem dumpColumn_spec (aligned : Aligned lead buf position line)
    (hexRoom : line.hi + (if i = 8 then 1 else 0) + 3 < hexSize)
    (ascRoom : line.ai + (if i = 8 then 1 else 0) + 1 < ascSize) :
    ∃ line', dumpColumn i line = some line' ∧ Aligned lead buf (position + 1) line' ∧
      Shows line line' ((if i = 8 then [0x20] else []) ++ hexCell (cellAt lead buf position))
        ((if i = 8 then [0x20] else []) ++ ascCell (cellAt lead buf position)) := by
  obtain ⟨middle, separated, skip, ptr, space⟩ := separate_spec i line (by omega) (by omega)
  have aligned : Aligned lead buf position middle := by
    obtain ⟨ahead, inside⟩ := aligned
    rw [← skip, ← ptr] at ahead inside
    exact ⟨ahead, inside⟩
  have length : (if i = 8 then [(0x20 : UInt8)] else []).length = if i = 8 then 1 else 0 := by
    split <;> rfl
  have hexRoom : middle.hi + 3 < hexSize := by rwa [space.hi, length]
  have ascRoom : middle.ai + 1 < ascSize := by rwa [space.ai, length]
  rw [aligned.column separated]
  cases here : cellAt lead buf position with
  | none =>
      obtain ⟨line', written, skip, ptr, shows⟩ := blankColumn_spec hexRoom ascRoom
      exact ⟨line', written, aligned.blank here skip ptr, space.trans shows⟩
  | some byte =>
      obtain ⟨line', written, skip, ptr, shows⟩ := byteColumn_spec byte
        (buf.drop (position - lead + 1)) hexRoom ascRoom
      exact ⟨line', written, aligned.byte here skip ptr, space.trans shows⟩

theorem dumpColumns_spec (columns : ℕ) (aligned : Aligned lead buf position line)
    (hexRoom : line.hi + (printed hexCell i (cellsFrom lead buf position columns)).length < hexSize)
    (ascRoom : line.ai + (printed ascCell i (cellsFrom lead buf position columns)).length <
      ascSize) :
    ∃ line', dumpColumns i columns line = some line' ∧ Aligned lead buf (position + columns) line' ∧
      Shows line line' (printed hexCell i (cellsFrom lead buf position columns))
        (printed ascCell i (cellsFrom lead buf position columns)) := by
  induction columns generalizing i position line with
  | zero => exact ⟨line, rfl, aligned, rfl, rfl, rfl, rfl⟩
  | succ columns ih =>
      have space : (if i = 8 then [(0x20 : UInt8)] else []).length = if i = 8 then 1 else 0 := by
        split <;> rfl
      simp only [cellsFrom_succ, printed, List.length_append, length_hexCell, length_ascCell, space]
        at hexRoom ascRoom
      obtain ⟨middle, first, aligned, shown⟩ := dumpColumn_spec aligned (i := i)
        (by omega) (by omega)
      have hi := shown.hi
      have ai := shown.ai
      simp only [List.length_append, length_hexCell, length_ascCell, space] at hi ai
      obtain ⟨line', rest, aligned, shows⟩ := ih aligned (i := i + 1) (by omega) (by omega)
      refine ⟨line', ?_, ?_, ?_⟩
      · rw [dumpColumns, first, Option.bind_some, rest]
      · rwa [Nat.add_right_comm, Nat.add_assoc] at aligned
      · simp only [cellsFrom_succ, printed]
        exact shown.trans shows

theorem printed_nonzero {print : Cell → List UInt8} (shown : ∀ cell, ∀ c ∈ print cell, 0x20 ≤ c)
    (cells : List Cell) : 0 ∉ printed print i cells := by
  intro zero
  exact absurd (printed_printed shown zero) (by decide)

theorem dumpLine_spec (aligned : Aligned lead buf position line) (lineAddress : UInt64) : ∃ line',
    dumpLine lineAddress line =
      some (lineText lineAddress.toNat (cellsFrom lead buf position 16) ++ [0x0A], line') ∧
      Aligned lead buf (position + 16) line' := by
  have hexLength := length_printed length_hexCell 0 (cellsFrom lead buf position 16)
  have ascLength := length_printed length_ascCell 0 (cellsFrom lead buf position 16)
  rw [length_cellsFrom, if_pos (by decide)] at hexLength ascLength
  have start : Aligned lead buf position { line with hi := 0, ai := 0 } :=
    ⟨aligned.ahead, aligned.inside⟩
  obtain ⟨line', columns, aligned, shows⟩ := dumpColumns_spec 16 start (i := 0)
    (by rw [hexLength]; exact (by decide : 0 + (3 * 16 + 1) < hexSize))
    (by rw [ascLength]; exact (by decide : 0 + (1 * 16 + 1) < ascSize))
  have hi : line'.hi = 49 := by rw [shows.hi, hexLength]
  have ai : line'.ai = 17 := by rw [shows.ai, ascLength]
  refine ⟨{ line' with hex := poke line'.hex line'.hi [0], asc := poke line'.asc line'.ai [0] }, ?_,
    aligned.ahead, aligned.inside⟩
  have hexText : string (poke line'.hex line'.hi [0]) 0 hexSize =
      some (printed hexCell 0 (cellsFrom lead buf position 16)) := by
    rw [shows.hex, string_poke (printed_nonzero (fun _ _ => hexCell_printed) _)
      (by rw [hexLength]; decide)]
  have ascText : string (poke line'.asc line'.ai [0]) 0 ascSize =
      some (printed ascCell 0 (cellsFrom lead buf position 16)) := by
    rw [shows.asc, string_poke (printed_nonzero (fun _ _ => ascCell_printed) _)
      (by rw [ascLength]; decide)]
  simp only [dumpLine, columns, Option.bind_eq_bind, Option.bind_some]
  rw [store_some (by rw [hi]; decide), store_some (by rw [ai]; decide), Option.bind_some,
    Option.bind_some, hexText, ascText]
  rfl

end Columns

end Libam.Log
