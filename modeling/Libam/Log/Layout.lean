import Libam.Log.Columns
import Mathlib.Data.List.ReduceOption

/-! What a dump looks like, that it can be read back, and that `amlog_dump` writes as much of it as
there is room for. -/

namespace Libam.Log

open Libam.Text

variable {lead base : ℕ} {buf : List UInt8} {line : DumpLine} {memory : ℕ → UInt8} {output : ℕ}
  {outputLength : ℤ}

section Lines

def lineCount (lead length : ℕ) : ℕ := (lead + length + 15) / 16

def linesFrom (base lead : ℕ) (buf : List UInt8) (l count : ℕ) : List UInt8 :=
  unlines ((List.range' l count).map fun l => lineText (base + 16 * l)
    (cellsFrom lead buf (16 * l) 16))

theorem linesFrom_succ (base lead : ℕ) (buf : List UInt8) (l count : ℕ) :
    linesFrom base lead buf l (count + 1) =
      (lineText (base + 16 * l) (cellsFrom lead buf (16 * l) 16) ++ [0x0A]) ++
        linesFrom base lead buf (l + 1) count := by
  rw [linesFrom, List.range'_succ, List.map_cons, unlines, List.flatMap_cons]
  rfl

/-- The text is complete or fills the room, and the last zero is where the next text starts. -/
theorem poke_snprintf {memory' : ℕ → UInt8} {first rest : List UInt8} {room : ℕ}
    (fits : first.length < room)
    (printed : poke memory' (output + first.length + min rest.length (room - first.length - 1))
      [0] =
      poke (poke memory output (first ++ [0])) (output + first.length)
        (rest.take (room - first.length - 1) ++ [0])) :
    poke memory' (output + min (first ++ rest).length (room - 1)) [0] =
      poke memory output ((first ++ rest).take (room - 1) ++ [0]) := by
  have whole : min (first ++ rest).length (room - 1) =
      first.length + min rest.length (room - first.length - 1) := by
    rw [List.length_append]
    omega
  have cut : (first ++ rest).take (room - 1) = first ++ rest.take (room - first.length - 1) := by
    rw [List.take_append, List.take_of_length_le (by omega), Nat.sub_right_comm]
  rw [whole, ← Nat.add_assoc, printed, poke_over _ _ _ (by simp), cut, List.append_assoc]

theorem dumpLoop_succ {bound lineAddress : UInt64} (rounds : ℕ) {line' : DumpLine}
    {text : List UInt8} (more : lineAddress < bound)
    (printed : dumpLine lineAddress line = some (text, line')) :
    dumpLoop bound (rounds + 1) lineAddress line memory output outputLength =
      if (text.length : ℤ) ≥ outputLength then
        some (output + (outputLength - 1).toNat, (snprintf memory output outputLength.toNat text).1)
      else dumpLoop bound rounds (lineAddress + 16) line'
        (snprintf memory output outputLength.toNat text).1
        (output + text.length) (outputLength - text.length) := by
  rw [dumpLoop, if_pos more, printed]
  rfl

theorem dumpLoop_spec (bound : UInt64) (bounded : bound.toNat = base + lead + buf.length)
    (fits : base + lead + buf.length + 16 ≤ 2 ^ 64) (rounds l : ℕ) (lineAddress : UInt64)
    (memory : ℕ → UInt8) (output : ℕ) (outputLength : ℤ)
    (address : lineAddress.toNat = base + 16 * l) (aligned : Aligned lead buf (16 * l) line)
    (room : 1 ≤ outputLength) (enough : outputLength ≤ rounds) :
    let text := linesFrom base lead buf l (lineCount lead buf.length - l)
    ∃ memory', dumpLoop bound rounds lineAddress line memory output outputLength =
        some (output + min text.length (outputLength.toNat - 1), memory') ∧
      poke memory' (output + min text.length (outputLength.toNat - 1)) [0] =
        poke memory output (text.take (outputLength.toNat - 1) ++ [0]) := by
  induction rounds generalizing l lineAddress line memory output outputLength with
  | zero => omega
  | succ rounds ih =>
      intro text
      by_cases more : lineAddress < bound
      · have before := UInt64.lt_iff_toNat_lt.mp more
        obtain ⟨count, left⟩ : ∃ count, lineCount lead buf.length - l = count + 1 :=
          Nat.exists_eq_add_one.mpr (by rw [lineCount]; omega)
        have rest : count = lineCount lead buf.length - (l + 1) := by omega
        have split : text = (lineText (base + 16 * l) (cellsFrom lead buf (16 * l) 16) ++ [0x0A]) ++
            linesFrom base lead buf (l + 1) (lineCount lead buf.length - (l + 1)) := by
          rw [← rest, ← linesFrom_succ, ← left]
        obtain ⟨line', printed, aligned⟩ := dumpLine_spec aligned lineAddress
        rw [address] at printed
        obtain ⟨first, isFirst, shorter⟩ : ∃ first, lineText (base + 16 * l)
            (cellsFrom lead buf (16 * l) 16) ++ [0x0A] = first ∧ 0 < first.length :=
          ⟨_, rfl, by simp⟩
        rw [isFirst] at printed split
        have next : (lineAddress + 16).toNat = base + 16 * (l + 1) := by
          have sum : lineAddress.toNat + 16 < 2 ^ 64 := by omega
          have advanced : lineAddress.toNat + 16 = base + 16 * (l + 1) := by omega
          exact (toNat_add_exact sum).trans advanced
        rw [dumpLoop_succ rounds more printed, split]
        by_cases full : (first.length : ℤ) ≥ outputLength
        · have whole : min (first ++ linesFrom base lead buf (l + 1)
              (lineCount lead buf.length - (l + 1))).length
              (outputLength.toNat - 1) = outputLength.toNat - 1 := by
            rw [List.length_append]
            omega
          have place : (outputLength - 1).toNat = outputLength.toNat - 1 := by omega
          have cut : (first.take (outputLength.toNat - 1)).length = outputLength.toNat - 1 := by
            rw [List.length_take]
            omega
          rw [if_pos full, whole, place, snprintf, if_neg (by omega),
            List.take_append_of_le_length (by omega)]
          refine ⟨_, rfl, ?_⟩
          have whole := poke_over memory output (first.take (outputLength.toNat - 1))
            (Nat.le_refl [(0 : UInt8)].length)
          rwa [cut] at whole
        · have fit : first.length < outputLength.toNat := by omega
          have taken : (outputLength - first.length).toNat = outputLength.toNat - first.length := by
            omega
          obtain ⟨memory', ran, written⟩ := ih (l + 1) (lineAddress + 16)
            (snprintf memory output outputLength.toNat first).1 (output + first.length)
            (outputLength - first.length) next aligned (by omega) (by omega)
          rw [snprintf_fits fit, taken] at ran written
          refine ⟨memory', ?_, poke_snprintf fit written⟩
          have whole : output + first.length + min (linesFrom base lead buf (l + 1)
                (lineCount lead buf.length - (l + 1))).length
                (outputLength.toNat - first.length - 1) =
              output + min (first ++ linesFrom base lead buf (l + 1)
                (lineCount lead buf.length - (l + 1))).length (outputLength.toNat - 1) := by
            rw [List.length_append]
            omega
          rw [if_neg full, snprintf_fits fit, ran, whole]
      · have after := Nat.not_lt.mp fun less => more (UInt64.lt_iff_toNat_lt.mpr less)
        have none : text = [] := by
          have last : lineCount lead buf.length - l = 0 := by
            rw [lineCount]
            omega
          simp only [text, last]
          rfl
        rw [dumpLoop, if_neg more, none]
        exact ⟨memory, by simp, by simp⟩

end Lines

section Rows

def dumpRows (start : ℕ) (buf : List UInt8) : List (ℕ × List Cell) :=
  (List.range (lineCount (start % 16) buf.length)).map fun l =>
    (start - start % 16 + 16 * l, cellsFrom (start % 16) buf (16 * l) 16)

def dumpText (start : ℕ) (buf : List UInt8) : List UInt8 :=
  unlines ((dumpRows start buf).map fun row => lineText row.1 row.2)

theorem dumpText_eq (start : ℕ) (buf : List UInt8) : dumpText start buf =
    linesFrom (start - start % 16) (start % 16) buf 0 (lineCount (start % 16) buf.length) := by
  rw [dumpText, dumpRows, List.map_map, linesFrom, List.range_eq_range']
  rfl

/-- Lines of 16 columns at ascending addresses; a byte stands in the column of its address, and
nowhere else is one. -/
structure IsDump (start : ℕ) (buf : List UInt8) (rows : List (ℕ × List Cell)) : Prop where
  count : rows.length = lineCount (start % 16) buf.length
  address : ∀ l row, rows[l]? = some row → row.1 = start - start % 16 + 16 * l ∧ row.2.length = 16
  shown : ∀ j byte, buf[j]? = some byte → ∃ row, rows[(start % 16 + j) / 16]? = some row ∧
    row.2[(start + j) % 16]? = some (some byte)
  only : ∀ l row c byte, rows[l]? = some row → row.2[c]? = some (some byte) →
    ∃ j, buf[j]? = some byte ∧ (start % 16 + j) / 16 = l ∧ (start + j) % 16 = c

theorem dumpRows_eq_some {start l : ℕ} {row : ℕ × List Cell} : (dumpRows start buf)[l]? = some row ↔
    l < lineCount (start % 16) buf.length ∧
      (start - start % 16 + 16 * l, cellsFrom (start % 16) buf (16 * l) 16) = row := by
  rw [dumpRows, List.getElem?_map, Option.map_eq_some_iff]
  constructor
  · rintro ⟨k, here, rfl⟩
    obtain ⟨inside, same⟩ := List.getElem?_eq_some_iff.mp here
    rw [List.getElem_range] at same
    rw [List.length_range] at inside
    exact ⟨inside, by rw [same]⟩
  · rintro ⟨inside, rfl⟩
    exact ⟨l, List.getElem?_range inside, rfl⟩

theorem cellsFrom_eq_some {position columns c : ℕ} {cell : Cell} :
    (cellsFrom lead buf position columns)[c]? = some cell ↔
      c < columns ∧ cellAt lead buf (position + c) = cell := by
  rw [cellsFrom, List.getElem?_map, Option.map_eq_some_iff]
  constructor
  · rintro ⟨k, here, rfl⟩
    obtain ⟨inside, same⟩ := List.getElem?_eq_some_iff.mp here
    rw [List.getElem_range', Nat.one_mul] at same
    rw [List.length_range'] at inside
    exact ⟨inside, by rw [same]⟩
  · rintro ⟨inside, rfl⟩
    exact ⟨position + c, by rw [List.getElem?_range' inside, Nat.one_mul], rfl⟩

theorem isDump_dumpRows (start : ℕ) (buf : List UInt8) : IsDump start buf (dumpRows start buf) := by
  refine ⟨by simp [dumpRows], ?_, ?_, ?_⟩
  · intro l row here
    obtain ⟨-, rfl⟩ := dumpRows_eq_some.mp here
    exact ⟨rfl, length_cellsFrom _ _ _ _⟩
  · intro j byte here
    obtain ⟨inside, -⟩ := List.getElem?_eq_some_iff.mp here
    refine ⟨_, dumpRows_eq_some.mpr ⟨by rw [lineCount]; omega, rfl⟩,
      cellsFrom_eq_some.mpr ⟨Nat.mod_lt _ (by decide), ?_⟩⟩
    have position : 16 * ((start % 16 + j) / 16) + (start + j) % 16 = start % 16 + j := by omega
    rw [position, cellAt, if_neg (by omega), Nat.add_sub_cancel_left, here]
  · intro l row c byte here shown
    obtain ⟨-, rfl⟩ := dumpRows_eq_some.mp here
    obtain ⟨inside, cell⟩ := cellsFrom_eq_some.mp shown
    rw [cellAt] at cell
    split at cell
    · cases cell
    · next reached => exact ⟨16 * l + c - start % 16, cell, by omega, by omega⟩

end Rows

section Reading

def readCells (i : ℕ) : ℕ → List UInt8 → List Cell
  | 0, _ => []
  | columns + 1, text =>
      let text := if i = 8 then text.drop 1 else text
      (if text.head? = some 0x20 then none else (unhex (text.take 2)).head?) ::
        readCells (i + 1) columns (text.drop 3)

def readLine (row : List UInt8) : ℕ × List Cell :=
  (numeralValue 16 (row.takeWhile (· != 0x20)), readCells 0 16 ((row.dropWhile (· != 0x20)).drop 1))

/-- The address of the first byte and the bytes, read from the text of a dump. -/
def readBack (text : List UInt8) : ℕ × List UInt8 :=
  let rows := (lines text).map readLine
  let cells := (rows.map Prod.snd).flatten
  ((rows.map Prod.fst).headD 0 + (cells.takeWhile Option.isNone).length, cells.reduceOption)

theorem readCells_printed (i : ℕ) (cells : List Cell) (rest : List UInt8) :
    readCells i cells.length (printed hexCell i cells ++ rest) = cells := by
  induction cells generalizing i with
  | nil => rfl
  | cons cell cells ih =>
      have dropped : (if i = 8 then ((printed hexCell i (cell :: cells)) ++ rest).drop 1
          else (printed hexCell i (cell :: cells)) ++ rest) =
          hexCell cell ++ (printed hexCell (i + 1) cells ++ rest) := by
        rw [printed]
        split <;> simp
      have after : (hexCell cell ++ (printed hexCell (i + 1) cells ++ rest)).drop 3 =
          printed hexCell (i + 1) cells ++ rest :=
        List.drop_left' (length_hexCell cell)
      simp only [List.length_cons, readCells, dropped, after, ih]
      congr 1
      cases cell with
      | none => rfl
      | some byte =>
          have bound := byte.toNat_lt
          have first : digitChar (byte.toNat / 16) ≠ 0x20 :=
            (UInt8.ne_of_lt (digitChar_printed (by omega))).symm
          have back := unhex_cons byte []
          rw [List.append_nil, numeral_byte] at back
          rw [hexCell, numeral_byte]
          simp [first, back]

theorem readLine_lineText (address : ℕ) {cells : List Cell} (columns : cells.length = 16) :
    readLine (lineText address cells) = (address, cells) := by
  have printed_ne : ∀ c ∈ numeral 16 6 address, (c != 0x20) = true := fun c member =>
    bne_iff_ne.mpr (UInt8.ne_of_lt (numeral_printed (by decide) (by decide) member)).symm
  have split : lineText address cells = numeral 16 6 address ++
      0x20 :: (printed hexCell 0 cells ++ ([0x20] ++ printed ascCell 0 cells)) := by
    simp [lineText]
  rw [readLine, split, List.takeWhile_append_of_pos printed_ne,
    List.dropWhile_append_of_pos printed_ne,
    List.takeWhile_cons_of_neg (by simp), List.dropWhile_cons_of_neg (by simp), List.append_nil,
    numeralValue_numeral (by decide) (by decide), List.drop_one, List.tail_cons, ← columns,
    readCells_printed]

theorem flatten_cells (lead : ℕ) (buf : List UInt8) (l count : ℕ) :
    ((List.range' l count).map fun l => cellsFrom lead buf (16 * l) 16).flatten =
      cellsFrom lead buf (16 * l) (16 * count) := by
  induction count generalizing l with
  | zero => rfl
  | succ count ih =>
      have next : 16 * (l + 1) = 16 * l + 1 * 16 := by omega
      have length : 16 * (count + 1) = 16 + 16 * count := by omega
      rw [List.range'_succ, List.map_cons, List.flatten_cons, ih, cellsFrom, cellsFrom, cellsFrom,
        ← List.map_append, next, List.range'_append, length]

theorem cellsFrom_whole (lead pad : ℕ) (buf : List UInt8) :
    cellsFrom lead buf 0 (lead + buf.length + pad) =
    List.replicate lead none ++ (buf.map some ++ List.replicate pad none) := by
  apply List.ext_getElem?
  intro c
  by_cases inside : c < lead + buf.length + pad
  · rw [cellsFrom_eq_some.mpr ⟨inside, rfl⟩, cellAt, Nat.zero_add]
    split
    · next before => rw [List.getElem?_append_left (by simpa), List.getElem?_replicate,
        if_pos before]
    · next reached =>
        rw [List.getElem?_append_right (by simp; omega), List.length_replicate]
        by_cases data : c - lead < buf.length
        · rw [List.getElem?_append_left (by simpa), List.getElem?_map,
            List.getElem?_eq_getElem data]
          rfl
        · rw [List.getElem?_append_right (by simp; omega), List.getElem?_eq_none (by omega),
            List.length_map,
            List.getElem?_replicate, if_pos (by omega)]
  · rw [List.getElem?_eq_none (by simp; omega), List.getElem?_eq_none (by simp; omega)]

theorem lineText_printed {address : ℕ} {cells : List Cell} {c : UInt8}
    (member : c ∈ lineText address cells) : 0x20 ≤ c := by
  simp only [lineText, List.mem_append, List.mem_singleton] at member
  rcases member with (((digit | space) | hex) | space) | asc
  · exact UInt8.le_of_lt (numeral_printed (by decide) (by decide) digit)
  · exact UInt8.le_of_eq space.symm
  · exact printed_printed (fun _ _ => hexCell_printed) hex
  · exact UInt8.le_of_eq space.symm
  · exact printed_printed (fun _ _ => ascCell_printed) asc

theorem readRows_dumpText (start : ℕ) (buf : List UInt8) :
    (lines (dumpText start buf)).map readLine = dumpRows start buf := by
  have clean : ∀ row ∈ (dumpRows start buf).map fun row => lineText row.1 row.2, 0x0A ∉ row := by
    intro row member newline
    obtain ⟨_, -, rfl⟩ := List.mem_map.mp member
    exact absurd (lineText_printed newline) (by decide)
  rw [dumpText, lines_unlines clean, List.map_map]
  refine (List.map_congr_left fun row member => ?_).trans (List.map_id _)
  obtain ⟨l, -, rfl⟩ := List.mem_map.mp member
  exact readLine_lineText _ (length_cellsFrom _ _ _ _)

theorem readBack_dumpText {start : ℕ} (some_data : buf ≠ []) :
    readBack (dumpText start buf) = (start, buf) := by
  have positive := List.length_pos_iff.mpr some_data
  obtain ⟨pad, padded⟩ : ∃ pad,
      16 * lineCount (start % 16) buf.length = start % 16 + buf.length + pad :=
    ⟨16 * lineCount (start % 16) buf.length - (start % 16 + buf.length), by rw [lineCount]; omega⟩
  have cells : ((dumpRows start buf).map Prod.snd).flatten =
      List.replicate (start % 16) none ++ (buf.map some ++ List.replicate pad none) := by
    rw [dumpRows, List.map_map, List.range_eq_range', ← cellsFrom_whole, ← padded]
    exact flatten_cells (start % 16) buf 0 _
  have address : ((dumpRows start buf).map Prod.fst).headD 0 = start - start % 16 := by
    obtain ⟨count, more⟩ : ∃ count, lineCount (start % 16) buf.length = count + 1 :=
      Nat.exists_eq_add_one.mpr (by rw [lineCount]; omega)
    rw [dumpRows, more, List.range_succ_eq_map]
    simp
  have blanks : (((dumpRows start buf).map Prod.snd).flatten.takeWhile Option.isNone).length =
      start % 16 := by
    obtain ⟨byte, rest, rfl⟩ := List.exists_cons_of_ne_nil some_data
    rw [cells, List.takeWhile_append_of_pos (by simp), List.map_cons, List.cons_append,
      List.takeWhile_cons_of_neg (by simp), List.append_nil, List.length_replicate]
  have bytes : ((dumpRows start buf).map Prod.snd).flatten.reduceOption = buf := by
    rw [cells, List.reduceOption_append, List.reduceOption_append, List.reduceOption_replicate_none,
      List.reduceOption_replicate_none, List.nil_append, List.append_nil]
    simp [List.reduceOption]
  simp only [readBack, readRows_dumpText, address, blanks, bytes]
  rw [Nat.sub_add_cancel (Nat.mod_le _ _)]

end Reading

section Calls

/-- The output is the prefix of the text that there is room for, and a zero, and the
result its length. -/
structure Dumped (text : List UInt8) (memory : ℕ → UInt8) (output : ℕ) (outputLength : ℤ)
    (result : ℤ × (ℕ → UInt8)) : Prop where
  returned : result.1 = min (text.length : ℤ) (outputLength - 1)
  text : read result.2 output (result.1.toNat + 1) = text.take (outputLength.toNat - 1) ++ [0]
  within : Within output outputLength.toNat memory result.2

theorem lead_toNat (start : UInt64) : (start &&& 0xF).toUInt8.toNat = start.toNat % 16 := by
  have mask : (0xF : UInt64).toNat = 2 ^ 4 - 1 := rfl
  rw [UInt64.toNat_toUInt8, UInt64.toNat_and, mask, Nat.and_two_pow_sub_one_eq_mod]
  omega

theorem aligned_start (hex asc : ℕ → UInt8) (buf : List UInt8) (start : UInt64) :
    Aligned (start.toNat % 16) buf (16 * 0) ⟨hex, asc, 0, 0, (start &&& 0xF).toUInt8, buf⟩ := by
  refine ⟨fun _ => ⟨lead_toNat start, rfl⟩, fun none => ⟨?_, fun _ => ?_⟩⟩
  · rw [Nat.sub_eq_zero_of_le (by omega), List.drop_zero]
  · exact UInt8.toNat_inj.mp ((lead_toNat start).trans (by simp; omega))

theorem amlogDump_spec (hex asc memory : ℕ → UInt8) (output : ℕ) {start : UInt64}
    (fits : start.toNat + buf.length + 16 ≤ 2 ^ 64) (room : 1 ≤ outputLength) :
    amlogDump hex asc buf memory output outputLength start =
      some (min ((dumpText start.toNat buf).length : ℤ) (outputLength - 1),
        poke memory output ((dumpText start.toNat buf).take (outputLength.toNat - 1) ++ [0])) := by
  have whole : start.toNat - start.toNat % 16 + start.toNat % 16 = start.toNat :=
    Nat.sub_add_cancel (Nat.mod_le _ _)
  have skip : (start &&& 0xF).toUInt8.toUInt64.toNat = start.toNat % 16 :=
    (UInt8.toNat_toUInt64 _).trans (lead_toNat start)
  have address : (start - (start &&& 0xF).toUInt8.toUInt64).toNat =
      start.toNat - start.toNat % 16 + 16 * 0 := by
    rw [UInt64.toNat_sub_of_le, skip]
    · rfl
    · rw [UInt64.le_iff_toNat_le, skip]
      exact Nat.mod_le _ _
  have bounded : (start + .ofNat buf.length).toNat =
      start.toNat - start.toNat % 16 + start.toNat % 16 + buf.length := by
    have length : (UInt64.ofNat buf.length).toNat = buf.length :=
      UInt64.toNat_ofNat_of_lt' (by rw [UInt64.size]; omega)
    rw [whole, UInt64.toNat_add, length]
    exact Nat.mod_eq_of_lt (by omega)
  obtain ⟨memory', ran, written⟩ := dumpLoop_spec (start + .ofNat buf.length) bounded (by omega)
    outputLength.toNat 0 (start - (start &&& 0xF).toUInt8.toUInt64) memory output
    outputLength address (aligned_start hex asc buf start) room (by omega)
  rw [Nat.sub_zero, ← dumpText_eq] at ran written
  simp only [amlogDump, ran, Option.map_some, written]
  congr 2
  push_cast
  omega

theorem amlogDump_dumped (hex asc memory : ℕ → UInt8) (output : ℕ) {start : UInt64}
    (fits : start.toNat + buf.length + 16 ≤ 2 ^ 64) (room : 1 ≤ outputLength) :
    ∃ result, amlogDump hex asc buf memory output outputLength start = some result ∧
      Dumped (dumpText start.toNat buf) memory output outputLength result := by
  refine ⟨_, amlogDump_spec hex asc memory output fits room, rfl, ?_, ?_⟩
  · have length : (min ((dumpText start.toNat buf).length : ℤ) (outputLength - 1)).toNat + 1 =
        ((dumpText start.toNat buf).take (outputLength.toNat - 1) ++ [0]).length := by
      rw [List.length_append, List.length_take, List.length_singleton]
      omega
    simp only [length, read_poke]
  · apply poke_within.mono (Nat.le_refl _)
    rw [List.length_append, List.length_take, List.length_singleton]
    omega

/-- A dump shows every byte once, at its address; with a byte in it, it can be read back; and a call
writes as much of it as there is room for. -/
theorem amlogDump_layout {start : UInt64} (fits : start.toNat + buf.length + 16 ≤ 2 ^ 64) :
    IsDump start.toNat buf (dumpRows start.toNat buf) ∧
    (buf ≠ [] → readBack (dumpText start.toNat buf) = (start.toNat, buf)) ∧
    ∀ (hex asc memory : ℕ → UInt8) (output : ℕ) (outputLength : ℤ), 1 ≤ outputLength →
      ∃ result, amlogDump hex asc buf memory output outputLength start = some result ∧
        Dumped (dumpText start.toNat buf) memory output outputLength result :=
  ⟨isDump_dumpRows _ _, readBack_dumpText,
    fun hex asc memory output _ room => amlogDump_dumped hex asc memory output fits room⟩

theorem amlogDump_layout_short :
    readBack (dumpText 0x1E [0x41, 0x00, 0x42]) = (0x1E, [0x41, 0x00, 0x42]) ∧
    ∃ result, amlogDump (fun _ => 7) (fun _ => 7) [0x41, 0x00, 0x42]
      (fun _ => 7) 0 90 0x1E = some result ∧
      Dumped (dumpText 0x1E [0x41, 0x00, 0x42]) (fun _ => 7) 0 90 result := by
  have fits : (0x1E : UInt64).toNat + ([0x41, 0x00, 0x42] : List UInt8).length + 16 ≤ 2 ^ 64 := by
    decide
  obtain ⟨-, back, calls⟩ := amlogDump_layout fits
  exact ⟨back (by simp), calls (fun _ => 7) (fun _ => 7) (fun _ => 7) 0 90 (by decide)⟩

end Calls

end Libam.Log
