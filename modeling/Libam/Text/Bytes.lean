import Mathlib.Data.Nat.Init
import Mathlib.Data.List.Basic
import Mathlib.Tactic.Common

/-! Memory as bytes by address: what is written over a range of it, read from it,
or printed to it. -/

namespace Libam.Text

variable {memory : ℕ → UInt8} {dest i : ℕ} {bytes more : List UInt8}

section Ranges

def poke (memory : ℕ → UInt8) (dest : ℕ) (bytes : List UInt8) : ℕ → UInt8 :=
  fun i => if dest ≤ i then bytes[i - dest]?.getD (memory i) else memory i

def read (memory : ℕ → UInt8) (source length : ℕ) : List UInt8 :=
  (List.range length).map fun i => memory (source + i)

def Within (dest length : ℕ) (memory memory' : ℕ → UInt8) : Prop :=
  ∀ i, i < dest ∨ dest + length ≤ i → memory' i = memory i

@[simp] theorem length_read (source length : ℕ) : (read memory source length).length = length := by
  simp [read]

@[simp] theorem poke_nil : poke memory dest [] = memory := by
  funext i
  simp [poke]

theorem poke_within : Within dest bytes.length memory (poke memory dest bytes) := by
  intro i outside
  rw [poke]
  split
  · rw [List.getElem?_eq_none (by omega), Option.getD_none]
  · rfl

theorem poke_below (below : i < dest) : poke memory dest bytes i = memory i :=
  poke_within i (.inl below)

theorem poke_above (above : dest + bytes.length ≤ i) : poke memory dest bytes i = memory i :=
  poke_within i (.inr above)

theorem poke_at (inside : i < bytes.length) : poke memory dest bytes (dest + i) = bytes[i] := by
  rw [poke, if_pos (Nat.le_add_right _ _), Nat.add_sub_cancel_left, List.getElem?_eq_getElem inside,
    Option.getD_some]

theorem poke_poke :
    poke (poke memory dest bytes) (dest + bytes.length) more = poke memory dest
    (bytes ++ more) := by
  funext i
  by_cases below : i < dest
  · rw [poke_below (by omega), poke_below below, poke_below below]
  by_cases here : i < dest + bytes.length
  · obtain ⟨k, rfl⟩ := Nat.exists_eq_add_of_le (Nat.not_lt.mp below)
    rw [poke_below here, poke_at (by omega), poke_at (by simp; omega), List.getElem_append_left]
  · simp only [poke, Nat.not_lt.mp here, Nat.not_lt.mp below, if_true, Nat.sub_add_eq]
    rw [List.getElem?_append_right (by omega),
      List.getElem?_eq_none (show bytes.length ≤ i - dest by omega), Option.getD_none]

theorem poke_over (memory : ℕ → UInt8) (dest : ℕ) (bytes : List UInt8) {last more : List UInt8}
    (covered : last.length ≤ more.length) :
    poke (poke memory dest (bytes ++ last)) (dest + bytes.length) more = poke memory dest
    (bytes ++ more) := by
  rw [← poke_poke, ← poke_poke]
  funext i
  by_cases below : i < dest + bytes.length
  · rw [poke_below below, poke_below below, poke_below below]
  · obtain ⟨k, rfl⟩ := Nat.exists_eq_add_of_le (Nat.not_lt.mp below)
    by_cases inside : k < more.length
    · rw [poke_at inside, poke_at inside]
    · have outside : dest + bytes.length + more.length ≤ dest + bytes.length + k := by omega
      have past : dest + bytes.length + last.length ≤ dest + bytes.length + k := by omega
      rw [poke_above outside, poke_above past, poke_above outside]

@[simp] theorem read_poke : read (poke memory dest bytes) dest bytes.length = bytes := by
  apply List.ext_getElem
  · simp
  · intro i _ inside
    simp only [read, List.getElem_map, List.getElem_range, poke_at inside]

theorem read_poke_append : read (poke memory dest (bytes ++ more)) dest bytes.length = bytes := by
  rw [← poke_poke]
  apply List.ext_getElem
  · simp
  · intro i _ inside
    simp only [read, List.getElem_map, List.getElem_range]
    rw [poke_below (by omega), poke_at inside]

theorem read_add (source first second : ℕ) :
    read memory source (first + second) = read memory source first ++ read memory
    (source + first) second := by
  rw [read, List.range_add, List.map_append, List.map_map, read, read]
  congr 1
  exact List.map_congr_left fun i _ => congrArg memory (Nat.add_assoc _ _ _).symm

theorem Within.trans {length : ℕ} {memory' memory'' : ℕ → UInt8}
    (first : Within dest length memory memory') (second : Within dest length memory' memory'') :
    Within dest length memory memory'' :=
  fun i outside => (second i outside).trans (first i outside)

theorem Within.mono {from' length length' : ℕ} {memory' : ℕ → UInt8}
    (within : Within dest length memory memory') (low : from' ≤ dest)
    (high : dest + length ≤ from' + length') : Within from' length' memory memory' :=
  fun i outside => within i (by omega)

end Ranges

section Strings

/-- `snprintf` of a text: a zero follows it, and what has no room is left out. The result is the
length of the whole text. -/
def snprintf (memory : ℕ → UInt8) (dest size : ℕ) (text : List UInt8) : (ℕ → UInt8) × ℤ :=
  (if size = 0 then memory else poke memory dest (text.take (size - 1) ++ [0]), text.length)

def string (memory : ℕ → UInt8) (source size : ℕ) : Option (List UInt8) :=
  let bytes := read memory source size
  if 0 ∈ bytes then some (bytes.takeWhile (· != 0)) else none

theorem snprintf_fits {size : ℕ} {text : List UInt8} (fits : text.length < size) :
    snprintf memory dest size text = (poke memory dest (text ++ [0]), (text.length : ℤ)) := by
  rw [snprintf, if_neg (by omega), List.take_of_length_le (by omega)]

theorem snprintf_within {size : ℕ} {text : List UInt8} :
    Within dest size memory (snprintf memory dest size text).1 := by
  rw [snprintf]
  split
  · exact fun _ _ => rfl
  · apply poke_within.mono (Nat.le_refl _)
    simp
    omega

theorem string_of_read {source size : ℕ}
    (here : read memory source (bytes.length + 1) = bytes ++ [0]) (nonzero : 0 ∉ bytes)
    (room : bytes.length < size) : string memory source size = some bytes := by
  have inside : bytes.length + 1 ≤ size := room
  obtain ⟨rest, split⟩ : ∃ rest, read memory source size = bytes ++ 0 :: rest := by
    refine ⟨(List.range (size - (bytes.length + 1))).map fun i =>
      memory (source + (bytes.length + 1 + i)), ?_⟩
    rw [read, ← Nat.add_sub_cancel' inside, List.range_add, List.map_append,
      Nat.add_sub_cancel' inside, List.map_map]
    rw [read] at here
    rw [here, List.append_assoc]
    rfl
  have stops : (bytes ++ 0 :: rest).takeWhile (· != 0) = bytes := by
    rw [List.takeWhile_append_of_pos, List.takeWhile_cons_of_neg (by simp), List.append_nil]
    intro c member
    exact bne_iff_ne.mpr fun zero => nonzero (zero ▸ member)
  rw [string, split, if_pos (by simp), stops]

theorem read_poke_zero :
    read (poke memory dest (bytes ++ [0])) dest (bytes.length + 1) = bytes ++ [0] := by
  have whole : read (poke memory dest (bytes ++ [0])) dest (bytes ++ [0]).length = bytes ++ [0] :=
    read_poke
  rwa [List.length_append] at whole

theorem string_poke {size : ℕ} (nonzero : 0 ∉ bytes) (room : bytes.length < size) :
    string (poke memory dest (bytes ++ [0])) dest size = some bytes :=
  string_of_read read_poke_zero nonzero room

theorem string_poke_last {size last : ℕ} (nonzero : 0 ∉ bytes) (after : bytes.length ≤ last)
    (inside : last < size) :
    string (poke (poke memory dest (bytes ++ [0])) (dest + last) [0]) dest size = some bytes := by
  refine string_of_read ?_ nonzero (by omega)
  rcases Nat.eq_or_lt_of_le after with here | later
  · rw [← here, poke_over _ _ _ (Nat.le_refl _), read_poke_zero]
  · have same : read (poke (poke memory dest (bytes ++ [0])) (dest + last) [0]) dest
        (bytes.length + 1) =
        read (poke memory dest (bytes ++ [0])) dest (bytes.length + 1) := by
      refine List.map_congr_left fun i member => ?_
      have bound := List.mem_range.mp member
      exact poke_below (by omega)
    rw [same, read_poke_zero]

end Strings

section Lines

def unlines (rows : List (List UInt8)) : List UInt8 := rows.flatMap (· ++ [0x0A])

def lines (text : List UInt8) : List (List UInt8) := (text.splitOn 0x0A).dropLast

theorem lines_unlines {rows : List (List UInt8)} (clean : ∀ row ∈ rows, 0x0A ∉ row) :
    lines (unlines rows) = rows := by
  have split : (unlines rows).splitOn 0x0A = rows ++ [[]] := by
    induction rows with
    | nil => rfl
    | cons row rows ih =>
        obtain ⟨first, rest⟩ := List.forall_mem_cons.mp clean
        rw [unlines, List.flatMap_cons, List.append_assoc, List.singleton_append,
          List.splitOn_append_cons_self_of_not_mem first, ← unlines, ih rest, List.cons_append]
  rw [lines, split, List.dropLast_concat]

end Lines

end Libam.Text
