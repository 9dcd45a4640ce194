import Libam.Pool.Sequential

/-! What the bytes of a chunk are after the writes and tests of a whole call. -/

namespace Libam.Pool

variable {cfg : Config} {c : Addr} {b : BucketId} {block : Block} {allocationSize : UInt32}

section Stores

def Block.withData (block : Block) (data : ℕ → UInt8) : Block :=
  { block with chunk := { block.chunk with data := data } }

/-- Writes inside the block succeed, reach only their own bytes, and leave their values. -/
theorem storeAll_spec (block : Block) {writes : List (ℕ × UInt8)}
    (inside : ∀ w ∈ writes, w.1 < block.capacity) (value : ℕ → UInt8)
    (values : ∀ w ∈ writes, w.2 = value w.1) :
    ∃ data, block.storeAll writes = .ok (block.withData data) ∧
      (∀ i, i ∈ writes.map Prod.fst → data i = value i) ∧
      ∀ i, i ∉ writes.map Prod.fst → data i = block.chunk.data i := by
  induction writes generalizing block with
  | nil => exact ⟨block.chunk.data, rfl, nofun, fun _ _ => rfl⟩
  | cons w writes ih =>
      have room : w.1 < block.capacity := inside w List.mem_cons_self
      obtain ⟨next, defNext⟩ : ∃ next, next =
        block.withData (Function.update block.chunk.data w.1 w.2) := ⟨_, rfl⟩
      have stored : block.storeByte w = .ok next := by
        rw [Block.storeByte, if_pos room, defNext]
        rfl
      obtain ⟨data, run, written, kept⟩ := ih next
        (fun v member => by rw [defNext]; exact inside v (List.mem_cons_of_mem _ member))
        (fun v member => values v (List.mem_cons_of_mem _ member))
      refine ⟨data, ?_, fun i member => ?_, fun i outside => ?_⟩
      · simp only [Block.storeAll, stored, bind, Except.bind, run]
        rw [defNext]
        rfl
      · by_cases later : i ∈ writes.map Prod.fst
        · exact written i later
        · have first : i = w.1 := by
            rcases List.mem_cons.mp member with here | rest
            · exact here
            · exact absurd rest later
          rw [kept i later, defNext, first]
          exact (Function.update_self ..).trans (values w List.mem_cons_self)
      · rw [List.map_cons, List.mem_cons, not_or] at outside
        rw [kept i outside.2, defNext]
        exact Function.update_of_ne outside.1 ..

theorem mem_map_memsetZero {i n k : ℕ} : k ∈ (memsetZero i n).map Prod.fst ↔ i ≤ k ∧ k < i + n := by
  induction n generalizing i with
  | zero => simp [memsetZero]
  | succ n ih =>
      rw [memsetZero, List.map_cons, List.mem_cons, ih]
      omega

theorem memsetZero_value {i n : ℕ} {w : ℕ × UInt8} (member : w ∈ memsetZero i n) : w.2 = 0 := by
  induction n generalizing i with
  | zero => cases member
  | succ n ih =>
      rcases List.mem_cons.mp member with rfl | later
      · rfl
      · exact ih later

theorem mem_map_memcpyFrom {data : ℕ → UInt8} {i n k : ℕ} :
    k ∈ (memcpyFrom data i n).map Prod.fst ↔ i ≤ k ∧ k < i + n := by
  induction n generalizing i with
  | zero => simp [memcpyFrom]
  | succ n ih =>
      rw [memcpyFrom, List.map_cons, List.mem_cons, ih]
      omega

theorem memcpyFrom_value {data : ℕ → UInt8} {i n : ℕ} {w : ℕ × UInt8}
    (member : w ∈ memcpyFrom data i n) : w.2 = data w.1 := by
  induction n generalizing i with
  | zero => cases member
  | succ n ih =>
      rcases List.mem_cons.mp member with rfl | later
      · rfl
      · exact ih later

theorem mem_map_setLen (magic : UInt32) (c : Addr) (isData toAllocated : Bool) {i n k : ℕ}
    (writing : (!isData || !toAllocated) = true) :
    k ∈ (chunkMagicSetLen magic c isData toAllocated i n).map Prod.fst ↔ i ≤ k ∧ k < i + n := by
  constructor
  · intro member
    obtain ⟨w, inside, rfl⟩ := List.mem_map.mp member
    exact ((mem_setLen writing w).mp inside).1
  · exact fun range => map_setLen writing range.1 range.2

theorem storeRange_spec (block : Block) {writes : List (ℕ × UInt8)} {i n : ℕ} (value : ℕ → UInt8)
    (range : ∀ k, k ∈ writes.map Prod.fst ↔ i ≤ k ∧ k < i + n)
    (values : ∀ w ∈ writes, w.2 = value w.1) (room : i + n ≤ block.capacity) :
    ∃ data, block.storeAll writes = .ok (block.withData data) ∧
      (∀ k, i ≤ k → k < i + n → data k = value k) ∧
      ∀ k, k < i ∨ i + n ≤ k → data k = block.chunk.data k := by
  obtain ⟨data, run, written, kept⟩ := storeAll_spec block
    (fun w member => by
      have bounds := (range w.1).mp (List.mem_map_of_mem member)
      omega) value values
  refine ⟨data, run, fun k low high => written k ((range k).mpr ⟨low, high⟩), fun k outside => ?_⟩
  exact kept k fun member => by
    have bounds := (range k).mp member
    omega

end Stores

section Tests

theorem readable_of_le (block : Block) {i n : ℕ} (room : i + n ≤ block.capacity) :
    block.readable i n = true := by
  simp [Block.readable, room]

theorem magicTest_eq (fits : Fits b block.chunk.size allocationSize)
    (capacity : block.capacity = allocationSize.toNat) (toAllocated : Bool) :
    magicTest cfg c block allocationSize toAllocated =
      if chunkMagicTest cfg.magic c block.chunk allocationSize toAllocated cfg.validate cfg.validate
      then .ok () else .error .assertion := by
  have whole := fits.size_le
  have short := fits.validatedLen_le
  have low := readable_of_le block (i := 0) (n := (validatedLen block.chunk.size).toNat)
    (by omega)
  have high := readable_of_le block
    (i := (block.chunk.size - validatedLen block.chunk.size).toNat)
    (n := (validatedLen block.chunk.size).toNat) (by rw [fits.high_toNat]; omega)
  have beyond := readable_of_le block (i := block.chunk.size.toNat)
    (n := (allocationSize - block.chunk.size).toNat) (by rw [fits.overflow_toNat]; omega)
  simp [magicTest, low, high, beyond]

theorem magicTest_poisoned (fits : Fits b block.chunk.size allocationSize)
    (capacity : block.capacity = allocationSize.toNat)
    (poisoned : Poisoned cfg c block.chunk allocationSize) :
    magicTest cfg c block allocationSize true = .ok () := by
  rw [magicTest_eq fits capacity, if_pos ((test_poisoned_iff fits).mpr poisoned)]

theorem magicTest_marked (fits : Fits b block.chunk.size allocationSize)
    (capacity : block.capacity = allocationSize.toNat)
    (marked : Marked cfg c block.chunk allocationSize) :
    magicTest cfg c block allocationSize false = .ok () := by
  rw [magicTest_eq fits capacity, if_pos ((test_marked_iff fits).mpr marked)]

end Tests

section Marking

theorem magicSet_used (cfg : Config) (c : Addr) (fits : Fits b block.chunk.size allocationSize)
    (capacity : block.capacity = allocationSize.toNat) :
    ∃ chunk, magicSet cfg c block allocationSize true = .ok ⟨chunk, block.capacity⟩ ∧
      chunk.size = block.chunk.size ∧ chunk.name = block.chunk.name ∧
      Marked cfg c chunk allocationSize ∧
      ∀ i, i < block.chunk.size.toNat → chunk.data i = block.chunk.data i := by
  have whole := fits.size_le
  cases valid : cfg.validate with
  | false =>
      refine ⟨{ block.chunk with magic := cfg.magic }, ?_, rfl, rfl, ⟨rfl, fun on => ?_⟩,
        fun _ _ => rfl⟩
      · simp only [magicSet, valid, Bool.false_and, Bool.false_eq_true, if_false, bind, Except.bind]
        rfl
      · rw [valid] at on
        cases on
  | true =>
      obtain ⟨data, run, written, kept⟩ := storeRange_spec
        ⟨{ block.chunk with magic := cfg.magic }, block.capacity⟩
        (i := block.chunk.size.toNat) (n := (allocationSize - block.chunk.size).toNat)
        (usedByte cfg.magic c) (fun k => mem_map_setLen cfg.magic c false true rfl)
        (fun w member => by
          rw [((mem_setLen rfl w).mp member).2]
          simp [chunkMagicGetValues, usedByte])
        (show _ ≤ block.capacity by rw [fits.overflow_toNat]; omega)
      refine ⟨{ block.chunk with magic := cfg.magic, data := data }, ?_, rfl, rfl,
        ⟨rfl, fun _ i beyond => ?_⟩, fun i inside => kept i (.inl inside)⟩
      · simp only [magicSet, valid, Bool.not_true, Bool.and_false, Bool.false_eq_true,
          if_false, if_true,
          bind, Except.bind]
        exact run
      · have high : i < allocationSize.toNat := beyond.2
        have low : block.chunk.size.toNat ≤ i := beyond.1
        apply written i low
        rw [fits.overflow_toNat]
        omega

theorem magicSet_free (cfg : Config) (c : Addr) (fits : Fits b block.chunk.size allocationSize)
    (capacity : block.capacity = allocationSize.toNat) :
    ∃ chunk, magicSet cfg c block allocationSize false = .ok ⟨chunk, block.capacity⟩ ∧
      chunk.size = block.chunk.size ∧ Poisoned cfg c chunk allocationSize := by
  have whole := fits.size_le
  have short := fits.validatedLen_le
  cases valid : cfg.validate with
  | false =>
      refine ⟨{ block.chunk with magic := ~~~cfg.magic }, ?_, rfl, ⟨rfl, fun on => ?_⟩⟩
      · simp only [magicSet, valid, Bool.false_and, Bool.false_eq_true, if_false, bind, Except.bind]
      · rw [valid] at on
        cases on
  | true =>
      obtain ⟨data₁, run₁, low, rest₁⟩ := storeRange_spec
        ⟨{ block.chunk with magic := ~~~cfg.magic }, block.capacity⟩ (i := 0)
        (n := (validatedLen block.chunk.size).toNat) (freeByte cfg.magic c block.chunk.size)
        (fun k => mem_map_setLen cfg.magic c true false rfl)
        (fun w member => by
          obtain ⟨⟨_, below⟩, value⟩ := (mem_setLen rfl w).mp member
          rw [value, free_data_value block.chunk.size (by omega)])
        (show _ ≤ block.capacity by omega)
      obtain ⟨data₂, run₂, high, rest₂⟩ := storeRange_spec
        ⟨{ block.chunk with magic := ~~~cfg.magic, data := data₁ }, block.capacity⟩
        (i := (block.chunk.size - validatedLen block.chunk.size).toNat)
        (n := (validatedLen block.chunk.size).toNat) (freeByte cfg.magic c block.chunk.size)
        (fun k => mem_map_setLen cfg.magic c true false rfl)
        (fun w member => by
          obtain ⟨⟨_, below⟩, value⟩ := (mem_setLen rfl w).mp member
          rw [fits.high_toNat] at below
          rw [value, free_data_value block.chunk.size (by omega)])
        (show _ ≤ block.capacity by rw [fits.high_toNat]; omega)
      obtain ⟨data₃, run₃, beyond, rest₃⟩ := storeRange_spec
        ⟨{ block.chunk with magic := ~~~cfg.magic, data := data₂ }, block.capacity⟩
        (i := block.chunk.size.toNat) (n := (allocationSize - block.chunk.size).toNat)
        (freeByte cfg.magic c block.chunk.size)
        (fun k => mem_map_setLen cfg.magic c false false rfl)
        (fun w member => by
          obtain ⟨⟨above, _⟩, value⟩ := (mem_setLen rfl w).mp member
          rw [value, free_overflow_value block.chunk.size above])
        (show _ ≤ block.capacity by rw [fits.overflow_toNat]; omega)
      rw [fits.high_toNat] at high rest₂
      rw [fits.overflow_toNat] at beyond rest₃
      refine ⟨{ block.chunk with magic := ~~~cfg.magic, data := data₃ }, ?_, rfl,
        ⟨rfl, fun _ i marked => ?_⟩⟩
      · simp only [magicSet, valid, Bool.not_false, Bool.and_true, Bool.false_eq_true,
          if_false, if_true,
          bind, Except.bind]
        simp only [Block.withData] at run₁ run₂ run₃
        rw [run₁]
        simp only [run₂, run₃]
      · show data₃ i = freeByte cfg.magic c block.chunk.size i
        rcases marked with inLow | inHigh | inOverflow
        · have below : i < (validatedLen block.chunk.size).toNat := inLow
          have third : data₃ i = data₂ i := rest₃ i (by omega)
          rw [third]
          by_cases both : block.chunk.size.toNat - (validatedLen block.chunk.size).toNat ≤ i
          · exact high i both (by omega)
          · have second : data₂ i = data₁ i := rest₂ i (by omega)
            rw [second]
            exact low i (Nat.zero_le i) (by omega)
        · have above : block.chunk.size.toNat - (validatedLen block.chunk.size).toNat ≤ i :=
              inHigh.1
          have below : i < block.chunk.size.toNat := inHigh.2
          have third : data₃ i = data₂ i := rest₃ i (by omega)
          rw [third]
          exact high i above (by omega)
        · have above : block.chunk.size.toNat ≤ i := inOverflow.1
          have below : i < allocationSize.toNat := inOverflow.2
          exact beyond i above (by omega)

end Marking

end Libam.Pool
