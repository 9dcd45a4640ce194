import Libam.Pool.Chunks

/-! The marks of free and of used chunks: what the assertions need, and what the writes of
`chunk_magic_set` leave. -/

namespace Libam.Pool

variable {cfg : Config} {c : Addr} {ch : AmpoolChunk} {size allocationSize : UInt32} {b : BucketId}

section Marks

def freeByte (magic : UInt32) (c : Addr) (size : UInt32) (i : ℕ) : UInt8 :=
  ~~~chunkMagicPtr magic (dataPtr c i) (i < size.toNat)

def usedByte (magic : UInt32) (c : Addr) (i : ℕ) : UInt8 := chunkMagicPtr magic (dataPtr c i) false

def Low (size : UInt32) (i : ℕ) : Prop := i < (validatedLen size).toNat
def High (size : UInt32) (i : ℕ) : Prop :=
  size.toNat - (validatedLen size).toNat ≤ i ∧ i < size.toNat

def Overflow (size allocationSize : UInt32) (i : ℕ) : Prop :=
  size.toNat ≤ i ∧ i < allocationSize.toNat

structure Poisoned (cfg : Config) (c : Addr) (ch : AmpoolChunk)
    (allocationSize : UInt32) : Prop where
  magic : ch.magic = ~~~cfg.magic
  bytes : cfg.validate = true → ∀ i, Low ch.size i ∨ High ch.size i ∨
    Overflow ch.size allocationSize i →
    ch.data i = freeByte cfg.magic c ch.size i

structure Marked (cfg : Config) (c : Addr) (ch : AmpoolChunk) (allocationSize : UInt32) : Prop where
  magic : ch.magic = cfg.magic
  bytes : cfg.validate = true → ∀ i, Overflow ch.size allocationSize i →
    ch.data i = usedByte cfg.magic c i

structure Config.Covers (cfg weaker : Config) : Prop where
  magic : weaker.magic = cfg.magic
  validate : weaker.validate = true → cfg.validate = true

theorem Config.covers_refl (cfg : Config) : cfg.Covers cfg := ⟨rfl, id⟩

variable {weaker : Config}

theorem Poisoned.weaken (poisoned : Poisoned cfg c ch allocationSize) (covers : cfg.Covers weaker) :
    Poisoned weaker c ch allocationSize := by
  refine ⟨poisoned.magic.trans (congrArg _ covers.magic.symm), fun valid i reached => ?_⟩
  rw [covers.magic]
  exact poisoned.bytes (covers.validate valid) i reached

theorem Marked.weaken (marked : Marked cfg c ch allocationSize) (covers : cfg.Covers weaker) :
    Marked weaker c ch allocationSize := by
  refine ⟨marked.magic.trans covers.magic.symm, fun valid i beyond => ?_⟩
  rw [covers.magic]
  exact marked.bytes (covers.validate valid) i beyond

theorem Marked.write (marked : Marked cfg c ch allocationSize) {i : ℕ} (inside : i < ch.size.toNat)
    (value : UInt8) :
    Marked cfg c { ch with data := Function.update ch.data i value } allocationSize := by
  refine ⟨marked.magic, fun valid k beyond => ?_⟩
  have apart : k ≠ i := fun same => Nat.not_lt.mpr beyond.1 (same ▸ inside)
  simp only [Function.update_of_ne apart]
  exact marked.bytes valid k beyond

end Marks

section Sizes

theorem Fits.overflow_toNat (fits : Fits b size allocationSize) :
    (allocationSize - size).toNat = allocationSize.toNat - size.toNat :=
  UInt32.toNat_sub_of_le _ _ (UInt32.le_iff_toNat_le.mpr fits.size_le)

theorem Fits.high_toNat (fits : Fits b size allocationSize) :
    (size - validatedLen size).toNat = size.toNat - (validatedLen size).toNat :=
  UInt32.toNat_sub_of_le _ _ (UInt32.le_iff_toNat_le.mpr fits.validatedLen_le)

end Sizes

section Assertions

variable {magic : UInt32} {data : ℕ → UInt8} {isData toAllocated : Bool}

theorem testLen_iff {i n : ℕ} : chunkMagicTestLen magic c data isData toAllocated i n = true ↔
    ∀ k, i ≤ k → k < i + n →
      data k = (chunkMagicGetValues magic (dataPtr c k) isData toAllocated).1 ∨
      (isData && !toAllocated) = true := by
  induction n generalizing i with
  | zero => exact ⟨fun _ k low high => by omega, fun _ => rfl⟩
  | succ n ih =>
      rw [chunkMagicTestLen, Bool.and_eq_true, ih, Bool.or_eq_true, beq_iff_eq]
      constructor
      · rintro ⟨first, rest⟩ k low high
        by_cases here : k = i
        · exact here ▸ first
        · exact rest k (by omega) (by omega)
      · exact fun bytes =>
          ⟨bytes i (Nat.le_refl i) (by omega), fun k low high => bytes k (by omega) (by omega)⟩

theorem free_expected_data (size : UInt32) {i : ℕ} (inside : i < size.toNat) :
    (chunkMagicGetValues magic (dataPtr c i) true true).1 = freeByte magic c size i := by
  rw [freeByte, decide_eq_true inside]
  rfl

theorem free_expected_overflow (size : UInt32) {i : ℕ} (outside : size.toNat ≤ i) :
    (chunkMagicGetValues magic (dataPtr c i) false true).1 = freeByte magic c size i := by
  rw [freeByte, decide_eq_false (Nat.not_lt.mpr outside)]
  rfl

theorem test_poisoned_iff (fits : Fits b ch.size allocationSize) :
    chunkMagicTest cfg.magic c ch allocationSize true cfg.validate cfg.validate = true ↔
      Poisoned cfg c ch allocationSize := by
  have short := fits.validatedLen_le
  have whole := fits.size_le
  simp only [chunkMagicTest, Bool.or_true, Bool.true_and, Bool.not_true, Bool.or_false,
    Bool.and_eq_true,
    Bool.or_eq_true, Bool.not_eq_true', beq_iff_eq, fits.high_toNat,
    fits.overflow_toNat, testLen_iff]
  constructor
  · rintro ⟨⟨magic, ends⟩, beyond⟩
    refine ⟨magic, fun valid i reached => ?_⟩
    obtain ⟨low, high⟩ := ends.resolve_left (by simp [valid])
    have past := beyond.resolve_left (by simp [valid])
    rcases reached with inLow | inHigh | inOverflow
    · have below : i < (validatedLen ch.size).toNat := inLow
      rw [(low i (Nat.zero_le i) (by omega)).resolve_right (by simp),
        free_expected_data ch.size (by omega)]
    · obtain ⟨above, inside⟩ := inHigh
      rw [(high i above (by omega)).resolve_right (by simp), free_expected_data ch.size inside]
    · obtain ⟨above, inside⟩ := inOverflow
      rw [(past i above (by omega)).resolve_right (by simp), free_expected_overflow ch.size above]
  · rintro ⟨magic, bytes⟩
    cases valid : cfg.validate with
    | false => exact ⟨⟨magic, .inl rfl⟩, .inl rfl⟩
    | true =>
        refine ⟨⟨magic, .inr ⟨fun k _ high => .inl ?_, fun k low high => .inl ?_⟩⟩,
          .inr fun k low high => .inl ?_⟩
        · rw [bytes valid k (.inl (by rw [Low]; omega)), free_expected_data ch.size (by omega)]
        · rw [bytes valid k (.inr (.inl ⟨low, by omega⟩)), free_expected_data ch.size (by omega)]
        · rw [bytes valid k (.inr (.inr ⟨low, by omega⟩)), free_expected_overflow ch.size low]

/-- The test of a used chunk passes for exactly the bytes that `alloc` leaves past the data. -/
theorem test_marked_iff (fits : Fits b ch.size allocationSize) :
    chunkMagicTest cfg.magic c ch allocationSize false cfg.validate cfg.validate = true ↔
      Marked cfg c ch allocationSize := by
  have whole := fits.size_le
  simp only [chunkMagicTest, Bool.or_false, Bool.not_false, Bool.or_true, Bool.and_true,
    Bool.and_eq_true,
    Bool.or_eq_true, Bool.not_eq_true', beq_iff_eq, fits.overflow_toNat, testLen_iff]
  constructor
  · rintro ⟨⟨magic, -⟩, beyond⟩
    refine ⟨magic, fun valid i reached => ?_⟩
    have past := beyond.resolve_left (by simp [valid])
    obtain ⟨above, inside⟩ := reached
    rw [(past i above (by omega)).resolve_right (by simp)]
    rfl
  · rintro ⟨magic, bytes⟩
    refine ⟨⟨magic, .inr ⟨fun _ _ _ => .inr trivial, fun _ _ _ => .inr trivial⟩⟩, ?_⟩
    cases valid : cfg.validate with
    | false => exact .inl rfl
    | true =>
        refine .inr fun k low high => .inl ?_
        rw [bytes valid k ⟨low, by omega⟩]
        rfl

end Assertions

section Writes

variable {magic : UInt32} {isData toAllocated : Bool}

theorem mem_setLen {i n : ℕ} (writing : (!isData || !toAllocated) = true) (w : ℕ × UInt8) :
    w ∈ chunkMagicSetLen magic c isData toAllocated i n ↔ (i ≤ w.1 ∧ w.1 < i + n) ∧
      w.2 = (chunkMagicGetValues magic (dataPtr c w.1) isData toAllocated).2 := by
  obtain ⟨o, v⟩ := w
  induction n generalizing i with
  | zero => simp [chunkMagicSetLen]
  | succ n ih =>
      simp only [chunkMagicSetLen, writing, if_true, List.mem_cons, ih, Prod.mk.injEq]
      constructor
      · rintro (⟨rfl, rfl⟩ | ⟨⟨low, high⟩, value⟩)
        · exact ⟨⟨Nat.le_refl _, by omega⟩, rfl⟩
        · exact ⟨⟨by omega, by omega⟩, value⟩
      · rintro ⟨⟨low, high⟩, value⟩
        by_cases first : o = i
        · exact .inl ⟨first, first ▸ value⟩
        · exact .inr ⟨⟨by omega, by omega⟩, value⟩

/-- The state of a `chunk_magic_set` whose writes put these values where its parts reach. -/
structure Progress (magic : UInt32) (value : ℕ → UInt8) (covered : Part → ℕ → Prop)
    (ch : AmpoolChunk) (set : MagicSet) : Prop where
  magic : set.next = .header ∨ ch.magic = magic
  values : ∀ w ∈ set.writes, w.2 = value w.1
  written : ∀ i, covered set.next i → ch.data i = value i ∨ i ∈ set.writes.map Prod.fst
  len : set.next = .high → set.len = validatedLen ch.size

variable {value : ℕ → UInt8} {covered : Part → ℕ → Prop} {set : MagicSet}

theorem Progress.write (progress : Progress magic value covered ch set) {i : ℕ} {v : UInt8}
    {writes : List (ℕ × UInt8)} (left : set.writes = (i, v) :: writes) :
    Progress magic value covered { ch with data := Function.update ch.data i v }
      { set with writes := writes } := by
  obtain ⟨header, values, written, len⟩ := progress
  rw [left] at values written
  refine ⟨header, fun w member => values w (List.mem_cons_of_mem _ member),
    fun k reached => ?_, len⟩
  by_cases here : k = i
  · left
    simp only [here, Function.update_self]
    exact values (i, v) List.mem_cons_self
  · simp only [Function.update_of_ne here]
    exact (written k reached).imp_right fun member =>
      (List.mem_cons.mp member).resolve_left here

theorem Progress.enter (progress : Progress magic value covered ch set) (empty : set.writes = [])
    (begun : set.next ≠ .header) {next : MagicSet} (values : ∀ w ∈ next.writes, w.2 = value w.1)
    (reaches : ∀ i, covered next.next i → covered set.next i ∨ i ∈ next.writes.map Prod.fst)
    (len : next.next = .high → next.len = validatedLen ch.size) :
    Progress magic value covered ch next := by
  refine ⟨.inr (progress.magic.resolve_left begun), values, fun i covers => ?_, len⟩
  apply (reaches i covers).imp_left
  intro earlier
  simpa [empty] using progress.written i earlier

theorem map_setLen {i n k : ℕ} (writing : (!isData || !toAllocated) = true) (low : i ≤ k)
    (high : k < i + n) :
    k ∈ (chunkMagicSetLen magic c isData toAllocated i n).map Prod.fst :=
  List.mem_map.mpr ⟨(k, (chunkMagicGetValues magic (dataPtr c k) isData toAllocated).2),
    (mem_setLen writing _).mpr ⟨⟨low, high⟩, rfl⟩, rfl⟩

theorem memsetZero_lt {i n : ℕ} {w : ℕ × UInt8} (member : w ∈ memsetZero i n) : w.1 < i + n := by
  induction n generalizing i with
  | zero => cases member
  | succ n ih =>
      rcases List.mem_cons.mp member with rfl | later
      · exact Nat.lt_add_of_pos_right (Nat.succ_pos n)
      · have bound := ih later
        omega

theorem setLen_skip {i n : ℕ} : chunkMagicSetLen magic c true true i n = [] := by
  induction n generalizing i with
  | zero => rfl
  | succ n ih => simp [chunkMagicSetLen, ih]

end Writes

section Freeing

def freeCovered (validate : Bool) (size allocationSize : UInt32) : Part → ℕ → Prop
  | .header, _ | .low, _ => False
  | .high, i => Low size i
  | .overflow, i => Low size i ∨ High size i
  | .done, i => validate = true ∧ (Low size i ∨ High size i ∨ Overflow size allocationSize i)

abbrev Freeing (cfg : Config) (c : Addr) (allocationSize : UInt32) (ch : AmpoolChunk)
    (set : MagicSet) : Prop :=
  Progress (~~~cfg.magic) (freeByte cfg.magic c ch.size)
    (freeCovered cfg.validate ch.size allocationSize)
    ch set

theorem freeing_start : Freeing cfg c allocationSize ch .start :=
  ⟨.inl rfl, nofun, fun _ reached => reached.elim, nofun⟩

theorem Freeing.poisoned {set : MagicSet} (freeing : Freeing cfg c allocationSize ch set)
    (last : set.next = .done) (empty : set.writes = []) : Poisoned cfg c ch allocationSize := by
  obtain ⟨magic, -, written, -⟩ := freeing
  refine ⟨magic.resolve_left (by simp [last]), fun valid i marked => ?_⟩
  have reached := written i (by rw [last]; exact ⟨valid, marked⟩)
  simpa [empty] using reached

theorem free_data_value (size : UInt32) {magic : UInt32} {i : ℕ} (inside : i < size.toNat) :
    (chunkMagicGetValues magic (dataPtr c i) true false).2 = freeByte magic c size i := by
  simp [chunkMagicGetValues, freeByte, inside]

theorem free_overflow_value (size : UInt32) {magic : UInt32} {i : ℕ} (outside : size.toNat ≤ i) :
    (chunkMagicGetValues magic (dataPtr c i) false false).2 = freeByte magic c size i := by
  simp [chunkMagicGetValues, freeByte, Nat.not_lt.mpr outside]

theorem Freeing.step {set : MagicSet} (fits : Fits b ch.size allocationSize)
    (freeing : Freeing cfg c allocationSize ch set) :
    ∃ ch' set', chunkMagicSet cfg.magic c ch allocationSize false cfg.validate cfg.validate set =
      (ch', set') ∧ ch'.size = ch.size ∧ Freeing cfg c allocationSize ch' set' := by
  have short := fits.validatedLen_le
  obtain ⟨next, len, writes⟩ := set
  cases writes with
  | cons w writes => exact ⟨_, _, rfl, rfl, freeing.write rfl⟩
  | nil =>
      cases next with
      | header =>
          refine ⟨_, _, rfl, rfl, .inr rfl, fun _ member => (by cases member),
            fun i reached => ?_, ?_⟩
          · cases valid : cfg.validate <;> simp [valid, freeCovered] at reached
          · cases valid : cfg.validate <;> simp
      | low =>
          refine ⟨_, _, rfl, rfl, freeing.enter rfl nofun (fun w member => ?_) (fun i low => ?_)
            fun _ => rfl⟩
          · obtain ⟨⟨_, high⟩, value⟩ := (mem_setLen rfl w).mp member
            rw [value, free_data_value ch.size (by omega)]
          · exact .inr (map_setLen rfl (Nat.zero_le i) (by rw [freeCovered, Low] at low; omega))
      | high =>
          have same : len = validatedLen ch.size := freeing.len rfl
          subst same
          have reach : ∀ i, freeCovered cfg.validate ch.size allocationSize
              (if cfg.validate then .overflow else .done) i → Low ch.size i ∨ High ch.size i := by
            intro i reached
            cases valid : cfg.validate <;> simp [valid, freeCovered] at reached
            exact reached
          refine ⟨_, _, rfl, rfl, freeing.enter rfl nofun (fun w member => ?_)
            (fun i reached => ?_) ?_⟩
          · obtain ⟨⟨_, high⟩, value⟩ := (mem_setLen rfl w).mp member
            simp only [fits.high_toNat] at high
            rw [value, free_data_value ch.size (by omega)]
          · refine (reach i reached).imp_right fun high => map_setLen rfl ?_ ?_
            · rw [fits.high_toNat]
              exact high.1
            · simp only [fits.high_toNat]
              have inside := high.2
              omega
          · cases valid : cfg.validate <;> simp
      | overflow =>
          refine ⟨_, _, rfl, rfl, freeing.enter rfl nofun (fun w member => ?_)
            (fun i reached => ?_) nofun⟩
          · obtain ⟨⟨low, _⟩, value⟩ := (mem_setLen rfl w).mp member
            rw [value, free_overflow_value ch.size low]
          · rcases reached.2 with low | high | beyond
            · exact .inl (.inl low)
            · exact .inl (.inr high)
            · refine .inr (map_setLen rfl beyond.1 ?_)
              have inside := beyond.2
              have whole := fits.size_le
              rw [fits.overflow_toNat]
              omega
      | done => exact ⟨_, _, rfl, rfl, freeing⟩

end Freeing

section Allocating

def allocCovered (validate : Bool) (size allocationSize : UInt32) : Part → ℕ → Prop
  | .done, i => validate = true ∧ Overflow size allocationSize i
  | _, _ => False

abbrev Allocating (cfg : Config) (c : Addr) (allocationSize : UInt32) (ch : AmpoolChunk)
    (set : MagicSet) : Prop :=
  Progress cfg.magic (usedByte cfg.magic c)
    (allocCovered cfg.validate ch.size allocationSize) ch set

theorem allocating_start : Allocating cfg c allocationSize ch .start :=
  ⟨.inl rfl, nofun, fun _ reached => reached.elim, nofun⟩

theorem Allocating.marked {set : MagicSet} (allocating : Allocating cfg c allocationSize ch set)
    (last : set.next = .done) (empty : set.writes = []) : Marked cfg c ch allocationSize := by
  obtain ⟨magic, -, written, -⟩ := allocating
  refine ⟨magic.resolve_left (by simp [last]), fun valid i beyond => ?_⟩
  have reached := written i (by rw [last]; exact ⟨valid, beyond⟩)
  simpa [empty] using reached

theorem Allocating.step {set : MagicSet} (fits : Fits b ch.size allocationSize)
    (allocating : Allocating cfg c allocationSize ch set) :
    ∃ ch' set', chunkMagicSet cfg.magic c ch allocationSize true cfg.validate cfg.validate set =
      (ch', set') ∧ ch'.size = ch.size ∧ Allocating cfg c allocationSize ch' set' := by
  obtain ⟨next, len, writes⟩ := set
  have after : ∀ i, ¬ allocCovered cfg.validate ch.size allocationSize
      (if cfg.validate then .overflow else .done) i := by
    intro i reached
    cases valid : cfg.validate <;> simp [valid, allocCovered] at reached
  cases writes with
  | cons w writes => exact ⟨_, _, rfl, rfl, allocating.write rfl⟩
  | nil =>
      cases next with
      | header =>
          refine ⟨_, _, rfl, rfl, .inr rfl, nofun, fun i reached => ?_, ?_⟩
          · simp only [Bool.not_true, Bool.and_false, Bool.false_eq_true, if_false] at reached
            exact absurd reached (after i)
          · cases valid : cfg.validate <;> simp
      | low =>
          exact ⟨_, _, rfl, rfl, allocating.enter rfl nofun (by rw [setLen_skip]; nofun)
            (fun _ reached => reached.elim) fun _ => rfl⟩
      | high =>
          refine ⟨_, _, rfl, rfl, allocating.enter rfl nofun (by rw [setLen_skip]; nofun)
            (fun i reached => absurd reached (after i)) ?_⟩
          cases valid : cfg.validate <;> simp
      | overflow =>
          refine ⟨_, _, rfl, rfl, allocating.enter rfl nofun (fun w member => ?_)
            (fun i reached => ?_) nofun⟩
          · obtain ⟨_, value⟩ := (mem_setLen rfl w).mp member
            simp [value, chunkMagicGetValues, usedByte]
          · have inside := reached.2.2
            have whole := fits.size_le
            refine .inr (map_setLen rfl reached.2.1 ?_)
            rw [fits.overflow_toNat]
            omega
      | done => exact ⟨_, _, rfl, rfl, allocating⟩

end Allocating

end Libam.Pool
