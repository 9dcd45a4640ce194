import Libam.Strhash.Model
import Mathlib.Data.UInt
import Mathlib.Tactic.Ring

/-! The three hash functions of `libam_hash.c`, and the strings on which they agree. A string is
read from the memory that starts at it; a result of none is a read past that memory. -/

namespace Libam.Hash

open Libam.Strhash (CString signExtend)
open scoped UInt64.CommRing

section Functions

def mix (hash c : UInt64) : UInt64 := hash + ((hash <<< 5) + c)

/-- The loop of `amhash`; its bytes have no sign. -/
def amhashLoop : UInt64 → List UInt8 → UInt64 → Option UInt64
  | hash, data, len =>
      if 0 < len then
        match data with
        | [] => none
        | c :: data => amhashLoop (mix hash c.toUInt64) data (len - 1)
      else some hash
  termination_by structural _ data => data

def amhash (data : List UInt8) (len : UInt64) : Option UInt64 := amhashLoop 5381 data len

/-- The loop of `amshash`; a `char` has a sign. -/
def amshashLoop : UInt64 → UInt64 → List UInt8 → Option (UInt64 × UInt64)
  | _, _, [] => none
  | hash, len, c :: str =>
      if c ≠ 0 then amshashLoop (mix hash (signExtend c)) (len + 1) str else some (hash, len)

/-- With what goes to `out_len`, unless that is NULL. -/
def amshash (str : List UInt8) : Option (UInt64 × UInt64) := amshashLoop 5381 0 str

def amsnhashLoop (maxLen : UInt64) : UInt64 → UInt64 → List UInt8 → Option (UInt64 × UInt64)
  | hash, len, str =>
      if len < maxLen then
        match str with
        | [] => none
        | c :: str =>
            if c = 0 then some (hash, len) else amsnhashLoop maxLen
              (mix hash (signExtend c)) (len + 1) str
      else some (hash, len)
  termination_by structural _ _ str => str

def amsnhash (str : List UInt8) (maxLen : UInt64) : Option (UInt64 × UInt64) :=
  amsnhashLoop maxLen 5381 0 str

end Functions

section Folds

def bytesOf (str : CString) : List UInt8 := str.chars ++ [0]

theorem amhashLoop_eq (data : List UInt8) (hash len : UInt64) (inside : len.toNat ≤ data.length) :
    amhashLoop hash data len =
    some ((data.take len.toNat).foldl (fun hash c => mix hash c.toUInt64) hash) := by
  induction data generalizing hash len with
  | nil =>
      have zero : len = 0 := UInt64.toNat_inj.mp (Nat.le_zero.mp inside)
      simp [amhashLoop, zero]
  | cons c data ih =>
      unfold amhashLoop
      split
      · rename_i positive
        have bound : 0 < len.toNat := UInt64.lt_iff_toNat_lt.mp positive
        have pred : len.toNat = (len - 1).toNat + 1 := by
          have least : 1 ≤ len := UInt64.le_iff_toNat_le.mpr bound
          rw [UInt64.toNat_sub_of_le _ _ least]
          exact (Nat.sub_add_cancel bound).symm
        have rest := ih (mix hash c.toUInt64) (len - 1) (by simpa [pred] using inside)
        rw [pred, List.take_succ_cons, List.foldl_cons]
        exact rest
      · rename_i none
        have zero : len = 0 := by simpa using none
        simp [zero]

theorem amshashLoop_eq (chars : List UInt8) (hash len : UInt64) (nonzero : 0 ∉ chars) :
    amshashLoop hash len (chars ++ [0]) =
      some (chars.foldl (fun hash c => mix hash (signExtend c)) hash,
        len + .ofNat chars.length) := by
  induction chars generalizing hash len with
  | nil => simp [amshashLoop]
  | cons c chars ih =>
      have other : c ≠ 0 := fun zero => nonzero (zero ▸ List.mem_cons_self)
      rw [List.cons_append, amshashLoop, if_pos other, ih _ _ fun inside =>
        nonzero (List.mem_cons_of_mem _ inside),
        List.foldl_cons, List.length_cons, UInt64.ofNat_add, UInt64.add_assoc, UInt64.add_comm 1]
      rfl

theorem amsnhashLoop_eq (maxLen : UInt64) (chars : List UInt8) (hash len : UInt64)
    (nonzero : 0 ∉ chars) (within : len ≤ maxLen) :
    amsnhashLoop maxLen hash len (chars ++ [0]) =
      some ((chars.take (maxLen.toNat - len.toNat)).foldl
        (fun hash c => mix hash (signExtend c)) hash,
        len + .ofNat (min (maxLen.toNat - len.toNat) chars.length)) := by
  induction chars generalizing hash len with
  | nil => simp [amsnhashLoop]
  | cons c chars ih =>
      have other : c ≠ 0 := fun zero => nonzero (zero ▸ List.mem_cons_self)
      rw [List.cons_append]
      unfold amsnhashLoop
      split
      · rename_i more
        have below := UInt64.lt_iff_toNat_lt.mp more
        have limit := maxLen.toNat_lt
        have next : (len + 1).toNat = len.toNat + 1 :=
          toNat_succ (show len.toNat + 1 < 2 ^ 64 by omega)
        have left : maxLen.toNat - len.toNat = (maxLen.toNat - (len + 1).toNat) + 1 := by omega
        have rest := ih (mix hash (signExtend c)) (len + 1)
          (fun inside => nonzero (List.mem_cons_of_mem _ inside))
          (UInt64.le_iff_toNat_le.mpr (by omega))
        rw [left, List.take_succ_cons, List.foldl_cons, List.length_cons, Nat.add_min_add_right,
          UInt64.ofNat_add, UInt64.add_comm (.ofNat _), ← UInt64.add_assoc]
        simp only [other, reduceIte]
        exact rest
      · rename_i done
        have same : len = maxLen := UInt64.le_antisymm within (UInt64.not_lt.mp done)
        simp [same]

theorem amshash_eq (str : CString) :
    amshash (bytesOf str) = some (Strhash.amshash str, .ofNat str.chars.length) := by
  rw [amshash, bytesOf, amshashLoop_eq _ _ _ str.nonzero, UInt64.zero_add]
  rfl

end Folds

section Agreement

def excess : List UInt8 → ℕ
  | [] => 0
  | c :: chars => (if 128 ≤ c then 33 ^ chars.length else 0) + excess chars

/-- The signs of the bytes leave no trace in 64 bits; so it is where all bytes are below 128. -/
def Balanced (chars : List UInt8) : Prop := 2 ^ 56 ∣ excess chars

theorem balanced_of_ascii {chars : List UInt8} (ascii : ∀ c ∈ chars, c < 128) : Balanced chars := by
  suffices none : excess chars = 0 by simp [Balanced, none]
  induction chars with
  | nil => rfl
  | cons c chars ih =>
      rw [excess, if_neg (UInt8.not_le.mpr (ascii c List.mem_cons_self)),
        ih fun d inside => ascii d (List.mem_cons_of_mem _ inside)]

theorem mix_eq (hash c : UInt64) : mix hash c = hash * 33 + c := by
  have shifted : hash <<< 5 = hash * 32 := by
    rw [← UInt64.toNat_inj, UInt64.toNat_shiftLeft, UInt64.toNat_mul]
    simp [Nat.shiftLeft_eq]
  rw [mix, shifted]
  ring

theorem toUInt64_eq (c : UInt8) : c.toUInt64 = signExtend c + if 128 ≤ c then 256 else 0 := by
  obtain ⟨bits⟩ := c
  revert bits
  decide +kernel

theorem ofNat_pow (base n : ℕ) : UInt64.ofNat (base ^ n) = .ofNat base ^ n := by
  induction n with
  | zero => rfl
  | succ n ih => rw [pow_succ, pow_succ, UInt64.ofNat_mul, ih]

theorem foldl_mix_eq (chars : List UInt8) (hash other : UInt64) :
    chars.foldl (fun hash c => mix hash c.toUInt64) hash =
      chars.foldl (fun hash c => mix hash (signExtend c)) other +
        ((hash - other) * 33 ^ chars.length + 256 * .ofNat (excess chars)) := by
  induction chars generalizing hash other with
  | nil => simp [excess]
  | cons c chars ih =>
      rw [List.foldl_cons, List.foldl_cons, ih _ (mix other (signExtend c)), mix_eq, mix_eq,
        toUInt64_eq, excess, UInt64.ofNat_add, List.length_cons, pow_succ]
      congr 1
      split
      · rw [ofNat_pow, show UInt64.ofNat 33 = 33 from rfl]
        ring
      · rw [show UInt64.ofNat 0 = 0 from rfl]
        ring

theorem foldl_mix_eq_iff (chars : List UInt8) (hash : UInt64) :
    chars.foldl (fun hash c => mix hash c.toUInt64) hash = chars.foldl
      (fun hash c => mix hash (signExtend c)) hash ↔
      Balanced chars := by
  have apart := foldl_mix_eq chars hash hash
  rw [sub_self, zero_mul, zero_add] at apart
  rw [apart, add_eq_left, ← UInt64.toNat_inj, UInt64.toNat_mul, UInt64.toNat_ofNat', Balanced]
  simp only [UInt64.reduceToNat]
  omega

def prefixLength (str : CString) (maxLen : UInt64) : ℕ := min maxLen.toNat str.chars.length

/-- The three functions give one hash, and `out_len` is the number of bytes. -/
structure Agree (str : CString) (maxLen : UInt64) : Prop where
  bounded : ∃ hash, amhash (bytesOf str) (.ofNat (prefixLength str maxLen)) = some hash ∧
    amsnhash (bytesOf str) maxLen = some (hash, .ofNat (prefixLength str maxLen))
  whole : ∃ hash, amhash (bytesOf str) (.ofNat str.chars.length) = some hash ∧
    amshash (bytesOf str) = some (hash, .ofNat str.chars.length)

theorem take_prefixLength (str : CString) (maxLen : UInt64) :
    str.chars.take (prefixLength str maxLen) = str.chars.take maxLen.toNat := by
  rw [prefixLength, ← List.take_take, List.take_length]

theorem amhash_bytesOf (str : CString) {n : ℕ} (inside : n ≤ str.chars.length)
    (short : n < 2 ^ 64) :
    amhash (bytesOf str) (.ofNat n) =
      some ((str.chars.take n).foldl (fun hash c => mix hash c.toUInt64) 5381) := by
  have value : (UInt64.ofNat n).toNat = n := UInt64.toNat_ofNat_of_lt' short
  have available : (UInt64.ofNat n).toNat ≤ (bytesOf str).length := by
    rw [value, bytesOf, List.length_append]
    omega
  rw [amhash, amhashLoop_eq _ _ _ available, value, bytesOf, List.take_append_of_le_length inside]

theorem amsnhash_bytesOf (str : CString) (maxLen : UInt64) :
    amsnhash (bytesOf str) maxLen =
      some ((str.chars.take (prefixLength str maxLen)).foldl
        (fun hash c => mix hash (signExtend c)) 5381,
        .ofNat (prefixLength str maxLen)) := by
  rw [amsnhash, bytesOf, amsnhashLoop_eq _ _ _ _ str.nonzero UInt64.zero_le, UInt64.zero_add,
    UInt64.toNat_zero, Nat.sub_zero, take_prefixLength, prefixLength]

theorem some_eq_some_iff {α β : Type} (a b : α) (n : β) :
    (∃ hash, some a = some hash ∧ some (b, n) = some (hash, n)) ↔ a = b := by
  simp [eq_comm]

/-- The functions agree on a string and its prefix exactly where the bytes from
128 on cancel out. -/
theorem amhash_agree_iff (str : CString) (maxLen : UInt64) (short : str.chars.length < 2 ^ 64) :
    Agree str maxLen ↔ Balanced (str.chars.take maxLen.toNat) ∧ Balanced str.chars := by
  have within : prefixLength str maxLen ≤ str.chars.length := Nat.min_le_right ..
  have bounded : (∃ hash, amhash (bytesOf str) (.ofNat (prefixLength str maxLen)) = some hash ∧
      amsnhash (bytesOf str) maxLen = some (hash, .ofNat (prefixLength str maxLen))) ↔
      Balanced (str.chars.take maxLen.toNat) := by
    rw [amhash_bytesOf str within (Nat.lt_of_le_of_lt within short), amsnhash_bytesOf,
      some_eq_some_iff, foldl_mix_eq_iff, take_prefixLength]
  have whole : (∃ hash, amhash (bytesOf str) (.ofNat str.chars.length) = some hash ∧
      amshash (bytesOf str) = some (hash, .ofNat str.chars.length)) ↔ Balanced str.chars := by
    rw [amhash_bytesOf str le_rfl short, amshash_eq, some_eq_some_iff, Strhash.amshash,
      List.take_length]
    exact foldl_mix_eq_iff str.chars 5381
  rw [← bounded, ← whole]
  constructor
  · intro agree
    exact ⟨agree.bounded, agree.whole⟩
  · rintro ⟨first, second⟩
    exact ⟨first, second⟩

/-- All three give the djb2 hash of `"am"`. -/
theorem amhash_agree_sample : Agree ⟨[97, 109], by decide⟩ 1 :=
  (amhash_agree_iff ⟨[97, 109], by decide⟩ 1 (by decide)).mpr
    ⟨balanced_of_ascii (by simp), balanced_of_ascii (by simp)⟩

/-- One byte of 255. -/
theorem amhash_disagree : ¬ Agree ⟨[255], by decide⟩ 1 := by
  rintro ⟨-, hash, unsigned, signed⟩
  have first : amhash [255, 0] 1 = some 177828 := by decide
  have second : amshash [255, 0] = some (177572, 1) := by decide
  cases first.symm.trans unsigned
  cases second.symm.trans signed

end Agreement

end Libam.Hash
