import Libam.Text.Numerals
import Libam.Types

/-! The port of an `amskt_addr` of `libam_fdopers.c`: the three functions that store it and the
three that report it, on a little-endian host. The first write within the union, the others within
the buffer of the caller. -/

namespace Libam.Fdopers

open Libam.Text

section Layout

abbrev AmsktAddr := ℕ → UInt8

def AF_UNSPEC : UInt16 := 0
def AF_INET : UInt16 := 2
def AF_INET6 : UInt16 := 10

/-- `sizeof(amskt_addr)`, and where the fields are: the family and the port have the same place in
`sockaddr_in` and `sockaddr_in6`. -/
def addrSize : ℕ := 128
def familyOffset : ℕ := 0
def portOffset : ℕ := 2
def sinAddrOffset : ℕ := 4
def sin6AddrOffset : ℕ := 8

def uint16At (addr : AmsktAddr) (offset : ℕ) : UInt16 :=
  .ofNat ((addr offset).toNat + 256 * (addr (offset + 1)).toNat)

def setUint16 (addr : AmsktAddr) (offset : ℕ) (value : UInt16) : AmsktAddr :=
  poke addr offset [.ofNat value.toNat, .ofNat (value.toNat / 256)]

def htons (value : UInt16) : UInt16 := .ofNat (256 * (value.toNat % 256) + value.toNat / 256)

def cleared (addr : AmsktAddr) : AmsktAddr := poke addr 0 (List.replicate addrSize 0)

end Layout

section Library

def inet6Addrstrlen : ℕ := 46

/-- `inet_pton` and `inet_ntop`: whether a text is accepted and what is written over the address,
which is left open where the text is refused; and the text of an address, which the array of a
caller can hold. -/
structure Inet where
  pton : UInt16 → List UInt8 → Bool × List UInt8
  ntop : UInt16 → List UInt8 → List UInt8
  pton_inet : ∀ str, (pton AF_INET str).2.length ≤ 4
  pton_inet6 : ∀ str, (pton AF_INET6 str).2.length ≤ 16
  ntop_text : ∀ family bytes, 0 ∉ ntop family bytes ∧ (ntop family bytes).length < inet6Addrstrlen

end Library

section Writers

/-- The failing end of `amskt_port2addr` and `amskt_str2addr`. -/
def refuse (addr : AmsktAddr) : Amrc × AmsktAddr :=
  (.error, setUint16 (cleared addr) familyOffset AF_UNSPEC)

def amsktPort2addr (fam port : UInt16) (addr : AmsktAddr) : Amrc × AmsktAddr :=
  if fam = AF_INET then
    if uint16At addr familyOffset ≠ AF_INET ∧
      uint16At addr familyOffset ≠ AF_UNSPEC then refuse addr
    else (.success, setUint16 (setUint16 addr familyOffset AF_INET) portOffset (htons port))
  else if fam = AF_INET6 then
    if uint16At addr familyOffset ≠ AF_INET6 ∧
      uint16At addr familyOffset ≠ AF_UNSPEC then refuse addr
    else (.success, setUint16 (setUint16 addr familyOffset AF_INET6) portOffset (htons port))
  else refuse addr

def amsktStr2addr (inet : Inet) (str : List UInt8) (port : UInt16) (addr : AmsktAddr) :
    Amrc × AmsktAddr :=
  let (accepted, bytes) := inet.pton AF_INET str
  let addr := poke addr sinAddrOffset bytes
  if accepted then
    (.success, setUint16 (setUint16 addr familyOffset AF_INET) portOffset (htons port))
  else
    let (accepted, bytes) := inet.pton AF_INET6 str
    let addr := poke addr sin6AddrOffset bytes
    if accepted then
      (.success, setUint16 (setUint16 addr familyOffset AF_INET6) portOffset (htons port))
    else refuse addr

def amsktAddrSetPort (addr : Option AmsktAddr) (family port : UInt16) : Amrc × Option AmsktAddr :=
  match addr with
  | none => (.error, none)
  | some addr =>
      if family ≠ AF_UNSPEC ∧ family ≠ AF_INET ∧ family ≠ AF_INET6 then (.error, some addr)
      else if family = AF_UNSPEC ∧ uint16At addr familyOffset ≠ AF_INET ∧
        uint16At addr familyOffset ≠ AF_INET6 then
        (.error, some addr)
      else
        let addr :=
          if uint16At addr familyOffset = AF_UNSPEC ∧ family ≠ AF_UNSPEC then
            setUint16 (cleared addr) familyOffset family
          else addr
        if family ≠ AF_UNSPEC ∧ family ≠ uint16At addr familyOffset then (.error, some addr)
        else if uint16At addr familyOffset = AF_INET
          then (.success, some (setUint16 addr portOffset port))
        else if uint16At addr familyOffset = AF_INET6
          then (.success, some (setUint16 addr portOffset port))
        else (.error, some addr)

end Writers

section Readers

def amsktAddrToPort : Option AmsktAddr → UInt16
  | none => 0
  | some addr =>
      if uint16At addr familyOffset = AF_INET then uint16At addr portOffset
      else if uint16At addr familyOffset = AF_INET6 then uint16At addr portOffset
      else 0

def printTo (memory : ℕ → UInt8) (out : ℕ) (outLen : UInt32) (text : List UInt8) : ℕ → UInt8 :=
  poke (snprintf memory out outLen.toNat text).1 (out + (outLen - 1).toNat) [0]

def amsktAddrToPortstr (addr : Option AmsktAddr) (memory : ℕ → UInt8) (out : Option ℕ)
    (outLen : UInt32) : Amrc × (ℕ → UInt8) :=
  match addr, out with
  | some addr, some out =>
      if outLen = 0 then (.error, memory)
      else if uint16At addr familyOffset = AF_INET ∨ uint16At addr familyOffset = AF_INET6 then
        (.success, printTo memory out outLen (numeral 10 1 (uint16At addr portOffset).toNat))
      else (.error, memory)
  | _, _ => (.error, memory)

def ipBytes (addr : AmsktAddr) : List UInt8 :=
  if uint16At addr familyOffset = AF_INET then read addr sinAddrOffset 4 else read addr
    sin6AddrOffset 16

/-- `inet_ntop` writes nothing where the text and its end do not fit. -/
def amsktAddrToIpstr (inet : Inet) (addr : Option AmsktAddr) (memory : ℕ → UInt8) (out : Option ℕ)
    (outLen : UInt32) : Amrc × (ℕ → UInt8) :=
  match addr, out with
  | some addr, some out =>
      if outLen = 0 then (.error, memory)
      else if uint16At addr familyOffset = AF_INET ∨ uint16At addr familyOffset = AF_INET6 then
        let text := inet.ntop (uint16At addr familyOffset) (ipBytes addr)
        let memory := if text.length < outLen.toNat then poke memory out (text ++ [0]) else memory
        (.success, poke memory (out + (outLen - 1).toNat) [0])
      else (.error, memory)
  | _, _ => (.error, memory)

/-- The local array `ipstr`, which holds anything at first, after `inet_ntop` and the zero in its
last place. -/
def ipstrOf (inet : Inet) (ipstr : ℕ → UInt8) (family : UInt16) (bytes : List UInt8) : ℕ → UInt8 :=
  poke (poke ipstr 0 (inet.ntop family bytes ++ [0])) (inet6Addrstrlen - 1) [0]

def amsktAddrToStr (inet : Inet) (ipstr : ℕ → UInt8) (addr : Option AmsktAddr) (memory : ℕ → UInt8)
    (out : Option ℕ) (outLen : UInt32) : Option (Amrc × (ℕ → UInt8)) :=
  match addr, out with
  | some addr, some out =>
      if outLen = 0 then some (.error, memory)
      else if uint16At addr familyOffset = AF_INET ∨ uint16At addr familyOffset = AF_INET6 then
        (string (ipstrOf inet ipstr (uint16At addr familyOffset) (ipBytes addr)) 0
          inet6Addrstrlen).map fun ip =>
          (.success, printTo memory out outLen
            (ip ++ [0x3A] ++ numeral 10 1 (uint16At addr portOffset).toNat))
      else some (.error, memory)
  | _, _ => some (.error, memory)

end Readers

section Bounds

variable {inet : Inet} {addr before : AmsktAddr} {memory : ℕ → UInt8} {out : ℕ} {outLen : UInt32}

theorem setUint16_within {offset : ℕ} {value : UInt16} (inside : offset + 2 ≤ addrSize)
    (within : Within 0 addrSize before addr) :
    Within 0 addrSize before (setUint16 addr offset value) :=
  within.trans (poke_within.mono (Nat.zero_le _) (by simpa using inside))

theorem cleared_within (within : Within 0 addrSize before addr) :
    Within 0 addrSize before (cleared addr) :=
  within.trans (poke_within.mono (Nat.zero_le _) (by simp))

theorem refuse_within (within : Within 0 addrSize before addr) :
    Within 0 addrSize before (refuse addr).2 := by
  have inside : familyOffset + 2 ≤ addrSize := by decide
  exact setUint16_within inside (cleared_within within)

theorem amsktPort2addr_within (fam port : UInt16) (addr : AmsktAddr) :
    Within 0 addrSize addr (amsktPort2addr fam port addr).2 := by
  have same : Within 0 addrSize addr addr := fun _ _ => rfl
  have stored (family : UInt16) : Within 0 addrSize addr
      (setUint16 (setUint16 addr familyOffset family) portOffset (htons port)) :=
    setUint16_within (by decide) (setUint16_within (by decide) same)
  rw [amsktPort2addr]
  split_ifs
  · exact refuse_within same
  · exact stored AF_INET
  · exact refuse_within same
  · exact stored AF_INET6
  · exact refuse_within same

theorem amsktStr2addr_within (str : List UInt8) (port : UInt16) (addr : AmsktAddr) :
    Within 0 addrSize addr (amsktStr2addr inet str port addr).2 := by
  have four : Within 0 addrSize addr (poke addr sinAddrOffset (inet.pton AF_INET str).2) := by
    have short := inet.pton_inet str
    exact poke_within.mono (Nat.zero_le _) (by simp only [sinAddrOffset, addrSize]; omega)
  -- what the refused text of the first family has left is still there
  have six : Within 0 addrSize addr
      (poke (poke addr sinAddrOffset (inet.pton AF_INET str).2) sin6AddrOffset
        (inet.pton AF_INET6 str).2) := by
    have short := inet.pton_inet6 str
    exact four.trans (poke_within.mono (Nat.zero_le _)
      (by simp only [sin6AddrOffset, addrSize]; omega))
  simp only [amsktStr2addr]
  split_ifs
  · exact setUint16_within (by decide) (setUint16_within (by decide) four)
  · exact setUint16_within (by decide) (setUint16_within (by decide) six)
  · exact refuse_within six

theorem amsktAddrSetPort_within {after : AmsktAddr} {family port : UInt16}
    (stored : (amsktAddrSetPort (some addr) family port).2 = some after) :
    Within 0 addrSize addr after := by
  have same : Within 0 addrSize addr addr := fun _ _ => rfl
  have middle : Within 0 addrSize addr
      (if uint16At addr familyOffset = AF_UNSPEC ∧ family ≠ AF_UNSPEC then
      setUint16 (cleared addr) familyOffset family else addr) := by
    split
    · exact setUint16_within (by decide) (cleared_within same)
    · exact same
  simp only [amsktAddrSetPort] at stored
  generalize (if uint16At addr familyOffset = AF_UNSPEC ∧ family ≠ AF_UNSPEC then
    setUint16 (cleared addr) familyOffset family else addr) = cleaned at middle stored
  split_ifs at stored <;> obtain rfl := Option.some.inj stored
  · exact same
  · exact same
  · exact middle
  · exact setUint16_within (by decide) middle
  · exact setUint16_within (by decide) middle
  · exact middle

theorem last_within (room : outLen ≠ 0) :
    Within out outLen.toNat memory (poke memory (out + (outLen - 1).toNat) [0]) := by
  have positive : 1 ≤ outLen.toNat := Nat.pos_of_ne_zero fun zero => room (UInt32.toNat_inj.mp zero)
  have last : (outLen - 1).toNat = outLen.toNat - 1 :=
    UInt32.toNat_sub_of_le _ _ (UInt32.le_iff_toNat_le.mpr positive)
  refine poke_within.mono (Nat.le_add_right _ _) ?_
  rw [last, List.length_singleton]
  omega

theorem printTo_within {text : List UInt8} (room : outLen ≠ 0) :
    Within out outLen.toNat memory (printTo memory out outLen text) :=
  snprintf_within.trans (last_within room)

theorem amsktAddrToPortstr_within (addr : Option AmsktAddr) :
    Within out outLen.toNat memory (amsktAddrToPortstr addr memory (some out) outLen).2 := by
  have same : Within out outLen.toNat memory memory := fun _ _ => rfl
  cases addr with
  | none => exact same
  | some addr =>
      simp only [amsktAddrToPortstr]
      split_ifs with empty
      · exact same
      · exact printTo_within empty
      · exact same

theorem amsktAddrToIpstr_within (addr : Option AmsktAddr) :
    Within out outLen.toNat memory (amsktAddrToIpstr inet addr memory (some out) outLen).2 := by
  have same : Within out outLen.toNat memory memory := fun _ _ => rfl
  cases addr with
  | none => exact same
  | some addr =>
      simp only [amsktAddrToIpstr]
      split_ifs with empty known room
      · exact same
      · exact (poke_within.mono (Nat.le_refl _) (by simpa using room)).trans (last_within empty)
      · exact last_within empty
      · exact same

theorem amsktAddrToStr_within {ipstr : ℕ → UInt8} {addr : Option AmsktAddr}
    {result : Amrc × (ℕ → UInt8)}
    (returned : amsktAddrToStr inet ipstr addr memory (some out) outLen = some result) :
    Within out outLen.toNat memory result.2 := by
  have same : Within out outLen.toNat memory memory := fun _ _ => rfl
  cases addr with
  | none =>
      cases returned
      exact same
  | some addr =>
      simp only [amsktAddrToStr] at returned
      split_ifs at returned with empty
      · cases returned
        exact same
      · obtain ⟨ip, -, rfl⟩ := Option.map_eq_some_iff.mp returned
        exact printTo_within empty
      · cases returned
        exact same

end Bounds

end Libam.Fdopers
