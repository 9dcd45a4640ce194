import Libam.Fdopers.Address

/-! Which ports come back from an address as they were stored. -/

namespace Libam.Fdopers

open Libam.Text

variable {inet : Inet} {addr addr' : AmsktAddr} {port value : UInt16} {offset : ℕ}

section Fields

theorem setUint16_low : setUint16 addr offset value offset = .ofNat value.toNat := by
  simp [setUint16, poke]

theorem setUint16_high : setUint16 addr offset value (offset + 1) = .ofNat (value.toNat / 256) := by
  simp [setUint16, poke]

theorem uint16At_setUint16 : uint16At (setUint16 addr offset value) offset = value := by
  have bound := value.toNat_lt
  have word : (value.toNat % 256) + 256 * (value.toNat / 256 % 256) = value.toNat := by omega
  rw [uint16At, setUint16_low, setUint16_high, UInt8.toNat_ofNat', UInt8.toNat_ofNat']
  exact (congrArg UInt16.ofNat word).trans UInt16.ofNat_toNat

theorem family_setUint16 :
    uint16At (setUint16 addr portOffset value) familyOffset = uint16At addr familyOffset := by
  simp only [uint16At, setUint16]
  rw [poke_below (by decide), poke_below (by decide)]

theorem htons_eq_self : htons port = port ↔ port.toNat / 256 = port.toNat % 256 := by
  have bound := port.toNat_lt
  rw [← UInt16.toNat_inj, htons, UInt16.toNat_ofNat_of_lt' (by rw [UInt16.size]; omega)]
  omega

def networkOrder (port : UInt16) : List UInt8 := [.ofNat (port.toNat / 256), .ofNat port.toNat]

theorem read_port :
    read addr portOffset 2 = networkOrder port ↔ uint16At addr portOffset = htons port := by
  have low := (addr portOffset).toNat_lt
  have high := (addr (portOffset + 1)).toNat_lt
  have bound := port.toNat_lt
  have bytes : read addr portOffset 2 = [addr portOffset, addr (portOffset + 1)] := rfl
  rw [bytes, networkOrder, List.cons.injEq, List.cons.injEq, ← UInt8.toNat_inj, ← UInt8.toNat_inj,
    ← UInt16.toNat_inj, uint16At, htons, UInt16.toNat_ofNat_of_lt' (by rw [UInt16.size]; omega),
    UInt16.toNat_ofNat_of_lt' (by rw [UInt16.size]; omega), UInt8.toNat_ofNat', UInt8.toNat_ofNat']
  simp only [eq_self, and_true]
  omega

end Fields

section Storing

/-- The addresses in which one of the three functions has stored a port. -/
inductive Stored (inet : Inet) (port : UInt16) : AmsktAddr → Prop
  | str2addr (str : List UInt8) (addr addr' : AmsktAddr) :
      amsktStr2addr inet str port addr = (.success, addr') → Stored inet port addr'
  | port2addr (fam : UInt16) (addr' : AmsktAddr) :
      amsktPort2addr fam port (fun _ => 0) = (.success, addr') → Stored inet port addr'
  | setPort (family : UInt16) (addr addr' : AmsktAddr) :
      amsktAddrSetPort (some addr) family port = (.success, some addr') → Stored inet port addr'

theorem Stored.cases (stored : Stored inet port addr) :
    (uint16At addr familyOffset = AF_INET ∨ uint16At addr familyOffset = AF_INET6) ∧
      (uint16At addr portOffset = htons port ∨ uint16At addr portOffset = port) := by
  cases stored with
  | str2addr str before _ success =>
      simp only [amsktStr2addr, refuse] at success
      split at success
      · obtain ⟨-, rfl⟩ := Prod.mk.inj success
        rw [family_setUint16, uint16At_setUint16, uint16At_setUint16]
        exact ⟨.inl rfl, .inl rfl⟩
      split at success
      · obtain ⟨-, rfl⟩ := Prod.mk.inj success
        rw [family_setUint16, uint16At_setUint16, uint16At_setUint16]
        exact ⟨.inr rfl, .inl rfl⟩
      · cases success
  | port2addr fam _ success =>
      simp only [amsktPort2addr, refuse] at success
      split_ifs at success
      · cases success
      · obtain ⟨-, rfl⟩ := Prod.mk.inj success
        rw [family_setUint16, uint16At_setUint16, uint16At_setUint16]
        exact ⟨.inl rfl, .inl rfl⟩
      · cases success
      · obtain ⟨-, rfl⟩ := Prod.mk.inj success
        rw [family_setUint16, uint16At_setUint16, uint16At_setUint16]
        exact ⟨.inr rfl, .inl rfl⟩
      · cases success
  | setPort family before _ success =>
      simp only [amsktAddrSetPort] at success
      generalize (if uint16At before familyOffset = AF_UNSPEC ∧ family ≠ AF_UNSPEC then
        setUint16 (cleared before) familyOffset family else before) = middle at success
      split_ifs at success with _ _ _ four six
      all_goals try cases success
      · rw [family_setUint16, uint16At_setUint16, four]
        exact ⟨.inl rfl, .inr rfl⟩
      · rw [family_setUint16, uint16At_setUint16, six]
        exact ⟨.inr rfl, .inr rfl⟩

end Storing

section Reporting

def addrText (inet : Inet) (addr : AmsktAddr) (port : UInt16) : List UInt8 :=
  inet.ntop (uint16At addr familyOffset) (ipBytes addr) ++ [0x3A] ++ numeral 10 1 port.toNat

/-- The port is stored in network order, and the three functions that report a port report it, where
there is room for the text. -/
structure Reported (inet : Inet) (addr : AmsktAddr) (port : UInt16) : Prop where
  bytes : read addr portOffset 2 = networkOrder port
  toPort : amsktAddrToPort (some addr) = port
  toPortstr : ∀ memory out outLen, (numeral 10 1 port.toNat).length < outLen.toNat →
    ∃ memory', amsktAddrToPortstr (some addr) memory (some out) outLen = (.success, memory') ∧
      string memory' out outLen.toNat = some (numeral 10 1 port.toNat)
  toStr : ∀ ipstr memory out outLen, (addrText inet addr port).length < outLen.toNat →
    ∃ memory', amsktAddrToStr inet ipstr (some addr) memory
      (some out) outLen = some (.success, memory') ∧
      string memory' out outLen.toNat = some (addrText inet addr port)

theorem string_printTo {memory : ℕ → UInt8} {out : ℕ} {outLen : UInt32} {text : List UInt8}
    (nonzero : 0 ∉ text) (room : text.length < outLen.toNat) :
    string (printTo memory out outLen text) out outLen.toNat = some text := by
  have last : (outLen - 1).toNat = outLen.toNat - 1 :=
    UInt32.toNat_sub_of_le _ _ (UInt32.le_iff_toNat_le.mpr (by simp; omega))
  rw [printTo, snprintf_fits room, last]
  exact string_poke_last nonzero (by omega) (by omega)

theorem numeral_nonzero (n : ℕ) : 0 ∉ numeral 10 1 n := fun zero =>
  absurd (numeral_printed (by decide) (by decide) zero) (by decide)

theorem ipstr_string (ipstr : ℕ → UInt8) (family : UInt16) (bytes : List UInt8) :
    string (ipstrOf inet ipstr family bytes) 0 inet6Addrstrlen = some (inet.ntop family bytes) := by
  obtain ⟨nonzero, short⟩ := inet.ntop_text family bytes
  have kept : string
      (poke (poke ipstr 0 (inet.ntop family bytes ++ [0])) (0 + (inet6Addrstrlen - 1)) [0]) 0
      inet6Addrstrlen = some (inet.ntop family bytes) :=
    string_poke_last nonzero (by omega) (by decide)
  rwa [Nat.zero_add] at kept

theorem reported_of_host
    (known : uint16At addr familyOffset = AF_INET ∨ uint16At addr familyOffset = AF_INET6)
    (network : read addr portOffset 2 = networkOrder port)
    (host : uint16At addr portOffset = port) : Reported inet addr port := by
  refine ⟨network, ?_, ?_, ?_⟩
  · rw [amsktAddrToPort, host]
    split_ifs <;> tauto
  · intro memory out outLen room
    have some_room : outLen ≠ 0 := by
      rintro rfl
      exact absurd room (Nat.not_lt_zero _)
    rw [amsktAddrToPortstr, if_neg some_room, if_pos known, host]
    exact ⟨_, rfl, string_printTo (numeral_nonzero _) room⟩
  · intro ipstr memory out outLen room
    have some_room : outLen ≠ 0 := by
      rintro rfl
      exact absurd room (Nat.not_lt_zero _)
    rw [amsktAddrToStr, if_neg some_room, if_pos known, host, ipstr_string]
    refine ⟨_, rfl, string_printTo ?_ room⟩
    simp only [List.mem_append, List.mem_singleton]
    rintro ((ip | colon) | digit)
    · exact (inet.ntop_text _ _).1 ip
    · cases colon
    · exact numeral_nonzero _ digit

/-- An address of either order comes back as it should from the ports that have two equal bytes, and
from no others. -/
theorem stored_reported_iff (stored : Stored inet port addr) :
    Reported inet addr port ↔ port.toNat / 256 = port.toNat % 256 := by
  obtain ⟨known, order⟩ := stored.cases
  rw [← htons_eq_self]
  constructor
  · rintro ⟨bytes, toPort, -, -⟩
    have host : uint16At addr portOffset = port := by
      rw [amsktAddrToPort] at toPort
      split_ifs at toPort with four six
      · exact toPort
      · exact toPort
      · exact absurd known (by tauto)
    rw [← read_port.mp bytes, host]
  · intro symmetric
    rw [symmetric, or_self] at order
    exact reported_of_host known (read_port.mpr (order.trans symmetric.symm)) order

def loopbackText : List UInt8 := [0x31, 0x32, 0x37, 0x2E, 0x30, 0x2E, 0x30, 0x2E, 0x31]

def loopback : Inet where
  pton family str := if family = AF_INET ∧
    str = loopbackText then (true, [127, 0, 0, 1]) else (false, [])
  ntop _ _ := loopbackText
  pton_inet str := by split_ifs <;> simp
  pton_inet6 str := by split_ifs <;> simp
  ntop_text _ _ := by decide

theorem stored_reported_257 :
    Reported loopback (amsktStr2addr loopback loopbackText 257 (fun _ => 0)).2 257 :=
  (stored_reported_iff (.str2addr loopbackText (fun _ => 0) _ rfl)).mpr (by decide)

/-- Port 80 is reported as port 20480 where `amskt_str2addr` has stored it, and
`amskt_addr_set_port` does not store it in network order. -/
theorem stored_80_misreported :
    Stored loopback 80 (amsktStr2addr loopback loopbackText 80 (fun _ => 0)).2 ∧
    amsktAddrToPort (some (amsktStr2addr loopback loopbackText 80 (fun _ => 0)).2) = 20480 ∧
    ¬ Reported loopback (amsktStr2addr loopback loopbackText 80 (fun _ => 0)).2 80 ∧
    ∃ addr, amsktAddrSetPort (some (fun _ => 0)) AF_INET 80 = (.success, some addr) ∧
      Stored loopback 80 addr ∧ read addr portOffset 2 ≠ networkOrder 80 := by
  refine ⟨.str2addr loopbackText (fun _ => 0) _ rfl, rfl, fun reported => ?_, _, rfl, ?_, ?_⟩
  · exact absurd reported.toPort (by decide)
  · exact .setPort AF_INET (fun _ => 0) _ rfl
  · decide

end Reporting

end Libam.Fdopers
