import Libam.Fdopers.Address
import Libam.Syscalls.Ledger

/-! The calls to the system of `libam_fdopers.c` and what Linux answers them: a table of
descriptors, the blocks that are allocated and the files. Most calls may fail at any time; a call
that succeeds does what its manual says. -/

namespace Libam.Fdopers

open Libam.Syscalls

section Calls

def SOCK_STREAM : ℤ := 1
def SOCK_DGRAM : ℤ := 2

def O_RDONLY : UInt32 := 0
def O_WRONLY : UInt32 := 1
def O_CREAT : UInt32 := 0x40
def O_TRUNC : UInt32 := 0x200
def O_NONBLOCK : UInt32 := 0x800

def AI_PASSIVE : UInt32 := 1
def AI_NUMERICHOST : UInt32 := 4
def AI_NUMERICSERV : UInt32 := 0x400

inductive Whence
  | SEEK_SET
  | SEEK_END
  deriving DecidableEq, Repr

inductive SockOption
  | SO_REUSEADDR
  | SO_REUSEPORT
  deriving DecidableEq, Repr

/-- The fields of the hints of `getaddrinfo` that are not 0. -/
structure Hints where
  aiFamily : ℤ
  aiSocktype : ℤ
  aiFlags : UInt32
  deriving DecidableEq, Repr

structure Addrinfo where
  aiFamily : ℤ
  aiSocktype : ℤ
  aiProtocol : ℤ
  aiAddr : AmsktAddr
  aiAddrlen : ℕ

inductive Call
  | openFile (filename : List UInt8) (flags : UInt32)
  | close (fd : ℤ)
  | read (fd : ℤ) (len : UInt32)
  | write (fd : ℤ) (bytes : List UInt8)
  | lseek (fd : ℤ) (whence : Whence)
  | malloc (size : ℕ)
  | free (block : ℕ)
  | socket (domain type protocol : ℤ)
  | setsockopt (skt : ℤ) (option : SockOption)
  | bind (skt : ℤ) (address : List UInt8)
  | listen (skt : ℤ) (backlog : ℕ)
  | connect (skt : ℤ) (address : List UInt8)
  | accept (skt : ℤ)
  | getsockname (skt : ℤ)
  | getpeername (skt : ℤ)
  | getaddrinfo (node : Option (List UInt8)) (hints : Hints)
  | freeaddrinfo (list : ℕ)
  | getFlags (skt : ℤ)
  | setFlags (skt : ℤ) (flags : UInt32)

/-- What a call returns. A `read` that fails has no bytes; a block comes with what it holds; the
calls that report an address give its bytes; a list of addresses is a block as well. -/
abbrev Answer : Call → Type
  | .read _ len => Option { bytes : List UInt8 // bytes.length ≤ len.toNat }
  | .malloc _ => Option (ℕ × (ℕ → UInt8))
  | .free _ | .freeaddrinfo _ => Unit
  | .accept _ | .getsockname _ | .getpeername _ => ℤ × List UInt8
  | .getaddrinfo _ _ => ℤ × Option (ℕ × List Addrinfo)
  | _ => ℤ

abbrev ask (c : Call) : Program Answer (Answer c) := .perform c

end Calls

section Ownership

inductive Resource
  | descriptor (fd : ℤ)
  | memory (block : ℕ)
  deriving DecidableEq, Repr

def opened (ret : ℤ) : Finset Resource := if 0 ≤ ret then {.descriptor ret} else ∅

def rights : Rights Answer Resource where
  possible
    | .openFile _ _, ret | .socket _ _ _, ret => -1 ≤ ret
    | .accept _, (ret, _) => -1 ≤ ret
    | .getaddrinfo _ _, (rc, servinfo) => rc ≠ 0 → servinfo = none
    | _, _ => True
  uses
    | .close fd | .read fd _ | .write fd _ | .lseek fd _ => {.descriptor fd}
    | .setsockopt skt _ | .bind skt _ | .listen skt _ | .connect skt _ | .accept skt =>
        {.descriptor skt}
    | .getsockname skt | .getpeername skt | .getFlags skt | .setFlags skt _ => {.descriptor skt}
    | .free block | .freeaddrinfo block => {.memory block}
    | _ => ∅
  gains
    | .openFile _ _, ret | .socket _ _ _, ret => opened ret
    | .accept _, (ret, _) => opened ret
    | .malloc _, some (block, _) => {.memory block}
    | .getaddrinfo _ _, (_, some (list, _)) => {.memory list}
    | _, _ => ∅
  drops
    | .close fd, _ => opened fd
    | .free block, _ | .freeaddrinfo block, _ => {.memory block}
    | _, _ => ∅

end Ownership

section State

/-- What has been done to a socket; its own address is recorded where `bind` has set it. -/
structure Socket where
  domain : ℤ
  type : ℤ
  protocol : ℤ
  reuseAddr : Bool
  reusePort : Bool
  bound : Option (List UInt8)
  backlog : Option ℕ
  peer : Option (List UInt8)
  flags : UInt32
  deriving DecidableEq, Repr

inductive Descriptor
  | file (name : List UInt8) (position : ℕ)
  | socket (socket : Socket)
  deriving DecidableEq, Repr

structure Kernel where
  table : ℕ → Option Descriptor
  blocks : ℕ → Bool
  files : List UInt8 → Option (List UInt8)

def Kernel.look (k : Kernel) (fd : ℤ) : Option Descriptor :=
  if 0 ≤ fd then k.table fd.toNat else none

def Kernel.put (k : Kernel) (fd : ℤ) (d : Option Descriptor) : Kernel :=
  { k with table := Function.update k.table fd.toNat d }

def Kernel.out (k : Kernel) : Resource → Bool
  | .descriptor fd => (k.look fd).isSome
  | .memory block => k.blocks block

def fresh (domain type protocol : ℤ) : Socket :=
  ⟨domain, type, protocol, false, false, none, none, none, 0⟩

def Kernel.opens (k : Kernel) (ret : ℤ) (d : Descriptor) : Option Kernel :=
  if ret = -1 then some k
  else if 0 ≤ ret ∧ k.look ret = none then some (k.put ret (some d))
  else none

def Kernel.edits (k : Kernel) (skt ret : ℤ) (edit : Socket → Option Socket) : Option Kernel :=
  if ret = -1 then some k
  else if ret = 0 then
    match k.look skt with
    | some (.socket s) => (edit s).map fun s => k.put skt (some (.socket s))
    | _ => none
  else none

/-- The addresses that a socket of the family takes: one of IPv6 has 24 bytes at the least. -/
def fits (s : Socket) (address : List UInt8) : Bool :=
  if s.domain = AF_INET6.toNat then 24 ≤ address.length else 16 ≤ address.length

def overwrite (content : List UInt8) (position : ℕ) (bytes : List UInt8) : List UInt8 :=
  content.take position ++ List.replicate (position - content.length) 0 ++ bytes ++
    content.drop (position + bytes.length)

def Kernel.openFile (k : Kernel) (filename : List UInt8) (flags : UInt32) (ret : ℤ) :
    Option Kernel :=
  match k.files filename with
  | none =>
      if ret = -1 then some k
      else if flags &&& O_CREAT ≠ 0 then
        { k with files := Function.update k.files filename (some []) }.opens ret (.file filename 0)
      else none
  | some _ =>
      if ret = -1 then some k
      else if flags &&& O_TRUNC ≠ 0 then
        { k with files := Function.update k.files filename (some []) }.opens ret (.file filename 0)
      else k.opens ret (.file filename 0)

/-- `read`: of a file the bytes from its position on, and none only at its end. -/
def Kernel.read (k : Kernel) (fd : ℤ) (len : UInt32) : Option (List UInt8) → Option Kernel
  | none => some k
  | some bytes =>
      match k.look fd with
      | none => none
      | some (.socket _) => some k
      | some (.file name position) =>
          (k.files name).bind fun content =>
            if bytes = (content.drop position).take bytes.length ∧
                (bytes = [] → len = 0 ∨ content.length ≤ position) then
              some (k.put fd (some (.file name (position + bytes.length))))
            else none

/-- `write`: of a file as many bytes as it tells. -/
def Kernel.write (k : Kernel) (fd : ℤ) (bytes : List UInt8) (ret : ℤ) : Option Kernel :=
  if ret = -1 then some k
  else if 0 ≤ ret ∧ ret ≤ bytes.length then
    match k.look fd with
    | none => none
    | some (.socket _) => some k
    | some (.file name position) =>
        (k.files name).map fun content =>
          { k with
            files := Function.update k.files name
              (some (overwrite content position (bytes.take ret.toNat))) }.put
            fd (some (.file name (position + ret.toNat)))
  else none

def Kernel.lseek (k : Kernel) (fd : ℤ) (whence : Whence) (ret : ℤ) : Option Kernel :=
  if ret = -1 then some k
  else
    match k.look fd with
    | some (.file name _) =>
        (k.files name).bind fun content =>
          let position : ℕ := match whence with
            | .SEEK_SET => 0
            | .SEEK_END => content.length
          if ret = (position : ℤ) then some (k.put fd (some (.file name position))) else none
    | _ => none

/-- `fcntl` with `F_GETFL`. -/
def Kernel.getFlags (k : Kernel) (skt ret : ℤ) : Option Kernel :=
  if ret = -1 then some k
  else
    match k.look skt with
    | some (.socket s) => if ret = s.flags.toNat then some k else none
    | _ => none

def Kernel.gives (k : Kernel) (block : ℕ) : Option Kernel :=
  if k.blocks block then none else some { k with blocks := Function.update k.blocks block true }

def Kernel.takes (k : Kernel) (block : ℕ) : Option Kernel :=
  some { k with blocks := Function.update k.blocks block false }

/-- What is left of the system after an answer; none where it does not give this answer. `close`
frees the descriptor also where it fails. -/
def Kernel.serve (k : Kernel) : (c : Call) → Answer c → Option Kernel
  | .openFile filename flags, ret => k.openFile filename flags ret
  | .close fd, ret =>
      match k.look fd with
      | none => if ret = -1 then some k else none
      | some _ => if ret = 0 ∨ ret = -1 then some (k.put fd none) else none
  | .read fd len, bytes => k.read fd len (bytes.map Subtype.val)
  | .write fd bytes, ret => k.write fd bytes ret
  | .lseek fd whence, ret => k.lseek fd whence ret
  | .malloc _, none => some k
  | .malloc _, some (block, _) => k.gives block
  | .free block, _ => k.takes block
  | .socket domain type protocol, ret => k.opens ret (.socket (fresh domain type protocol))
  | .setsockopt skt option, ret =>
      k.edits skt ret fun s =>
        match option with
        | .SO_REUSEADDR => some { s with reuseAddr := true }
        | .SO_REUSEPORT => some { s with reusePort := true }
  | .bind skt address, ret =>
      k.edits skt ret fun s =>
        if fits s address then some { s with bound := some address } else none
  | .listen skt backlog, ret => k.edits skt ret fun s => some { s with backlog := some backlog }
  | .connect skt address, ret =>
      k.edits skt ret fun s => if fits s address then some { s with peer := some address } else none
  | .accept skt, (ret, address) =>
      if ret = -1 then some k
      else
        match k.look skt with
        | some (.socket s) =>
            if s.backlog.isSome then
              k.opens ret (.socket { fresh s.domain s.type s.protocol with peer := some address })
            else none
        | _ => none
  | .getsockname skt, (ret, _) => k.edits skt ret some
  | .getpeername skt, (ret, address) =>
      k.edits skt ret fun s => if s.peer = some address then some s else none
  | .getaddrinfo _ _, (rc, servinfo) =>
      match servinfo with
      | none => if rc = 0 then none else some k
      | some (list, _) => if rc = 0 then k.gives list else none
  | .freeaddrinfo list, _ => k.takes list
  | .getFlags skt, ret => k.getFlags skt ret
  | .setFlags skt flags, ret => k.edits skt ret fun s => some { s with flags := flags }

end State

section Lookups

variable {k k' : Kernel} {fd fd' ret : ℤ} {d : Descriptor}

theorem nonneg_of_look (there : k.look fd = some d) : 0 ≤ fd := by
  by_contra negative
  rw [Kernel.look, if_neg negative] at there
  cases there

theorem look_put (nonneg : 0 ≤ fd) (d : Option Descriptor) (fd' : ℤ) :
    (k.put fd d).look fd' = if fd' = fd then d else k.look fd' := by
  rw [Kernel.look, Kernel.look, Kernel.put]
  by_cases same : fd' = fd
  · rw [if_pos same, same, if_pos nonneg]
    exact Function.update_self ..
  · rw [if_neg same]
    split_ifs with nonneg'
    · exact Function.update_of_ne (by omega) ..
    · rfl

@[simp] theorem put_blocks (d : Option Descriptor) : (k.put fd d).blocks = k.blocks := rfl

@[simp] theorem put_files (d : Option Descriptor) : (k.put fd d).files = k.files := rfl

theorem out_put_some (nonneg : 0 ≤ fd) (r : Resource) :
    (k.put fd (some d)).out r = true ↔ k.out r = true ∨ r = .descriptor fd := by
  cases r with
  | descriptor fd' =>
      by_cases same : fd' = fd <;> simp [Kernel.out, look_put nonneg, same]
  | memory block => simp [Kernel.out]

theorem out_put_none (nonneg : 0 ≤ fd) (r : Resource) :
    (k.put fd none).out r = true ↔ k.out r = true ∧ r ≠ .descriptor fd := by
  cases r with
  | descriptor fd' =>
      by_cases same : fd' = fd <;> simp [Kernel.out, look_put nonneg, same]
  | memory block => simp [Kernel.out]

end Lookups

section Moves

variable {k k' : Kernel} {fd skt ret : ℤ} {d : Descriptor} {block : ℕ}

structure Moved (k k' : Kernel) (gains drops : Finset Resource) : Prop where
  fresh : ∀ r ∈ gains, k.out r = false
  moves : ∀ r, k'.out r = true ↔ k.out r = true ∧ r ∉ drops ∨ r ∈ gains

theorem moved_kept (same : ∀ r, k'.out r = k.out r) : Moved k k' ∅ ∅ :=
  ⟨by simp, by simp [same]⟩

theorem moved_refl (k : Kernel) : Moved k k ∅ ∅ := moved_kept fun _ => rfl

theorem moved_put {d' : Descriptor} (there : k.look fd = some d) :
    Moved k (k.put fd (some d')) ∅ ∅ := by
  refine moved_kept fun r => ?_
  rw [Bool.eq_iff_iff, out_put_some (nonneg_of_look there)]
  constructor
  · rintro (out | rfl)
    · exact out
    · simp [Kernel.out, there]
  · exact Or.inl

theorem opens_moved (opens : k.opens ret d = some k') : -1 ≤ ret ∧ Moved k k' (opened ret) ∅ := by
  rw [Kernel.opens] at opens
  split_ifs at opens with failed free
  · cases opens
    rw [opened, if_neg (by omega)]
    exact ⟨by omega, moved_refl k⟩
  · cases opens
    obtain ⟨nonneg, free⟩ := free
    rw [opened, if_pos nonneg]
    refine ⟨by omega, fun r gained => ?_, fun r => ?_⟩
    · rw [Finset.mem_singleton] at gained
      simp [gained, Kernel.out, free]
    · rw [out_put_some nonneg]
      simp

theorem edits_moved {edit : Socket → Option Socket} (edits : k.edits skt ret edit = some k') :
    Moved k k' ∅ ∅ := by
  rw [Kernel.edits] at edits
  split_ifs at edits
  · cases edits
    exact moved_refl k
  · split at edits
    · next there =>
        obtain ⟨s, -, rfl⟩ := Option.map_eq_some_iff.mp edits
        exact moved_put there
    · cases edits

theorem gives_moved (gives : k.gives block = some k') : Moved k k' {.memory block} ∅ := by
  rw [Kernel.gives] at gives
  split_ifs at gives with used
  cases gives
  refine ⟨fun r gained => ?_, fun r => ?_⟩
  · rw [Finset.mem_singleton] at gained
    simpa [gained, Kernel.out] using used
  · cases r with
    | descriptor fd => simp [Kernel.out, Kernel.look]
    | memory other => by_cases same : other = block <;> simp [Kernel.out, same]

theorem takes_moved (takes : k.takes block = some k') : Moved k k' ∅ {.memory block} := by
  cases takes
  refine ⟨by simp, fun r => ?_⟩
  cases r with
  | descriptor fd => simp [Kernel.out, Kernel.look]
  | memory other => by_cases same : other = block <;> simp [Kernel.out, same]

theorem openFile_moved {filename : List UInt8} {flags : UInt32}
    (opens : k.openFile filename flags ret = some k') : -1 ≤ ret ∧ Moved k k' (opened ret) ∅ := by
  -- what is out is the same whatever becomes of the files
  have emptied {k' : Kernel} {files : List UInt8 → Option (List UInt8)}
      (opens : Kernel.opens { k with files := files } ret (.file filename 0) = some k') :
      -1 ≤ ret ∧ Moved k k' (opened ret) ∅ := by
    obtain ⟨least, fresh, moves⟩ := opens_moved opens
    exact ⟨least, fresh, moves⟩
  have failed (answer : ret = -1) : -1 ≤ ret ∧ Moved k k (opened ret) ∅ := by
    rw [opened, if_neg (by omega)]
    exact ⟨by omega, moved_refl k⟩
  rw [Kernel.openFile] at opens
  split at opens
  · split_ifs at opens with answer
    · cases opens
      exact failed answer
    · exact emptied opens
  · split_ifs at opens with answer
    · cases opens
      exact failed answer
    · exact emptied opens
    · exact opens_moved opens

theorem read_moved {len : UInt32} {bytes : Option (List UInt8)}
    (reads : k.read fd len bytes = some k') : Moved k k' ∅ ∅ := by
  cases bytes with
  | none =>
      cases reads
      exact moved_refl k
  | some bytes =>
      simp only [Kernel.read] at reads
      split at reads
      · cases reads
      · cases reads
        exact moved_refl k
      · next there =>
          obtain ⟨content, -, moved⟩ := Option.bind_eq_some_iff.mp reads
          split_ifs at moved
          cases moved
          exact moved_put there

theorem write_moved {bytes : List UInt8} (writes : k.write fd bytes ret = some k') :
    Moved k k' ∅ ∅ := by
  rw [Kernel.write] at writes
  split_ifs at writes
  · cases writes
    exact moved_refl k
  · split at writes
    · cases writes
    · cases writes
      exact moved_refl k
    · next name position there =>
        obtain ⟨content, -, rfl⟩ := Option.map_eq_some_iff.mp writes
        have moved : Moved k (k.put fd (some (.file name (position + ret.toNat)))) ∅ ∅ :=
          moved_put there
        exact ⟨moved.fresh, moved.moves⟩

theorem lseek_moved {whence : Whence} (seeks : k.lseek fd whence ret = some k') :
    Moved k k' ∅ ∅ := by
  rw [Kernel.lseek] at seeks
  split_ifs at seeks
  · cases seeks
    exact moved_refl k
  · split at seeks
    · next there =>
        obtain ⟨content, -, moved⟩ := Option.bind_eq_some_iff.mp seeks
        simp only at moved
        split_ifs at moved
        cases moved
        exact moved_put there
    · cases seeks

theorem getFlags_moved (reports : k.getFlags skt ret = some k') : Moved k k' ∅ ∅ := by
  rw [Kernel.getFlags] at reports
  split_ifs at reports
  · cases reports
    exact moved_refl k
  · split at reports
    · split_ifs at reports
      cases reports
      exact moved_refl k
    · cases reports

theorem close_moved (closes : k.serve (.close fd) ret = some k') : Moved k k' ∅ (opened fd) := by
  simp only [Kernel.serve] at closes
  split at closes
  · next absent =>
      split_ifs at closes
      cases closes
      refine ⟨by simp, fun r => ?_⟩
      rw [opened]
      split_ifs with nonneg
      · simp only [Finset.mem_singleton, Finset.notMem_empty, or_false]
        refine ⟨fun out => ⟨out, ?_⟩, And.left⟩
        rintro rfl
        simp [Kernel.out, absent] at out
      · simp
  · next there =>
      split_ifs at closes
      cases closes
      have nonneg := nonneg_of_look there
      rw [opened, if_pos nonneg]
      refine ⟨by simp, fun r => ?_⟩
      rw [out_put_none nonneg]
      simp

theorem serve_moved {c : Call} {answer : Answer c} (served : k.serve c answer = some k') :
    rights.possible c answer ∧ Moved k k' (rights.gains c answer) (rights.drops c answer) := by
  cases c with
  | openFile filename flags => exact openFile_moved served
  | close fd => exact ⟨trivial, close_moved served⟩
  | read fd len => exact ⟨trivial, read_moved served⟩
  | write fd bytes => exact ⟨trivial, write_moved served⟩
  | lseek fd whence => exact ⟨trivial, lseek_moved served⟩
  | malloc size =>
      cases answer with
      | none =>
          cases served
          exact ⟨trivial, moved_refl k⟩
      | some block => exact ⟨trivial, gives_moved served⟩
  | free block => exact ⟨trivial, takes_moved served⟩
  | socket domain type protocol => exact opens_moved served
  | accept skt =>
      obtain ⟨ret, address⟩ := answer
      simp only [Kernel.serve] at served
      split_ifs at served with failed
      · cases served
        simp only [rights]
        rw [opened, if_neg (by omega)]
        exact ⟨by omega, moved_refl k⟩
      · split at served
        · split_ifs at served
          exact opens_moved served
        · cases served
  | getaddrinfo node hints =>
      obtain ⟨rc, servinfo⟩ := answer
      cases servinfo with
      | none =>
          simp only [Kernel.serve] at served
          split_ifs at served
          cases served
          exact ⟨fun _ => rfl, moved_refl k⟩
      | some found =>
          simp only [Kernel.serve] at served
          split_ifs at served with good
          exact ⟨fun bad => absurd good bad, gives_moved served⟩
  | freeaddrinfo list => exact ⟨trivial, takes_moved served⟩
  | getFlags skt => exact ⟨trivial, getFlags_moved served⟩
  | _ => exact ⟨trivial, edits_moved served⟩

def kernel : System rights Kernel where
  serve := Kernel.serve
  out := Kernel.out
  possible served := (serve_moved served).1
  fresh served := (serve_moved served).2.fresh
  moves served := (serve_moved served).2.moves

end Moves

end Libam.Fdopers
