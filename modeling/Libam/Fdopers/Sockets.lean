import Libam.Fdopers.Files
import Libam.Fdopers.Kernel

/-! The functions of `libam_fdopers.c` that open, use and close descriptors, as programs that call
the system. -/

namespace Libam.Fdopers

open Libam.Syscalls Libam.Text

section Files

def asInt32 (len : UInt32) : ℤ := asInt len.toNat

def amfdWrite (fd : ℤ) (memory : ℕ → UInt8) (buf : ℕ) (len : UInt32) : Program Answer Amrc := do
  let ret : ℤ ← ask (.write fd (read memory buf len.toNat))
  return if ret = asInt32 len then .success else .error

/-- `amfd_read`, with the memory that holds its buffer. -/
def amfdReadCalls (fd : ℤ) (memory : ℕ → UInt8) (b : ℕ) (len : UInt32) :
    Program Answer (Amrc × (ℕ → UInt8)) :=
  if len > 0 then
    .call (.read fd len) fun
      | none => return (.error, memory)
      | some ⟨bytes, _⟩ =>
          let memory := poke memory b bytes
          let ret := asInt bytes.length
          if ret < 0 then return (.error, memory)
          else if ret = 0 then return (.error, memory)
          else amfdReadCalls fd memory (b + ret.toNat) (len - UInt32.ofInt ret)
  else return (.success, memory)
termination_by len.toNat
decreasing_by
  next fits negative zero =>
    obtain ⟨-, some_read, left⟩ := asInt_of_pos fits negative zero
    rw [left]
    exact Nat.sub_lt (Nat.lt_of_lt_of_le some_read fits) some_read

def amfileWrite (filename : List UInt8) (memory : ℕ → UInt8) (data : ℕ) (length : UInt32) :
    Program Answer Unit := do
  let fd : ℤ ← ask (.openFile filename (O_WRONLY ||| O_TRUNC ||| O_CREAT))
  if fd < 0 then return
  let _ ← amfdWrite fd memory data length
  let _ ← ask (.close fd)
  return

/-- `amfile_read`: NULL, or the block, what it holds and `*length`. -/
def amfileReadCalls (filename : List UInt8) : Program Answer (Option (ℕ × (ℕ → UInt8) × UInt32)) :=
  do
  let fd : ℤ ← ask (.openFile filename O_RDONLY)
  if fd < 0 then return none
  let fileSize : ℤ ← ask (.lseek fd .SEEK_END)
  if fileSize = -1 then return none
  -- the second test is of the size again
  let _ ← ask (.lseek fd .SEEK_SET)
  if fileSize = -1 then return none
  match ← ask (.malloc fileSize.toNat) with
  | none => return none
  | some (block, buf) =>
      let (rc, buf) ← amfdReadCalls fd buf 0 (.ofInt fileSize)
      let _ ← ask (.close fd)
      if rc = .error then
        let _ ← ask (.free block)
        return none
      return some (block, buf, .ofInt fileSize)

end Files

section Connections

/-- `sizeof(struct sockaddr)`. -/
def sockaddrSize : ℕ := 16

def familyOf (addr : AmsktAddr) : ℤ := (uint16At addr familyOffset).toNat

/-- The address with `INADDR_ANY` or `in6addr_any` in it. -/
def anyAddr (addr : AmsktAddr) : AmsktAddr :=
  if uint16At addr familyOffset = AF_INET then poke addr sinAddrOffset (List.replicate 4 0)
  else poke addr sin6AddrOffset (List.replicate 16 0)

/-- The label `close` of `amskt_listen`. -/
def listenClose (skt : ℤ) : Program Answer (Amrc × Option ℤ) := do
  if skt ≥ 0 then let _ ← ask (.close skt)
  return (.error, none)

/-- `amskt_listen`, with what is stored to `*fd`. -/
def amsktListen (addr : AmsktAddr) : Program Answer (Amrc × Option ℤ) := do
  if uint16At addr familyOffset ≠ AF_INET ∧
    uint16At addr familyOffset ≠ AF_INET6 then listenClose (-1)
  else
    let skt : ℤ ← ask (.socket (familyOf addr) SOCK_STREAM 0)
    if skt = -1 then listenClose skt
    else
      let rc : ℤ ← ask (.setsockopt skt .SO_REUSEADDR)
      if rc ≠ 0 then listenClose skt
      else
        let rc : ℤ ← ask (.setsockopt skt .SO_REUSEPORT)
        if rc ≠ 0 then listenClose skt
        else
          let rc : ℤ ← ask (.bind skt (read (anyAddr addr) 0 sockaddrSize))
          if rc ≠ 0 then listenClose skt
          else
            let rc : ℤ ← ask (.listen skt 5)
            if rc ≠ 0 then listenClose skt
            else return (.success, some skt)

/-- `amskt_connect`, with what is stored to `*fd`. A socket that does not connect stays open. -/
def amsktConnect (addr : AmsktAddr) : Program Answer (Amrc × Option ℤ) := do
  if uint16At addr familyOffset ≠ AF_INET ∧
    uint16At addr familyOffset ≠ AF_INET6 then return (.error, none)
  let fd : ℤ ← ask (.socket (familyOf addr) SOCK_STREAM 0)
  if fd < 0 then return (.error, none)
  let rc : ℤ ← ask (.connect fd (read addr 0 sockaddrSize))
  if rc ≠ 0 then return (.error, none)
  return (.success, some fd)

/-- `amskt_disconnect`, with what is stored to `*fd`. -/
def amsktDisconnect (fd : ℤ) : Program Answer ℤ := do
  let _ ← ask (.close fd)
  return -1

/-- `amskt_accept`, with what is stored to `*client` and `*remote_addr`, which may be NULL. -/
def amsktAccept (server : ℤ) (client : Bool) (remote : Option AmsktAddr) :
    Program Answer (Amrc × ℤ × Option AmsktAddr) := do
  if client = false then return (.error, -1, remote)
  let (cskt, peer) ← ask (.accept server)
  if cskt = -1 then return (.error, -1, remote)
  return (.success, cskt, remote.map fun addr => poke addr 0 (peer.take sockaddrSize))

def amsktSetBlocking (skt : ℤ) (shouldBlock : Bool) : Program Answer Amrc := do
  if skt < 0 then return .error
  let rc : ℤ ← ask (.getFlags skt)
  if rc < 0 then return .error
  let flags := UInt32.ofInt rc
  let rc : ℤ ← ask (.setFlags skt
      (if shouldBlock then flags &&& ~~~ O_NONBLOCK else flags ||| O_NONBLOCK))
  if rc ≠ 0 then return .error
  return .success

end Connections

section Addresses

/-- `amskt_local_to_addr`, with what is stored to `*out_addr`. -/
def amsktLocalToAddr (skt : ℤ) (outAddr : Option AmsktAddr) : Program Answer
    (Amrc × Option AmsktAddr) := do
  match outAddr with
  | none => return (.error, none)
  | some outAddr =>
      if skt < 0 then return (.error, some outAddr)
      let (rc, name) ← ask (.getsockname skt)
      if rc ≠ 0 then return (.error, some outAddr)
      return (.success, some (poke outAddr 0 (name.take sockaddrSize)))

/-- `amskt_remote_to_addr`, with what is stored to `*out_addr`. -/
def amsktRemoteToAddr (skt : ℤ) (outAddr : Option AmsktAddr) : Program Answer
    (Amrc × Option AmsktAddr) := do
  match outAddr with
  | none => return (.error, none)
  | some outAddr =>
      if skt < 0 then return (.error, some outAddr)
      let (rc, name) ← ask (.getpeername skt)
      if rc ≠ 0 then return (.error, some outAddr)
      return (.success, some (poke outAddr 0 (name.take sockaddrSize)))

def found (servinfo : Option (ℕ × List Addrinfo)) : List Addrinfo := (servinfo.map Prod.snd).getD []

/-- `if (servinfo) freeaddrinfo(servinfo)`. -/
def release (servinfo : Option (ℕ × List Addrinfo)) : Program Answer Unit := do
  match servinfo with
  | none => return
  | some (list, _) => let _ ← ask (.freeaddrinfo list)

/-- The loop of `amskt_query_to_addr`: the first address of a family that it knows. -/
def queryLoop (port : UInt16) (outAddr : AmsktAddr) : List Addrinfo → Amrc × AmsktAddr
  | [] => (.error, outAddr)
  | cur :: rest =>
      if uint16At cur.aiAddr familyOffset = AF_INET ∨
        uint16At cur.aiAddr familyOffset = AF_INET6 then
        (.success, poke outAddr 0 (read (setUint16 cur.aiAddr portOffset port) 0 cur.aiAddrlen))
      else queryLoop port outAddr rest

/-- `amskt_query_to_addr`, with what is stored to `*out_addr`. -/
def amsktQueryToAddr (addr : Option (List UInt8)) (port : UInt16) (outAddr : AmsktAddr) :
    Program Answer (Amrc × AmsktAddr) := do
  if addr = none ∨ addr = some [] then return (.error, outAddr)
  if port = 0 then return (.error, outAddr)
  let (rc, servinfo) ← ask (.getaddrinfo addr ⟨AF_UNSPEC.toNat, 0, AI_NUMERICSERV⟩)
  if rc ≠ 0 then return (.error, outAddr)
  let result := queryLoop port outAddr (found servinfo)
  release servinfo
  return result

end Addresses

section Interfaces

def asChar (c : UInt8) : ℤ := if c < 0x80 then c.toNat else c.toNat - 256

def tolower (c : UInt8) : UInt8 := if 0x41 ≤ c ∧ c ≤ 0x5A then c + 0x20 else c

/-- `strnicmp` of two strings, which go on with their zero. -/
def strnicmp (s1 s2 : List UInt8) : ℕ → ℤ
  | 0 => 0
  | num + 1 =>
      let diff := asChar (tolower (s1.headD 0)) - asChar (tolower (s2.headD 0))
      if diff ≠ 0 ∨ s1.headD 0 = 0 then diff else strnicmp s1.tail s2.tail num

/-- The node that `amskt_get_server_socket` looks up: NULL for NULL, as there is
nothing to compare. -/
def serverNode : Option (List UInt8) → Option (List UInt8)
  | none => none
  | some addr => if strnicmp [0x41, 0x4E, 0x59] addr 4 = 0 then none else some addr

def candidateAddr (port : UInt16) (cur : Addrinfo) : List UInt8 :=
  read (setUint16 cur.aiAddr portOffset port) 0 cur.aiAddrlen

/-- A round of `amskt_get_server_socket`, which gives `skt`. -/
def serverRound (port : UInt16) (cur : Addrinfo) : Program Answer ℤ := do
  let skt : ℤ ← ask (.socket cur.aiFamily cur.aiSocktype cur.aiProtocol)
  if skt < 0 then return -1
  let rc : ℤ ← ask (.setsockopt skt .SO_REUSEADDR)
  if rc ≠ 0 then
    let _ ← ask (.close skt)
    return -1
  let rc : ℤ ← ask (.setsockopt skt .SO_REUSEPORT)
  if rc ≠ 0 then
    let _ ← ask (.close skt)
    return -1
  let rc : ℤ ← ask (.bind skt (candidateAddr port cur))
  if rc = -1 then
    let _ ← ask (.close skt)
    return -1
  if cur.aiSocktype ≠ SOCK_DGRAM then
    let rc : ℤ ← ask (.listen skt 15)
    if rc = -1 then
      let _ ← ask (.close skt)
      return -1
  return skt

/-- A round of `amskt_get_client_socket`, which gives `skt`. -/
def clientRound (port : UInt16) (cur : Addrinfo) : Program Answer ℤ := do
  let skt : ℤ ← ask (.socket cur.aiFamily cur.aiSocktype cur.aiProtocol)
  if skt < 0 then return -1
  let rc : ℤ ← ask (.connect skt (candidateAddr port cur))
  if rc = -1 then
    let _ ← ask (.close skt)
    return -1
  return skt

def eachCandidate (round : Addrinfo → Program Answer ℤ) : List Addrinfo → Program Answer ℤ
  | [] => return -1
  | cur :: rest => do
      let skt ← round cur
      if skt = -1 then eachCandidate round rest else return skt

def firstOf (round : Addrinfo → Program Answer ℤ) (node : Option (List UInt8)) (hints : Hints) :
    Program Answer ℤ := do
  let (rc, servinfo) ← ask (.getaddrinfo node hints)
  if rc ≠ 0 then return -1
  let skt ← eachCandidate round (found servinfo)
  release servinfo
  return skt

def amsktGetServerSocket (family type : ℤ) (addr : Option (List UInt8)) (port : UInt16) :
    Program Answer ℤ := do
  if family ≠ AF_UNSPEC.toNat ∧ family ≠ AF_INET.toNat ∧ family ≠ AF_INET6.toNat then return -1
  if type ≠ SOCK_STREAM ∧ type ≠ SOCK_DGRAM then return -1
  firstOf (serverRound port) (serverNode addr)
    ⟨family, type, AI_PASSIVE ||| AI_NUMERICHOST ||| AI_NUMERICSERV⟩

def amsktGetClientSocket (family type : ℤ) (addr : Option (List UInt8)) (port : UInt16) :
    Program Answer ℤ := do
  if family ≠ AF_UNSPEC.toNat ∧ family ≠ AF_INET.toNat ∧ family ≠ AF_INET6.toNat then return -1
  if type ≠ SOCK_STREAM ∧ type ≠ SOCK_DGRAM then return -1
  if addr = none ∨ addr = some [] then return -1
  if port = 0 then return -1
  firstOf (clientRound port) addr ⟨family, type, AI_NUMERICSERV⟩

end Interfaces

end Libam.Fdopers
