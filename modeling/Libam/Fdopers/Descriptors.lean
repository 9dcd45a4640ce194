import Libam.Fdopers.Sockets

/-! The descriptors and the memory of the functions of `libam_fdopers.c`, in any
interleaving of calls. -/

namespace Libam.Fdopers

open Libam.Interleaving Libam.Syscalls Libam.Text

section Model

inductive Api
  | fdWrite (fd : ℤ) (memory : ℕ → UInt8) (buf : ℕ) (len : UInt32)
  | fdRead (fd : ℤ) (memory : ℕ → UInt8) (buf : ℕ) (len : UInt32)
  | fileWrite (filename : List UInt8) (memory : ℕ → UInt8) (data : ℕ) (length : UInt32)
  | fileRead (filename : List UInt8)
  | listen (addr : AmsktAddr)
  | connect (addr : AmsktAddr)
  | disconnect (fd : ℤ)
  | accept (server : ℤ) (client : Bool) (remote : Option AmsktAddr)
  | setBlocking (skt : ℤ) (shouldBlock : Bool)
  | localToAddr (skt : ℤ) (outAddr : Option AmsktAddr)
  | remoteToAddr (skt : ℤ) (outAddr : Option AmsktAddr)
  | queryToAddr (addr : Option (List UInt8)) (port : UInt16) (outAddr : AmsktAddr)
  | getServerSocket (family type : ℤ) (addr : Option (List UInt8)) (port : UInt16)
  | getClientSocket (family type : ℤ) (addr : Option (List UInt8)) (port : UInt16)

def handedFd : Option ℤ → Finset Resource
  | none => ∅
  | some fd => opened fd

def handedBlock : Option (ℕ × (ℕ → UInt8) × UInt32) → Finset Resource
  | none => ∅
  | some (block, _) => {.memory block}

/-- The functions; of all that they meet, two of them let go of a descriptor: `amskt_connect` of one
that does not connect, `amfile_read` of one of a file whose size or memory it does not get. -/
def amfd : Library Answer Resource Api where
  takes
    | .disconnect fd => opened fd
    | _ => ∅
  borrows
    | .fdWrite fd _ _ _ | .fdRead fd _ _ _ | .disconnect fd => {.descriptor fd}
    | .accept skt _ _ | .setBlocking skt _ | .localToAddr skt _ | .remoteToAddr skt _ =>
        {.descriptor skt}
    | _ => ∅
  body
    | .fdWrite fd memory buf len => (fun _ => ∅) <$> amfdWrite fd memory buf len
    | .fdRead fd memory buf len => (fun _ => ∅) <$> amfdReadCalls fd memory buf len
    | .fileWrite filename memory data length =>
        (fun _ => ∅) <$> amfileWrite filename memory data length
    | .fileRead filename => handedBlock <$> amfileReadCalls filename
    | .listen addr => (fun result => handedFd result.2) <$> amsktListen addr
    | .connect addr => (fun result => handedFd result.2) <$> amsktConnect addr
    | .disconnect fd => (fun _ => ∅) <$> amsktDisconnect fd
    | .accept server client remote =>
        (fun result => opened result.2.1) <$> amsktAccept server client remote
    | .setBlocking skt shouldBlock => (fun _ => ∅) <$> amsktSetBlocking skt shouldBlock
    | .localToAddr skt outAddr => (fun _ => ∅) <$> amsktLocalToAddr skt outAddr
    | .remoteToAddr skt outAddr => (fun _ => ∅) <$> amsktRemoteToAddr skt outAddr
    | .queryToAddr addr port outAddr => (fun _ => ∅) <$> amsktQueryToAddr addr port outAddr
    | .getServerSocket family type addr port =>
        opened <$> amsktGetServerSocket family type addr port
    | .getClientSocket family type addr port =>
        opened <$> amsktGetClientSocket family type addr port
  fault
    | .connect _, .connect _ _, rc => rc ≠ 0
    | .fileRead _, .lseek _ .SEEK_END, fileSize => fileSize = -1
    | .fileRead _, .malloc _, buf => buf.isNone
    | _, _, _ => false

end Model

section Rules

variable {β : Type} {api : Api} {owned : Finset Resource} {n : ℕ}
  {post : β → Finset Resource × ℕ → Prop} {fd : ℤ}

theorem opened_failed : opened (-1) = ∅ := if_neg (by decide)

theorem opened_nonneg (nonneg : 0 ≤ fd) : opened fd = {.descriptor fd} := if_pos nonneg

theorem opened_cases {ret : ℤ} {P : Finset Resource → Prop} (least : -1 ≤ ret)
    (apart : Disjoint owned (opened ret)) (failed : ret = -1 → P owned)
    (rest : 0 ≤ ret → .descriptor ret ∉ owned → P (insert (.descriptor ret) owned)) :
    P (owned \ ∅ ∪ opened ret) := by
  rw [Finset.sdiff_empty]
  rcases Int.lt_or_le ret 0 with negative | nonneg
  · obtain rfl : ret = -1 := by omega
    rw [opened_failed, Finset.union_empty]
    exact failed rfl
  · rw [opened_nonneg nonneg] at apart ⊢
    rw [Finset.union_comm, ← Finset.insert_eq]
    exact rest nonneg (Finset.disjoint_singleton_right.mp apart)

theorem meets_socket {domain type protocol : ℤ} {f : ℤ → Program Answer β}
    (clean : ∀ answer, amfd.fault api (.socket domain type protocol) answer = false)
    (failed : (f (-1)).Meets (owner rights amfd api) post (owned, n))
    (rest : ∀ skt, 0 ≤ skt → .descriptor skt ∉ owned →
      (f skt).Meets (owner rights amfd api) post (insert (.descriptor skt) owned, n)) :
    (ask (.socket domain type protocol) >>= f).Meets (owner rights amfd api) post (owned, n) := by
  refine meets_owner (Finset.empty_subset _) (fun _ => Finset.empty_subset _)
    fun skt least apart => ?_
  rw [clean skt]
  refine opened_cases (P := fun left => (f skt).Meets (owner rights amfd api) post (left, n))
    least apart ?_ ?_
  · rintro rfl
    exact failed
  · exact rest skt

theorem meets_openFile {filename : List UInt8} {flags : UInt32} {f : ℤ → Program Answer β}
    (clean : ∀ answer, amfd.fault api (.openFile filename flags) answer = false)
    (failed : (f (-1)).Meets (owner rights amfd api) post (owned, n))
    (rest : ∀ fd, 0 ≤ fd → .descriptor fd ∉ owned →
      (f fd).Meets (owner rights amfd api) post (insert (.descriptor fd) owned, n)) :
    (ask (.openFile filename flags) >>= f).Meets (owner rights amfd api) post (owned, n) := by
  refine meets_owner (Finset.empty_subset _) (fun _ => Finset.empty_subset _)
    fun fd least apart => ?_
  rw [clean fd]
  refine opened_cases (P := fun left => (f fd).Meets (owner rights amfd api) post (left, n))
    least apart ?_ ?_
  · rintro rfl
    exact failed
  · exact rest fd

theorem meets_close {f : ℤ → Program Answer β}
    (clean : ∀ answer, amfd.fault api (.close fd) answer = false) (nonneg : 0 ≤ fd)
    (new : .descriptor fd ∉ owned)
    (rest : ∀ rc, (f rc).Meets (owner rights amfd api) post (owned, n)) :
    (ask (.close fd) >>= f).Meets (owner rights amfd api) post
    (insert (.descriptor fd) owned, n) := by
  have mine : {.descriptor fd} ⊆ insert (.descriptor fd) owned := by simp
  refine meets_owner (mine.trans Finset.subset_union_left) (fun _ => ?_) fun rc _ _ => ?_
  · rw [← opened_nonneg nonneg] at mine
    exact mine
  · have left : insert (.descriptor fd) owned \ rights.drops (.close fd) rc ∪
        rights.gains (.close fd) rc = owned := by
      show insert (.descriptor fd) owned \ opened fd ∪ ∅ = owned
      rw [opened_nonneg nonneg, Finset.union_empty, Finset.sdiff_singleton_eq_erase,
        Finset.erase_insert new]
    rw [left, clean rc]
    exact rest rc

end Rules

section Functions

variable {api : Api} {owned : Finset Resource} {n : ℕ}

def Gains (owned : Finset Resource) (n : ℕ) (handed : Finset Resource)
    (after : Finset Resource × ℕ) : Prop :=
  after = (owned ∪ handed, n) ∧ Disjoint owned handed

theorem gains_none : Gains owned n ∅ (owned, n) := by simp [Gains]

theorem gains_failed : Gains owned n (opened (-1)) (owned, n) := by
  rw [opened_failed]
  exact gains_none

theorem gains_opened {skt : ℤ} (nonneg : 0 ≤ skt) (new : Resource.descriptor skt ∉ owned) :
    Gains owned n (opened skt) (insert (Resource.descriptor skt) owned, n) := by
  rw [opened_nonneg nonneg]
  refine ⟨?_, Finset.disjoint_singleton_right.mpr new⟩
  rw [Finset.insert_eq, Finset.union_comm]

theorem settled_of_gains {handed : Finset Resource} {after : Finset Resource × ℕ}
    (gains : Gains ∅ 0 handed after) : Settled handed after := by
  rw [gains.1]
  simp [Settled]

theorem serverRound_gains (clean : ∀ c answer, amfd.fault api c answer = false) (port : UInt16)
    (cur : Addrinfo) :
    (serverRound port cur).Meets (owner rights amfd api) (fun skt => Gains owned n (opened skt))
    (owned, n) := by
  refine meets_socket (clean _) ?_ fun skt nonneg new => ?_
  · exact gains_failed
  have used : {.descriptor skt} ⊆ insert (.descriptor skt) owned ∪ amfd.borrows api := by simp
  -- the socket is closed wherever a call is refused
  have closes : (do let _ ← ask (.close skt); return (-1 : ℤ)).Meets (owner rights amfd api)
      (fun skt => Gains owned n (opened skt)) (insert (Resource.descriptor skt) owned, n) := by
    refine meets_close (clean _) nonneg new fun _ => ?_
    exact gains_failed
  rw [if_neg (by omega)]
  refine meets_quiet used (fun _ => ⟨rfl, rfl⟩) (clean _) fun rc => ?_
  split
  · exact closes
  refine meets_quiet used (fun _ => ⟨rfl, rfl⟩) (clean _) fun rc => ?_
  split
  · exact closes
  refine meets_quiet used (fun _ => ⟨rfl, rfl⟩) (clean _) fun rc => ?_
  split
  · exact closes
  split
  · refine meets_quiet used (fun _ => ⟨rfl, rfl⟩) (clean _) fun rc => ?_
    split
    · exact closes
    · exact gains_opened nonneg new
  · exact gains_opened nonneg new

theorem clientRound_gains (clean : ∀ c answer, amfd.fault api c answer = false) (port : UInt16)
    (cur : Addrinfo) :
    (clientRound port cur).Meets (owner rights amfd api) (fun skt => Gains owned n (opened skt))
    (owned, n) := by
  refine meets_socket (clean _) ?_ fun skt nonneg new => ?_
  · exact gains_failed
  have used : {.descriptor skt} ⊆ insert (.descriptor skt) owned ∪ amfd.borrows api := by simp
  rw [if_neg (by omega)]
  refine meets_quiet used (fun _ => ⟨rfl, rfl⟩) (clean _) fun rc => ?_
  split
  · refine meets_close (clean _) nonneg new fun _ => ?_
    exact gains_failed
  · exact gains_opened nonneg new

theorem eachCandidate_gains {round : Addrinfo → Program Answer ℤ}
    (gains : ∀ cur, (round cur).Meets (owner rights amfd api)
      (fun skt => Gains owned n (opened skt)) (owned, n))
    (candidates : List Addrinfo) : (eachCandidate round candidates).Meets (owner rights amfd api)
      (fun skt => Gains owned n (opened skt)) (owned, n) := by
  induction candidates with
  | nil => exact gains_failed
  | cons cur rest ih =>
      refine (gains cur).bind fun skt after gained => ?_
      split
      · next failed =>
          rw [failed, opened_failed, Gains, Finset.union_empty] at gained
          rw [gained.1]
          exact ih
      · exact gained

def listed : Option (ℕ × List Addrinfo) → Finset Resource
  | none => ∅
  | some (list, _) => {.memory list}

theorem meets_getaddrinfo {β : Type} {post : β → Finset Resource × ℕ → Prop}
    {node : Option (List UInt8)}
    {hints : Hints} {f : ℤ × Option (ℕ × List Addrinfo) → Program Answer β}
    (clean : ∀ answer, amfd.fault api (.getaddrinfo node hints) answer = false)
    (failed : ∀ rc, rc ≠ 0 → (f (rc, none)).Meets (owner rights amfd api) post (owned, n))
    (rest : ∀ servinfo, Disjoint owned (listed servinfo) →
      (f (0, servinfo)).Meets (owner rights amfd api) post (owned ∪ listed servinfo, n)) :
    (ask (.getaddrinfo node hints) >>= f).Meets (owner rights amfd api) post (owned, n) := by
  refine meets_owner (Finset.empty_subset _) (fun _ => Finset.empty_subset _)
    fun answer possible apart => ?_
  obtain ⟨rc, servinfo⟩ := answer
  have gained : owned \ rights.drops (.getaddrinfo node hints) (rc, servinfo) ∪
      rights.gains (.getaddrinfo node hints) (rc, servinfo) = owned ∪ listed servinfo := by
    cases servinfo <;> exact congrArg (· ∪ _) Finset.sdiff_empty
  rw [gained, clean]
  by_cases good : rc = 0
  · subst good
    refine rest servinfo ?_
    cases servinfo <;> exact apart
  · obtain rfl : servinfo = none := possible good
    rw [listed, Finset.union_empty]
    exact failed rc good

theorem meets_release {β : Type} {post : β → Finset Resource × ℕ → Prop}
    {servinfo : Option (ℕ × List Addrinfo)} {f : Unit → Program Answer β}
    (clean : ∀ list answer, amfd.fault api (.freeaddrinfo list) answer = false)
    (apart : Disjoint owned (listed servinfo))
    (rest : (f ()).Meets (owner rights amfd api) post (owned, n)) :
    (release servinfo >>= f).Meets (owner rights amfd api) post (owned ∪ listed servinfo, n) := by
  cases servinfo with
  | none =>
      rw [listed, Finset.union_empty]
      exact rest
  | some found =>
      obtain ⟨list, infos⟩ := found
      have mine : {.memory list} ⊆ owned ∪ {.memory list} := Finset.subset_union_right
      refine meets_owner (mine.trans Finset.subset_union_left) (fun _ => mine) fun answer _ _ => ?_
      have left : (owned ∪ {Resource.memory list}) \ {.memory list} ∪ ∅ = owned := by
        rw [Finset.union_empty, Finset.union_sdiff_right]
        exact Finset.sdiff_eq_self_of_disjoint apart
      have same : (owned ∪ listed (some (list, infos))) \ rights.drops (.freeaddrinfo list) answer ∪
          rights.gains (.freeaddrinfo list) answer = owned := left
      rw [same, clean list]
      exact rest

theorem firstOf_gains {round : Addrinfo → Program Answer ℤ}
    (clean : ∀ c answer, amfd.fault api c answer = false)
    (gains : ∀ owned cur, (round cur).Meets (owner rights amfd api)
      (fun skt => Gains owned 0 (opened skt)) (owned, 0))
    (node : Option (List UInt8)) (hints : Hints) :
    (firstOf round node hints).Meets (owner rights amfd api)
    (fun skt => Gains ∅ 0 (opened skt)) (∅, 0) := by
  refine meets_getaddrinfo (clean _) (fun rc bad => ?_) fun servinfo _ => ?_
  · simp only [if_pos bad]
    exact gains_failed
  · refine (eachCandidate_gains (gains _) (found servinfo)).bind fun skt after gained => ?_
    obtain ⟨rfl, apart⟩ := gained
    rw [Finset.empty_union] at apart
    rw [Finset.empty_union, Finset.union_comm]
    refine meets_release (fun _ => clean _) apart.symm ?_
    exact ⟨by rw [Finset.empty_union], Finset.disjoint_empty_left _⟩

theorem amfdReadCalls_keeps {fd : ℤ} (used : {.descriptor fd} ⊆ owned ∪ amfd.borrows api)
    (clean : ∀ len answer, amfd.fault api (.read fd len) answer = false) (memory : ℕ → UInt8)
    (b : ℕ) (len : UInt32) :
    (amfdReadCalls fd memory b len).Meets (owner rights amfd api)
    (fun _ after => after = (owned, n)) (owned, n) := by
  fun_induction amfdReadCalls fd memory b len with
  | case1 memory b len more ih =>
      refine meets_quiet used (fun _ => ⟨rfl, rfl⟩) (clean len) fun answer => ?_
      cases answer with
      | none => rfl
      | some answer =>
          obtain ⟨bytes, fits⟩ := answer
          simp only
          split_ifs with negative zero
          · rfl
          · rfl
          · exact ih bytes fits negative zero
  | case2 => rfl

end Functions

section Ledger

variable {Tid : Type} [Fintype Tid] [DecidableEq Tid]

theorem settles_of_gains {α : Type} {api : Api} {program : Program Answer α}
    {handed : α → Finset Resource} (takes : amfd.takes api = ∅)
    (body : amfd.body api = handed <$> program)
    (gains : program.Meets (owner rights amfd api) (fun a => Gains ∅ 0 (handed a)) (∅, 0)) :
    Settles rights amfd api := by
  rw [Settles, takes, body, Program.meets_map]
  exact gains.imp fun _ _ => settled_of_gains

theorem settles_fileWrite (filename : List UInt8) (memory : ℕ → UInt8) (data : ℕ)
    (length : UInt32) : Settles rights amfd (.fileWrite filename memory data length) := by
  refine settles_of_gains rfl rfl (meets_openFile (fun _ => rfl) gains_none fun fd nonneg new => ?_)
  rw [if_neg (by omega)]
  refine Program.meets_bind.mpr (meets_quiet ?_ (fun _ => ⟨rfl, rfl⟩) (fun _ => rfl) fun ret => ?_)
  · simp [rights]
  · exact meets_close (fun _ => rfl) nonneg new fun _ => gains_none

theorem settled_lost (fd : ℤ) :
    Settled ∅ (insert (Resource.descriptor fd) (∅ : Finset Resource), 1) := by
  simp [Settled]

theorem untouched (owned : Finset Resource) : owned \ ∅ ∪ ∅ = owned := by simp

theorem settles_fileRead (filename : List UInt8) : Settles rights amfd (.fileRead filename) := by
  refine Program.meets_map.mpr ?_
  show (amfileReadCalls filename).Meets (owner rights amfd (.fileRead filename))
    (fun result => Settled (handedBlock result)) (∅, 0)
  refine meets_openFile (fun _ => rfl) ?_ fun fd nonneg new => ?_
  · exact ⟨Finset.empty_subset _, rfl⟩
  rw [if_neg (by omega)]
  have used (owned : Finset Resource) : {.descriptor fd} ⊆
      insert (.descriptor fd) owned ∪ amfd.borrows (.fileRead filename) := by simp
  refine meets_owner (used ∅) (fun _ => Finset.empty_subset _) fun fileSize _ _ => ?_
  show Program.Meets _ _ _ (insert (Resource.descriptor fd) ∅ \ ∅ ∪ ∅, _)
  rw [untouched]
  by_cases failed : fileSize = -1
  · subst failed
    exact settled_lost fd
  have clean : amfd.fault (.fileRead filename) (.lseek fd .SEEK_END) fileSize = false :=
    decide_eq_false failed
  rw [clean, if_neg failed]
  refine meets_quiet (used ∅) (fun _ => ⟨rfl, rfl⟩) (fun _ => rfl) fun _ => ?_
  rw [if_neg failed]
  refine meets_owner (Finset.empty_subset _) (fun _ => Finset.empty_subset _) fun buf _ apart => ?_
  cases buf with
  | none =>
      show Program.Meets _ _ _ (insert (Resource.descriptor fd) ∅ \ ∅ ∪ ∅, _)
      rw [untouched]
      exact settled_lost fd
  | some buf =>
      obtain ⟨block, buf⟩ := buf
      have both : (insert (.descriptor fd) ∅ \ ∅ ∪ {.memory block} : Finset Resource) =
          insert (.descriptor fd) {.memory block} := by simp
      show Program.Meets _ _ _ (insert (Resource.descriptor fd) ∅ \ ∅ ∪ {Resource.memory block}, 0)
      rw [both]
      refine (amfdReadCalls_keeps (used _) (fun _ _ => rfl) buf 0 (.ofInt fileSize)).bind
        fun result after same => ?_
      rw [same]
      refine meets_close (fun _ => rfl) nonneg (by simp) fun _ => ?_
      split
      · refine meets_owner Finset.subset_union_left (fun _ => Finset.Subset.refl _) fun _ _ _ => ?_
        refine ⟨Finset.empty_subset _, ?_⟩
        show (({.memory block} \ {.memory block} ∪ ∅ : Finset Resource) \ ∅).card = 0
        simp
      · simp [Settled, handedBlock]

theorem settles_listen (addr : AmsktAddr) : Settles rights amfd (.listen addr) := by
  refine settles_of_gains rfl rfl ?_
  rw [amsktListen]
  split
  · exact gains_none
  refine meets_socket (fun _ => rfl) ?_ fun skt nonneg new => ?_
  · exact gains_none
  have used : {.descriptor skt} ⊆ insert (.descriptor skt) ∅ ∪ amfd.borrows
      (.listen addr) := by simp
  have closes : (listenClose skt).Meets (owner rights amfd (.listen addr))
      (fun result => Gains ∅ 0 (handedFd result.2)) (insert (Resource.descriptor skt) ∅, 0) := by
    rw [listenClose, if_pos nonneg]
    exact meets_close (fun _ => rfl) nonneg new fun _ => gains_none
  rw [if_neg (by omega)]
  refine meets_quiet used (fun _ => ⟨rfl, rfl⟩) (fun _ => rfl) fun rc => ?_
  split
  · exact closes
  refine meets_quiet used (fun _ => ⟨rfl, rfl⟩) (fun _ => rfl) fun rc => ?_
  split
  · exact closes
  refine meets_quiet used (fun _ => ⟨rfl, rfl⟩) (fun _ => rfl) fun rc => ?_
  split
  · exact closes
  refine meets_quiet used (fun _ => ⟨rfl, rfl⟩) (fun _ => rfl) fun rc => ?_
  split
  · exact closes
  · exact gains_opened nonneg new

theorem settles_connect (addr : AmsktAddr) : Settles rights amfd (.connect addr) := by
  refine Program.meets_map.mpr ?_
  show (amsktConnect addr).Meets (owner rights amfd (.connect addr))
      (fun result => Settled (handedFd result.2)) (∅, 0)
  rw [amsktConnect]
  split
  · exact ⟨Finset.empty_subset _, rfl⟩
  refine meets_socket (fun _ => rfl) ?_ fun fd nonneg new => ?_
  · exact ⟨Finset.empty_subset _, rfl⟩
  rw [if_neg (by omega)]
  refine meets_owner (by simp [rights]) (fun _ => Finset.empty_subset _) fun rc _ _ => ?_
  show Program.Meets _ _ _ (insert (Resource.descriptor fd) ∅ \ ∅ ∪ ∅, _)
  rw [untouched]
  by_cases refused : rc = 0
  · subst refused
    exact settled_of_gains (gains_opened nonneg new)
  · have lost : amfd.fault (.connect addr) (.connect fd (read addr 0 sockaddrSize)) rc = true :=
        decide_eq_true refused
    rw [lost, if_pos refused]
    exact settled_lost fd

theorem settles_accept (server : ℤ) (client : Bool) (remote : Option AmsktAddr) :
    Settles rights amfd (.accept server client remote) := by
  refine settles_of_gains rfl rfl ?_
  rw [amsktAccept]
  split
  · exact gains_failed
  refine meets_owner Finset.subset_union_right (fun _ => Finset.empty_subset _)
    fun answer least apart => ?_
  obtain ⟨cskt, peer⟩ := answer
  show Program.Meets _ _ _ (∅ \ ∅ ∪ opened cskt, 0)
  refine opened_cases (P := fun left => Program.Meets _ _ _ (left, 0)) least apart ?_
    fun nonneg new => ?_
  · rintro rfl
    exact gains_failed
  · simp only [if_neg (show ¬ cskt = -1 by omega)]
    exact gains_opened nonneg new

theorem settles_name (skt : ℤ) (outAddr : Option AmsktAddr) :
    Settles rights amfd (.localToAddr skt outAddr) ∧
    Settles rights amfd (.remoteToAddr skt outAddr) := by
  constructor
  · refine settles_of_gains rfl rfl ?_
    cases outAddr with
    | none => exact gains_none
    | some outAddr =>
        simp only [amsktLocalToAddr]
        split
        · exact gains_none
        · refine meets_quiet Finset.subset_union_right (fun _ => ⟨rfl, rfl⟩)
            (fun _ => rfl) fun answer => ?_
          split <;> exact gains_none
  · refine settles_of_gains rfl rfl ?_
    cases outAddr with
    | none => exact gains_none
    | some outAddr =>
        simp only [amsktRemoteToAddr]
        split
        · exact gains_none
        · refine meets_quiet Finset.subset_union_right (fun _ => ⟨rfl, rfl⟩)
            (fun _ => rfl) fun answer => ?_
          split <;> exact gains_none

theorem settles_setBlocking (skt : ℤ) (shouldBlock : Bool) :
    Settles rights amfd (.setBlocking skt shouldBlock) := by
  refine settles_of_gains rfl rfl ?_
  rw [amsktSetBlocking]
  split
  · exact gains_none
  refine meets_quiet Finset.subset_union_right (fun _ => ⟨rfl, rfl⟩) (fun _ => rfl) fun rc => ?_
  split
  · exact gains_none
  refine meets_quiet Finset.subset_union_right (fun _ => ⟨rfl, rfl⟩) (fun _ => rfl) fun rc => ?_
  split <;> exact gains_none

theorem settles_disconnect (fd : ℤ) : Settles rights amfd (.disconnect fd) := by
  refine Program.meets_map.mpr ?_
  show (amsktDisconnect fd).Meets (owner rights amfd (.disconnect fd)) (fun _ => Settled ∅)
      (opened fd, 0)
  refine meets_owner Finset.subset_union_right (fun _ => Finset.Subset.refl _) fun _ _ _ => ?_
  refine ⟨Finset.empty_subset _, ?_⟩
  simp [rights, amfd]

theorem settles_queryToAddr (addr : Option (List UInt8)) (port : UInt16) (outAddr : AmsktAddr) :
    Settles rights amfd (.queryToAddr addr port outAddr) := by
  refine settles_of_gains rfl rfl ?_
  rw [amsktQueryToAddr]
  split
  · exact gains_none
  split
  · exact gains_none
  refine meets_getaddrinfo (fun _ => rfl) (fun rc bad => ?_) fun servinfo apart => ?_
  · simp only [if_pos bad]
    exact gains_none
  · exact meets_release (fun _ _ => rfl) apart gains_none

theorem settles_getServerSocket (family type : ℤ) (addr : Option (List UInt8)) (port : UInt16) :
    Settles rights amfd (.getServerSocket family type addr port) := by
  refine settles_of_gains rfl rfl ?_
  rw [amsktGetServerSocket]
  split
  · exact gains_failed
  split
  · exact gains_failed
  exact firstOf_gains (fun _ _ => rfl)
    (fun _ cur => serverRound_gains (fun _ _ => rfl) port cur) _ _

theorem settles_getClientSocket (family type : ℤ) (addr : Option (List UInt8)) (port : UInt16) :
    Settles rights amfd (.getClientSocket family type addr port) := by
  refine settles_of_gains rfl rfl ?_
  rw [amsktGetClientSocket]
  split
  · exact gains_failed
  split
  · exact gains_failed
  split
  · exact gains_failed
  split
  · exact gains_failed
  exact firstOf_gains (fun _ _ => rfl)
    (fun _ cur => clientRound_gains (fun _ _ => rfl) port cur) _ _

theorem settles (api : Api) : Settles rights amfd api := by
  cases api with
  | fdWrite fd memory buf len =>
      refine settles_of_gains rfl rfl ?_
      refine meets_quiet ?_ (fun _ => ⟨rfl, rfl⟩) (fun _ => rfl) fun _ => gains_none
      exact Finset.subset_union_right
  | fdRead fd memory buf len =>
      refine settles_of_gains rfl rfl
        ((amfdReadCalls_keeps ?_ (fun _ _ => rfl) memory buf len).imp ?_)
      · exact Finset.subset_union_right
      · rintro _ _ rfl
        exact gains_none
  | fileWrite filename memory data length => exact settles_fileWrite filename memory data length
  | fileRead filename => exact settles_fileRead filename
  | listen addr => exact settles_listen addr
  | connect addr => exact settles_connect addr
  | disconnect fd => exact settles_disconnect fd
  | accept server client remote => exact settles_accept server client remote
  | setBlocking skt shouldBlock => exact settles_setBlocking skt shouldBlock
  | localToAddr skt outAddr => exact (settles_name skt outAddr).1
  | remoteToAddr skt outAddr => exact (settles_name skt outAddr).2
  | queryToAddr addr port outAddr => exact settles_queryToAddr addr port outAddr
  | getServerSocket family type addr port => exact settles_getServerSocket family type addr port
  | getClientSocket family type addr port => exact settles_getClientSocket family type addr port

/-- In any interleaving of calls, whatever the system answers: a descriptor or a block that is out
is in one place, of those from the start, those that the users have, those that a call has in the
midst of its work and those that nobody has any more; no call closes or frees what is not its own,
or makes use of what is not open but for what its caller names; and a descriptor is let go for each
connection that is refused in `amskt_connect` and each failure of `lseek` or `malloc` in
`amfile_read`, and for nothing else. -/
theorem amfd_ledger {k : Kernel} {actions : List (Tid × Act Answer Api)}
    {c : Config Tid (Books Kernel Resource) (Task Answer Resource Api)}
    (run : Run (Config.step (next kernel amfd)) Any (opening Tid Resource Api Answer k) actions c) :
    (∀ r, places kernel k c r = (c.shared.system.out r).toNat) ∧
    (∀ t api call rest owned faults, c.pc t = .running api (.call call rest) owned faults →
      (∀ r ∈ rights.uses call, c.shared.system.out r = true ∨ r ∈ amfd.borrows api) ∧
        ∀ answer, rights.drops call answer ⊆ owned) ∧
    ((∀ t, c.pc t = .idle) → c.shared.lost.card = c.shared.faults) := by
  have accounted := accounted_run settles run
  refine ⟨accounted.placed, fun t api call rest owned faults running => ?_, fun idle => ?_⟩
  · have keeps := accounted.kept t
    rw [running] at keeps
    obtain ⟨⟨used, own⟩, -⟩ := keeps
    refine ⟨fun r needed => ?_, own⟩
    rcases Finset.mem_union.mp (used needed) with has | borrowed
    · exact .inl (accounted.out_of_owned (t := t) (by rw [running]; exact has)).1
    · exact .inr borrowed
  · have none : tally Task.faults c.pc = 0 := tally_eq_zero _ _ fun t => by rw [idle t]; rfl
    rw [accounted.faults, none, Nat.add_zero]

def refuses (skt : ℤ) : (c : Call) → Answer c
  | .read _ _ | .malloc _ => none
  | .free _ | .freeaddrinfo _ => ()
  | .accept _ | .getsockname _ | .getpeername _ => (-1, [])
  | .getaddrinfo _ _ => (-1, none)
  | .socket _ _ _ => skt
  | .openFile _ _ | .close _ | .write _ _ | .lseek _ _ | .setsockopt _ _ | .bind _ _ | .listen
      _ _ => (-1 : ℤ)
  | .connect _ _ | .getFlags _ | .setFlags _ _ => (-1 : ℤ)

/-- A connection and a server that are refused, at once: the socket of the one stays open. -/
theorem amfd_ledger_sample :
    ∃ c : Config (Fin 2) (Books Kernel Resource) (Task Answer Resource Api),
    (∀ r, places kernel ⟨fun _ => none, fun _ => false, fun _ => none⟩ c
      r = (c.shared.system.out r).toNat) ∧
      c.shared.lost = {.descriptor 3} ∧ c.shared.lost.card = c.shared.faults := by
  let addr : AmsktAddr := fun i => if i = 0 then 2 else 0
  have run : Run (Config.step (next kernel amfd)) Any
      (opening (Fin 2) Resource Api Answer ⟨fun _ => none, fun _ => false, fun _ => none⟩)
      [(0, .start (.connect addr)), (1, .start (.listen addr)), (0, .answer (refuses 3)),
        (1, .answer (refuses 4)),
        (0, .answer (refuses 5)), (1, .answer (refuses 5)), (1, .answer (refuses 5)), (0, .finish),
        (1, .finish)] _ :=
    run_any rfl
  obtain ⟨placed, -, lost⟩ := amfd_ledger run
  exact ⟨_, placed, rfl, lost (Fin.forall_fin_two.mpr ⟨rfl, rfl⟩)⟩

end Ledger

end Libam.Fdopers
