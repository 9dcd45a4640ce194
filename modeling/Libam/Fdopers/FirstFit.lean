import Libam.Fdopers.Sockets

/-! The sockets that `libam_fdopers.c` gives: which of the addresses that a name has they are for,
and what has been done to them. -/

namespace Libam.Fdopers

open Libam.Syscalls Libam.Text
open Program (alone Event meets_alone)

section Rounds

def serving (port : UInt16) (cur : Addrinfo) : Socket :=
  { fresh cur.aiFamily cur.aiSocktype cur.aiProtocol with
    reuseAddr := true
    reusePort := true
    bound := some (candidateAddr port cur)
    backlog := if cur.aiSocktype ≠ SOCK_DGRAM then some 15 else none }

def connected (port : UInt16) (cur : Addrinfo) : Socket :=
  { fresh cur.aiFamily cur.aiSocktype cur.aiProtocol with peer := some (candidateAddr port cur) }

def refused : Event Answer → Bool
  | ⟨.socket _ _ _, ret⟩ | ⟨.setsockopt _ _, ret⟩ | ⟨.bind _ _, ret⟩ => (ret : ℤ) = -1
  | ⟨.listen _ _, ret⟩ | ⟨.connect _ _, ret⟩ => (ret : ℤ) = -1
  | _ => false

def refusals (events : List (Event Answer)) : ℕ := events.countP refused

variable {k k' : Kernel} {skt ret : ℤ} {d : Descriptor} {s : Socket}

theorem opens_cases (opens : k.opens ret d = some k') :
    ret = -1 ∧ k' = k ∨ 0 ≤ ret ∧ k.look ret = none ∧ k' = k.put ret (some d) := by
  rw [Kernel.opens] at opens
  split_ifs at opens with failed free
  · exact .inl ⟨failed, (Option.some.inj opens).symm⟩
  · exact .inr ⟨free.1, free.2, (Option.some.inj opens).symm⟩

theorem put_put (d d' : Option Descriptor) : (k.put skt d).put skt d' = k.put skt d' := by
  simp only [Kernel.put, Function.update_idem]

theorem put_none (nonneg : 0 ≤ skt) (free : k.look skt = none) : k.put skt none = k := by
  rw [Kernel.look, if_pos nonneg] at free
  rw [Kernel.put, ← free, Function.update_eq_self]

theorem edits_cases {edit : Socket → Option Socket} (nonneg : 0 ≤ skt)
    (edits : (k.put skt (some (.socket s))).edits skt ret edit = some k') :
    ret = -1 ∧ k' = k.put skt (some (.socket s)) ∨
      ret = 0 ∧ ∃ s', edit s = some s' ∧ k' = k.put skt (some (.socket s')) := by
  rw [Kernel.edits] at edits
  split_ifs at edits with failed good
  · exact .inl ⟨failed, (Option.some.inj edits).symm⟩
  · rw [look_put nonneg, if_pos rfl] at edits
    obtain ⟨s', edited, rfl⟩ := Option.map_eq_some_iff.mp edits
    exact .inr ⟨good, s', edited, put_put _ _⟩

theorem close_cases (nonneg : 0 ≤ skt) (free : k.look skt = none)
    (closes : (k.put skt (some d)).serve (.close skt) ret = some k') : k' = k := by
  simp only [Kernel.serve, look_put nonneg, if_true] at closes
  split_ifs at closes
  rw [← Option.some.inj closes, put_put, put_none nonneg free]

variable {port : UInt16} {cur : Addrinfo} {events tried : List (Event Answer)}

/-- What a round comes to: one refusal, and nothing else is left of it; or the socket,
with no refusal. -/
def Tried (socketFor : Addrinfo → Socket) (cur : Addrinfo) (k : Kernel)
    (events : List (Event Answer)) (skt : ℤ) (after : Kernel × List (Event Answer)) : Prop :=
  ∃ tried, after.2 = events ++ tried ∧
    (skt = -1 ∧ after.1 = k ∧ refusals tried = 1 ∨
      0 ≤ skt ∧ k.look skt = none ∧ after.1 = k.put skt (some (.socket (socketFor cur))) ∧
      refusals tried = 0)

theorem refusals_snoc (event : Event Answer) :
    refusals (tried ++ [event]) = refusals tried + if refused event then 1 else 0 := by
  rw [refusals, List.countP_append, List.countP_singleton, refusals]

/-- A call for the socket of a round: it is refused, and the socket is closed, or it
edits the socket. -/
theorem meets_edit {c : Call} {f : Answer c → Program Answer ℤ} {socketFor : Addrinfo → Socket}
    {edit : Socket → Option Socket} {r : Answer c → ℤ} (nonneg : 0 ≤ skt) (free : k.look skt = none)
    (edits : ∀ (k : Kernel) answer, k.serve c answer = k.edits skt (r answer) edit)
    (counts : ∀ answer, refused ⟨c, answer⟩ = decide (r answer = -1)) (none : refusals tried = 0)
    (failed : ∀ answer, r answer = -1 → f answer = do let _ ← ask (.close skt); return -1)
    (rest : ∀ answer tried' s', r answer = 0 → edit s = some s' → refusals tried' = 0 →
      (f answer).Meets (alone Kernel.serve) (Tried socketFor cur k events)
        (k.put skt (some (.socket s')), events ++ tried')) :
    (ask c >>= f).Meets (alone Kernel.serve) (Tried socketFor cur k events)
      (k.put skt (some (.socket s)), events ++ tried) := by
  refine meets_alone fun answer k' served => ?_
  have counted : refusals (tried ++ [⟨c, answer⟩]) = _ := refusals_snoc _
  rw [none, counts, Nat.zero_add] at counted
  rw [List.append_assoc]
  rw [edits] at served
  obtain ⟨refused, rfl⟩ | ⟨good, s', edited, rfl⟩ := edits_cases nonneg served
  · rw [failed answer refused]
    rw [refused] at counted
    refine meets_alone fun rc k' closed => ?_
    refine ⟨_, List.append_assoc .., .inl ⟨rfl, close_cases nonneg free closed, ?_⟩⟩
    rw [refusals_snoc, counted]
    rfl
  · rw [good] at counted
    exact rest answer _ s' good edited counted

theorem meets_open {socketFor : Addrinfo → Socket} {f : ℤ → Program Answer ℤ}
    (failed : f (-1) = return -1)
    (rest : ∀ skt tried, 0 ≤ skt → k.look skt = none → refusals tried = 0 →
      (f skt).Meets (alone Kernel.serve)
      (Tried socketFor cur k events)
      (k.put skt (some (.socket (fresh cur.aiFamily cur.aiSocktype cur.aiProtocol))),
        events ++ tried)) :
    (ask (.socket cur.aiFamily cur.aiSocktype cur.aiProtocol) >>= f).Meets (alone Kernel.serve)
      (Tried socketFor cur k events) (k, events) := by
  refine meets_alone fun (skt : ℤ) k' served => ?_
  obtain ⟨rfl, rfl⟩ | ⟨nonneg, free, rfl⟩ := opens_cases served
  · rw [failed]
    exact ⟨_, rfl, .inl ⟨rfl, rfl, rfl⟩⟩
  · refine rest skt _ nonneg free ?_
    have other : ¬ skt = -1 := by omega
    simp [refusals, refused, other]

theorem serverRound_tried (port : UInt16) (cur : Addrinfo) (k : Kernel)
    (events : List (Event Answer)) :
    (serverRound port cur).Meets (alone Kernel.serve) (Tried (serving port) cur k events)
    (k, events) := by
  refine meets_open rfl fun skt tried nonneg free none => ?_
  rw [if_neg (by omega)]
  refine meets_edit (r := id) nonneg free (fun _ _ => rfl) (fun _ => rfl) none ?_ ?_
  · rintro _ rfl
    rfl
  rintro _ tried _ rfl ⟨⟩ none
  refine meets_edit (r := id) nonneg free (fun _ _ => rfl) (fun _ => rfl) none ?_ ?_
  · rintro _ rfl
    rfl
  rintro _ tried _ rfl ⟨⟩ none
  refine meets_edit (r := id) nonneg free (fun _ _ => rfl) (fun _ => rfl) none ?_ ?_
  · rintro _ rfl
    rfl
  rintro _ tried s' rfl edited none
  obtain ⟨-, ⟨⟩⟩ := Option.ite_none_right_eq_some.mp edited
  show Program.Meets _ _ (if cur.aiSocktype ≠ SOCK_DGRAM then _ else _) _
  split
  · next stream =>
      refine meets_edit (r := id) nonneg free (fun _ _ => rfl) (fun _ => rfl) none ?_ ?_
      · rintro _ rfl
        rfl
      rintro _ tried _ rfl ⟨⟩ none
      refine ⟨tried, rfl, .inr ⟨nonneg, free, ?_, none⟩⟩
      simp [serving, stream, fresh]
  · next datagram =>
      refine ⟨tried, rfl, .inr ⟨nonneg, free, ?_, none⟩⟩
      simp [serving, datagram, fresh]

theorem clientRound_tried (port : UInt16) (cur : Addrinfo) (k : Kernel)
    (events : List (Event Answer)) :
    (clientRound port cur).Meets (alone Kernel.serve) (Tried (connected port) cur k events)
    (k, events) := by
  refine meets_open rfl fun skt tried nonneg free none => ?_
  rw [if_neg (by omega)]
  refine meets_edit (r := id) nonneg free (fun _ _ => rfl) (fun _ => rfl) none ?_ ?_
  · rintro _ rfl
    rfl
  rintro _ tried s' rfl edited none
  obtain ⟨-, ⟨⟩⟩ := Option.ite_none_right_eq_some.mp edited
  exact ⟨tried, rfl, .inr ⟨nonneg, free, rfl, none⟩⟩

end Rounds

section Candidates

variable {k : Kernel} {events : List (Event Answer)} {port : UInt16}

/-- A socket for the first candidate that is not refused, with nothing left of those before it; or
none, and as many refusals as candidates. -/
inductive FirstFit (socketFor : Addrinfo → Socket) (candidates : List Addrinfo) (k : Kernel)
    (refusals : ℕ) :
    ℤ → Kernel → Prop
  | nowhere : refusals = candidates.length → FirstFit socketFor candidates k refusals (-1) k
  | here {cur : Addrinfo} {skt : ℤ} : candidates[refusals]? = some cur → 0 ≤ skt →
      k.look skt = none →
      FirstFit socketFor candidates k refusals skt (k.put skt (some (.socket (socketFor cur))))

theorem eachCandidate_firstFit {round : Addrinfo → Program Answer ℤ} {socketFor : Addrinfo → Socket}
    (tries : ∀ cur k events, (round cur).Meets (alone Kernel.serve)
      (Tried socketFor cur k events) (k, events))
    (candidates : List Addrinfo) (k : Kernel) (events : List (Event Answer)) :
    (eachCandidate round candidates).Meets (alone Kernel.serve) (fun skt after => ∃ tried,
      after.2 = events ++ tried ∧ FirstFit socketFor candidates k (refusals tried) skt after.1)
      (k, events) := by
  induction candidates generalizing events with
  | nil => exact ⟨[], (List.append_nil _).symm, .nowhere rfl⟩
  | cons cur rest ih =>
      refine (tries cur k events).bind fun skt after attempt => ?_
      obtain ⟨tried, grown, ⟨rfl, same, one⟩ | ⟨nonneg, free, put, none⟩⟩ := attempt
      · rw [if_pos rfl, show after = (k, events ++ tried) from Prod.ext same grown]
        refine (ih (events ++ tried)).imp fun skt after found => ?_
        obtain ⟨k', events'⟩ := after
        obtain ⟨tried', grown', fit⟩ := found
        refine ⟨tried ++ tried', by rw [grown', List.append_assoc], ?_⟩
        have sum : refusals (tried ++ tried') = refusals tried' + 1 := by
          rw [refusals, List.countP_append, ← refusals, ← refusals, one, Nat.add_comm]
        rw [sum]
        cases fit with
        | nowhere all => exact .nowhere (congrArg (· + 1) all)
        | here there nonneg free => exact .here (by rwa [List.getElem?_cons_succ]) nonneg free
      · rw [if_neg (by omega)]
        refine ⟨tried, grown, ?_⟩
        rw [put, none]
        exact .here rfl nonneg free

/-- What the functions give: nothing for arguments that they refuse or a name without addresses,
else a socket for the first of the addresses that they get. -/
inductive Given (valid : Prop) (node : Option (List UInt8)) (hints : Hints)
    (socketFor : Addrinfo → Socket) (k : Kernel) : ℤ → Kernel × List (Event Answer) → Prop
  | invalid : ¬ valid → Given valid node hints socketFor k (-1) (k, [])
  | unknown {rc : ℤ} : valid → rc ≠ 0 →
      Given valid node hints socketFor k (-1) (k, [⟨.getaddrinfo node hints, (rc, none)⟩])
  | looked {servinfo : Option (ℕ × List Addrinfo)} {events : List (Event Answer)} {skt : ℤ}
      {k' : Kernel} : valid →
      FirstFit socketFor (found servinfo) k (refusals events) skt k' →
      Given valid node hints socketFor k skt
      (k', ⟨.getaddrinfo node hints, (0, servinfo)⟩ :: events)

/-- Once the list of addresses is given back, the system is as if it had not been there. -/
theorem FirstFit.takes {socketFor : Addrinfo → Socket} {candidates : List Addrinfo}
    {refusals list : ℕ} {skt : ℤ} {k₁ k₂ k₃ : Kernel} (gives : k.gives list = some k₁)
    (fit : FirstFit socketFor candidates k₁ refusals skt k₂) (takes : k₂.takes list = some k₃) :
    FirstFit socketFor candidates k refusals skt k₃ := by
  rw [Kernel.gives] at gives
  split_ifs at gives with used
  have unused : k.blocks list = false := Bool.eq_false_iff.mpr used
  have restored : Function.update (Function.update k.blocks list true) list false = k.blocks := by
    rw [Function.update_idem, ← unused, Function.update_eq_self]
  cases gives
  cases takes
  cases fit with
  | nowhere all =>
      rw [show ({ k with blocks := _ } : Kernel) = k from
        congrArg (Kernel.mk k.table · k.files) restored]
      exact .nowhere all
  | here there nonneg free =>
      simp only [put_blocks, restored]
      exact .here there nonneg free

theorem firstOf_given {valid : Prop} (holds : valid) {round : Addrinfo → Program Answer ℤ}
    {socketFor : Addrinfo → Socket}
    (tries : ∀ cur k events, (round cur).Meets (alone Kernel.serve)
      (Tried socketFor cur k events) (k, events))
    (node : Option (List UInt8)) (hints : Hints) (k : Kernel) :
    (firstOf round node hints).Meets (alone Kernel.serve)
    (Given valid node hints socketFor k) (k, []) := by
  refine meets_alone fun answer k₁ served => ?_
  obtain ⟨rc, servinfo⟩ := answer
  cases servinfo with
  | none =>
      simp only [Kernel.serve] at served
      split_ifs at served with good
      cases served
      simp only [if_pos good]
      exact .unknown holds good
  | some info =>
      obtain ⟨list, candidates⟩ := info
      simp only [Kernel.serve] at served
      split_ifs at served with good
      subst good
      refine (eachCandidate_firstFit tries candidates k₁ _).bind fun skt after found => ?_
      obtain ⟨k₂, events⟩ := after
      obtain ⟨tried, rfl, fit⟩ := found
      refine meets_alone fun _ k₃ freed => ?_
      have counted : refusals (tried ++ [⟨.freeaddrinfo list, ()⟩]) = refusals tried := by
        rw [refusals_snoc]
        rfl
      have whole := fit.takes served freed
      rw [← counted] at whole
      exact .looked holds whole

def Known (family type : ℤ) : Prop :=
  (family = AF_UNSPEC.toNat ∨ family = AF_INET.toNat ∨ family = AF_INET6.toNat) ∧
    (type = SOCK_STREAM ∨ type = SOCK_DGRAM)

/-- Whatever the system answers, the two functions give a socket for the first of the addresses for
which it refuses nothing: bound to it with the port and listening, or connected to it; or they give
none, when there is a refusal for every address. Nothing else that they have opened or been given
stays with them. -/
theorem amskt_first_fit (k : Kernel) (family type : ℤ) (addr : Option (List UInt8))
    (port : UInt16) :
    (amsktGetServerSocket family type addr port).Meets (alone Kernel.serve)
      (Given (Known family type) (serverNode addr)
        ⟨family, type, AI_PASSIVE ||| AI_NUMERICHOST ||| AI_NUMERICSERV⟩ (serving port) k) (k, []) ∧
    (amsktGetClientSocket family type addr port).Meets (alone Kernel.serve)
      (Given (Known family type ∧ addr ≠ none ∧ addr ≠ some [] ∧ port ≠ 0) addr
        ⟨family, type, AI_NUMERICSERV⟩
        (connected port) k) (k, []) := by
  constructor
  · rw [amsktGetServerSocket]
    split
    · next unknown => exact .invalid fun valid => by simp_all [Known]
    split
    · next unknown => exact .invalid fun valid => by simp_all [Known]
    have known : Known family type := by
      simp only [Known]
      tauto
    exact firstOf_given known (serverRound_tried port) _ _ k
  · rw [amsktGetClientSocket]
    split
    · next unknown => exact .invalid fun valid => by simp_all [Known]
    split
    · next unknown => exact .invalid fun valid => by simp_all [Known]
    split
    · next absent => exact .invalid fun valid => absurd absent (by tauto)
    split
    · next zero => exact .invalid fun valid => valid.2.2.2 zero
    have known : Known family type := by
      simp only [Known]
      tauto
    exact firstOf_given ⟨known, by tauto, by tauto, by assumption⟩ (clientRound_tried port) _ _ k

end Candidates

section Plain

variable {k : Kernel} {addr : AmsktAddr}

/-- The socket of `amskt_listen`: any address of the machine, with the port of the
caller as it is. -/
def listening (addr : AmsktAddr) : Socket :=
  { fresh AF_INET.toNat SOCK_STREAM 0 with
    reuseAddr := true
    reusePort := true
    bound := some (read (anyAddr addr) 0 sockaddrSize)
    backlog := some 5 }

/-- What `amskt_listen` leaves: a socket of IPv4, or nothing. -/
inductive Listened (addr : AmsktAddr) (k : Kernel) : Amrc × Option ℤ → Kernel → Prop
  | listens {skt : ℤ} : uint16At addr familyOffset = AF_INET → 0 ≤ skt → k.look skt = none →
      Listened addr k (.success, some skt) (k.put skt (some (.socket (listening addr))))
  | fails : Listened addr k (.error, none) k

/-- What `amskt_connect` leaves: a socket of IPv4; nothing; or the socket that it
could not connect. -/
inductive Connected (addr : AmsktAddr) (k : Kernel) : Amrc × Option ℤ → Kernel → Prop
  | connects {fd : ℤ} : uint16At addr familyOffset = AF_INET → 0 ≤ fd → k.look fd = none →
      Connected addr k (.success, some fd) (k.put fd (some (.socket
        { fresh AF_INET.toNat SOCK_STREAM 0 with peer := some (read addr 0 sockaddrSize) })))
  | fails : Connected addr k (.error, none) k
  | forgets {fd : ℤ} : 0 ≤ fd → k.look fd = none →
      Connected addr k (.error, none)
      (k.put fd (some (.socket (fresh (familyOf addr) SOCK_STREAM 0))))

theorem meets_listenClose {skt : ℤ} {d : Descriptor} {events : List (Event Answer)}
    (nonneg : 0 ≤ skt) (free : k.look skt = none) : (listenClose skt).Meets (alone Kernel.serve)
      (fun result after => Listened addr k result after.1) (k.put skt (some d), events) := by
  rw [listenClose, if_pos nonneg]
  refine meets_alone fun rc k' closed => ?_
  rw [close_cases nonneg free closed]
  exact .fails

theorem meets_listen {c : Call} {f : Answer c → Program Answer (Amrc × Option ℤ)}
    {skt : ℤ} {s : Socket}
    {events : List (Event Answer)} {edit : Socket → Option Socket} {r : Answer c → ℤ}
    (nonneg : 0 ≤ skt)
    (free : k.look skt = none)
    (edits : ∀ (k : Kernel) answer, k.serve c answer = k.edits skt (r answer) edit)
    (failed : ∀ answer, r answer = -1 → f answer = listenClose skt)
    (rest : ∀ answer events s', r answer = 0 → edit s = some s' →
      (f answer).Meets (alone Kernel.serve)
      (fun result after => Listened addr k result after.1)
      (k.put skt (some (.socket s')), events)) :
    (ask c >>= f).Meets (alone Kernel.serve) (fun result after => Listened addr k result after.1)
      (k.put skt (some (.socket s)), events) := by
  refine meets_alone fun answer k' served => ?_
  rw [edits] at served
  obtain ⟨refused, rfl⟩ | ⟨good, s', edited, rfl⟩ := edits_cases nonneg served
  · rw [failed answer refused]
    exact meets_listenClose nonneg free
  · exact rest answer _ s' good edited

theorem familyOf_inet
    (known : ¬ (uint16At addr familyOffset ≠ AF_INET ∧ uint16At addr familyOffset ≠ AF_INET6))
    {s : Socket} (domain : s.domain = familyOf addr) {address : List UInt8}
    (short : address.length = sockaddrSize) (fit : fits s address = true) :
    uint16At addr familyOffset = AF_INET := by
  by_contra other
  have inet6 : uint16At addr familyOffset = AF_INET6 := by tauto
  rw [fits, domain, familyOf, inet6, if_pos rfl, short] at fit
  cases fit

/-- `amskt_listen` and `amskt_connect` hand the system 16 bytes of an address. So they never give a
socket of IPv6; where they give none, the first leaves nothing behind, the second a socket that it
has opened. -/
theorem amskt_ipv4_only (k : Kernel) (addr : AmsktAddr) (events : List (Event Answer)) :
    (amsktListen addr).Meets (alone Kernel.serve)
    (fun result after => Listened addr k result after.1) (k, events) ∧
    (amsktConnect addr).Meets (alone Kernel.serve)
      (fun result after => Connected addr k result after.1)
      (k, events) := by
  constructor
  · rw [amsktListen]
    split
    · exact .fails
    next known =>
    refine meets_alone fun (skt : ℤ) k' served => ?_
    obtain ⟨rfl, rfl⟩ | ⟨nonneg, free, rfl⟩ := opens_cases served
    · exact .fails
    rw [if_neg (by omega)]
    refine meets_listen (r := id) nonneg free (fun _ _ => rfl) ?_ ?_
    · rintro _ rfl
      rfl
    rintro _ events _ rfl ⟨⟩
    refine meets_listen (r := id) nonneg free (fun _ _ => rfl) ?_ ?_
    · rintro _ rfl
      rfl
    rintro _ events _ rfl ⟨⟩
    refine meets_listen (r := id) nonneg free (fun _ _ => rfl) ?_ ?_
    · rintro _ rfl
      rfl
    rintro _ events _ rfl edited
    obtain ⟨fit, ⟨⟩⟩ := Option.ite_none_right_eq_some.mp edited
    have inet : uint16At addr familyOffset = AF_INET := familyOf_inet known rfl (by simp) fit
    refine meets_listen (r := id) nonneg free (fun _ _ => rfl) ?_ ?_
    · rintro _ rfl
      rfl
    rintro _ events _ rfl ⟨⟩
    have domain : familyOf addr = AF_INET.toNat := by rw [familyOf, inet]
    rw [domain]
    exact .listens inet nonneg free
  · rw [amsktConnect]
    split
    · exact .fails
    next known =>
    refine meets_alone fun (fd : ℤ) k' served => ?_
    obtain ⟨rfl, rfl⟩ | ⟨nonneg, free, rfl⟩ := opens_cases served
    · exact .fails
    rw [if_neg (by omega)]
    refine meets_alone fun (rc : ℤ) k' served => ?_
    obtain ⟨rfl, rfl⟩ | ⟨rfl, s', edited, rfl⟩ := edits_cases nonneg served
    · exact .forgets nonneg free
    obtain ⟨fit, ⟨⟩⟩ := Option.ite_none_right_eq_some.mp edited
    have inet : uint16At addr familyOffset = AF_INET := familyOf_inet known rfl (by simp) fit
    have domain : familyOf addr = AF_INET.toNat := by rw [familyOf, inet]
    rw [domain]
    exact .connects inet nonneg free

end Plain

end Libam.Fdopers
