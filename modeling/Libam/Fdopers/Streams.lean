import Libam.Concurrency.Interleaving
import Libam.Text.Bytes

/-! `amskt_send` and `amskt_recv`: two loops that go on after short transfers and after errors that
the caller ignores. A step is an answer of the kernel. -/

namespace Libam.Fdopers

open Libam.Interleaving
open Libam.Text

section Model

def EINTR : ℕ := 4
def EAGAIN : ℕ := 11
def EWOULDBLOCK : ℕ := 11

/-- `amskt_ignore_t`. -/
def AMSKT_IGNORE_WOULDBLOCK : UInt32 := 1
def AMSKT_IGNORE_INTER : UInt32 := 2
def AMSKT_IGNORE_PACKET : UInt32 := 4

/-- The answer to a call: so many bytes are moved, none where the other end is
closed; or an error. -/
inductive Reply
  | moved (count : ℕ)
  | failed (errno : ℕ)
  deriving DecidableEq, Repr

def Reply.count : Reply → ℕ
  | .moved count => count
  | .failed _ => 0

def asInt (count : ℕ) : ℤ :=
  let word : ℕ := count % 2 ^ 32
  if word < 2 ^ 31 then word else word - 2 ^ 32

def Reply.ret : Reply → ℤ
  | .moved count => asInt count
  | .failed _ => -1

def Reply.errno : Reply → ℕ
  | .moved _ => 0
  | .failed errno => errno

/-- The variables of the loops, `buf` from the start of the buffer, and what the
function has returned. -/
structure Loop where
  remaining : UInt32
  buf : ℕ
  returned : Option UInt32
  deriving DecidableEq, Repr

/-- `while (remaining > 0)`, with `return length` after it. -/
def Loop.head (length : UInt32) (loop : Loop) : Loop :=
  if loop.remaining > 0 then loop else { loop with returned := some length }

def Loop.advance (ignore length : UInt32) (loop : Loop) (ret : ℤ) : Loop :=
  let loop := { loop with
    remaining := loop.remaining - UInt32.ofInt ret, buf := loop.buf + ret.toNat }
  if ignore &&& AMSKT_IGNORE_PACKET =
    0 then { loop with returned := some (length - loop.remaining) }
  else loop.head length

def Loop.recover (ignore length : UInt32) (loop : Loop) (errno : ℕ) : Loop :=
  if (errno = EWOULDBLOCK ∨ errno = EAGAIN) ∧
    ignore &&& AMSKT_IGNORE_WOULDBLOCK ≠ 0 then loop.head length
  else if errno = EINTR ∧ ignore &&& AMSKT_IGNORE_INTER ≠ 0 then loop.head length
  else { loop with returned := some (length - loop.remaining) }

/-- A round of `amskt_send`. -/
def sendRound (ignore length : UInt32) (loop : Loop) (reply : Reply) : Loop :=
  if reply.ret ≤ 0 then loop.recover ignore length reply.errno
  else loop.advance ignore length reply.ret

/-- A round of `amskt_recv`. -/
def recvRound (ignore length : UInt32) (loop : Loop) (reply : Reply) : Loop :=
  if reply.ret = 0 then { loop with returned := some (length - loop.remaining) }
  else if reply.ret < 0 then loop.recover ignore length reply.errno
  else loop.advance ignore length reply.ret

/-- A call of `amskt_send`, and the bytes that the kernel has been handed. -/
structure Sending where
  loop : Loop
  stream : List UInt8

/-- A call of `amskt_recv`, the memory and the bytes that are still to be received. -/
structure Receiving where
  loop : Loop
  memory : ℕ → UInt8
  stream : List UInt8

def startSend (length : UInt32) : Sending := ⟨Loop.head length ⟨length, 0, none⟩, []⟩

def startRecv (length : UInt32) (memory : ℕ → UInt8) (stream : List UInt8) : Receiving :=
  ⟨Loop.head length ⟨length, 0, none⟩, memory, stream⟩

/-- The kernel takes no more bytes than it is offered. -/
def sendStep (ignore length : UInt32) (memory : ℕ → UInt8) (buffer : ℕ) (s : Sending)
    (reply : Reply) : Option Sending :=
  if s.loop.returned = none ∧ reply.count ≤ s.loop.remaining.toNat then
    some ⟨sendRound ignore length s.loop reply,
      s.stream ++ read memory (buffer + s.loop.buf) reply.count⟩
  else none

/-- The kernel gives no more bytes than there is room for and the stream has. -/
def recvStep (ignore length : UInt32) (buffer : ℕ) (s : Receiving) (reply : Reply) :
    Option Receiving :=
  if s.loop.returned = none ∧ reply.count ≤ s.loop.remaining.toNat ∧
    reply.count ≤ s.stream.length then
    some ⟨recvRound ignore length s.loop reply,
      poke s.memory (buffer + s.loop.buf) (s.stream.take reply.count), s.stream.drop reply.count⟩
  else none

/-- The answers that the kernel can give one after the other while so many bytes are left to move:
it is not called when none are, and it moves no more of them than there are. -/
def Legal : ℕ → List Reply → Prop
  | _, [] => True
  | left, reply :: replies => 0 < left ∧ reply.count ≤ left ∧ Legal (left - reply.count) replies

instance decidableLegal : (left : ℕ) → (replies : List Reply) → Decidable (Legal left replies)
  | _, [] => inferInstanceAs (Decidable True)
  | left, reply :: replies =>
      have := decidableLegal (left - reply.count) replies
      inferInstanceAs (Decidable (_ ∧ _ ∧ _))

def bytesMoved (replies : List Reply) : ℕ := (replies.map Reply.count).sum

end Model

section Steps

variable {ignore length : UInt32} {memory : ℕ → UInt8} {buffer : ℕ} {reply : Reply}
  {replies : List Reply}

theorem sendStep_isSome {s : Sending} :
    (sendStep ignore length memory buffer s reply).isSome = true ↔
    s.loop.returned = none ∧ reply.count ≤ s.loop.remaining.toNat := by
  rw [sendStep]
  split_ifs with allowed <;> simp [allowed]

theorem recvStep_isSome {s : Receiving} : (recvStep ignore length buffer s reply).isSome = true ↔
    s.loop.returned = none ∧ reply.count ≤ s.loop.remaining.toNat ∧
    reply.count ≤ s.stream.length := by
  rw [recvStep]
  split_ifs with allowed <;> simp [allowed]

theorem bytesMoved_append : bytesMoved (replies ++ [reply]) = bytesMoved replies + reply.count := by
  rw [bytesMoved, List.map_append, List.sum_append, List.map_singleton,
    List.sum_singleton, bytesMoved]

theorem legal_append {left : ℕ} : Legal left (replies ++ [reply]) ↔
    Legal left replies ∧ bytesMoved replies < left ∧ bytesMoved replies + reply.count ≤ left := by
  induction replies generalizing left with
  | nil => simp [Legal, bytesMoved]
  | cons first replies ih =>
      simp only [List.cons_append, Legal, ih, bytesMoved, List.map_cons, List.sum_cons]
      constructor
      · rintro ⟨some, fits, legal, open', room⟩
        exact ⟨⟨some, fits, legal⟩, by omega, by omega⟩
      · rintro ⟨⟨some, fits, legal⟩, open', room⟩
        exact ⟨some, fits, legal, by omega, by omega⟩

end Steps

section Rounds

variable {ignore length : UInt32} {loop : Loop} {reply : Reply} {replies : List Reply}

def Ignored (ignore : UInt32) (reply : Reply) : Prop :=
  (reply.errno = EWOULDBLOCK ∨ reply.errno = EAGAIN) ∧ ignore &&& AMSKT_IGNORE_WOULDBLOCK ≠ 0 ∨
    reply.errno = EINTR ∧ ignore &&& AMSKT_IGNORE_INTER ≠ 0

instance : Decidable (Ignored ignore reply) := inferInstanceAs (Decidable (_ ∨ _))

def Passed (ignore : UInt32) (reply : Reply) : Prop :=
  Ignored ignore reply ∨ 0 < reply.count ∧ ignore &&& AMSKT_IGNORE_PACKET ≠ 0

/-- The last answer has ended the call: a closed end, an error that is not ignored, or, where
packets are not ignored, the first transfer. -/
def Stopped (ignore : UInt32) (replies : List Reply) : Prop :=
  ∃ prior last, replies = prior ++ [last] ∧ (∀ reply ∈ prior, Passed ignore reply) ∧
    (last = .moved 0 ∨ (∃ errno, last = .failed errno) ∧ ¬ Ignored ignore last ∨
      0 < last.count ∧ ignore &&& AMSKT_IGNORE_PACKET = 0)

structure Progress (ignore length : UInt32) (replies : List Reply) (loop : Loop) : Prop where
  place : loop.buf + loop.remaining.toNat = length.toNat
  total : loop.buf = bytesMoved replies
  running : loop.returned = none → 0 < loop.remaining.toNat ∧ ∀ reply ∈ replies, Passed ignore reply
  stopped : ∀ r, loop.returned = some r →
    r.toNat = loop.buf ∧ (loop.buf < length.toNat → Stopped ignore replies)

theorem recvRound_eq : recvRound ignore length loop reply = sendRound ignore length loop reply := by
  rw [recvRound, sendRound]
  split_ifs with zero notPositive negative
  · have moved : reply.errno = 0 := by
      cases reply with
      | moved count => rfl
      | failed errno => cases zero
    simp [Loop.recover, moved, EWOULDBLOCK, EAGAIN, EINTR]
  · omega
  · rfl
  · omega
  · omega
  · rfl

theorem asInt_of_lt {count : ℕ} (small : count < 2 ^ 31) : asInt count = count := by
  have word : count % 2 ^ 32 = count := Nat.mod_eq_of_lt (by omega)
  simp only [asInt, word, small, if_true]

theorem toNat_ofInt {count : ℕ} (small : count < 2 ^ 32) :
    (UInt32.ofInt (count : ℤ)).toNat = count := by
  rw [UInt32.ofInt, UInt32.toNat_ofNat']
  omega

def Loop.Waiting (loop : Loop) : Prop := loop.returned = none ∧ 0 < loop.remaining.toNat

theorem positive_iff {value : UInt32} : value > 0 ↔ 0 < value.toNat := UInt32.lt_iff_toNat_lt

theorem Loop.Waiting.head (waits : loop.Waiting) : loop.head length = loop :=
  if_pos (positive_iff.mpr waits.2)

theorem recover_eq (waits : loop.Waiting) : loop.recover ignore length reply.errno =
    if Ignored ignore reply then loop
      else { loop with returned := some (length - loop.remaining) } := by
  rw [Loop.recover, waits.head]
  by_cases block : (reply.errno = EWOULDBLOCK ∨ reply.errno = EAGAIN) ∧
    ignore &&& AMSKT_IGNORE_WOULDBLOCK ≠ 0
  · have ignored : Ignored ignore reply := .inl block
    rw [if_pos block, if_pos ignored]
  by_cases interrupt : reply.errno = EINTR ∧ ignore &&& AMSKT_IGNORE_INTER ≠ 0
  · have ignored : Ignored ignore reply := .inr interrupt
    rw [if_neg block, if_pos interrupt, if_pos ignored]
  · have refused : ¬ Ignored ignore reply := not_or.mpr ⟨block, interrupt⟩
    rw [if_neg block, if_neg interrupt, if_neg refused]

theorem head_progress (place : loop.buf + loop.remaining.toNat = length.toNat)
    (total : loop.buf = bytesMoved replies) (waits : loop.returned = none)
    (passed : ∀ reply ∈ replies, Passed ignore reply) :
    Progress ignore length replies (loop.head length) := by
  rw [Loop.head]
  split_ifs with more
  · refine ⟨place, total, fun _ => ⟨positive_iff.mp more, passed⟩, fun r returned => ?_⟩
    rw [waits] at returned
    cases returned
  · have none_left : loop.remaining.toNat = 0 :=
      Nat.eq_zero_of_not_pos fun some_left => more (positive_iff.mpr some_left)
    have whole : length.toNat = loop.buf := by omega
    refine ⟨place, total, fun running => ?_, fun r returned => ?_⟩
    · cases running
    · cases returned
      exact ⟨whole, fun less => absurd whole less.ne'⟩

theorem progress_start (length : UInt32) :
    Progress ignore length [] (Loop.head length ⟨length, 0, none⟩) :=
  head_progress (Nat.zero_add _) rfl rfl fun _ member => by cases member

theorem Progress.waiting (progress : Progress ignore length replies loop)
    (waits : loop.returned = none) :
    loop.Waiting := ⟨waits, (progress.running waits).1⟩

theorem moved_toNat (place : loop.buf + loop.remaining.toNat = length.toNat) :
    (length - loop.remaining).toNat = loop.buf := by
  rw [UInt32.toNat_sub_of_le _ _ (UInt32.le_iff_toNat_le.mpr (by omega))]
  omega

theorem passed_append (passed : ∀ reply ∈ replies, Passed ignore reply)
    (last : Passed ignore reply) : ∀ reply' ∈ replies ++ [reply], Passed ignore reply' := by
  intro reply' member
  rcases List.mem_append.mp member with before | here
  · exact passed reply' before
  · rw [List.mem_singleton.mp here]
    exact last

theorem Progress.recover (progress : Progress ignore length replies loop)
    (waits : loop.returned = none) (nothing : reply.count = 0)
    (ended : reply = .moved 0 ∨ ∃ errno, reply = .failed errno) :
    Progress ignore length (replies ++ [reply]) (loop.recover ignore length reply.errno) := by
  obtain ⟨left, passed⟩ := progress.running waits
  have total : loop.buf = bytesMoved (replies ++ [reply]) := by
    rw [bytesMoved_append, nothing, Nat.add_zero, progress.total]
  rw [recover_eq ⟨waits, left⟩]
  split_ifs with ignored
  · refine ⟨progress.place, total, fun _ => ⟨left, passed_append passed (.inl ignored)⟩,
      fun r returned => ?_⟩
    rw [waits] at returned
    cases returned
  · refine ⟨progress.place, total, fun running => ?_, fun r returned => ?_⟩
    · cases running
    · cases returned
      refine ⟨moved_toNat progress.place, fun _ => ⟨replies, reply, rfl, passed, ?_⟩⟩
      exact ended.imp_right fun failed => .inl ⟨failed, ignored⟩

theorem Progress.advance (progress : Progress ignore length replies loop)
    (waits : loop.returned = none) (some_moved : 0 < reply.count)
    (fits : reply.count ≤ loop.remaining.toNat) :
    Progress ignore length (replies ++ [reply]) (loop.advance ignore length reply.count) := by
  obtain ⟨left, passed⟩ := progress.running waits
  have bound := loop.remaining.toNat_lt
  have count : (UInt32.ofInt (reply.count : ℤ)).toNat = reply.count := toNat_ofInt (by omega)
  have remaining : (loop.remaining - UInt32.ofInt (reply.count : ℤ)).toNat =
      loop.remaining.toNat - reply.count := by
    rw [UInt32.toNat_sub_of_le _ _ (UInt32.le_iff_toNat_le.mpr (by omega)), count]
  have place : loop.buf + reply.count + (loop.remaining - UInt32.ofInt (reply.count : ℤ)).toNat =
      length.toNat := by
    have before := progress.place
    omega
  have total : loop.buf + reply.count = bytesMoved (replies ++ [reply]) := by
    rw [bytesMoved_append, progress.total]
  rw [Loop.advance, Int.toNat_natCast]
  split_ifs with packet
  · refine ⟨place, total, fun running => ?_, fun r returned => ?_⟩
    · cases running
    · cases returned
      exact ⟨moved_toNat place, fun _ =>
        ⟨replies, reply, rfl, passed, .inr (.inr ⟨some_moved, packet⟩)⟩⟩
  · exact head_progress place total waits (passed_append passed (.inr ⟨some_moved, packet⟩))

theorem Progress.round (short : length.toNat < 2 ^ 31)
    (progress : Progress ignore length replies loop) (waits : loop.returned = none)
    (fits : reply.count ≤ loop.remaining.toNat) :
    Progress ignore length (replies ++ [reply]) (sendRound ignore length loop reply) := by
  have place := progress.place
  cases reply with
  | failed errno =>
      have negative : (Reply.failed errno).ret ≤ 0 := by rw [Reply.ret]; decide
      rw [sendRound, if_pos negative]
      exact progress.recover waits rfl (.inr ⟨errno, rfl⟩)
  | moved count =>
      have ret : (Reply.moved count).ret = count := by
        have fits : count ≤ loop.remaining.toNat := fits
        exact asInt_of_lt (by omega)
      rw [sendRound, ret]
      split_ifs with nothing
      · have zero : count = 0 := by omega
        subst zero
        exact progress.recover waits rfl (.inl rfl)
      · exact progress.advance waits (show 0 < count by omega) fits

theorem sendRound_buf (short : length.toNat < 2 ^ 31)
    (progress : Progress ignore length replies loop) (waits : loop.returned = none)
    (fits : reply.count ≤ loop.remaining.toNat) :
    (sendRound ignore length loop reply).buf = loop.buf + reply.count := by
  rw [(progress.round short waits fits).total, bytesMoved_append, progress.total]

end Rounds

section Runs

variable {ignore length : UInt32} {replies : List Reply} {loop : Loop}

theorem send_run {memory : ℕ → UInt8} {buffer : ℕ} {s : Sending} (short : length.toNat < 2 ^ 31)
    (run : Run (sendStep ignore length memory buffer) Any (startSend length) replies s) :
    Progress ignore length replies s.loop ∧ s.stream = read memory buffer s.loop.buf := by
  induction run with
  | nil =>
      have progress := @progress_start ignore length
      refine ⟨progress, ?_⟩
      rw [startSend, progress.total]
      rfl
  | @snoc replies before after reply run fired _ ih =>
      obtain ⟨progress, stream⟩ := ih
      rw [sendStep] at fired
      split_ifs at fired with allowed
      · obtain ⟨waits, fits⟩ := allowed
        cases fired
        refine ⟨progress.round short waits fits, ?_⟩
        rw [sendRound_buf short progress waits fits, stream, read_add]

theorem recv_run {memory : ℕ → UInt8} {buffer : ℕ} {stream : List UInt8} {s : Receiving}
    (short : length.toNat < 2 ^ 31)
    (run : Run (recvStep ignore length buffer) Any (startRecv length memory stream) replies s) :
    Progress ignore length replies s.loop ∧ s.loop.buf ≤ stream.length ∧
      s.stream = stream.drop s.loop.buf ∧ s.memory = poke memory buffer
      (stream.take s.loop.buf) := by
  induction run with
  | nil =>
      have progress := @progress_start ignore length
      refine ⟨progress, ?_⟩
      rw [startRecv, progress.total]
      exact ⟨Nat.zero_le _, rfl, poke_nil.symm⟩
  | @snoc replies before after reply run fired _ ih =>
      obtain ⟨progress, inside, left, filled⟩ := ih
      rw [recvStep] at fired
      split_ifs at fired with allowed
      · obtain ⟨waits, fits, there⟩ := allowed
        cases fired
        rw [left, List.length_drop] at there
        rw [recvRound_eq, sendRound_buf short progress waits fits]
        refine ⟨progress.round short waits fits, by omega, ?_, ?_⟩
        · rw [left, List.drop_drop]
        · have length_take : (stream.take before.loop.buf).length = before.loop.buf := by
            rw [List.length_take, Nat.min_eq_left inside]
          rw [filled, left, List.take_add, ← poke_poke, length_take]

/-- The answers of a stream that is not closed and has no other errors. -/
def Benign (reply : Reply) : Prop :=
  0 < reply.count ∨ reply.errno = EINTR ∨ reply.errno = EAGAIN ∨ reply.errno = EWOULDBLOCK

def AllIgnored (ignore : UInt32) : Prop :=
  ignore &&& AMSKT_IGNORE_WOULDBLOCK ≠ 0 ∧ ignore &&& AMSKT_IGNORE_INTER ≠ 0 ∧
    ignore &&& AMSKT_IGNORE_PACKET ≠ 0

def transfers (replies : List Reply) : ℕ := replies.countP fun reply => 0 < reply.count

theorem transfers_le (replies : List Reply) : transfers replies ≤ bytesMoved replies := by
  induction replies with
  | nil => rfl
  | cons reply replies ih =>
      rw [transfers, List.countP_cons, ← transfers, bytesMoved, List.map_cons,
        List.sum_cons, ← bytesMoved]
      split_ifs with moved
      · have positive := of_decide_eq_true moved
        omega
      · omega

/-- With all flags a call ends at its length only, after as many transfers at the most. -/
theorem Progress.whole (progress : Progress ignore length replies loop) (all : AllIgnored ignore)
    (benign : ∀ reply ∈ replies, Benign reply) :
    (∀ r, loop.returned = some r → r = length) ∧
      (length.toNat ≤ transfers replies → loop.returned = some length) := by
  obtain ⟨block, interrupt, packet⟩ := all
  have place := progress.place
  have total := progress.total
  have returned : ∀ r, loop.returned = some r → r = length := by
    intro r returned
    obtain ⟨moved, stopped⟩ := progress.stopped r returned
    refine UInt32.toNat_inj.mp (moved.trans ?_)
    by_contra short
    obtain ⟨prior, last, rfl, -, closed | ⟨failed, refused⟩ | ⟨-, packets⟩⟩ := stopped (by omega)
    · have harmless := benign last (List.mem_append_right _ (List.mem_singleton_self _))
      rw [closed] at harmless
      exact absurd harmless (by simp [Benign, Reply.count, Reply.errno, EINTR, EAGAIN, EWOULDBLOCK])
    · have harmless := benign last (List.mem_append_right _ (List.mem_singleton_self _))
      obtain ⟨errno, rfl⟩ := failed
      rcases harmless with moved | again | again | again
      · exact absurd moved (Nat.lt_irrefl 0)
      · exact refused (.inr ⟨again, interrupt⟩)
      · exact refused (.inl ⟨.inr again, block⟩)
      · exact refused (.inl ⟨.inl again, block⟩)
    · exact packet packets
  refine ⟨returned, fun enough => ?_⟩
  have most := transfers_le replies
  cases result : loop.returned with
  | none =>
      have left := (progress.running result).1
      omega
  | some r => rw [returned r result]

theorem Progress.returned_iff (progress : Progress ignore length replies loop)
    (all : AllIgnored ignore) (benign : ∀ reply ∈ replies, Benign reply) :
    (loop.returned = none ↔ bytesMoved replies < length.toNat) ∧
      (loop.returned = some length ↔ bytesMoved replies = length.toNat) := by
  have place := progress.place
  have moved := progress.total
  cases returned : loop.returned with
  | none =>
      have left := (progress.running returned).1
      exact ⟨iff_of_true rfl (by omega), iff_of_false (Option.some_ne_none _).symm (by omega)⟩
  | some r =>
      have same := (progress.whole all benign).1 r returned
      have whole := (progress.stopped r returned).1
      rw [same] at whole ⊢
      exact ⟨iff_of_false (Option.some_ne_none _) (by omega), iff_of_true rfl (by omega)⟩

theorem send_exists {memory : ℕ → UInt8} {buffer : ℕ} (short : length.toNat < 2 ^ 31)
    (all : AllIgnored ignore) (legal : Legal length.toNat replies)
    (benign : ∀ reply ∈ replies, Benign reply) :
    ∃ s, Run (sendStep ignore length memory buffer) Any (startSend length) replies s := by
  induction replies using List.reverseRecOn with
  | nil => exact ⟨_, .nil⟩
  | append_singleton replies reply ih =>
      obtain ⟨before, open', fits⟩ := legal_append.mp legal
      have earlier : ∀ reply ∈ replies, Benign reply := fun reply member =>
        benign reply (List.mem_append_left _ member)
      obtain ⟨s, run⟩ := ih before earlier
      have progress := (send_run short run).1
      have waits := (progress.returned_iff all earlier).1.mpr open'
      have place := progress.place
      rw [progress.total] at place
      obtain ⟨s', fired⟩ := Option.isSome_iff_exists.mp
        (sendStep_isSome.mpr ⟨waits, show reply.count ≤ _ by omega⟩)
      exact ⟨s', run.snoc fired trivial⟩

theorem recv_exists {memory : ℕ → UInt8} {buffer : ℕ} {stream : List UInt8}
    (short : length.toNat < 2 ^ 31) (all : AllIgnored ignore) (there : length.toNat ≤ stream.length)
    (legal : Legal length.toNat replies) (benign : ∀ reply ∈ replies, Benign reply) :
    ∃ s, Run (recvStep ignore length buffer) Any (startRecv length memory stream) replies s := by
  induction replies using List.reverseRecOn with
  | nil => exact ⟨_, .nil⟩
  | append_singleton replies reply ih =>
      obtain ⟨before, open', fits⟩ := legal_append.mp legal
      have earlier : ∀ reply ∈ replies, Benign reply := fun reply member =>
        benign reply (List.mem_append_left _ member)
      obtain ⟨s, run⟩ := ih before earlier
      obtain ⟨progress, -, left, -⟩ := recv_run short run
      have waits := (progress.returned_iff all earlier).1.mpr open'
      have place := progress.place
      rw [progress.total] at place left
      have room : reply.count ≤ s.stream.length := by
        rw [left, List.length_drop]
        omega
      obtain ⟨s', fired⟩ := Option.isSome_iff_exists.mp
        (recvStep_isSome.mpr ⟨waits, show reply.count ≤ _ by omega, room⟩)
      exact ⟨s', run.snoc fired trivial⟩

/-- What a call returns: the length, or less where it was stopped. -/
def Ended (ignore length : UInt32) (replies : List Reply) (r : UInt32) : Prop :=
  r ≤ length ∧ (r < length → Stopped ignore replies)

theorem Progress.ended (progress : Progress ignore length replies loop) {r : UInt32}
    (returned : loop.returned = some r) : r.toNat = loop.buf ∧ Ended ignore length replies r := by
  have place := progress.place
  obtain ⟨moved, stopped⟩ := progress.stopped r returned
  refine ⟨moved, UInt32.le_iff_toNat_le.mpr (by omega), fun less => stopped ?_⟩
  rw [← moved]
  exact UInt32.lt_iff_toNat_lt.mp less

theorem send_whole {memory : ℕ → UInt8} {buffer : ℕ} {s : Sending} (short : length.toNat < 2 ^ 31)
    (all : AllIgnored ignore)
    (run : Run (sendStep ignore length memory buffer) Any (startSend length) replies s)
    (benign : ∀ reply ∈ replies, Benign reply) :
      (length.toNat ≤ transfers replies → s.loop.returned = some length) ∧
      ∀ r, s.loop.returned = some r → r = length ∧ s.stream = read memory buffer length.toNat := by
  obtain ⟨progress, stream⟩ := send_run short run
  obtain ⟨whole, enough⟩ := progress.whole all benign
  refine ⟨enough, fun r returned => ⟨whole r returned, ?_⟩⟩
  rw [stream, ← (progress.ended returned).1, whole r returned]

theorem recv_whole {memory : ℕ → UInt8} {buffer : ℕ} {front more : List UInt8} {s : Receiving}
    (short : length.toNat < 2 ^ 31) (all : AllIgnored ignore) (size : front.length = length.toNat)
    (run : Run (recvStep ignore length buffer) Any
      (startRecv length memory (front ++ more)) replies s)
    (benign : ∀ reply ∈ replies, Benign reply) :
      (length.toNat ≤ transfers replies → s.loop.returned = some length) ∧
      ∀ r, s.loop.returned = some r → r = length ∧ s.stream = more ∧
      s.memory = poke memory buffer front := by
  obtain ⟨progress, inside, left, filled⟩ := recv_run short run
  obtain ⟨whole, enough⟩ := progress.whole all benign
  refine ⟨enough, fun r returned => ?_⟩
  have moved : s.loop.buf = front.length := by
    rw [← (progress.ended returned).1, whole r returned, size]
  rw [moved] at left filled
  rw [List.drop_left] at left
  rw [List.take_left] at filled
  exact ⟨whole r returned, left, filled⟩

/-- What a call that returns has handed the kernel, or filled the buffer with: the bytes that it
counts. With all flags, on a stream that stays open, these are all bytes on both sides. A call that
has not returned goes on with every answer that the kernel can give, so that it returns when the
answers have moved all bytes. -/
theorem amskt_transfer {length : UInt32} (short : length.toNat < 2 ^ 31) (memory : ℕ → UInt8)
    (buffer : ℕ) :
    (∀ ignore replies s, Run (sendStep ignore length memory buffer) Any
      (startSend length) replies s →
      ∀ r, s.loop.returned = some r →
        Ended ignore length replies r ∧ s.stream = read memory buffer r.toNat) ∧
    (∀ ignore stream memory' buffer' replies s,
      Run (recvStep ignore length buffer') Any (startRecv length memory' stream) replies s →
      ∀ r, s.loop.returned = some r →
        Ended ignore length replies r ∧ r.toNat ≤ stream.length ∧
          s.memory = poke memory' buffer' (stream.take r.toNat) ∧ s.stream = stream.drop r.toNat) ∧
    (∀ ignore, AllIgnored ignore → ∀ replies s,
      Run (sendStep ignore length memory buffer) Any (startSend length) replies s →
      (∀ reply ∈ replies, Benign reply) →
      (length.toNat ≤ transfers replies → s.loop.returned = some length) ∧
      ∀ r, s.loop.returned = some r → r = length ∧ s.stream = read memory buffer length.toNat ∧
        ∀ ignore', AllIgnored ignore' → ∀ more memory' buffer' replies' t,
          Run (recvStep ignore' length buffer') Any
          (startRecv length memory' (s.stream ++ more)) replies' t →
          (∀ reply ∈ replies', Benign reply) →
          (length.toNat ≤ transfers replies' → t.loop.returned = some length) ∧
          ∀ r', t.loop.returned = some r' → r' = length ∧ t.stream = more ∧
            t.memory = poke memory' buffer' (read memory buffer length.toNat)) ∧
    (∀ ignore s reply, s.loop.returned = none → reply.count ≤ s.loop.remaining.toNat →
      ∃ s', sendStep ignore length memory buffer s reply = some s') ∧
    (∀ ignore buffer' s reply, s.loop.returned = none → reply.count ≤ s.loop.remaining.toNat →
      reply.count ≤ s.stream.length → ∃ s', recvStep ignore length buffer' s reply = some s') ∧
    (∀ ignore, AllIgnored ignore → ∀ replies, Legal length.toNat replies →
      (∀ reply ∈ replies, Benign reply) →
      bytesMoved replies = length.toNat →
      ∃ s, Run (sendStep ignore length memory buffer) Any (startSend length) replies s ∧
        s.loop.returned = some length ∧ s.stream = read memory buffer length.toNat ∧
        ∀ ignore', AllIgnored ignore' → ∀ more memory' buffer' replies',
          Legal length.toNat replies' →
          (∀ reply ∈ replies', Benign reply) → bytesMoved replies' = length.toNat →
          ∃ t, Run (recvStep ignore' length buffer') Any
            (startRecv length memory' (s.stream ++ more)) replies' t ∧
            t.loop.returned = some length ∧ t.stream = more ∧
            t.memory = poke memory' buffer' (read memory buffer length.toNat)) := by
  refine ⟨?_, ?_, ?_, ?_, ?_, ?_⟩
  · intro ignore replies s run r returned
    obtain ⟨progress, stream⟩ := send_run short run
    obtain ⟨moved, ended⟩ := progress.ended returned
    exact ⟨ended, by rw [stream, moved]⟩
  · intro ignore stream memory' buffer' replies s run r returned
    obtain ⟨progress, inside, left, filled⟩ := recv_run short run
    obtain ⟨moved, ended⟩ := progress.ended returned
    rw [moved]
    exact ⟨ended, inside, filled, left⟩
  · intro ignore all replies s run benign
    obtain ⟨enough, sent⟩ := send_whole short all run benign
    refine ⟨enough, fun r returned => ?_⟩
    obtain ⟨whole, full⟩ := sent r returned
    refine ⟨whole, full, ?_⟩
    intro ignore' all' more memory' buffer' replies' t run' benign'
    rw [full] at run'
    exact recv_whole short all' (length_read _ _) run' benign'
  · intro ignore s reply waits fits
    exact Option.isSome_iff_exists.mp (sendStep_isSome.mpr ⟨waits, fits⟩)
  · intro ignore buffer' s reply waits fits there
    exact Option.isSome_iff_exists.mp (recvStep_isSome.mpr ⟨waits, fits, there⟩)
  · intro ignore all replies legal benign moved
    obtain ⟨s, run⟩ := send_exists short all legal benign
    have returned := ((send_run short run).1.returned_iff all benign).2.mpr moved
    have full := ((send_whole short all run benign).2 length returned).2
    refine ⟨s, run, returned, full, ?_⟩
    intro ignore' all' more memory' buffer' replies' legal' benign' moved'
    have size : (read memory buffer length.toNat).length = length.toNat := length_read _ _
    have there : length.toNat ≤ (read memory buffer length.toNat ++ more).length := by
      rw [List.length_append, size]
      exact Nat.le_add_right ..
    obtain ⟨t, run'⟩ := recv_exists short all' there legal' benign'
    have returned' := ((recv_run short run').1.returned_iff all' benign').2.mpr moved'
    have filled := ((recv_whole short all' size run' benign').2 length returned').2
    exact ⟨t, full ▸ run', returned', filled⟩

/-- Three bytes, sent in two pieces and received in two others, with interruptions. -/
theorem amskt_transfer_three : ∃ s t, Run (sendStep 7 3 (fun i => .ofNat i) 10) Any (startSend 3)
      [.moved 2, .failed EINTR, .moved 1] s ∧ s.loop.returned = some 3 ∧ s.stream = [10, 11, 12] ∧
    Run (recvStep 7 3 20) Any (startRecv 3 (fun _ => 0) (s.stream ++ [13]))
      [.failed EAGAIN, .moved 1, .failed EINTR, .moved 2] t ∧ t.loop.returned = some 3 ∧
      t.stream = [13] ∧
    (List.range 5).map (fun i => t.memory (19 + i)) = [0, 10, 11, 12, 0] := by
  obtain ⟨-, -, -, -, -, moves⟩ :=
    amskt_transfer (show (3 : UInt32).toNat < 2 ^ 31 by decide) (fun i => .ofNat i) 10
  have all : AllIgnored 7 := ⟨by decide, by decide, by decide⟩
  obtain ⟨s, run, returned, stream, receives⟩ :=
    moves 7 all [.moved 2, .failed EINTR, .moved 1] (by decide)
    (by simp [Benign, Reply.count, Reply.errno]) (by decide)
  obtain ⟨t, run', returned', left, memory⟩ := receives 7 all [13] (fun _ => 0) 20
    [.failed EAGAIN, .moved 1, .failed EINTR, .moved 2] (by decide)
    (by simp [Benign, Reply.count, Reply.errno]) (by decide)
  refine ⟨s, t, run, returned, stream, run', returned', left, ?_⟩
  rw [memory]
  rfl

end Runs

end Libam.Fdopers
