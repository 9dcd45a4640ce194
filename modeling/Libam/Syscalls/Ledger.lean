import Libam.Concurrency.Interleaving
import Libam.Syscalls.Program
import Mathlib.Data.Finset.Card

/-! Resources that calls of a system give out and take back. What a program does with its
own is seen from the program alone; from it follows where every resource is, in any
interleaving of programs. -/

namespace Libam.Syscalls

open Interleaving Program

variable {Call : Type} {Answer : Call → Type} {R G Api Tid : Type} [DecidableEq R]

section Definitions

structure Rights (Answer : Call → Type) (R : Type) where
  possible : (c : Call) → Answer c → Prop
  uses : Call → Finset R
  gains : (c : Call) → Answer c → Finset R
  drops : (c : Call) → Answer c → Finset R

/-- The functions of a library: what a call of one is handed, what it may use without having it, its
body, up to what it hands to its caller, and the answers that are its faults. -/
structure Library (Answer : Call → Type) (R Api : Type) where
  takes : Api → Finset R
  borrows : Api → Finset R
  body : Api → Program Answer (Finset R)
  fault : Api → (c : Call) → Answer c → Bool

def owner (rights : Rights Answer R) (library : Library Answer R Api) (api : Api) :
    View Answer (Finset R × ℕ) where
  may := fun (owned, _) c => rights.uses c ⊆ owned ∪ library.borrows api ∧ ∀ answer,
    rights.drops c answer ⊆ owned
  steps := fun (owned, faults) c answer (owned', faults') => rights.possible c answer ∧
    Disjoint owned (rights.gains c answer) ∧
    owned' = owned \ rights.drops c answer ∪ rights.gains c answer ∧
    faults' = faults + if library.fault api c answer then 1 else 0

/-- What a program has at its end it hands over, but for as many resources as there were faults. -/
def Settled (handed : Finset R) (after : Finset R × ℕ) : Prop :=
  handed ⊆ after.1 ∧ (after.1 \ handed).card = after.2

def Settles (rights : Rights Answer R) (library : Library Answer R Api) (api : Api) : Prop :=
  (library.body api).Meets (owner rights library api) Settled (library.takes api, 0)

structure System (rights : Rights Answer R) (G : Type) where
  serve : G → (c : Call) → Answer c → Option G
  out : G → R → Bool
  possible : ∀ {g c answer g'}, serve g c answer = some g' → rights.possible c answer
  fresh : ∀ {g c answer g'}, serve g c answer = some g' → ∀ r ∈ rights.gains c answer,
    out g r = false
  moves : ∀ {g c answer g'}, serve g c answer = some g' → ∀ r,
    out g' r = true ↔ out g r = true ∧ r ∉ rights.drops c answer ∨ r ∈ rights.gains c answer

/-- The system, what its users have, what nobody has any more and the faults that there were. -/
structure Books (G R : Type) where
  system : G
  held : Finset R
  lost : Finset R
  faults : ℕ

/-- A thread: in none of the functions, or in one, with what it has of resources and its faults. -/
inductive Task (Answer : Call → Type) (R Api : Type)
  | idle
  | running (api : Api) (program : Program Answer (Finset R)) (owned : Finset R) (faults : ℕ)

inductive Act (Answer : Call → Type) (Api : Type)
  | start (api : Api)
  | answer (give : (c : Call) → Answer c)
  | finish

def Task.owned : Task Answer R Api → Finset R
  | .idle => ∅
  | .running _ _ owned _ => owned

def Task.faults : Task Answer R Api → ℕ
  | .idle => 0
  | .running _ _ _ faults => faults

/-- A user calls a function with what it has; the function goes on with an answer of the
system; it returns. -/
def next {rights : Rights Answer R} (system : System rights G) (library : Library Answer R Api)
    (books : Books G R) :
    Task Answer R Api → Act Answer Api → Option (Books G R × Task Answer R Api)
  | .idle, .start api =>
      if library.takes api ⊆ books.held then
        some ({ books with held := books.held \ library.takes api },
          .running api (library.body api) (library.takes api) 0)
      else none
  | .running api (.call c next) owned faults, .answer give =>
      (system.serve books.system c (give c)).map fun g =>
        let fault := if library.fault api c (give c) then 1 else 0
        ({ books with system := g, faults := books.faults + fault },
          .running api (next (give c)) (owned \ rights.drops c (give c) ∪ rights.gains c (give c))
          (faults + fault))
  | .running _ (.done handed) owned _, .finish =>
      some ({ books with held := books.held ∪ handed, lost := books.lost ∪ (owned \ handed) },
        .idle)
  | _, _ => none

def opening (Tid : Type) (R Api : Type) (Answer : Call → Type) (g : G) :
    Config Tid (Books G R) (Task Answer R Api) :=
  ⟨⟨g, ∅, ∅, 0⟩, fun _ => .idle⟩

end Definitions

section Rules

variable {rights : Rights Answer R} {library : Library Answer R Api} {api : Api} {β : Type}

theorem meets_owner {c : Call} {f : Answer c → Program Answer β} {post : β → Finset R × ℕ → Prop}
    {owned : Finset R}
    {faults : ℕ} (used : rights.uses c ⊆ owned ∪ library.borrows api)
    (own : ∀ answer, rights.drops c answer ⊆ owned)
    (rest : ∀ answer, rights.possible c answer → Disjoint owned (rights.gains c answer) →
      (f answer).Meets (owner rights library api) post
        (owned \ rights.drops c answer ∪ rights.gains c answer,
          faults + if library.fault api c answer then 1 else 0)) :
    (perform c >>= f).Meets (owner rights library api) post (owned, faults) := by
  refine ⟨⟨used, own⟩, fun answer after stepped => ?_⟩
  obtain ⟨possible, apart, left, cost⟩ := stepped
  have same : after = (_, _) := Prod.ext left cost
  rw [same]
  exact rest answer possible apart

theorem meets_quiet {c : Call} {f : Answer c → Program Answer β} {post : β → Finset R × ℕ → Prop}
    {owned : Finset R} {faults : ℕ} (used : rights.uses c ⊆ owned ∪ library.borrows api)
    (quiet : ∀ answer, rights.gains c answer = ∅ ∧ rights.drops c answer = ∅)
    (clean : ∀ answer, library.fault api c answer = false)
    (rest : ∀ answer, (f answer).Meets (owner rights library api) post (owned, faults)) :
    (perform c >>= f).Meets (owner rights library api) post (owned, faults) := by
  refine meets_owner used (fun answer => ?_) fun answer _ _ => ?_
  · rw [(quiet answer).2]
    exact Finset.empty_subset _
  · rw [(quiet answer).1, (quiet answer).2, clean answer, Finset.sdiff_empty, Finset.union_empty]
    exact rest answer

end Rules

section Accounts

variable {rights : Rights Answer R} {system : System rights G} {library : Library Answer R Api}
  [Fintype Tid]

/-- In how many places a resource is: out from the start, with a user, with nobody
or with a thread. -/
def places (system : System rights G) (g : G) (c : Config Tid (Books G R) (Task Answer R Api))
    (r : R) : ℕ :=
  (system.out g r).toNat + (decide (r ∈ c.shared.held)).toNat + (decide (r ∈ c.shared.lost)).toNat +
    tally (fun task => (decide (r ∈ task.owned)).toNat) c.pc

/-- A thread makes the calls that its rights allow and has lost nothing at its end
but by its faults. -/
def Keeps (library : Library Answer R Api) (rights : Rights Answer R) : Task Answer R Api → Prop
  | .idle => True
  | .running api program owned faults =>
      program.Meets (owner rights library api) Settled (owned, faults)

/-- What is out is in one place, what is not is in none, and every fault has cost a resource
or is about to. -/
structure Accounted (system : System rights G) (library : Library Answer R Api) (g : G)
    (c : Config Tid (Books G R) (Task Answer R Api)) : Prop where
  kept : ∀ t, Keeps library rights (c.pc t)
  placed : ∀ r, places system g c r = (system.out c.shared.system r).toNat
  faults : c.shared.faults = c.shared.lost.card + tally Task.faults c.pc

theorem accounted_opening (system : System rights G) (library : Library Answer R Api) (g : G) :
    Accounted system library g (opening Tid R Api Answer g) := by
  refine ⟨fun _ => trivial, fun r => ?_, ?_⟩
  · have none : tally (fun task : Task Answer R Api => (decide (r ∈ task.owned)).toNat)
        (fun _ : Tid => .idle) = 0 :=
      tally_eq_zero _ _ fun _ => rfl
    simp [places, opening, none]
  · have none : tally Task.faults (fun _ : Tid => (.idle : Task Answer R Api)) = 0 :=
        tally_eq_zero _ _ fun _ => rfl
    simp [opening, none]

variable [DecidableEq Tid] {g : G} {c c' : Config Tid (Books G R) (Task Answer R Api)}

omit [DecidableEq Tid] in
theorem owned_le (c : Config Tid (Books G R) (Task Answer R Api)) (r : R) (t : Tid) :
    (decide (r ∈ (c.pc t).owned)).toNat ≤ tally
    (fun task => (decide (r ∈ task.owned)).toNat) c.pc :=
  Finset.single_le_sum (f := fun t => (decide (r ∈ (c.pc t).owned)).toNat)
    (fun _ _ => Nat.zero_le _) (Finset.mem_univ t)

omit [DecidableEq Tid] in
theorem Accounted.out_of_owned (accounted : Accounted system library g c) {t : Tid} {r : R}
    (has : r ∈ (c.pc t).owned) : system.out c.shared.system r = true ∧ r ∉ c.shared.held ∧
    r ∉ c.shared.lost := by
  have here := owned_le c r t
  have placed := accounted.placed r
  have most := Bool.toNat_le (system.out c.shared.system r)
  rw [decide_eq_true has, Bool.toNat_true] at here
  rw [places] at placed
  refine ⟨?_, ?_, ?_⟩
  · by_contra out
    rw [Bool.not_eq_true] at out
    rw [out, Bool.toNat_false] at placed
    omega
  · intro held
    rw [decide_eq_true held, Bool.toNat_true] at placed
    omega
  · intro lost
    rw [decide_eq_true lost, Bool.toNat_true] at placed
    omega

section Steps

variable {t : Tid} {task : Task Answer R Api} {books : Books G R}

/-- What a step has to balance: the places of every resource, and the faults. -/
theorem Accounted.step (accounted : Accounted system library g c)
    (keeps : Keeps library rights task)
    (placed : ∀ r, (decide (r ∈ books.held)).toNat + (decide (r ∈ books.lost)).toNat +
        (decide (r ∈ task.owned)).toNat + (system.out c.shared.system r).toNat =
      (decide (r ∈ c.shared.held)).toNat + (decide (r ∈ c.shared.lost)).toNat +
        (decide (r ∈ (c.pc t).owned)).toNat + (system.out books.system r).toNat)
    (faults : books.faults + c.shared.lost.card + (c.pc t).faults =
      c.shared.faults + books.lost.card + task.faults) :
    Accounted system library g ⟨books, Function.update c.pc t task⟩ := by
  refine ⟨?_, fun r => ?_, ?_⟩
  · exact (Function.forall_update_iff c.pc fun _ => Keeps library rights).mpr
      ⟨keeps, fun u _ => accounted.kept u⟩
  · have before := accounted.placed r
    have here := placed r
    have change := tally_update
      (fun task : Task Answer R Api => (decide (r ∈ task.owned)).toNat) c.pc t task
    simp only [places] at before ⊢
    omega
  · have before := accounted.faults
    have change := tally_update Task.faults c.pc t task
    simp only at before ⊢
    omega

theorem Accounted.start (accounted : Accounted system library g c) {api : Api}
    (settles : Settles rights library api) (idle : c.pc t = .idle)
    (has : library.takes api ⊆ c.shared.held) :
    Accounted system library g ⟨{ c.shared with held := c.shared.held \ library.takes api },
      Function.update c.pc t (.running api (library.body api) (library.takes api) 0)⟩ := by
  refine accounted.step ?_ (fun r => ?_) ?_
  · exact settles
  · rw [idle]
    by_cases taken : r ∈ library.takes api
    · simp [taken, has taken, Task.owned]
      omega
    · simp [taken, Task.owned]
  · rw [idle]
    rfl

theorem Accounted.answer (accounted : Accounted system library g c) {api : Api} {call : Call}
    {rest : Answer call → Program Answer (Finset R)} {owned : Finset R} {faults : ℕ}
    (running : c.pc t = .running api (.call call rest) owned faults) {answer : Answer call} {g' : G}
    (served : system.serve c.shared.system call answer = some g') {fault : ℕ}
    (faulty : fault = if library.fault api call answer then 1 else 0) :
    Accounted system library g ⟨{ c.shared with system := g', faults := c.shared.faults + fault },
      Function.update c.pc t
        (.running api (rest answer) (owned \ rights.drops call answer ∪ rights.gains call answer)
        (faults + fault))⟩ := by
  have meets := accounted.kept t
  rw [running] at meets
  obtain ⟨⟨-, own⟩, onward⟩ := meets
  have mine {r : R} (has : r ∈ owned) : system.out c.shared.system r = true :=
    (accounted.out_of_owned (t := t) (by rw [running]; exact has)).1
  have others : Disjoint owned (rights.gains call answer) := by
    refine Finset.disjoint_left.mpr fun r has gained => ?_
    have fresh := system.fresh served r gained
    rw [mine has] at fresh
    cases fresh
  refine accounted.step ?_ (fun r => ?_) ?_
  · exact onward answer _ ⟨system.possible served, others, rfl, by rw [faulty]⟩
  · have moves := system.moves served r
    rw [running]
    simp only [Task.owned, Finset.mem_union, Finset.mem_sdiff]
    by_cases gained : r ∈ rights.gains call answer
    · have fresh := system.fresh served r gained
      have without : r ∉ owned := Finset.disjoint_right.mp others gained
      have out : system.out g' r = true := moves.mpr (.inr gained)
      simp [gained, fresh, without, out]
    by_cases dropped : r ∈ rights.drops call answer
    · have has := own answer dropped
      have out : system.out g' r = false := by
        rw [← Bool.not_eq_true, moves]
        simp [gained, dropped]
      simp [gained, dropped, has, mine has, out]
    · have same : system.out g' r = system.out c.shared.system r := by
        rw [Bool.eq_iff_iff, moves]
        simp [gained, dropped]
      by_cases has : r ∈ owned <;> simp [gained, dropped, same, has]
  · rw [running]
    simp only [Task.faults]
    omega

theorem Accounted.finish (accounted : Accounted system library g c) {api : Api}
    {handed owned : Finset R} {faults : ℕ}
    (running : c.pc t = .running api (.done handed) owned faults) :
    Accounted system library g ⟨{ c.shared with
        held := c.shared.held ∪ handed, lost := c.shared.lost ∪ (owned \ handed) },
      Function.update c.pc t .idle⟩ := by
  have meets := accounted.kept t
  rw [running] at meets
  obtain ⟨inside, cost⟩ : handed ⊆ owned ∧ (owned \ handed).card = faults := meets
  have mine {r : R} (has : r ∈ owned) : r ∉ c.shared.held ∧ r ∉ c.shared.lost :=
    (accounted.out_of_owned (t := t) (by rw [running]; exact has)).2
  refine accounted.step ?_ (fun r => ?_) ?_
  · trivial
  · rw [running]
    by_cases has : r ∈ owned
    · obtain ⟨notHeld, notLost⟩ := mine has
      by_cases given : r ∈ handed <;> simp [Task.owned, has, given, notHeld, notLost]
    · have kept : r ∉ handed := fun given => has (inside given)
      simp [Task.owned, has, kept]
  · have apart : Disjoint c.shared.lost (owned \ handed) :=
      Finset.disjoint_right.mpr fun r left => (mine (Finset.mem_sdiff.mp left).1).2
    rw [running, Finset.card_union_of_disjoint apart, cost]
    simp only [Task.faults]
    omega

theorem accounted_step (settles : ∀ api, Settles rights library api)
    (c : Config Tid (Books G R) (Task Answer R Api)) (act : Tid × Act Answer Api)
    (c' : Config Tid (Books G R) (Task Answer R Api)) (accounted : Accounted system library g c)
    (fired : c.step (next system library) act = some c') : Accounted system library g c' := by
  obtain ⟨t, action⟩ := act
  obtain ⟨books, task, stepped, rfl⟩ := Config.step_eq_some.mp fired
  cases here : c.pc t with
  | idle =>
      cases action with
      | start api =>
          simp only [here, next] at stepped
          split at stepped
          · rename_i has
            cases stepped
            exact accounted.start (settles api) here has
          · cases stepped
      | _ => simp [here, next] at stepped
  | running api program owned faults =>
      cases program with
      | done handed =>
          cases action with
          | finish =>
              simp only [here, next] at stepped
              cases stepped
              exact accounted.finish here
          | _ => simp [here, next] at stepped
      | call call rest =>
          cases action with
          | answer give =>
              simp only [here, next, Option.map_eq_some_iff] at stepped
              obtain ⟨g', served, moved⟩ := stepped
              cases moved
              exact accounted.answer here served rfl
          | _ => simp [here, next] at stepped

end Steps

/-- In every state that is reached the resources are accounted for, when every function
settles its own. -/
theorem accounted_run (settles : ∀ api, Settles rights library api)
    {actions : List (Tid × Act Answer Api)}
    (run : Run (Config.step (next system library)) Any (opening Tid R Api Answer g) actions c) :
    Accounted system library g c :=
  run.invariant _ (accounted_opening system library g) fun c act c' accounted fired _ =>
    accounted_step settles c act c' accounted fired

end Accounts

end Libam.Syscalls
