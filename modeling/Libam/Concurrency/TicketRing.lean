import Mathlib.Data.Set.Insert
import Mathlib.Data.Nat.Notation
import Mathlib.Logic.Function.Basic

/-! A ring of one-place cells that producers and consumers reserve by ticket. Ticket `k` belongs
to cell `k % n`, and a reservation may lap tickets that are still waiting on the same cell. -/

namespace Libam.TicketRing

/-- How many tickets each side has handed out, those still waiting, and the ticket whose value
each cell holds. -/
structure Ring where
  reserved : ℕ
  claimed : ℕ
  filling : Set ℕ
  taking : Set ℕ
  cell : ℕ → Option ℕ

namespace Ring

def Filled (r : Ring) (k : ℕ) : Prop := k < r.reserved ∧ k ∉ r.filling
def Taken (r : Ring) (k : ℕ) : Prop := k < r.claimed ∧ k ∉ r.taking

structure Ordered (n : ℕ) (r : Ring) : Prop where
  fillers : ∀ k ∈ r.filling, k < r.reserved
  takers : ∀ k ∈ r.taking, k < r.claimed
  fillOrder : ∀ k k', k < k' → k % n = k' % n → r.Filled k' → r.Filled k
  takeOrder : ∀ k k', k < k' → k % n = k' % n → r.Taken k' → r.Taken k
  takenFilled : ∀ k, r.Taken k → r.Filled k
  full : ∀ i k, r.cell i = some k → k % n = i ∧ r.Filled k ∧ ¬ r.Taken k
  stored : ∀ k, r.Filled k → ¬ r.Taken k → r.cell (k % n) = some k

def reserve (r : Ring) : Ring :=
  { r with reserved := r.reserved + 1, filling := insert r.reserved r.filling }

def claim (r : Ring) : Ring :=
  { r with claimed := r.claimed + 1, taking := insert r.claimed r.taking }

def fill (n : ℕ) (r : Ring) (k : ℕ) : Ring :=
  { r with filling := r.filling \ {k}, cell := Function.update r.cell (k % n) (some k) }

def take (n : ℕ) (r : Ring) (k : ℕ) : Ring :=
  { r with taking := r.taking \ {k}, cell := Function.update r.cell (k % n) none }

def FillTurn (n : ℕ) (r : Ring) (k : ℕ) : Prop := ∀ j ∈ r.filling, j % n = k % n → k ≤ j

def TakeTurn (n : ℕ) (r : Ring) (k : ℕ) : Prop := ∀ j ∈ r.taking, j % n = k % n → k ≤ j

variable {n : ℕ} {r : Ring}

theorem ordered_empty (n : ℕ) : Ordered n ⟨0, 0, ∅, ∅, fun _ => none⟩ := by
  constructor <;> simp [Filled, Taken]

theorem passed_insert {waiting : Set ℕ} {count : ℕ} (k : ℕ) :
    k < count + 1 ∧ k ∉ insert count waiting ↔ k < count ∧ k ∉ waiting := by
  simp only [Set.mem_insert_iff]
  constructor
  · rintro ⟨bound, waits⟩
    push Not at waits
    exact ⟨by omega, waits.2⟩
  · rintro ⟨bound, waits⟩
    refine ⟨by omega, ?_⟩
    rintro (same | member)
    · omega
    · exact waits member

theorem reserve_filled (k : ℕ) : r.reserve.Filled k ↔ r.Filled k := passed_insert k

theorem claim_taken (k : ℕ) : r.claim.Taken k ↔ r.Taken k := passed_insert k

theorem ordered_reserve (ordered : r.Ordered n) : r.reserve.Ordered n := by
  obtain ⟨fillers, takers, fillOrder, takeOrder, takenFilled, full, stored⟩ := ordered
  have taken (k : ℕ) : r.reserve.Taken k ↔ r.Taken k := Iff.rfl
  refine ⟨?_, takers, ?_, takeOrder, ?_, ?_, ?_⟩
  · rintro k (rfl | member)
    · exact Nat.lt_succ_self _
    · exact Nat.lt_succ_of_lt (fillers k member)
  · simpa only [reserve_filled] using fillOrder
  · simpa only [reserve_filled, taken] using takenFilled
  · simp only [reserve_filled, taken]
    exact full
  · simp only [reserve_filled, taken]
    exact stored

theorem ordered_claim (ordered : r.Ordered n) : r.claim.Ordered n := by
  obtain ⟨fillers, takers, fillOrder, takeOrder, takenFilled, full, stored⟩ := ordered
  have filled (k : ℕ) : r.claim.Filled k ↔ r.Filled k := Iff.rfl
  refine ⟨fillers, ?_, fillOrder, ?_, ?_, ?_, ?_⟩
  · rintro k (rfl | member)
    · exact Nat.lt_succ_self _
    · exact Nat.lt_succ_of_lt (takers k member)
  · simpa only [claim_taken] using takeOrder
  · simpa only [claim_taken, filled] using takenFilled
  · simp only [claim_taken, filled]
    exact full
  · simp only [claim_taken, filled]
    exact stored

theorem fill_filled {k : ℕ} (waits : k ∈ r.filling) (bound : k < r.reserved) (j : ℕ) :
    (r.fill n k).Filled j ↔ r.Filled j ∨ j = k := by
  simp only [Filled, fill, Set.mem_sdiff, Set.mem_singleton_iff]
  by_cases same : j = k
  · subst same
    simp [bound]
  · simp [same]

theorem take_taken {k : ℕ} (waits : k ∈ r.taking) (bound : k < r.claimed) (j : ℕ) :
    (r.take n k).Taken j ↔ r.Taken j ∨ j = k := by
  simp only [Taken, take, Set.mem_sdiff, Set.mem_singleton_iff]
  by_cases same : j = k
  · subst same
    simp [bound]
  · simp [same]

theorem ordered_fill (ordered : r.Ordered n) {k : ℕ} (waits : k ∈ r.filling)
    (turn : r.FillTurn n k) (empty : r.cell (k % n) = none) : (r.fill n k).Ordered n := by
  obtain ⟨fillers, takers, fillOrder, takeOrder, takenFilled, full, stored⟩ := ordered
  have bound := fillers k waits
  have filled := fill_filled (n := n) waits bound
  have taken (j : ℕ) : (r.fill n k).Taken j ↔ r.Taken j := Iff.rfl
  refine ⟨fun j member => fillers j member.1, takers, ?_, takeOrder, ?_, ?_, ?_⟩
  · intro j j' before same later
    rw [filled] at later ⊢
    rcases later with later | rfl
    · exact .inl (fillOrder j j' before same later)
    · refine .inl ⟨by omega, fun waiting => ?_⟩
      have := turn j waiting same
      omega
  · intro j served
    rw [taken] at served
    exact (filled j).mpr (.inl (takenFilled j served))
  · intro i j holds
    rw [filled, taken]
    by_cases here : i = k % n
    · subst here
      simp only [fill, Function.update_self, Option.some.injEq] at holds
      subst holds
      exact ⟨rfl, .inr rfl, fun served => (takenFilled _ served).2 waits⟩
    · simp only [fill, Function.update_of_ne here] at holds
      obtain ⟨place, done, untaken⟩ := full i j holds
      exact ⟨place, .inl done, untaken⟩
  · intro j done untaken
    rw [filled] at done
    rw [taken] at untaken
    by_cases same : j = k
    · subst same
      simp [fill]
    · have holds := stored j (done.resolve_right same) untaken
      have elsewhere : j % n ≠ k % n := by
        intro place
        rw [place, empty] at holds
        cases holds
      simp only [fill, Function.update_of_ne elsewhere]
      exact holds

theorem take_own (ordered : r.Ordered n) {k j : ℕ} (waits : k ∈ r.taking)
    (turn : r.TakeTurn n k) (holds : r.cell (k % n) = some j) : j = k := by
  obtain ⟨place, done, untaken⟩ := ordered.full _ _ holds
  have bound := ordered.takers k waits
  rcases Nat.lt_trichotomy j k with before | same | after
  · have waiting : j ∈ r.taking := by
      by_contra away
      exact untaken ⟨by omega, away⟩
    have := turn j waiting place
    omega
  · exact same
  · have filled := ordered.fillOrder k j after place.symm done
    have own := ordered.stored k filled fun served => served.2 waits
    rw [holds] at own
    exact Option.some.inj own

theorem ordered_take (ordered : r.Ordered n) {k j : ℕ} (waits : k ∈ r.taking)
    (turn : r.TakeTurn n k) (holds : r.cell (k % n) = some j) : (r.take n k).Ordered n := by
  obtain rfl := take_own ordered waits turn holds
  obtain ⟨fillers, takers, fillOrder, takeOrder, takenFilled, full, stored⟩ := ordered
  have bound := takers j waits
  have taken := take_taken (n := n) waits bound
  have filled (i : ℕ) : (r.take n j).Filled i ↔ r.Filled i := Iff.rfl
  refine ⟨fillers, fun i member => takers i member.1, fillOrder, ?_, ?_, ?_, ?_⟩
  · intro i i' before same later
    rw [taken] at later ⊢
    rcases later with later | rfl
    · exact .inl (takeOrder i i' before same later)
    · refine .inl ⟨by omega, fun waiting => ?_⟩
      have := turn i waiting same
      omega
  · intro i served
    rw [taken] at served
    rcases served with served | rfl
    · exact takenFilled i served
    · exact (full _ _ holds).2.1
  · intro i m inside
    by_cases here : i = j % n
    · subst here
      simp [take] at inside
    · simp only [take, Function.update_of_ne here] at inside
      obtain ⟨place, done, untaken⟩ := full i m inside
      refine ⟨place, done, fun served => ?_⟩
      rcases (taken m).mp served with served | rfl
      · exact untaken served
      · exact here place.symm
  · intro m done untaken
    rw [taken] at untaken
    push Not at untaken
    have inside := stored m done untaken.1
    have elsewhere : m % n ≠ j % n := by
      intro place
      rw [place, holds] at inside
      exact untaken.2 (Option.some.inj inside).symm
    simp only [take, Function.update_of_ne elsewhere]
    exact inside

end Ring

end Libam.TicketRing
