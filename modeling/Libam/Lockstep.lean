import Mathlib.Data.Set.Basic

/-! Two computations that may fail, run in lockstep: they fail alike or return related values. -/

namespace Libam.Lockstep

variable {ε α β γ δ : Type}

inductive Alike (R : α → β → Prop) : Except ε α → Except ε β → Prop
  | ok {a : α} {b : β} (related : R a b) : Alike R (.ok a) (.ok b)
  | error (e : ε) : Alike R (.error e) (.error e)

variable {R : α → β → Prop} {Q : γ → δ → Prop} {x x' : Except ε α} {y y' : Except ε β}

theorem Alike.bind {f : α → Except ε γ} {g : β → Except ε δ} (first : Alike R x y)
    (next : ∀ a b, R a b → Alike Q (f a) (g b)) : Alike Q (x >>= f) (y >>= g) := by
  cases first with
  | ok related => exact next _ _ related
  | error e => exact .error e

theorem ite_related {A B : Type} (P : A → B → Prop) {c d : Prop} [Decidable c] [Decidable d]
    {a a' : A} {b b' : B} (same : c ↔ d) (pos : c → P a b) (neg : ¬ c → P a' b') :
    P (if c then a else a') (if d then b else b') := by
  by_cases here : c
  · rw [if_pos here, if_pos (same.mp here)]
    exact pos here
  · rw [if_neg here, if_neg fun there => here (same.mpr there)]
    exact neg here

theorem Alike.bind_ok_left {P : γ → β → Prop} {f : α → γ} (alike : Alike R x y)
    (related : ∀ a b, R a b → P (f a) b) : Alike P (x >>= fun a => .ok (f a)) y := by
  cases alike with
  | ok here => exact .ok (related _ _ here)
  | error e => exact .error e

theorem Alike.map_left {P : γ → β → Prop} {f : α → γ} (alike : Alike R x y)
    (related : ∀ a b, R a b → P (f a) b) : Alike P (x.map f) y := by
  cases alike with
  | ok here => exact .ok (related _ _ here)
  | error e => exact .error e

theorem Alike.mono {R' : α → β → Prop} (alike : Alike R x y) (weaker : ∀ a b, R a b → R' a b) :
    Alike R' x y := by
  cases alike with
  | ok related => exact .ok (weaker _ _ related)
  | error e => exact .error e

theorem Alike.trans {P : β → γ → Prop} {z : Except ε γ} (first : Alike R x y)
    (second : Alike P y z) : Alike (fun a c => ∃ b, R a b ∧ P b c) x z := by
  cases first with
  | error e => cases second with
    | error => exact .error e
  | ok related => cases second with
    | ok related' => exact .ok ⟨_, related, related'⟩

theorem Alike.right {a : α} (alike : Alike R x y) (run : x = .ok a) : ∃ b, y = .ok b ∧ R a b := by
  cases alike with
  | ok related =>
      cases run
      exact ⟨_, rfl, related⟩
  | error e => cases run

theorem Alike.left {b : β} (alike : Alike R x y) (run : y = .ok b) : ∃ a, x = .ok a ∧ R a b := by
  cases alike with
  | ok related =>
      cases run
      exact ⟨_, rfl, related⟩
  | error e => cases run

theorem alike_self (x : Except ε α) : Alike Eq x x := by
  cases x with
  | ok a => exact .ok rfl
  | error e => exact .error e

end Libam.Lockstep
