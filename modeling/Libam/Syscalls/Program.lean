import Mathlib.Logic.Basic

/-! Programs that call a system, as trees of calls and answers, and what is certain of them whatever
the answers are. -/

namespace Libam.Syscalls

variable {Call : Type} {Answer : Call → Type} {α β W : Type}

inductive Program (Answer : Call → Type) (α : Type)
  | done (a : α)
  | call (c : Call) (next : Answer c → Program Answer α)

namespace Program

def bind : Program Answer α → (α → Program Answer β) → Program Answer β
  | .done a, f => f a
  | .call c next, f => .call c fun answer => (next answer).bind f

instance : Monad (Program Answer) where
  pure := .done
  bind := bind

def perform (c : Call) : Program Answer (Answer c) := .call c .done

/-- What is seen of a system: the calls that a program may make, and what may come of a call. -/
structure View (Answer : Call → Type) (W : Type) where
  may : W → Call → Prop
  steps : W → (c : Call) → Answer c → W → Prop

/-- The program makes only calls that it may make, and it ends with `post`, whatever
it is answered. -/
def Meets (view : View Answer W) (post : α → W → Prop) : Program Answer α → W → Prop
  | .done a, w => post a w
  | .call c next, w =>
      view.may w c ∧ ∀ answer w', view.steps w c answer w' → (next answer).Meets view post w'

variable {view : View Answer W} {post : α → W → Prop} {w : W}

@[simp] theorem meets_done {a : α} : (done a : Program Answer α).Meets view post w ↔
    post a w := Iff.rfl

@[simp] theorem meets_pure {a : α} : (pure a : Program Answer α).Meets view post w ↔
    post a w := Iff.rfl

@[simp] theorem meets_perform_bind {c : Call} {f : Answer c → Program Answer α} :
    (perform c >>= f).Meets view post w ↔
      view.may w c ∧ ∀ answer w', view.steps w c answer w' →
      (f answer).Meets view post w' := Iff.rfl

@[simp] theorem meets_ite {cond : Prop} [Decidable cond] {p q : Program Answer α} :
    (if cond then p else q).Meets view post w ↔
      (cond → p.Meets view post w) ∧ (¬ cond → q.Meets view post w) := by
  split <;> simp [*]

theorem meets_bind {p : Program Answer α} {f : α → Program Answer β} {post : β → W → Prop} :
    (p >>= f).Meets view post w ↔ p.Meets view (fun a w => (f a).Meets view post w) w := by
  induction p generalizing w with
  | done a => exact Iff.rfl
  | call c next ih =>
      refine and_congr_right fun _ => forall_congr' fun answer => forall_congr' fun w' => ?_
      exact imp_congr_right fun _ => ih answer

theorem Meets.imp {p : Program Answer α} {post' : α → W → Prop} (meets : p.Meets view post w)
    (weaker : ∀ a w, post a w → post' a w) : p.Meets view post' w := by
  induction p generalizing w with
  | done a => exact weaker a w meets
  | call c next ih =>
      exact ⟨meets.1, fun answer w' stepped => ih answer (meets.2 answer w' stepped)⟩

theorem Meets.and {p : Program Answer α} {post' : α → W → Prop} (first : p.Meets view post w)
    (second : p.Meets view post' w) : p.Meets view (fun a w => post a w ∧ post' a w) w := by
  induction p generalizing w with
  | done a => exact ⟨first, second⟩
  | call c next ih =>
      exact ⟨first.1, fun answer w' stepped => ih answer (first.2 answer w' stepped)
        (second.2 answer w' stepped)⟩

theorem Meets.bind {p : Program Answer α} {f : α → Program Answer β} {post' : β → W → Prop}
    (meets : p.Meets view post w) (rest : ∀ a w, post a w → (f a).Meets view post' w) :
    (p >>= f).Meets view post' w :=
  meets_bind.mpr (meets.imp rest)

@[simp] theorem meets_map {p : Program Answer α} {f : α → β} {post : β → W → Prop} :
    (f <$> p).Meets view post w ↔ p.Meets view (fun a w => post (f a) w) w := meets_bind

section Alone

variable {G : Type} {serve : G → (c : Call) → Answer c → Option G}

structure Event (Answer : Call → Type) where
  call : Call
  answer : Answer call

/-- A system that a program has to itself, with all that it has been asked and has answered. -/
def alone (serve : G → (c : Call) → Answer c → Option G) :
    View Answer (G × List (Event Answer)) where
  may _ _ := True
  steps := fun (g, events) c answer (g', events') => serve g c answer = some g' ∧
    events' = events ++ [⟨c, answer⟩]

theorem meets_alone {c : Call} {f : Answer c → Program Answer α}
    {post : α → G × List (Event Answer) → Prop} {g : G}
    {events : List (Event Answer)} (rest : ∀ answer g', serve g c answer = some g' →
      (f answer).Meets (alone serve) post (g', events ++ [⟨c, answer⟩])) :
    (perform c >>= f).Meets (alone serve) post (g, events) := by
  refine ⟨trivial, fun answer after stepped => ?_⟩
  obtain ⟨served, grown⟩ := stepped
  have same : after = (after.1, events ++ [⟨c, answer⟩]) := Prod.ext rfl grown
  rw [same]
  exact rest answer after.1 served

theorem grows (p : Program Answer α) (g : G) (events : List (Event Answer)) :
    p.Meets (alone serve) (fun _ after => ∃ more, after.2 = events ++ more) (g, events) := by
  induction p generalizing g events with
  | done a => exact ⟨[], (List.append_nil _).symm⟩
  | call c next ih =>
      refine ⟨trivial, fun answer after stepped => ?_⟩
      obtain ⟨g', events'⟩ := after
      have grown : events' = events ++ [⟨c, answer⟩] := stepped.2
      subst grown
      refine (ih answer g' _).imp fun a after longer => ?_
      obtain ⟨more, longer⟩ := longer
      exact ⟨⟨c, answer⟩ :: more, by rw [longer, List.append_assoc]; rfl⟩

end Alone

end Program

end Libam.Syscalls
