import Mathlib.Logic.Function.Basic

/-! Resources that are handed from one holder to another. -/

namespace Libam.Custody

variable {View Holder Role : Type*}

/-- At most one holder has the resource, in a role that fits what is seen of it; one that nobody
has is at rest. -/
structure Kept (Ok : View → Role → Prop) (Rest : View → Prop) (view : View)
    (role : Holder → Option Role) : Prop where
  single : ∀ h h', (role h).isSome → (role h').isSome → h = h'
  held : ∀ h r, role h = some r → Ok view r
  rest : (∀ h, role h = none) → Rest view

variable {Ok : View → Role → Prop} {Rest : View → Prop} {view : View} {role : Holder → Option Role}

theorem Kept.others (kept : Kept Ok Rest view role) {h : Holder} {r : Role} (has : role h = some r)
    (h' : Holder) (other : h' ≠ h) : role h' = none := by
  by_contra some
  exact other (kept.single h' h (Option.isSome_iff_ne_none.mpr some) (by simp [has]))

theorem kept_of_held {h : Holder} {r : Role} (has : role h = some r)
    (others : ∀ h', h' ≠ h → role h' = none) (ok : Ok view r) : Kept Ok Rest view role := by
  have only {h' : Holder} (some : (role h').isSome) : h' = h := by
    by_contra other
    simp [others h' other] at some
  refine ⟨fun h₁ h₂ first second => (only first).trans (only second).symm, fun h' r' here => ?_,
    fun nobody => by simp [nobody h] at has⟩
  have some : (role h').isSome := by simp [here]
  obtain rfl := only some
  rw [has] at here
  exact Option.some.inj here ▸ ok

theorem kept_of_rest (nobody : ∀ h, role h = none) (rest : Rest view) : Kept Ok Rest view role :=
  ⟨fun h _ some => by simp [nobody h] at some, fun h r here => by simp [nobody h] at here,
    fun _ => rest⟩

section Changes

variable [DecidableEq Holder] {view' : View} {h : Holder}

theorem kept_update_some {r : Role} (alone : ∀ k, k ≠ h → role k = none) (ok : Ok view' r) :
    Kept Ok Rest view' (Function.update role h (some r)) :=
  kept_of_held (Function.update_self ..)
    (fun k other => (Function.update_of_ne other ..).trans (alone k other)) ok

theorem kept_update_none (alone : ∀ k, k ≠ h → role k = none) (rest : Rest view') :
    Kept Ok Rest view' (Function.update role h none) := by
  refine kept_of_rest (fun k => ?_) rest
  by_cases same : k = h
  · rw [same, Function.update_self]
  · rw [Function.update_of_ne same, alone k same]

end Changes

end Libam.Custody
