import Mathlib.Data.Multiset.AddSub
import Libam.Strhash.Refinement

/-! Every value that a table accepts is stored in it until it is passed to `on_delete`. -/

namespace Libam.Strhash

open Libam.Lists Libam.Interleaving

variable {V : Type} {hash hash' start : Amstrhash V} {entries entries' : List Pointer}
  {ent : Pointer} {entry : AmstrhashEntry V} {value : Option V} {op : Op V} {result : Result}

section Accounts

def stored (hash : Amstrhash V) (entries : List Pointer) : Multiset (Option V) :=
  ↑(entries.filterMap hash.valueAt)

def passed (hash : Amstrhash V) : Multiset (Option V) := ↑(hash.deleted.map Prod.snd)

theorem stored_perm (hash : Amstrhash V) (same : entries.Perm entries') :
    stored hash entries = stored hash entries' :=
  Multiset.coe_eq_coe.mpr (same.filterMap _)

theorem stored_congr (values : ∀ a ∈ entries, hash'.valueAt a = hash.valueAt a) :
    stored hash' entries = stored hash entries :=
  congrArg _ (List.filterMap_congr values)

theorem stored_cons (isValue : hash.valueAt ent = some value) :
    stored hash (ent :: entries) = value ::ₘ stored hash entries := by
  rw [stored, List.filterMap_cons_some isValue]
  rfl

theorem stored_erase (member : ent ∈ entries) (isValue : hash.valueAt ent = some value) :
    stored hash entries = value ::ₘ stored hash (entries.erase ent) := by
  rw [stored_perm hash (List.perm_cons_erase member), stored_cons isValue]

theorem valueAt_self (changed : hash'.ents = Function.update hash.ents ent (some entry)) :
    hash'.valueAt ent = some entry.value := by
  rw [Amstrhash.valueAt, changed, Function.update_self, Option.map_some]

theorem valueAt_other {entry : Option (AmstrhashEntry V)} {a : Pointer}
    (changed : hash'.ents = Function.update hash.ents ent entry) (other : a ≠ ent) :
    hash'.valueAt a = hash.valueAt a := by
  rw [Amstrhash.valueAt, Amstrhash.valueAt, changed, Function.update_of_ne other]

theorem stored_others {entry : Option (AmstrhashEntry V)}
    (changed : hash'.ents = Function.update hash.ents ent entry) (outside : ent ∉ entries) :
    stored hash' entries = stored hash entries :=
  stored_congr fun _ inside => valueAt_other changed fun same => outside (same ▸ inside)

theorem passed_issue (called : hash.attr.onDelete = true) (key : Option Pointer)
    (value : Option V) : passed (hash.issueCallback key value true) = value ::ₘ passed hash := by
  have calls : (hash.issueCallback key value true).deleted = hash.deleted ++ [(key, value)] := by
    rw [Amstrhash.issueCallback, called]
    rfl
  rw [passed, calls, List.map_append, ← Multiset.coe_add, add_comm]
  rfl

end Accounts

section Removals

theorem taken_values (nodup : entries.Nodup) (member : ent ∈ entries)
    (here : hash.ents ent = some entry) (called : hash.attr.onDelete = true) :
    stored (hash.taken ent entry true) (entries.erase ent) + passed (hash.taken ent entry true) =
      stored hash entries + passed hash := by
  have isValue : hash.valueAt ent = some entry.value := by
    rw [Amstrhash.valueAt, here, Option.map_some]
  have others : stored (hash.taken ent entry true) (entries.erase ent) = stored hash
      (entries.erase ent) :=
    stored_others rfl nodup.not_mem_erase
  have grows : passed (hash.taken ent entry true) = entry.value ::ₘ passed hash :=
    passed_issue called entry.key entry.value
  rw [others, grows, stored_erase member isValue, Multiset.add_cons, Multiset.cons_add]

theorem Removes.values {gone left : List Pointer} (removes : Removes true hash gone hash')
    (nodup : (gone ++ left).Nodup) (called : hash.attr.onDelete = true) :
    stored hash' left + passed hash' = stored hash (gone ++ left) + passed hash := by
  induction removes with
  | nil => rfl
  | @cons hash hash' ent entry gone here _ ih =>
      have step := taken_values nodup List.mem_cons_self here called
      rw [List.cons_append, List.erase_cons_head] at step
      rw [ih (List.nodup_cons.mp nodup).2 called, step]
      rfl

end Removals

section Calls

def accepts (op : Op V) (result : Result) : Multiset (Option V) :=
  match op, result with
  | .insert _ value _, .inserted .success _ => {value}
  | _, _ => 0

def Op.assigns : Op V → Bool
  | .setEntValue .. => true
  | _ => false

theorem Outcome.values (filed : Filed hash entries) (kept : Kept hash entries)
    (ready : Ready hash op hash) (outcome : Outcome hash entries op hash' entries' result)
    (called : hash.attr.onDelete = true) (frees : hash.flags.noFreeCb = false)
    (other : op.assigns = false) :
    stored hash' entries' + passed hash' =
      accepts op result + (stored hash entries + passed hash) := by
  have nodup := (List.nodup_append'.mp kept.nodup).1
  cases outcome with
  | @insert key str value allocs rc old _ _ isKey inserted =>
      cases inserted with
      | @overwritten ent entry member here same overwrite =>
          have before : hash.valueAt ent = some entry.value := by
            rw [Amstrhash.valueAt, here, Option.map_some]
          have ents : (overwriteEnt hash key ent entry value).ents =
            Function.update hash.ents ent (some { entry with value := value }) := rfl
          have others : stored (overwriteEnt hash key ent entry value) (entries.erase ent) =
              stored hash (entries.erase ent) := stored_others rfl nodup.not_mem_erase
          have grows : passed (overwriteEnt hash key ent entry value) = entry.value ::ₘ
              passed hash :=
            passed_issue called (some key) entry.value
          rw [stored_erase member (valueAt_self ents), others, grows,
            stored_erase member before, accepts,
            Multiset.singleton_add, Multiset.add_cons, Multiset.cons_add, Multiset.cons_add]
          exact Multiset.cons_swap entry.value value _
      | refused => exact (zero_add _).symm
      | failed => exact (zero_add _).symm
      | @added buckets capacity slots ent absent fits next =>
          have insertable : Insertable hash key allocs := ready
          have outside : ent ∉ entries := fun inside =>
            nextEnt_outside filed kept insertable.unused next (List.mem_append_left _ inside)
          obtain ⟨grown, isGrown⟩ : ∃ grown, grown = { hash.added ent
            ⟨storedKey hash (some key) allocs.copy, amshash str, value⟩
            (storedStrings hash (some key) allocs.copy) with
              buckets := buckets, capacity := capacity, slots := slots } := ⟨_, rfl⟩
          have ents : grown.ents = Function.update hash.ents ent
            (some ⟨storedKey hash (some key) allocs.copy, amshash str, value⟩) :=
            by rw [isGrown]; rfl
          have calls : passed grown = passed hash := by rw [isGrown]; rfl
          rw [← isGrown, stored_cons (valueAt_self ents), stored_others ents outside,
            calls, accepts, Multiset.singleton_add, Multiset.cons_add]
  | remove member here => exact (taken_values nodup member here called).trans (zero_add _).symm
  | removeKey _ member here => exact (taken_values nodup member here called).trans (zero_add _).symm
  | @term gone emptied buckets ents removes all cleared =>
      rw [frees, Bool.not_false] at removes
      have split : (gone ++ []).Perm entries := by rw [List.append_nil]; exact all
      have settled := removes.values (split.nodup_iff.mpr nodup) called
      rw [stored_perm hash split] at settled
      exact settled.trans (zero_add _).symm
  | setEntValue => cases other
  | _ => exact (zero_add _).symm

end Calls

section Runs

abbrev Account (V : Type) := Amstrhash V × Multiset (Option V)

def stepAccount (s : Account V) (op : Op V) : Option (Account V) :=
  match apply s.1 op with
  | .ok (hash, result) => some (hash, accepts op result + s.2)
  | .error _ => none

def Counted (s : Account V) (op : Op V) (_ : Account V) : Prop := Ready s.1 op s.1 ∧
    op.assigns = false

/-- The values that were accepted are in the table or were passed to `on_delete`. -/
structure Settled (s : Account V) : Prop where
  inv : Inv s.1
  called : s.1.attr.onDelete = true
  frees : s.1.flags.noFreeCb = false
  balance : s.2 = stored s.1 s.1.listed + passed s.1

theorem Settled.step {s s' : Account V} (settled : Settled s) (fired : stepAccount s op = some s')
    (counted : Counted s op s') : Settled s' := by
  obtain ⟨ready, other⟩ := counted
  cases returned : apply s.1 op with
  | error fault => simp only [stepAccount, returned, reduceCtorEq] at fired
  | ok out =>
      obtain ⟨hash', result⟩ := out
      simp only [stepAccount, returned, Option.some.injEq] at fired
      subst fired
      obtain ⟨entries, free, entries', lock, lockCalls, filed, kept, outcome, filed',
          kept', isFree⟩ :=
        outcome_of_returned settled.inv ready returned
      have inv' := settled.inv.returned ready returned
      have attr : hash'.attr = s.1.attr := isFree ▸ outcome.attr
      have flags : hash'.flags = s.1.flags := isFree ▸ outcome.flags
      refine ⟨inv', attr ▸ settled.called, flags ▸ settled.frees, ?_⟩
      have listed : stored hash' hash'.listed = stored free entries' := by
        rw [isFree]
        exact stored_perm free filed'.all
      have same : passed hash' = passed free := by
        rw [isFree]
        rfl
      show accepts op result + s.2 = _
      rw [listed, same, outcome.values filed kept ready settled.called settled.frees other,
        settled.balance, stored_perm s.1 filed.all]

theorem term_passes {s s' : Account V} (settled : Settled s)
    (fired : stepAccount s .term = some s') : s'.2 = s.2 ∧ stored s'.1 s'.1.listed = 0 := by
  have settled' := settled.step fired ⟨trivial, rfl⟩
  have ready : Ready s.1 (.term : Op V) s.1 := trivial
  cases returned : apply s.1 .term with
  | error fault => simp only [stepAccount, returned, reduceCtorEq] at fired
  | ok out =>
      obtain ⟨hash', result⟩ := out
      simp only [stepAccount, returned, Option.some.injEq] at fired
      subst fired
      obtain ⟨entries, free, entries', lock, lockCalls, -, -, outcome, filed', -, isFree⟩ :=
        outcome_of_returned settled.inv ready returned
      refine ⟨zero_add _, ?_⟩
      have none : entries' = [] := by
        cases outcome
        rfl
      show stored hash' hash'.listed = 0
      rw [isFree]
      exact stored_perm free (none ▸ filed'.all)

/-- The values of the insertions that succeeded are those in the table and those that were passed to
`on_delete`, each as often; after `amstrhash_term` all of them were passed. -/
theorem amstrhash_values_conserved {ops : List (Op V)} {s : Account V} (started : Started start)
    (called : start.attr.onDelete = true) (frees : start.flags.noFreeCb = false)
    (run : Run stepAccount Counted (start, 0) ops s) :
    s.2 = stored s.1 s.1.listed + passed s.1 ∧
    ∀ s', stepAccount s .term = some s' → s'.2 = s.2 ∧ passed s'.1 = s.2 := by
  have initial : Settled (start, (0 : Multiset (Option V))) := by
    obtain ⟨inv, -, filed⟩ := inv_started started
    have fresh : start.deleted = [] := by
      obtain ⟨capacity, flags, attr, handle, lockReady, array, strings, made, -⟩ := started
      obtain ⟨size, -, -, rfl⟩ := init_made made
      rfl
    refine ⟨inv, called, frees, ?_⟩
    rw [stored_perm start filed.all, passed, fresh]
    rfl
  have settled : Settled s := by
    apply run.invariant Settled initial
    intro before op after settled fired counted
    exact settled.step fired counted
  refine ⟨settled.balance, fun s' fired => ?_⟩
  obtain ⟨same, empty⟩ := term_passes settled fired
  have balance := (settled.step fired ⟨trivial, rfl⟩).balance
  rw [empty, zero_add] at balance
  exact ⟨same, balance.symm.trans same⟩

/-- The value 7 is in the table after its insertion. -/
theorem amstrhash_values_conserved_sample : ∃ (start : Amstrhash ℕ) (s : Account ℕ), Started start ∧
    s.2 = {some 7} ∧ s.2 = stored s.1 s.1.listed + passed s.1 ∧
    ∀ s', stepAccount s .term = some s' → s'.2 = s.2 ∧ passed s'.1 = s.2 := by
  obtain ⟨start, s, made, fired, accepted, called, frees, fits, mapped, copy, unused⟩ :
      ∃ (start : Amstrhash ℕ) (s : Account ℕ),
      amstrhashInit 0 ⟨false, true, true, false, false⟩ (some ⟨0, 0, 0, true⟩) true true true
          sampleStrings =
          .ok (some start) ∧
        stepAccount (start, 0) sampleInsert = some s ∧ s.2 = {some 7} + 0 ∧
        start.attr.onDelete = true ∧
        start.flags.noFreeCb = false ∧ start.capacity.toNat * 2 * 24 < wordSize ∧
        (∃ str, start.strings ⟨16, by decide⟩ = some str) ∧ start.strings ⟨48, by decide⟩ = none ∧
        start.ents ⟨64, by decide⟩ = none :=
    ⟨_, _, rfl, rfl, rfl, rfl, rfl, by decide, ⟨_, rfl⟩, rfl, rfl⟩
  have started : Started start := ⟨_, _, _, _, _, _, _, made, by omega⟩
  have counted : Counted (start, 0) sampleInsert s :=
    ⟨⟨mapped, ⟨fun c same => Option.some.inj same ▸ copy, fun e same =>
      Option.some.inj same ▸ unused⟩, fun _ => fits⟩, rfl⟩
  exact ⟨start, s, started, accepted.trans (add_zero _),
    amstrhash_values_conserved started called frees (Run.nil.snoc fired counted)⟩

end Runs

end Libam.Strhash
