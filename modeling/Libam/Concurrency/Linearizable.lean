import Libam.Concurrency.Interleaving

/-! Histories of calls and returns, and objects on which every call takes effect at one moment
between its call and its return. -/

namespace Libam.History

open Libam.Interleaving

section Histories

variable {Tid G L A E : Type*} [DecidableEq Tid]

def history (next : G → L → A → Option (G × L)) (see : G → L → A → Option E) :
    Config Tid G L → List (Tid × A) → List (Tid × E)
  | _, [] => []
  | c, act :: actions =>
      match c.step next act with
      | none => []
      | some c' =>
          ((see c.shared (c.pc act.1) act.2).map (act.1, ·)).toList ++ history next see c' actions

variable {next : G → L → A → Option (G × L)} {see : G → L → A → Option E}
  {c c' start : Config Tid G L}

theorem history_append {prior : List (Tid × A)}
    (computed : runs (Config.step next) c prior = some c') (actions : List (Tid × A)) :
    history next see c (prior ++ actions) = history next see c prior ++ history next see
    c' actions := by
  induction prior generalizing c with
  | nil =>
      cases computed
      rfl
  | cons act prior ih =>
      simp only [runs, Option.bind_eq_some_iff] at computed
      obtain ⟨middle, fired, rest⟩ := computed
      simp only [List.cons_append, history, fired, ih rest, List.append_assoc]

theorem history_snoc {Ok : Config Tid G L → Tid × A → Config Tid G L → Prop}
    {actions : List (Tid × A)} {act : Tid × A} (run : Run (Config.step next) Ok start actions c)
    (fired : c.step next act = some c') :
    history next see start (actions ++ [act]) =
      history next see start actions ++
      ((see c.shared (c.pc act.1) act.2).map (act.1, ·)).toList := by
  rw [history_append run.runs_eq]
  simp [history, fired]

end Histories

section Objects

/-- An object on which calls take effect one after the other. -/
structure Object (Q O R : Type*) where
  init : Q
  apply : Q → O → Q × R

inductive Seen (O R : Type*)
  | call (op : O)
  | ret (result : R)
  deriving DecidableEq, Repr

/-- Where a thread stands: in no call, in a call without effect yet, in one that
has taken effect. -/
inductive Status (O R : Type*)
  | idle
  | called (op : O)
  | done (result : R)

variable {Tid Q O R : Type*}

/-- Calls one after the other, with the results that the object gives them. -/
def Object.Legal (obj : Object Q O R) : Q → List (Tid × O × R) → Q → Prop
  | q, [], q' => q' = q
  | q, (_, op, result) :: order, q' =>
      (obj.apply q op).2 = result ∧ Object.Legal obj (obj.apply q op).1 order q'

theorem legal_append {obj : Object Q O R} {q q' : Q} {first second : List (Tid × O × R)} :
    obj.Legal q (first ++ second) q' ↔ ∃ middle, obj.Legal q first middle ∧
    obj.Legal middle second q' := by
  induction first generalizing q with
  | nil => simp [Object.Legal]
  | cons entry first ih => simp [Object.Legal, ih, and_assoc]

variable [DecidableEq Tid]

def callsOf (t : Tid) (events : List (Tid × Seen O R)) : List O :=
  events.filterMap fun event =>
    match event with
    | (u, .call op) => if u = t then some op else none
    | (_, .ret _) => none

def retsOf (t : Tid) (events : List (Tid × Seen O R)) : List R :=
  events.filterMap fun event =>
    match event with
    | (_, .call _) => none
    | (u, .ret result) => if u = t then some result else none

def opsOf (t : Tid) (order : List (Tid × O × R)) : List O :=
  order.filterMap fun entry => if entry.1 = t then some entry.2.1 else none

def resultsOf (t : Tid) (order : List (Tid × O × R)) : List R :=
  order.filterMap fun entry => if entry.1 = t then some entry.2.2 else none

/-- One sequential order of the calls explains what every client sees: it is legal on the object, it
has for each thread the operations that it calls, in its order and with the results that it is
given, and at every moment of the history it is cut so that all calls that have returned by then
come before all calls that are made later. -/
def Linearizable (obj : Object Q O R) (events : List (Tid × Seen O R)) : Prop :=
  ∃ order q, obj.Legal obj.init order q ∧
    ∀ before after, events = before ++ after → ∃ early late, order = early ++ late ∧
      (∀ t, opsOf t early <+: callsOf t before ∧ retsOf t before <+: resultsOf t early) ∧
      (after = [] → late = [])

/-- A history whose calls take effect in `order`, with the state of the object after them and where
every thread stands. -/
inductive Linear (obj : Object Q O R) :
    List (Tid × Seen O R) → List (Tid × O × R) → Q → (Tid → Status O R) → Prop
  | nil : Linear obj [] [] obj.init fun _ => .idle
  | call {events order q at'} (t : Tid) (op : O) : Linear obj events order q at' → at' t = .idle →
      Linear obj (events ++ [(t, .call op)]) order q (Function.update at' t (.called op))
  | effect {events order q at'} (t : Tid) (op : O) : Linear obj events order q at' →
      at' t = .called op →
      Linear obj events (order ++ [(t, op, (obj.apply q op).2)]) (obj.apply q op).1
        (Function.update at' t (.done (obj.apply q op).2))
  | ret {events order q at'} (t : Tid) (result : R) : Linear obj events order q at' →
      at' t = .done result →
      Linear obj (events ++ [(t, .ret result)]) order q (Function.update at' t .idle)

/-- The operation that is still to take effect, and the result that is still to be returned. -/
def Status.pending : Status O R → List O
  | .called op => [op]
  | _ => []

def Status.owed : Status O R → List R
  | .done result => [result]
  | _ => []

variable {obj : Object Q O R} {events before after : List (Tid × Seen O R)}
  {order : List (Tid × O × R)} {q q' : Q} {at' : Tid → Status O R} {t : Tid}

theorem Linear.legal (linear : Linear obj events order q at') : obj.Legal obj.init order q := by
  induction linear with
  | nil => rfl
  | call t op _ _ ih => exact ih
  | effect t op _ _ ih => exact legal_append.mpr ⟨_, ih, rfl, rfl⟩
  | ret t result _ _ ih => exact ih

omit [DecidableEq Tid] in
theorem filterMap_snoc {E F : Type*} (f : E → Option F) (l : List E) (e : E) :
    (l ++ [e]).filterMap f = l.filterMap f ++ (f e).toList := by
  rw [List.filterMap_append]
  cases fe : f e <;> simp [fe]

/-- What a thread has called has taken effect or is pending; what has taken effect has
returned or is owed. -/
theorem Linear.thread (linear : Linear obj events order q at') (t : Tid) :
    opsOf t order ++ (at' t).pending = callsOf t events ∧
    retsOf t events ++ (at' t).owed = resultsOf t order := by
  induction linear with
  | nil => exact ⟨rfl, rfl⟩
  | call u op _ idle ih =>
      obtain ⟨ops, results⟩ := ih
      simp only [callsOf, retsOf, filterMap_snoc] at ops results ⊢
      by_cases same : u = t
      · subst same
        rw [idle] at ops results
        simpa [Status.pending, Status.owed] using And.intro ops results
      · simpa [same, Function.update_of_ne (Ne.symm same)] using And.intro ops results
  | effect u op _ called ih =>
      obtain ⟨ops, results⟩ := ih
      simp only [opsOf, resultsOf, filterMap_snoc] at ops results ⊢
      by_cases same : u = t
      · subst same
        rw [called] at ops results
        simpa [Status.pending, Status.owed] using And.intro ops results
      · simpa [same, Function.update_of_ne (Ne.symm same)] using And.intro ops results
  | ret u result _ done ih =>
      obtain ⟨ops, results⟩ := ih
      simp only [callsOf, retsOf, filterMap_snoc] at ops results ⊢
      by_cases same : u = t
      · subst same
        rw [done] at ops results
        simpa [Status.pending, Status.owed] using And.intro ops results
      · simpa [same, Function.update_of_ne (Ne.symm same)] using And.intro ops results

/-- A cut of a history that has grown by one event lies at its end or in what was there before. -/
theorem cut_snoc {E : Type*} {events before after : List E} {event : E}
    (parts : events ++ [event] = before ++ after) :
    (after = [] ∧ before = events ++ [event]) ∨ (after ≠ [] ∧ ∃ rest, events = before ++ rest) := by
  rcases List.eq_nil_or_concat' after with empty | ⟨rest, last, grown⟩
  · rw [empty, List.append_nil] at parts
    exact .inl ⟨empty, parts.symm⟩
  · rw [grown, ← List.append_assoc] at parts
    exact .inr ⟨by simp [grown], rest, (List.append_inj' parts rfl).1⟩

theorem Linear.cut (linear : Linear obj events order q at') (parts : events = before ++ after) :
    ∃ early late q₁ at₁, order = early ++ late ∧ Linear obj before early q₁ at₁ ∧
    (after = [] → late = []) := by
  induction linear generalizing after with
  | nil =>
      obtain ⟨rfl, rfl⟩ := List.append_eq_nil_iff.mp parts.symm
      exact ⟨[], [], _, _, rfl, .nil, fun _ => rfl⟩
  | call t op earlier idle ih =>
      rcases cut_snoc parts with ⟨-, whole⟩ | ⟨more, rest, inside⟩
      · rw [whole]
        exact ⟨_, [], _, _, (List.append_nil _).symm, .call t op earlier idle, fun _ => rfl⟩
      · obtain ⟨early, late, q₁, at₁, split, linear, -⟩ := ih inside
        exact ⟨early, late, q₁, at₁, split, linear, fun empty => absurd empty more⟩
  | effect t op earlier called ih =>
      by_cases empty : after = []
      · rw [empty, List.append_nil] at parts
        rw [← parts]
        exact ⟨_, [], _, _, (List.append_nil _).symm, .effect t op earlier called, fun _ => rfl⟩
      · obtain ⟨early, late, q₁, at₁, split, linear, -⟩ := ih parts
        rw [split, List.append_assoc]
        exact ⟨early, _, q₁, at₁, rfl, linear, fun none => absurd none empty⟩
  | ret t result earlier done ih =>
      rcases cut_snoc parts with ⟨-, whole⟩ | ⟨more, rest, inside⟩
      · rw [whole]
        exact ⟨_, [], _, _, (List.append_nil _).symm, .ret t result earlier done, fun _ => rfl⟩
      · obtain ⟨early, late, q₁, at₁, split, linear, -⟩ := ih inside
        exact ⟨early, late, q₁, at₁, split, linear, fun empty => absurd empty more⟩

theorem Linear.linearizable (linear : Linear obj events order q at') : Linearizable obj events := by
  refine ⟨order, q, linear.legal, fun before after parts => ?_⟩
  obtain ⟨early, late, q₁, at₁, split, first, ends⟩ := linear.cut parts
  refine ⟨early, late, split, fun t => ?_, ends⟩
  obtain ⟨ops, results⟩ := first.thread t
  exact ⟨⟨_, ops⟩, ⟨_, results⟩⟩

inductive Explains (obj : Object Q O R) : Q → Status O R → Option (Seen O R) → Q → Status O R → Prop
  | quiet (q : Q) (st : Status O R) : Explains obj q st none q st
  | call (q : Q) (op : O) : Explains obj q .idle (some (.call op)) q (.called op)
  | effect (q : Q) (op : O) :
      Explains obj q (.called op) none (obj.apply q op).1 (.done (obj.apply q op).2)
  | callEffect (q : Q) (op : O) :
      Explains obj q .idle (some (.call op)) (obj.apply q op).1 (.done (obj.apply q op).2)
  | ret (q : Q) (result : R) : Explains obj q (.done result) (some (.ret result)) q .idle

theorem Linear.explain (linear : Linear obj events order q at') {st st' : Status O R}
    {shown : Option (Seen O R)} (here : at' t = st) (explains : Explains obj q st shown q' st') :
    ∃ order', Linear obj (events ++ (shown.map (t, ·)).toList) order' q'
    (Function.update at' t st') := by
  cases explains with
  | quiet =>
      refine ⟨order, ?_⟩
      rw [← here, Function.update_eq_self, Option.map_none, Option.toList_none, List.append_nil]
      exact linear
  | call op => exact ⟨order, .call t op linear here⟩
  | effect op =>
      refine ⟨order ++ [(t, op, (obj.apply q op).2)], ?_⟩
      rw [Option.map_none, Option.toList_none, List.append_nil]
      exact .effect t op linear here
  | callEffect op =>
      have called := Linear.call t op linear here
      have effect := Linear.effect t op called (Function.update_self ..)
      rw [Function.update_idem] at effect
      exact ⟨_, effect⟩
  | ret result => exact ⟨order, .ret t result linear here⟩

end Objects

section Simulation

variable {Tid G L A Q O R : Type*} [DecidableEq Tid] {obj : Object Q O R}
  {next : G → L → A → Option (G × L)} {see : G → L → A → Option (Seen O R)}
  {Ok : Config Tid G L → Tid × A → Config Tid G L → Prop} {start c : Config Tid G L}
  {actions : List (Tid × A)}

/-- Calls that take effect at a step of their own, which the invariant `Shows` relates to the
object, have a linearizable history. A step changes nothing about where the other threads stand. -/
theorem linearizable_run (Shows : Config Tid G L → Q → Prop) (status : G → L → Status O R)
    (initial : Shows start obj.init) (resting : ∀ t, status start.shared (start.pc t) = .idle)
    (explained : ∀ c act g l q, Shows c q → next c.shared (c.pc act.1) act.2 = some (g, l) →
      Ok c act ⟨g, Function.update c.pc act.1 l⟩ →
      (∀ u, u ≠ act.1 → status g (c.pc u) = status c.shared (c.pc u)) ∧
      ∃ q', Shows ⟨g, Function.update c.pc act.1 l⟩ q' ∧
        Explains obj q (status c.shared (c.pc act.1)) (see c.shared (c.pc act.1) act.2)
        q' (status g l))
    (run : Run (Config.step next) Ok start actions c) :
    Linearizable obj (history next see start actions) := by
  have simulated : ∃ order q,
      Linear obj (history next see start actions) order q (fun t => status c.shared (c.pc t)) ∧
      Shows c q := by
    induction run with
    | nil =>
        have idle : (fun t => status start.shared (start.pc t)) = fun _ => Status.idle :=
          funext resting
        rw [idle]
        exact ⟨[], obj.init, .nil, initial⟩
    | @snoc actions c _ act run fired allowed ih =>
        obtain ⟨order, q, linear, shows⟩ := ih
        rw [history_snoc run fired]
        obtain ⟨g, l, stepped, rfl⟩ := Config.step_eq_some.mp fired
        obtain ⟨others, q', shows', explains⟩ := explained c act g l q shows stepped allowed
        obtain ⟨order', linear'⟩ := linear.explain rfl explains
        refine ⟨order', q', ?_, shows'⟩
        have stands : (fun t => status g (Function.update c.pc act.1 l t)) =
            Function.update (fun t => status c.shared (c.pc t)) act.1 (status g l) := by
          funext u
          by_cases self : u = act.1
          · rw [self, Function.update_self, Function.update_self]
          · rw [Function.update_of_ne self, Function.update_of_ne self, others u self]
        rw [stands]
        exact linear'
  obtain ⟨order, q, linear, -⟩ := simulated
  exact linear.linearizable

end Simulation

end Libam.History
