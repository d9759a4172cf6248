import Mathlib.Data.Nat.Basic

/-!
# Programs that change a state

A program takes a state and either returns a value and a state, or does not return. `Program.loop`
is an unbounded loop, cut off after a number of rounds; a program that needs more rounds does not
return.

`Triple` is partial correctness: from a state that meets the precondition the program, if it
returns, ends in a state that meets the postcondition. There is one rule for each way to build a
program, and `triple_loop` is the invariant rule. `Along` is for what every run keeps, whatever its
precondition.

`Goes` is for programs that return from every state. Programs with loops return when they are given
enough rounds (`Settles`): `loop_returns` is the rule for loops that end, and `loop_of_le` says that
more rounds do not change what a loop returns. What such properties have in common is that
sequences keep them (`Closed`), so that one lemma for a program serves them all.
-/

set_option autoImplicit false

namespace TdhSocket.Library

/-- A program over a state: the value and the state it returns, or none. -/
def Program (State Value : Type) : Type := State → Option (Value × State)

namespace Program

variable {State Value Next Vars Exit : Type}

instance : Monad (Program State) where
  pure value := fun state ↦ some (value, state)
  bind program next := fun state ↦ (program state).bind fun outcome ↦ next outcome.1 outcome.2

/-- A value of the state. -/
def read (view : State → Value) : Program State Value := fun state ↦ some (view state, state)

/-- A change of the state. -/
def modify (change : State → State) : Program State Unit := fun state ↦ some ((), change state)

/-- A loop over local variables: each round goes on with new ones or leaves with a result. -/
def loop (body : Vars → Program State (Vars ⊕ Exit)) : ℕ → Vars → Program State Exit
  | 0, _ => fun _ ↦ none
  | rounds + 1, vars => body vars >>= Sum.elim (loop body rounds) pure

/-- The program on each element in turn, with the values in order. -/
def each {Element : Type} (program : Element → Program State Value) :
    List Element → Program State (List Value)
  | [] => pure []
  | element :: elements => do
    let value ← program element
    let values ← each program elements
    pure (value :: values)

/-! ### What a program returns -/

theorem read_apply (view : State → Value) (state : State) :
    read view state = some (view state, state) := rfl

theorem bind_apply (program : Program State Value) (next : Value → Program State Next)
    (state : State) :
    (program >>= next) state = (program state).bind fun outcome ↦ next outcome.1 outcome.2 := rfl

variable {program yes no : Program State Value} {next : Value → Program State Next} {state : State}
  {value : Value} {pre : State → Prop}
  {post : Value → State → Prop} {condition : Prop} {Element Measure : Type}
  {body : Vars → Program State (Vars ⊕ Exit)} {larger : State → State → Prop}
  {property : Value → Prop} {smaller : Measure → Measure → Prop} {vars : Vars}

/-- A sequence returns what its second part returns behind its first. -/
theorem bind_eq_some {outcome : Next × State} :
    (program >>= next) state = some outcome ↔
      ∃ value middle, program state = some (value, middle) ∧ next value middle = some outcome := by
  rw [bind_apply, Option.bind_eq_some_iff]
  constructor
  · rintro ⟨⟨value, middle⟩, hfirst, hnext⟩
    exact ⟨value, middle, hfirst, hnext⟩
  · rintro ⟨value, middle, hfirst, hnext⟩
    exact ⟨(value, middle), hfirst, hnext⟩

/-- Assumes: the first part returns. -/
theorem bind_of_eq_some {middle : State}
    (hfirst : program state = some (value, middle)) :
    (program >>= next) state = next value middle := by
  rw [bind_apply, hfirst]
  rfl

/-! ### Partial correctness -/

/-- From a state with the precondition, a program that returns ends with the postcondition. -/
def Triple (pre : State → Prop) (program : Program State Value)
    (post : Value → State → Prop) : Prop :=
  ∀ state value final, pre state → program state = some (value, final) → post value final

theorem triple_pure (hpost : ∀ state, pre state → post value state) :
    Triple pre (pure value) post := by
  intro state result final hpre hreturns
  cases hreturns
  exact hpost state hpre

theorem triple_read {view : State → Value} (hpost : ∀ state, pre state → post (view state) state) :
    Triple pre (read view) post := by
  intro state result final hpre hreturns
  cases hreturns
  exact hpost state hpre

theorem triple_modify {change : State → State} {post : Unit → State → Prop}
    (hpost : ∀ state, pre state → post () (change state)) : Triple pre (modify change) post := by
  intro state result final hpre hreturns
  cases hreturns
  exact hpost state hpre

theorem triple_bind {post : Next → State → Prop}
    (middle : Value → State → Prop) (hfirst : Triple pre program middle)
    (hnext : ∀ value, Triple (middle value) (next value) post) :
    Triple pre (program >>= next) post := by
  intro state result final hpre hreturns
  obtain ⟨value, state', hprogram, hrest⟩ := bind_eq_some.mp hreturns
  exact hnext value state' result final (hfirst state value state' hpre hprogram) hrest

theorem triple_ite [Decidable condition] (hyes : condition → Triple pre yes post)
    (hno : ¬condition → Triple pre no post) :
    Triple pre (if condition then yes else no) post := by
  split_ifs with hcondition
  · exact hyes hcondition
  · exact hno hcondition

theorem triple_elim {none : Program State Value} {some : Element → Program State Value}
    (hnone : Triple pre none post) (hsome : ∀ element, Triple pre (some element) post)
    (option : Option Element) : Triple pre (option.elim none some) post := by
  cases option with
  | none => exact hnone
  | some element => exact hsome element

/-- A fact that does not depend on the state can be taken from the precondition. -/
theorem triple_and {fact : Prop} (hprogram : fact → Triple pre program post) :
    Triple (fun state ↦ fact ∧ pre state) program post :=
  fun state value final hpre ↦ hprogram hpre.1 state value final hpre.2

theorem Triple.mono {pre' : State → Prop} {post' : Value → State → Prop}
    (htriple : Triple pre' program post') (hpre : ∀ state, pre state → pre' state)
    (hpost : ∀ value state, post' value state → post value state) : Triple pre program post :=
  fun state value final hstate hreturns ↦
    hpost value final (htriple state value final (hpre state hstate) hreturns)

/-- The invariant rule: a round keeps the invariant or leaves with the postcondition. -/
theorem triple_loop {post : Exit → State → Prop} (invariant : Vars → State → Prop)
    (hbody : ∀ vars, Triple (invariant vars) (body vars) fun next state ↦
      Sum.elim (invariant · state) (post · state) next) (rounds : ℕ) (vars : Vars) :
    Triple (invariant vars) (loop body rounds vars) post := by
  induction rounds generalizing vars with
  | zero =>
    intro state value final _ hreturns
    cases hreturns
  | succ rounds ih =>
    refine triple_bind _ (hbody vars) fun next ↦ ?_
    cases next with
    | inl vars => exact ih vars
    | inr exit => exact triple_pure fun _ hpost ↦ hpost

/-! ### Runs along a relation -/

/-- Every run of the program goes along a relation between states. -/
def Along (relation : State → State → Prop) (program : Program State Value) : Prop :=
  ∀ start value final, program start = some (value, final) → relation start final

section Along

variable {relation : State → State → Prop}

theorem along_pure [Std.Refl relation] (value : Value) :
    Along relation (pure value : Program State Value) := by
  intro start result final hreturns
  cases hreturns
  exact Std.Refl.refl start

theorem along_read [Std.Refl relation] (view : State → Value) : Along relation (read view) := by
  intro start result final hreturns
  cases hreturns
  exact Std.Refl.refl start

theorem along_modify {change : State → State} (hchange : ∀ state, relation state (change state)) :
    Along relation (modify change) := by
  intro start result final hreturns
  cases hreturns
  exact hchange start

/-- A sequence goes along two relations in a row. -/
theorem along_chain {first second third : State → State → Prop}
    (htrans : ∀ {start middle final}, first start middle → second middle final → third start final)
    (hfirst : Along first program) (hnext : ∀ value, Along second (next value)) :
    Along third (program >>= next) := by
  intro start result final hreturns
  obtain ⟨value, middle, hprogram, hrest⟩ := bind_eq_some.mp hreturns
  exact htrans (hfirst start value middle hprogram) (hnext value middle result final hrest)

theorem along_bind [Trans relation relation relation]
    (hfirst : Along relation program) (hnext : ∀ value, Along relation (next value)) :
    Along relation (program >>= next) :=
  along_chain (fun hstart hrest ↦ Trans.trans hstart hrest) hfirst hnext

theorem along_ite [Decidable condition] (hyes : Along relation yes) (hno : Along relation no) :
    Along relation (if condition then yes else no) := by
  split_ifs
  · exact hyes
  · exact hno

theorem along_elim {none : Program State Value} {some : Element → Program State Value}
    (hnone : Along relation none) (hsome : ∀ element, Along relation (some element))
    (option : Option Element) :
    Along relation (option.elim none some) := by
  cases option with
  | none => exact hnone
  | some element => exact hsome element

/-- A loop goes along what its rounds go along. -/
theorem along_loop [Std.Refl relation] [Trans relation relation relation]
    (hbody : ∀ vars, Along relation (body vars)) (rounds : ℕ) (vars : Vars) :
    Along relation (loop body rounds vars) := by
  induction rounds generalizing vars with
  | zero =>
    intro start value final hreturns
    cases hreturns
  | succ rounds ih =>
    refine along_bind (hbody vars) fun next ↦ ?_
    cases next with
    | inl vars => exact ih vars
    | inr exit => exact along_pure exit

end Along

variable {relation : State → State → Prop}

theorem Along.mono (halong : Along relation program)
    (hlarger : ∀ start final, relation start final → larger start final) : Along larger program :=
  fun start value final hreturns ↦ hlarger start final (halong start value final hreturns)

/-! ### Programs that return -/

/-- The program returns from every state, along a relation between states. -/
def Goes (relation : State → State → Prop) (program : Program State Value) : Prop :=
  ∀ start, ∃ value final, program start = some (value, final) ∧ relation start final

section Goes

variable {relation : State → State → Prop}

theorem Goes.along (hgoes : Goes relation program) :
    Along relation program := by
  intro start value final hreturns
  obtain ⟨value', final', hreturns', hrelation⟩ := hgoes start
  cases hreturns'.symm.trans hreturns
  exact hrelation

theorem Goes.mono (hgoes : Goes relation program)
    (hlarger : ∀ start final, relation start final → larger start final) :
    Goes larger program := by
  intro start
  obtain ⟨value, final, hreturns, hrelation⟩ := hgoes start
  exact ⟨value, final, hreturns, hlarger start final hrelation⟩

theorem goes_modify {change : State → State} (hchange : ∀ state, relation state (change state)) :
    Goes relation (modify change) :=
  fun start ↦ ⟨(), change start, rfl, hchange start⟩

end Goes

/-! ### Values alone -/

/-- The values a program returns have a property, whatever the states. -/
def Returns (property : Value → Prop) (program : Program State Value) : Prop :=
  ∀ state value final, program state = some (value, final) → property value

theorem returns_pure (hvalue : property value) :
    Returns property (pure value : Program State Value) := by
  intro state result final hreturns
  cases hreturns
  exact hvalue

/-- Assumes: the second part returns values with the property for what the first part returns. -/
theorem returns_bind {middle : Value → Prop} {property : Next → Prop}
    (hprogram : Returns middle program)
    (hnext : ∀ value, middle value → Returns property (next value)) :
    Returns property (program >>= next) := by
  intro state result final hreturns
  obtain ⟨value, between, hfirst, hrest⟩ := bind_eq_some.mp hreturns
  exact hnext value (hprogram state value between hfirst) between result final hrest

theorem returns_any (program : Program State Value) : Returns (fun _ ↦ True) program :=
  fun _ _ _ _ ↦ trivial

theorem returns_ite [Decidable condition] (hyes : Returns property yes)
    (hno : Returns property no) :
    Returns property (if condition then yes else no) := by
  split_ifs
  · exact hyes
  · exact hno

/-! ### Loops that return -/

/-- Total correctness of a loop: a round returns, and keeps the invariant and makes something
smaller or leaves with the postcondition. -/
theorem loop_returns (hsmaller : WellFounded smaller) {post : Exit → State → Prop}
    (invariant : Vars → State → Prop) (measure : Vars → State → Measure)
    (hbody : ∀ vars state, invariant vars state → ∃ next after,
      body vars state = some (next, after) ∧
        Sum.elim (fun vars' ↦ invariant vars' after ∧
          smaller (measure vars' after) (measure vars state)) (post · after) next)
    (hinvariant : invariant vars state) :
    ∃ rounds exit final, loop body rounds vars state = some (exit, final) ∧ post exit final := by
  obtain ⟨size, hsize⟩ : ∃ size, size = measure vars state := ⟨_, rfl⟩
  induction size using hsmaller.induction generalizing vars state with
  | _ size ih =>
    obtain ⟨next, after, hround, hnext⟩ := hbody vars state hinvariant
    cases next with
    | inl vars' =>
      obtain ⟨rounds, exit, final, hloop, hpost⟩ := ih _ (hsize ▸ hnext.2) hnext.1 rfl
      exact ⟨rounds + 1, exit, final, bind_eq_some.mpr ⟨_, _, hround, hloop⟩, hpost⟩
    | inr exit => exact ⟨1, exit, after, bind_eq_some.mpr ⟨_, _, hround, rfl⟩, hnext⟩

/-- More rounds do not change what a loop returns. -/
theorem loop_of_le {enough rounds : ℕ} {outcome : Exit × State}
    (hreturns : loop body enough vars state = some outcome) (hle : enough ≤ rounds) :
    loop body rounds vars state = some outcome := by
  induction enough generalizing rounds vars state with
  | zero => cases hreturns
  | succ enough ih =>
    obtain ⟨more, rfl⟩ : ∃ more, rounds = more + 1 :=
      ⟨rounds - 1, (Nat.sub_add_cancel (Nat.one_le_of_lt hle)).symm⟩
    obtain ⟨next, middle, hbody, hrest⟩ := bind_eq_some.mp hreturns
    refine bind_eq_some.mpr ⟨next, middle, hbody, ?_⟩
    cases next with
    | inl vars => exact ih hrest (Nat.le_of_succ_le_succ hle)
    | inr exit => exact hrest

/-- With enough rounds the program returns, and more rounds do not change what it returns. -/
def Settles (program : ℕ → Program State Value) : Prop :=
  ∀ start, ∃ enough outcome, ∀ rounds, enough ≤ rounds → program rounds start = some outcome

theorem Goes.settles (hgoes : Goes relation program) : Settles fun _ ↦ program := by
  intro start
  obtain ⟨value, final, hreturns, -⟩ := hgoes start
  exact ⟨0, (value, final), fun _ _ ↦ hreturns⟩

theorem settles_bind {program : ℕ → Program State Value}
    {next : ℕ → Value → Program State Next} (hfirst : Settles program)
    (hnext : ∀ value, Settles fun rounds ↦ next rounds value) :
    Settles fun rounds ↦ program rounds >>= next rounds := by
  intro start
  obtain ⟨enough, ⟨value, middle⟩, hprogram⟩ := hfirst start
  obtain ⟨more, outcome, hrest⟩ := hnext value middle
  refine ⟨max enough more, outcome, fun rounds hle ↦ ?_⟩
  exact bind_eq_some.mpr ⟨value, middle, hprogram rounds (Nat.le_trans (Nat.le_max_left _ _) hle),
    hrest rounds (Nat.le_trans (Nat.le_max_right _ _) hle)⟩

/-! ### Properties of programs

A property that holds of the parts of a program often holds of the whole for no other reason than
that it is kept by sequences. -/

/-- A property of programs that may use a number of rounds. -/
abbrev Property (State : Type) : Type 1 := ∀ Value : Type, (ℕ → Program State Value) → Prop

/-- The property is kept by sequences. -/
structure Closed (holds : Property State) : Prop where
  pure : ∀ {Value : Type} (value : Value), holds Value fun _ ↦ Pure.pure value
  read : ∀ {Value : Type} (view : State → Value), holds Value fun _ ↦ Program.read view
  bind : ∀ {Value Next : Type} {program : ℕ → Program State Value}
    {next : ℕ → Value → Program State Next}, holds Value program →
      (∀ value, holds Next fun rounds ↦ next rounds value) →
        holds Next fun rounds ↦ program rounds >>= next rounds

namespace Closed

variable {holds : Property State}

theorem ite [Decidable condition] {yes no : ℕ → Program State Value} (hyes : holds Value yes)
    (hno : holds Value no) :
    holds Value fun rounds ↦ if condition then yes rounds else no rounds := by
  split_ifs
  · exact hyes
  · exact hno

theorem elim {none : ℕ → Program State Value} {some : ℕ → Element → Program State Value}
    (hnone : holds Value none) (hsome : ∀ element, holds Value fun rounds ↦ some rounds element)
    (option : Option Element) :
    holds Value fun rounds ↦ option.elim (none rounds) (some rounds) := by
  cases option with
  | none => exact hnone
  | some element => exact hsome element

theorem each (hclosed : Closed holds) {program : ℕ → Element → Program State Value}
    {elements : List Element}
    (hprogram : ∀ element ∈ elements, holds Value fun rounds ↦ program rounds element) :
    holds (List Value) fun rounds ↦ Program.each (program rounds) elements := by
  induction elements with
  | nil => exact hclosed.pure []
  | cons element elements ih =>
    refine hclosed.bind (hprogram element List.mem_cons_self) fun value ↦ ?_
    refine hclosed.bind (ih fun other hother ↦ ?_) fun values ↦ hclosed.pure (value :: values)
    exact hprogram other (List.mem_cons_of_mem _ hother)

end Closed

theorem closed_along [Std.Refl relation] [Trans relation relation relation] :
    Closed fun (Value : Type) (program : ℕ → Program State Value) ↦
      ∀ rounds, Along relation (program rounds) where
  pure value _ := along_pure value
  read view _ := along_read view
  bind hprogram hnext rounds := along_bind (hprogram rounds) fun value ↦ hnext value rounds

theorem closed_settles :
    Closed fun (Value : Type) (program : ℕ → Program State Value) ↦ Settles program where
  pure value start := ⟨0, (value, start), fun _ _ ↦ rfl⟩
  read view start := ⟨0, (view start, start), fun _ _ ↦ rfl⟩
  bind := settles_bind

/-- A loop settles when every round returns and makes something smaller or leaves. -/
theorem settles_loop (hsmaller : WellFounded smaller) (measure : Vars → State → Measure)
    (hbody : ∀ vars state, ∃ next after, body vars state = some (next, after) ∧
      ∀ vars', next = .inl vars' → smaller (measure vars' after) (measure vars state))
    (vars : Vars) :
    Settles fun rounds ↦ loop body rounds vars := by
  intro start
  have hround : ∀ vars state, True → ∃ next after, body vars state = some (next, after) ∧
      Sum.elim (fun vars' ↦ True ∧ smaller (measure vars' after) (measure vars state))
        (fun _ ↦ True) next := by
    intro vars state _
    obtain ⟨next, after, hreturns, hless⟩ := hbody vars state
    refine ⟨next, after, hreturns, ?_⟩
    cases next with
    | inl vars' => exact ⟨trivial, hless vars' rfl⟩
    | inr exit => trivial
  obtain ⟨enough, exit, final, hloop, -⟩ :=
    loop_returns hsmaller (fun _ _ ↦ True) measure hround (trivial : True)
  exact ⟨enough, (exit, final), fun rounds hle ↦ loop_of_le hloop hle⟩

end Program

end TdhSocket.Library
