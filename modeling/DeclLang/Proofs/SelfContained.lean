import DeclLang.Proofs.FaithfulRecipes
import DeclLang.Proofs.Lockstep
import DeclLang.Proofs.ReferenceSemantics

/-!
# Functions that refer to themselves only

**Input.**  A compiled program, and a function in it whose nodes depend on each other only, call
nothing, and are assigned nowhere else.

**Invariant.**  `Context.Pristine`: wherever a function value is made, the nodes of the function
have the recipes of the start, and those without a recipe have the values of the start.

**Results.**
* `Closure.Pristine.frame_unassigned`: when the body starts, a variable without an initializer has
  no value, whoever calls.
* `Closure.Pristine.callClosure_eq`: calls of the function with the same arguments have the same
  outcome, wherever its value was made and whatever was evaluated before.
-/

namespace DeclLang

open Step (Keeps Ensures)
open Inference (reached visited functionBelow)

/-- A function that refers to itself only: what belongs to it depends on nothing else and calls
nothing, and its declarations are assigned in it alone. -/
structure Compilation.SelfContained (compilation : Compilation) (function : Node) : Prop where
  closed : compilation.context.ClosedOn (compilation.root.Owns function)
  assigned : ∀ place target, compilation.evaluator.plan.target? place = some target →
    compilation.root.Owns function target → compilation.root.Owns function place

/-- What belongs to a function stands below it. -/
theorem exists_owner {function node inner : Node} {outer? : Option Node}
    (h : (some function, inner) ∈ reached outer? node) (new : outer? ≠ some function) :
    (∃ function?, (function?, function) ∈ reached outer? node) ∧
      inner ∈ function.descendants ∧ function.IsFunction := by
  induction node using Node.children_induction generalizing outer? with
  | step node ih =>
    rcases Inference.mem_reached_iff.1 h with same | ⟨child, visit, below⟩
    · cases same
      exact absurd rfl new
    · have mem := Inference.mem_children_of_mem_visited visit
      by_cases entered : functionBelow outer? node = some function
      · unfold functionBelow at entered
        split at entered
        · rename_i name generics parameters returnType body kind
          cases entered
          exact ⟨⟨outer?, Inference.self_mem_reached outer? function⟩,
            Node.mem_descendants_iff.2 ⟨child, mem, Inference.mem_preorder_of_mem_reached below⟩,
            name, generics, parameters, returnType, body, kind⟩
        · exact absurd entered new
      · obtain ⟨⟨function?, place⟩, inside, kind⟩ := ih child mem below entered
        exact ⟨⟨function?, Inference.mem_reached_iff.2 (.inr ⟨child, visit, place⟩)⟩, inside, kind⟩

/-- The nodes of a function as it was registered, where its parameters, its literals and its
variables without an initializer have not changed. -/
structure Context.Pristine (compilation : Compilation) (function : Node) (context : Context) :
    Prop extends context.Intact compilation function where
  constants : ∀ id, compilation.root.Owns function id → compilation.context.thunk? id = none →
    context.value? id = compilation.context.value? id
  unassigned : ∀ id ∈ context.rebound, ¬compilation.root.Owns function id

/-- A function value is made of a reached declaration, in a context where some function is
pristine. -/
structure Closure.Pristine (compilation : Compilation) (function : Node) (closure : Closure) :
    Prop extends closure.Intact compilation function where
  untouched : closure.base.Pristine compilation function

/-- In all contexts at hand the function is pristine. -/
abbrev Machine.Pristine (compilation : Compilation) (function : Node) : Machine → Prop :=
  Machine.All (Context.Pristine compilation function) (Closure.Pristine compilation function)

section Pristine

variable {compilation : Compilation} (consistent : compilation.Consistent) {function : Node}

include consistent

/-- The plan forgets what belongs to a function when it is called. -/
theorem Node.Owns.mem_subtree {id : NodeId} (owned : compilation.root.Owns function id) :
    id ∈ compilation.evaluator.plan.subtree function.id := by
  obtain ⟨node, mem, rfl⟩ := owned
  obtain ⟨⟨function?, place⟩, inside, name, generics, parameters, returnType, body, kind⟩ :=
    exists_owner mem nofun
  obtain ⟨id, _⟩ := function
  cases kind
  rw [consistent.plan, Node.id_mk, Plan.subtree_function consistent.distinct _ place]
  exact List.mem_map_of_mem inside

namespace Context.Pristine

theorem start : compilation.context.Pristine compilation function where
  toIntact := Context.Intact.start consistent
  constants _ _ _ := rfl
  unassigned id mem := by
    rw [consistent.context, Registration.rebound_ofProgram] at mem
    exact absurd mem Std.TreeSet.not_mem_emptyc

variable {context : Context} (pristine : context.Pristine compilation function)

include pristine

omit consistent in
theorem progressed (inProgress : Std.TreeSet NodeId) :
    Context.Pristine compilation function { context with inProgress } where
  toIntact := pristine.toIntact.congr rfl rfl fun _ mem => mem
  constants := pristine.constants
  unassigned := pristine.unassigned

omit consistent in
theorem copy : context.copy.Pristine compilation function where
  toIntact := pristine.toIntact.copy
  constants := pristine.constants
  unassigned _ mem := absurd mem Std.TreeSet.not_mem_emptyc

/-- Nodes of the function that have a recipe may get a value. -/
theorem addValue {id : NodeId}
    (h : compilation.root.Owns function id → (compilation.context.thunk? id).isSome)
    (value : Value) : (context.addValue id value).Pristine compilation function where
  toIntact := by
    refine pristine.toIntact.addValue (fun literal mem => ?_) value
    have recipe := h ⟨_, mem, rfl⟩
    rw [thunk?_literal consistent mem] at recipe
    cases recipe
  constants other owned recipe := by
    rw [value?_addValue, if_neg]
    · exact pristine.constants other owned recipe
    · rintro rfl
      rw [recipe] at h
      cases h owned
  unassigned := pristine.unassigned

theorem rebind {id : NodeId} (declared : compilation.root.Declares id)
    (other : ¬compilation.root.Owns function id) (value : Value) :
    (context.rebind id value).Pristine compilation function where
  toIntact := pristine.toIntact.rebind consistent declared value
  constants constant owned recipe := by
    rw [value?_rebind, if_neg]
    · exact pristine.constants constant owned recipe
    · rintro rfl
      exact other owned
  unassigned assigned mem := by
    rcases (mem_rebound_rebind id value assigned).1 mem with rfl | before
    · exact other
    · exact pristine.unassigned assigned before

omit consistent in
theorem fail {id : NodeId} (other : ¬compilation.root.Owns function id) (error : EvalError) :
    (context.addThunk id (.failed error)).Pristine compilation function where
  toIntact := pristine.toIntact.fail other error
  constants := pristine.constants
  unassigned := pristine.unassigned

theorem turn (ids : List NodeId) :
    (context.copy.forget ids).Pristine compilation function where
  toIntact := pristine.toIntact.turn consistent ids
  constants id owned recipe := by
    rw [value?_forget, if_neg]
    · exact pristine.constants id owned recipe
    · rintro ⟨-, found⟩
      rw [show context.copy.thunk? id = compilation.context.thunk? id from
        pristine.recipes id owned, recipe] at found
      cases found
  unassigned _ mem := absurd mem Std.TreeSet.not_mem_emptyc

theorem adopt {turn : Context} (other : turn.Pristine compilation function) :
    (context.adopt turn).Pristine compilation function where
  toIntact := pristine.toIntact.adopt consistent other.toIntact
  constants id owned recipe := by
    rw [value?_adopt, if_neg]
    · exact pristine.constants id owned recipe
    · exact fun both => other.unassigned id both.1 owned
  unassigned id mem := by
    rcases (mem_rebound_adopt turn id).1 mem with before | ⟨now, -⟩
    · exact pristine.unassigned id before
    · exact other.unassigned id now

end Context.Pristine

end Pristine

/-- Statements that leave no variable of the function pending, and assign outside of it, leave it
pristine. -/
theorem Statement.allows_pristine {compilation : Compilation}
    (consistent : compilation.Consistent) {function : Node}
    (contained : compilation.SelfContained function) {closures : Array Closure → Prop}
    {evaluate : NodeId → Eval Value}
    (evaluates : ∀ id, Keeps (Machine.Has (Context.Pristine compilation function) closures)
      (evaluate id)) :
    Statement.Allows compilation.evaluator.plan (Context.Pristine compilation function) closures
      evaluate (fun _ => True) (fun id => ¬compilation.root.Owns function id)
      (fun id => ¬compilation.root.Owns function id) where
  evaluates id _ := evaluates id
  pending _ _ := trivial
  fails _ error _ other pristine := pristine.fail other error
  assigns place target value _ other planned pristine := by
    have apart := mt (contained.assigned place target planned) other
    rw [consistent.plan] at planned
    obtain ⟨reference, resolved⟩ := Plan.resolved_of_target? planned
    exact pristine.rebind consistent (consistent.resolves reference target resolved) apart value
  turns subtree _ pristine := pristine.turn consistent subtree
  adopts _ _ pristine other := pristine.adopt consistent other

section Frames

variable {compilation : Compilation} (consistent : compilation.Consistent) {function : Node}

/-- The nodes of a function depend on each other only, wherever they have their recipes. -/
theorem Context.Intact.closedOn (contained : compilation.SelfContained function)
    {context : Context} (intact : context.Intact compilation function) :
    context.ClosedOn (compilation.root.Owns function) :=
  fun id thunk owned found =>
    contained.closed id thunk owned ((intact.recipes id owned).symm.trans found)

include consistent

theorem Context.Pristine.addValues {context : Context}
    (pristine : context.Pristine compilation function) {bindings : List (NodeId × Value)}
    (others : ∀ binding ∈ bindings, ¬compilation.root.Owns function binding.1) :
    (context.addValues bindings).Pristine compilation function := by
  unfold Context.addValues
  induction bindings generalizing context with
  | nil => exact pristine
  | cons binding bindings ih =>
    have other := others binding List.mem_cons_self
    exact ih (pristine.addValue consistent (fun owned => absurd owned other) binding.2)
      fun later mem => others later (List.mem_cons_of_mem _ mem)

/-- The frame of another function leaves the function pristine. -/
theorem Closure.Pristine.frame {closure : Closure}
    (pristine : closure.Pristine compilation function) (other : closure.declaration ≠ function)
    (plan : Plan) (values : List Value) :
    (closure.frame plan values).Pristine compilation function := by
  obtain ⟨function?, place⟩ := pristine.place
  refine Context.Pristine.addValues consistent (pristine.untouched.turn consistent _)
    fun binding mem => ?_
  obtain ⟨parameter, inside, same⟩ := pristine.toIntact.parameter_of_mem_zip mem
  rw [← same, Node.owns_iff consistent.distinct (reached_parameter place inside),
    Option.some.injEq]
  exact other

omit consistent in
/-- The body of the function itself makes no function values. -/
theorem closures_of_own_body (contained : compilation.SelfContained function)
    {closure : Closure} (pristine : closure.Pristine compilation function)
    (own : closure.declaration = function) (limits : Limits) (budget : Nat) (values : List Value)
    (session : Session) :
    (Statement.executeBlock compilation.evaluator.plan limits
      (compilation.evaluator.evaluateWithin budget) (Call.bodyOf closure.declaration) []
      ⟨closure.frame compilation.evaluator.plan values, session⟩).2.session.closures =
        session.closures := by
  obtain ⟨function?, place⟩ := pristine.place
  rw [own] at place ⊢
  have closed : (closure.frame compilation.evaluator.plan values).ClosedOn
      (compilation.root.Owns function) := by
    intro id thunk owned found
    rw [Context.thunk?, Closure.frame, (Context.addValues_rest _ _).1] at found
    exact pristine.untouched.toIntact.closedOn contained id thunk owned found
  have waiting : ∀ id ∈ ([] : List NodeId), compilation.root.Owns function id :=
    fun _ none => (List.not_mem_nil none).elim
  have allows : Statement.Allows compilation.evaluator.plan
      (Context.ClosedOn (compilation.root.Owns function)) (· = session.closures)
      (compilation.evaluator.evaluateWithin budget) (compilation.root.Owns function)
      (compilation.root.Owns function) (fun _ => True) :=
    Statement.allows_closed _ _ budget fun _ => id
  have owned (node : Node) (mem : (some function, node) ∈ reached none compilation.root) :
      compilation.root.Owns function node.id := ⟨node, mem, rfl⟩
  exact (Statement.executeBlock_ensures allows (fun statement mem => Statement.runs_of_reached
    owned owned (fun _ _ => trivial) (reached_statement place mem)) waiting _ ⟨closed, rfl⟩).1.2

end Frames

section Invariant

variable {compilation : Compilation} (consistent : compilation.Consistent) {function : Node}
  (contained : compilation.SelfContained function)

include consistent contained

/-- The body of a function value leaves the function pristine. -/
theorem executeBlock_pristine {budget : Nat}
    (evaluates : ∀ id, Keeps (Machine.Pristine compilation function)
      (compilation.evaluator.evaluateWithin budget id))
    {closure : Closure} (pristine : closure.Pristine compilation function) (limits : Limits)
    (values : List Value) :
    Keeps (Machine.Pristine compilation function)
      (Eval.within (closure.frame compilation.evaluator.plan values)
        (Statement.executeBlock compilation.evaluator.plan limits
          (compilation.evaluator.evaluateWithin budget) (Call.bodyOf closure.declaration) [])) := by
  by_cases own : closure.declaration = function
  · refine Eval.within_keeps fun session made => ?_
    rwa [closures_of_own_body contained pristine own]
  · obtain ⟨function?, place⟩ := pristine.place
    have waiting : ∀ id ∈ ([] : List NodeId), ¬compilation.root.Owns function id := nofun
    exact (Eval.ensures_within_has
      (pristine.frame consistent own compilation.evaluator.plan values)
      (Statement.executeBlock_ensures
        (Statement.allows_pristine consistent contained evaluates)
        (fun statement mem => runs_of_other consistent own (reached_statement place mem))
        waiting)).toKeeps

/-- Evaluation leaves a self-contained function pristine. -/
theorem invariant_pristine :
    compilation.evaluator.Invariant (Context.Pristine compilation function)
      (Closure.Pristine compilation function) where
  copies _ pristine := pristine.copy
  progresses _ inProgress pristine := pristine.progressed inProgress
  adds before id thunk pristine found context value other := by
    refine other.addValue consistent (fun owned => ?_) value
    rw [← pristine.recipes id owned, found]
    rfl
  makes _ id thunk name type declaration pristine found same _ _ _ other :=
    { base := other.toIntact.copy
      parameters := Call.map_fst_distribute _ _
      place := pristine.makes id thunk name type declaration found same
      untouched := other.copy }
  runs _ evaluates _ pristine values :=
    executeBlock_pristine consistent contained evaluates pristine compilation.evaluator.limits
      values

/-- Whatever a program was asked for before, every self-contained function is pristine. -/
theorem Compilation.pristine_after (queries : List Query) :
    (compilation.after queries).Pristine compilation function :=
  (invariant_pristine consistent contained).after (Context.Pristine.start consistent) queries

end Invariant

section Isolation

variable {compilation : Compilation} (consistent : compilation.Consistent) {function : Node}

include consistent

/-- Once a function is forgotten, all contexts in which it was pristine agree about it. -/
theorem Context.Pristine.matches_turn (contained : compilation.SelfContained function)
    {first second : Context} (pristine : first.Pristine compilation function)
    (other : second.Pristine compilation function) :
    (first.copy.forget (compilation.evaluator.plan.subtree function.id)).Matches
      (compilation.root.Owns function) []
      (second.copy.forget (compilation.evaluator.plan.subtree function.id)) where
  values id owned := by
    have mem := owned.mem_subtree consistent
    rw [value?_forget, value?_forget,
      show first.copy.thunk? id = compilation.context.thunk? id from pristine.recipes id owned,
      show second.copy.thunk? id = compilation.context.thunk? id from other.recipes id owned]
    cases recipe : compilation.context.thunk? id with
    | none =>
      rw [if_neg fun both => Bool.noConfusion both.2, if_neg fun both => Bool.noConfusion both.2]
      exact (pristine.constants id owned recipe).trans (other.constants id owned recipe).symm
    | some thunk => rw [if_pos ⟨mem, rfl⟩, if_pos ⟨mem, rfl⟩]
  recipes id owned := (pristine.recipes id owned).trans (other.recipes id owned).symm
  progress _ _ :=
    ⟨iff_of_false Std.TreeSet.not_mem_emptyc List.not_mem_nil,
      iff_of_false Std.TreeSet.not_mem_emptyc List.not_mem_nil⟩
  assigned _ _ := Iff.rfl
  closed := pristine.toIntact.closedOn contained

/-- The frames of calls with the same arguments agree about the function. -/
theorem Closure.Pristine.frames_match (contained : compilation.SelfContained function)
    {closure other : Closure} (pristine : closure.Pristine compilation function)
    (pristineOther : other.Pristine compilation function)
    (own : closure.declaration = function) (ownOther : other.declaration = function)
    (values : List Value) :
    (closure.frame compilation.evaluator.plan values).Matches (compilation.root.Owns function) []
      (other.frame compilation.evaluator.plan values) := by
  unfold Closure.frame
  rw [pristine.toIntact.map_id_parameters, pristineOther.toIntact.map_id_parameters, own, ownOther]
  exact (pristine.untouched.matches_turn consistent contained pristineOther.untouched).addValues _

omit consistent in
/-- When the body starts, a node has no value if it had neither value nor recipe where the function
was made, and is no parameter. -/
theorem Closure.frame_missing {closure : Closure} {id : NodeId}
    (recipe : closure.base.thunk? id = none) (unknown : closure.base.value? id = none)
    (bound : id ∉ closure.parameters.map fun parameter => parameter.1.id) (plan : Plan)
    (values : List Value) (evaluator : Evaluator) (budget : Nat) (session : Session) :
    (evaluator.evaluateWithin budget id ⟨closure.frame plan values, session⟩).1 =
      .error (.missingValue id) := by
  have fresh : (closure.frame plan values).value? id = none := by
    rw [Closure.frame, Context.value?_addValues _ fun inside => ?_, Context.value?_forget]
    · rw [show closure.base.copy.value? id = none from unknown, ite_self]
    · obtain ⟨binding, zipped, same⟩ := List.mem_map.1 inside
      exact bound (same ▸ (List.of_mem_zip zipped).1)
  have without : (closure.frame plan values).thunk? id = none := by
    rw [Context.thunk?, Closure.frame, (Context.addValues_rest _ _).1]
    exact recipe
  cases budget <;> exact congrArg Prod.fst (Evaluator.lookup_missing fresh without)

/-- A variable without an initializer is registered with neither a value nor a recipe. -/
theorem Compilation.entry_uninitialized {function? : Option Node} {id : NodeId} {name : String}
    {type? : Option Node} (mem : (function?, Node.mk id (.variableDecl name type? none)) ∈
      reached none compilation.root) :
    compilation.context.value? id = none ∧ compilation.context.thunk? id = none := by
  have empty : compilation.context.entry id = (none, none) := by
    rw [consistent.context]
    exact Registration.entry_uninitialized consistent.distinct _ _ _ mem
  obtain ⟨recipe, unknown⟩ := Prod.mk.inj empty
  exact ⟨unknown, recipe⟩

/-- When the body starts, a variable without an initializer has no value, unless it is a
parameter. -/
theorem Closure.Pristine.frame_unassigned {closure : Closure}
    (pristine : closure.Pristine compilation closure.declaration) {id : NodeId} {name : String}
    {type? : Option Node}
    (mem : (some closure.declaration, Node.mk id (.variableDecl name type? none)) ∈
      reached none compilation.root)
    (bound : ∀ parameter ∈ Call.parametersOf closure.declaration, parameter.1.id ≠ id)
    (values : List Value) (evaluator : Evaluator) (budget : Nat) (session : Session) :
    (evaluator.evaluateWithin budget id
      ⟨closure.frame compilation.evaluator.plan values, session⟩).1 =
        .error (.missingValue id) := by
  have owned : compilation.root.Owns closure.declaration id := ⟨_, mem, rfl⟩
  obtain ⟨unknown, recipe⟩ := Compilation.entry_uninitialized consistent mem
  refine Closure.frame_missing ((pristine.untouched.recipes id owned).trans recipe)
    ((pristine.untouched.constants id owned recipe).trans unknown) (fun among => ?_) _ values
    evaluator budget session
  rw [pristine.toIntact.map_id_parameters] at among
  obtain ⟨parameter, declared, same⟩ := List.mem_map.1 among
  exact bound parameter declared same

omit consistent in
/-- The body of a function is executed in lockstep. -/
theorem executeBody_lockstep {function? : Option Node}
    (place : (function?, function) ∈ reached none compilation.root) (limits : Limits)
    {budget other : Nat} (enough : function.preorder.length ≤ budget)
    (enoughOther : function.preorder.length ≤ other) {left right : Machine}
    (matched : left.context.Matches (compilation.root.Owns function) [] right.context) :
    Eval.Meets (.alike (compilation.root.Owns function) []) left right
      (Statement.executeBlock compilation.evaluator.plan limits
        (compilation.evaluator.evaluateWithin budget) (Call.bodyOf function) [])
      (Statement.executeBlock compilation.evaluator.plan limits
        (compilation.evaluator.evaluateWithin other) (Call.bodyOf function) [])
      fun _ _ => Statement.EndsAlike (fun _ => True) (compilation.root.Owns function) := by
  have bound (id : NodeId) (owned : compilation.root.Owns function id) :
      id ∈ function.identities := by
    obtain ⟨node, mem, rfl⟩ := owned
    refine List.mem_map_of_mem ?_
    rw [Node.preorder_eq]
    exact List.mem_cons_of_mem _ (exists_owner mem nofun).2.1
  have length : function.identities.length = function.preorder.length := List.length_map _
  have evaluates (id : NodeId) (owned : compilation.root.Owns function id) :
      Eval.Lockstep (compilation.root.Owns function) []
        (compilation.evaluator.evaluateWithin budget id)
        (compilation.evaluator.evaluateWithin other id) :=
    compilation.evaluator.evaluateWithin_lockstep bound owned List.nodup_nil (List.nil_subset _)
      (length ▸ enough) (length ▸ enoughOther)
  have owned (node : Node) (mem : (some function, node) ∈ reached none compilation.root) :
      compilation.root.Owns function node.id := ⟨node, mem, rfl⟩
  have runs (statement : Node) (mem : statement ∈ Call.bodyOf function) :
      Statement.Runs (compilation.root.Owns function) (compilation.root.Owns function)
        (fun _ => True) statement :=
    Statement.runs_of_reached owned owned (fun _ _ => trivial) (reached_statement place mem)
  have waiting : ∀ id ∈ ([] : List NodeId), compilation.root.Owns function id := nofun
  exact Statement.executeBlock_meets (Statement.shared_alike evaluates) runs waiting matched

/-- Two calls in which the parameters receive the same values have the same outcome. -/
theorem Closure.Pristine.callClosure_eq (contained : compilation.SelfContained function)
    {closure other : Closure} (pristine : closure.Pristine compilation function)
    (pristineOther : other.Pristine compilation function)
    (own : closure.declaration = function) (ownOther : other.declaration = function)
    {arguments argumentsOther : Arguments}
    (received : Call.receive closure.slots arguments = Call.receive other.slots argumentsOther)
    (limits : Limits) {budget budgetOther : Nat} (enough : function.preorder.length ≤ budget)
    (enoughOther : function.preorder.length ≤ budgetOther) (machine machineOther : Machine) :
    (Call.callClosure compilation.evaluator.plan limits
        (compilation.evaluator.evaluateWithin budget) closure arguments machine).1 =
      (Call.callClosure compilation.evaluator.plan limits
        (compilation.evaluator.evaluateWithin budgetOther) other argumentsOther
          machineOther).1 := by
  obtain ⟨function?, place⟩ := pristine.place
  rw [own] at place
  rw [Call.callClosure_fst, Call.callClosure_fst, received, own, ownOther]
  cases Call.receive other.slots argumentsOther with
  | error error => rfl
  | ok values =>
    have frames := pristine.frames_match consistent contained pristineOther own ownOther values
    have met : Eval.Meets _
        ⟨closure.frame compilation.evaluator.plan values, machine.session⟩
        ⟨other.frame compilation.evaluator.plan values, machineOther.session⟩ _ _ _ :=
      executeBody_lockstep place limits enough enoughOther frames
    exact congrArg (Except.map Flow.result) (met.alike.2.eq fun _ _ => And.left)

end Isolation

/-- The nodes that belong to a function. -/
def Node.belongings (root : Node) (function : NodeId) : List NodeId :=
  ((reached none root).filter fun place => place.1.map Node.id = some function).map fun place =>
    place.2.id

theorem Node.mem_belongings_iff {root function : Node} (distinct : root.Distinct)
    (inside : function ∈ root.preorder) {id : NodeId} :
    id ∈ root.belongings function.id ↔ root.Owns function id := by
  unfold belongings
  rw [List.mem_map]
  constructor
  · rintro ⟨⟨function?, node⟩, mem, rfl⟩
    obtain ⟨below, same⟩ := List.mem_filter.1 mem
    obtain ⟨owner, rfl, equal⟩ := Option.map_eq_some_iff.1 (of_decide_eq_true same)
    obtain ⟨⟨outer?, place⟩, -, -⟩ := exists_owner below nofun
    cases Node.eq_of_id_eq distinct (Inference.mem_preorder_of_mem_reached place) inside equal
    exact ⟨node, below, rfl⟩
  · rintro ⟨node, mem, rfl⟩
    exact ⟨_, List.mem_filter.2 ⟨mem, decide_eq_true rfl⟩, rfl⟩

namespace Compilation

/-- Whether a function refers to itself only. -/
def isSelfContained (compilation : Compilation) (function : NodeId) : Bool :=
  let own := compilation.root.belongings function
  own.all (fun id => (compilation.context.thunk? id).all fun thunk =>
    thunk.recipe.isLocal && thunk.sources.all fun source => own.contains source) &&
  compilation.evaluator.plan.targets.toList.all fun entry =>
    !own.contains entry.2 || own.contains entry.1

theorem selfContained_of_isSelfContained {compilation : Compilation}
    (consistent : compilation.Consistent) {function : Node}
    (inside : function ∈ compilation.root.preorder)
    (h : compilation.isSelfContained function.id) : compilation.SelfContained function := by
  have own (id : NodeId) : compilation.root.Owns function id ↔
      id ∈ compilation.root.belongings function.id :=
    (Node.mem_belongings_iff consistent.distinct inside).symm
  simp only [isSelfContained, Bool.and_eq_true, List.all_eq_true, Bool.or_eq_true,
    Bool.not_eq_true', List.contains_iff_mem] at h
  obtain ⟨closed, assigned⟩ := h
  refine ⟨fun id thunk owned found => ?_, fun place target planned owned => ?_⟩
  · have within := closed id ((own id).1 owned)
    rw [found, Option.all_some, Bool.and_eq_true, List.all_eq_true] at within
    exact ⟨within.1, fun source mem =>
      (own source).2 (List.contains_iff_mem.1 (within.2 source mem))⟩
  · have mem : (place, target) ∈ compilation.evaluator.plan.targets.toList :=
      Std.TreeMap.mem_toList_iff_getElem?_eq_some.2 planned
    have belongs := List.contains_iff_mem.2 ((own target).1 owned)
    rcases assigned _ mem with other | inside
    · rw [belongs] at other
      cases other
    · exact (own place).2 inside

end Compilation

end DeclLang
