import DeclLang.Compilation
import DeclLang.Proofs.EarlierReferences
import DeclLang.Proofs.ExecutionInvariants
import DeclLang.Proofs.Registered

/-!
# Contexts in which a function is intact

**Input.**  A compiled program and one of its functions.

**Invariant.**  `Context.Intact`: the nodes of the function have the recipes that they were
registered with, and its literals have their values.

**Results.**  Before anything is evaluated every function is intact, and it stays intact under all
changes that evaluation makes to a context, except when a variable of the function itself fails.
-/

namespace DeclLang

open Step (Keeps Ensures)
open Inference (reached)

/-- The parts of a compilation belong to its tree. -/
structure Compilation.Consistent (compilation : Compilation) : Prop where
  distinct : compilation.root.Distinct
  context : compilation.context = Context.ofProgram compilation.root compilation.scope
    compilation.typing compilation.solution
  plan : compilation.evaluator.plan = Plan.build compilation.root compilation.scope
  resolves : ∀ reference id, compilation.scope.resolve reference = some id →
    compilation.root.Declares id
  sheltered : compilation.root.Sheltered compilation.scope

section Compile

open Compilation

variable {options : Options} {root : Node} {focus : Option NodeId} {before after : Reports}
  {compilation : Compilation}

theorem ofExcept_ok {ε α : Type} {place : ε → CompileError} {outcome : Except ε α} {a : α}
    {reports next : Reports}
    (h : Compilation.ofExcept place outcome reports = (.ok a, next)) : outcome = .ok a := by
  cases outcome with
  | error error => cases h
  | ok b =>
    cases h
    rfl

/-- A compilation that succeeds is consistent. -/
theorem Compilation.consistent_of_ofTree
    (h : Compilation.ofTree options root focus before = (.ok compilation, after)) :
    compilation.Consistent := by
  unfold Compilation.ofTree at h
  obtain ⟨index, first, indexed, h⟩ := Step.bind_ok_inv h
  obtain ⟨names, second, named, h⟩ := Step.bind_ok_inv h
  obtain ⟨scope, third, resolved, h⟩ := Step.bind_ok_inv h
  obtain ⟨unifier, fourth, solved, h⟩ := Step.bind_ok_inv h
  cases h
  unfold Compilation.resolveNames at resolved
  obtain ⟨_, fifth, reported, resolved⟩ := Step.bind_ok_inv resolved
  have distinct := NodeIndex.distinct_of_build (ofExcept_ok indexed)
  have built : Scope.build root names focus = (.ok scope, (Scope.build root names focus).2) :=
    Prod.ext (ofExcept_ok resolved) rfl
  exact
    { distinct
      context := rfl
      plan := rfl
      resolves := fun reference id found =>
        Scope.declares_of_resolve (ofExcept_ok named) built found
      sheltered := Scope.build_sheltered distinct (ofExcept_ok named) built }

theorem Compilation.root_of_ofTree
    (h : Compilation.ofTree options root focus before = (.ok compilation, after)) :
    compilation.root = root := by
  unfold Compilation.ofTree at h
  obtain ⟨index, first, indexed, h⟩ := Step.bind_ok_inv h
  obtain ⟨names, second, named, h⟩ := Step.bind_ok_inv h
  obtain ⟨scope, third, resolved, h⟩ := Step.bind_ok_inv h
  obtain ⟨unifier, fourth, solved, h⟩ := Step.bind_ok_inv h
  cases h
  rfl

theorem Compilation.limits_of_ofTree
    (h : Compilation.ofTree options root focus before = (.ok compilation, after)) :
    compilation.evaluator.limits = options.limits := by
  unfold Compilation.ofTree at h
  obtain ⟨index, first, indexed, h⟩ := Step.bind_ok_inv h
  obtain ⟨names, second, named, h⟩ := Step.bind_ok_inv h
  obtain ⟨scope, third, resolved, h⟩ := Step.bind_ok_inv h
  obtain ⟨unifier, fourth, solved, h⟩ := Step.bind_ok_inv h
  cases h
  rfl

/-- A compilation succeeds if identities are distinct, no declarations collide and the frames of
scopes balance; whatever is wrong with names and types is only reported. -/
theorem Compilation.ofTree_ok {index : NodeIndex} {names : Namespace} {scope : Scope}
    (indexed : NodeIndex.build root = .ok index) (named : Namespace.build root = .ok names)
    (resolved : (Scope.build root names focus).1 = .ok scope) (options : Options)
    (before : Reports) :
    ∃ compilation after, Compilation.ofTree options root focus before = (.ok compilation, after) ∧
      compilation.scope = scope ∧
      compilation.evaluator = { plan := Plan.build root scope, limits := options.limits } ∧
      ∃ typing solution,
        compilation.context = Context.ofProgram root scope typing solution := by
  have resolves : Compilation.resolveNames root names focus before =
      (.ok scope, { before with names := before.names ++ (Scope.build root names focus).2 }) := by
    unfold Compilation.resolveNames
    cases built : Scope.build root names focus with
    | mk outcome diagnostics =>
      rw [built] at resolved
      cases resolved
      rfl
  have indexes : Compilation.ofExcept .malformed (NodeIndex.build root) before =
      (.ok index, before) := by
    rw [indexed]
    rfl
  have names : Compilation.ofExcept .collision (Namespace.build root) before =
      (.ok names, before) := by
    rw [named]
    rfl
  unfold Compilation.ofTree
  rw [Step.bind_ok indexes, Step.bind_ok names, Step.bind_ok resolves]
  exact ⟨_, _, rfl, rfl, rfl, _, _, rfl⟩

/-- A compilation of which something is found out has succeeded. -/
theorem Compilation.compiled_of_toOption {α : Type} {find : Compilation → Option α} {a : α}
    (h : (Compilation.ofTree options root focus before).1.toOption.bind find = some a) :
    ∃ compilation, Compilation.ofTree options root focus before =
        (.ok compilation, (Compilation.ofTree options root focus before).2) ∧
      find compilation = some a :=
  Step.ok_of_toOption h

end Compile

/-- The node with this identity belongs to a function: that is the innermost function around it. -/
def Node.Owns (root function : Node) (id : NodeId) : Prop :=
  ∃ node, (some function, node) ∈ reached none root ∧ node.id = id

/-- A literal is no declaration. -/
theorem not_declares_literal {root : Node} (distinct : root.Distinct) {function? : Option Node}
    {id : NodeId} {literal : Literal}
    (mem : (function?, Node.mk id (.literal literal)) ∈ reached none root) : ¬root.Declares id :=
  Node.not_declares distinct (Inference.mem_preorder_of_mem_reached mem) rfl

/-- What a node belongs to is told by its identity. -/
theorem Node.owns_iff {root : Node} (distinct : root.Distinct) {function node : Node}
    {function? : Option Node} (mem : (function?, node) ∈ reached none root) :
    root.Owns function node.id ↔ function? = some function := by
  constructor
  · rintro ⟨other, inside, same⟩
    have equal := Node.eq_of_id_eq distinct (Inference.mem_preorder_of_mem_reached inside)
      (Inference.mem_preorder_of_mem_reached mem) same
    exact (congrArg Prod.fst (Inference.reached_unique distinct inside mem equal)).symm
  · rintro rfl
    exact ⟨node, mem, rfl⟩

/-- The recipes and the literals of a function are as they were registered; only declarations were
assigned; recipes for functions are about reached nodes. -/
structure Context.Intact (compilation : Compilation) (function : Node) (context : Context) :
    Prop where
  recipes : ∀ id, compilation.root.Owns function id →
    context.thunk? id = compilation.context.thunk? id
  literals : ∀ id literal,
    (some function, Node.mk id (.literal literal)) ∈ reached none compilation.root →
      context.value? id = some (Registration.literalValue literal)
  assigned : ∀ id ∈ context.rebound, compilation.root.Declares id
  makes : ∀ id thunk name type declaration, context.thunk? id = some thunk →
    thunk.recipe = .closure name type declaration →
      ∃ function?, (function?, declaration) ∈ reached none compilation.root

section Intact

variable {compilation : Compilation} (consistent : compilation.Consistent) {function : Node}

include consistent

/-- A literal has no recipe. -/
theorem thunk?_literal {id : NodeId} {literal : Literal}
    (mem : (some function, Node.mk id (.literal literal)) ∈ reached none compilation.root) :
    compilation.context.thunk? id = none := by
  rw [consistent.context]
  exact congrArg Prod.fst (Registration.entry_literal consistent.distinct _ _ _ mem)

theorem Context.Intact.start : compilation.context.Intact compilation function where
  recipes _ _ := rfl
  literals id literal mem := by
    rw [consistent.context]
    exact congrArg Prod.snd (Registration.entry_literal consistent.distinct _ _ _ mem)
  assigned id mem := by
    rw [consistent.context, Registration.rebound_ofProgram] at mem
    exact absurd mem Std.TreeSet.not_mem_emptyc
  makes id thunk name type declaration found same := by
    rw [consistent.context] at found
    exact Registration.reached_of_closure found same

variable {context : Context} (intact : context.Intact compilation function)

include intact

omit consistent in
/-- What is being evaluated does not matter, and neither do assignments that are forgotten. -/
theorem Context.Intact.congr {other : Context} (values : other.values = context.values)
    (thunks : other.thunks = context.thunks)
    (rebound : ∀ id ∈ other.rebound, id ∈ context.rebound) :
    other.Intact compilation function where
  recipes id owned := by
    rw [Context.thunk?, thunks]
    exact intact.recipes id owned
  literals id literal mem := by
    rw [Context.value?, values]
    exact intact.literals id literal mem
  assigned id mem := intact.assigned id (rebound id mem)
  makes id thunk name type declaration found := by
    rw [Context.thunk?, thunks] at found
    exact intact.makes id thunk name type declaration found

omit consistent in
theorem Context.Intact.copy : context.copy.Intact compilation function :=
  intact.congr rfl rfl fun _ mem => absurd mem Std.TreeSet.not_mem_emptyc

omit consistent in
/-- Giving values to other nodes than literals of the function leaves it intact. -/
theorem Context.Intact.addValue {id : NodeId}
    (other : ∀ literal, (some function, Node.mk id (.literal literal)) ∉
      reached none compilation.root) (value : Value) :
    (context.addValue id value).Intact compilation function where
  recipes := intact.recipes
  literals literalId literal mem := by
    rw [Context.value?_addValue, if_neg]
    · exact intact.literals literalId literal mem
    · rintro rfl
      exact other literal mem
  assigned := intact.assigned
  makes := intact.makes

theorem Context.Intact.rebind {id : NodeId} (declared : compilation.root.Declares id)
    (value : Value) : (context.rebind id value).Intact compilation function where
  recipes := intact.recipes
  literals literalId literal mem := by
    rw [Context.value?_rebind, if_neg]
    · exact intact.literals literalId literal mem
    · rintro rfl
      exact not_declares_literal consistent.distinct mem declared
  assigned other mem := by
    rcases (Context.mem_rebound_rebind id value other).1 mem with rfl | before
    · exact declared
    · exact intact.assigned other before
  makes := intact.makes

omit consistent in
/-- Variables that do not belong to the function may fail. -/
theorem Context.Intact.fail {id : NodeId} (other : ¬compilation.root.Owns function id)
    (error : EvalError) :
    (context.addThunk id (.failed error)).Intact compilation function where
  recipes owned mem := by
    rw [Context.thunk?_addThunk, if_neg]
    · exact intact.recipes owned mem
    · rintro rfl
      exact other mem
  literals := intact.literals
  assigned := intact.assigned
  makes owner thunk name type declaration found same := by
    rw [Context.thunk?_addThunk] at found
    split at found
    · cases found
      cases same
    · exact intact.makes owner thunk name type declaration found same

/-- Forgetting computed values leaves the function intact. -/
theorem Context.Intact.turn (ids : List NodeId) :
    (context.copy.forget ids).Intact compilation function where
  recipes := intact.recipes
  literals id literal mem := by
    rw [Context.value?_forget, if_neg]
    · exact intact.literals id literal mem
    · rintro ⟨-, recipe⟩
      rw [show context.copy.thunk? id = compilation.context.thunk? id from
        intact.recipes id ⟨_, mem, rfl⟩, thunk?_literal consistent mem] at recipe
      cases recipe
  assigned _ mem := absurd mem Std.TreeSet.not_mem_emptyc
  makes := intact.makes

theorem Context.Intact.adopt {turn : Context} (other : turn.Intact compilation function) :
    (context.adopt turn).Intact compilation function where
  recipes id owned := by
    rw [Context.thunk?, (Context.adopt_rest turn).1]
    exact intact.recipes id owned
  literals id literal mem := by
    rw [Context.value?_adopt, if_neg]
    · exact intact.literals id literal mem
    · exact fun both => not_declares_literal consistent.distinct mem (other.assigned id both.1)
  assigned id mem := by
    rcases (Context.mem_rebound_adopt turn id).1 mem with before | ⟨now, -⟩
    · exact intact.assigned id before
    · exact other.assigned id now
  makes id thunk name type declaration found same := by
    rw [Context.thunk?, (Context.adopt_rest turn).1] at found
    exact intact.makes id thunk name type declaration found same

/-- A node that has a recipe is no literal of the function. -/
theorem Context.Intact.not_literal {id : NodeId} {thunk : Thunk}
    (found : context.thunk? id = some thunk) (literal : Literal) :
    (some function, Node.mk id (.literal literal)) ∉ reached none compilation.root := by
  intro mem
  rw [intact.recipes id ⟨_, mem, rfl⟩, thunk?_literal consistent mem] at found
  cases found

end Intact

/-- Statements that leave no variables of the function pending leave it intact. -/
theorem Statement.allows_intact {compilation : Compilation} (consistent : compilation.Consistent)
    {function : Node} {closures : Array Closure → Prop} {evaluate : NodeId → Eval Value}
    (evaluates : ∀ id, Keeps (Machine.Has (Context.Intact compilation function) closures)
      (evaluate id)) :
    Statement.Allows compilation.evaluator.plan (Context.Intact compilation function) closures
      evaluate (fun _ => True) (fun id => ¬compilation.root.Owns function id)
      (fun id => ¬compilation.root.Owns function id) where
  evaluates id _ := evaluates id
  pending _ _ := trivial
  fails _ error _ other intact := intact.fail other error
  assigns place target value _ _ planned intact := by
    rw [consistent.plan] at planned
    obtain ⟨reference, resolved⟩ := Plan.resolved_of_target? planned
    exact intact.rebind consistent (consistent.resolves reference target resolved) value
  turns subtree _ intact := intact.turn consistent subtree
  adopts _ _ intact other := intact.adopt consistent other

end DeclLang
