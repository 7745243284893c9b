import DeclLang.Evaluation.Registration

/-!
# Compilation

**Input.**  Programs, and options for types and evaluation.

**Algorithm.**  The programs are joined into one tree.  The tree is indexed; its declarations are
collected in a namespace; its references are resolved; its types are inferred and solved; and every
node that can be evaluated gets a value or a thunk.

**Results.**  Malformed trees and declarations with the same name end a compilation.  Undefined
names and types that do not fit are only reported, and evaluation is left to queries.
-/

namespace DeclLang

/-- What may be chosen for a compilation. -/
structure Options where
  /-- What the names of fresh type variables start with. -/
  stem : String := "?"
  /-- How many passes are made at most to resolve the type of a node. -/
  passes : Nat := Substitution.defaultPasses
  limits : Limits := {}

/-- Why programs cannot be compiled. -/
inductive CompileError where
  | malformed (error : SyntaxError)
  | collision (error : Collision)
  /-- The frames of a scope did not balance. -/
  | unbalanced (error : ScopeError)
  deriving DecidableEq, Repr

/-- The text of the error. -/
def CompileError.message : CompileError → String
  | malformed error => error.message
  | collision error => error.message
  | unbalanced error => "scope resolution failed: " ++ error.message

/-- What was reported during a compilation. -/
structure Reports where
  names : Diagnostics := {}
  types : Diagnostics := {}

/-- All reports in order. -/
def Reports.all (reports : Reports) : Diagnostics :=
  reports.names ++ reports.types

/-- What is known about a tree after compilation. -/
structure Compilation where
  root : Node
  index : NodeIndex
  names : Namespace
  scope : Scope
  typing : Typing
  unifier : Unifier
  solution : Substitution
  context : Context
  evaluator : Evaluator
  passes : Nat

namespace Compilation

/-- The steps of a compilation; the state is what was reported. -/
abbrev Compile := Step CompileError Reports

/-- Succeeds or fails as told, and gives a failure its place among the others. -/
def ofExcept {ε α : Type} (place : ε → CompileError) : Except ε α → Compile α
  | .ok a => pure a
  | .error error => throw (place error)

/-- Resolves the references of a tree, up to a focus if there is one. -/
def resolveNames (root : Node) (names : Namespace) (focus : Option NodeId) : Compile Scope := do
  let (scope, diagnostics) := Scope.build root names focus
  modify fun reports => { reports with names := reports.names ++ diagnostics }
  ofExcept .unbalanced scope

/-- Solves the constraints of a tree. -/
def solveTypes (typing : Typing) : Compile Unifier := do
  let unifier := ({} : Unifier).solveAll typing.constraints.toList
  modify fun reports => { reports with types := reports.types ++ unifier.diagnostics }
  return unifier

/-- Compiles a tree as it is. -/
def ofTree (options : Options) (root : Node) (focus : Option NodeId) : Compile Compilation := do
  let index ← ofExcept .malformed (NodeIndex.build root)
  let names ← ofExcept .collision (Namespace.build root)
  let scope ← resolveNames root names focus
  let typing := Typing.infer root scope index { stem := options.stem }
  let unifier ← solveTypes typing
  let solution := unifier.finish
  return {
    root, index, names, scope, typing, unifier, solution
    context := Context.ofProgram root scope typing solution
    evaluator := { plan := Plan.build root scope, limits := options.limits }
    passes := options.passes }

/-- Compiles programs as one, below a new root with the given identity. -/
def ofPrograms (options : Options) (rootId : NodeId) (programs : List Node) :
    Compile Compilation := do
  let root ← ofExcept .malformed (joinPrograms rootId programs)
  ofTree options root none

/-- Where evaluation starts. -/
def start (compilation : Compilation) : Machine :=
  { context := compilation.context }

/-- The solved type of a node. -/
def resolvedType? (compilation : Compilation) (id : NodeId) : Option StaticType :=
  (compilation.typing.typeOf? id).map (compilation.solution.resolveWithin compilation.passes)

/-- Evaluates the declaration with a path, and reports a failure.  An unknown path has no value. -/
def evaluatePath (compilation : Compilation) (path : String) : Eval (Option Value) :=
  match compilation.names.values[path]? with
  | some id => compilation.evaluator.evaluateOrReport id
  | none => return none

end Compilation

end DeclLang
