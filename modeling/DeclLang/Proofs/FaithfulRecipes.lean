import DeclLang.Proofs.RegisteredRecipes
import DeclLang.Proofs.EvaluationInvariants
import DeclLang.Proofs.IntactContexts

/-!
# Recipes stay as they were registered

**Input.**  A compiled program, and queries to it one after the other.

**Invariant.**  A context has the recipes of the program, except that variables may have failed.
A function value has one entry for every parameter of its declaration, with a default exactly where
the declaration has one.

**Results.**  `Compilation.faithful_after`: the invariant holds after all queries.
-/

namespace DeclLang

open Step (Keeps Ensures)
open Inference (reached)

/-- The recipes are those of the program, or failures. -/
def Context.Faithful (compilation : Compilation) (context : Context) : Prop :=
  ∀ id thunk, context.thunk? id = some thunk →
    compilation.context.thunk? id = some thunk ∨ ∃ error, thunk = .failed error

/-- A function value is made as the program says. -/
structure Closure.Faithful (compilation : Compilation) (closure : Closure) : Prop where
  base : closure.base.Faithful compilation
  parameters : closure.parameters.map (fun parameter => (parameter.1, parameter.2.isSome)) =
    Call.parametersOf closure.declaration
  function : closure.declaration.IsFunction
  place : ∃ function?, (function?, closure.declaration) ∈ reached none compilation.root

/-- In all contexts at hand, recipes are those of the program. -/
abbrev Machine.Faithful (compilation : Compilation) : Machine → Prop :=
  Machine.All (Context.Faithful compilation) (Closure.Faithful compilation)

namespace Call

/-- Names get values as they are said to, if there are enough of them. -/
theorem map_isSome_distribute {α : Type} (slots : List (α × Bool)) {values : List Value}
    (enough : (slots.filter Prod.snd).length ≤ values.length) :
    (distribute slots values).map (fun slot => (slot.1, slot.2.isSome)) = slots := by
  induction slots generalizing values with
  | nil => rfl
  | cons slot slots ih =>
    obtain ⟨a, given⟩ := slot
    cases given with
    | false => exact congrArg ((a, false) :: ·) (ih enough)
    | true =>
      cases values with
      | nil => exact absurd enough (Nat.not_succ_le_zero _)
      | cons value values =>
        exact congrArg ((a, true) :: ·) (ih (Nat.le_of_succ_le_succ enough))

/-- A function depends on one node for every parameter with a default. -/
theorem length_filter_parametersOf {id : NodeId} {name : String}
    {generics parameters body : List Node} {returnType : Node} :
    ((parametersOf (.mk id (.functionDecl name generics parameters returnType body))).filter
      Prod.snd).length = (parameters.filterMap Registration.defaultOf?).length := by
  change ((parameters.map fun parameter => (parameter,
    (parameter.parameterSlot?.map Slot.hasDefault).getD false)).filter Prod.snd).length = _
  induction parameters with
  | nil => rfl
  | cons parameter parameters ih =>
    obtain ⟨parameterId, kind⟩ := parameter
    rw [List.map_cons]
    cases kind with
    | parameter name type default? =>
      cases default? with
      | none => exact ih
      | some default => exact congrArg Nat.succ ih
    | _ => exact ih

end Call

section Contexts

variable {compilation : Compilation} {context : Context}

theorem Context.Faithful.start : compilation.context.Faithful compilation :=
  fun _ _ found => .inl found

variable (faithful : context.Faithful compilation)

include faithful

/-- Only recipes matter. -/
theorem Context.Faithful.congr {other : Context} (thunks : other.thunks = context.thunks) :
    other.Faithful compilation := by
  intro id thunk found
  rw [Context.thunk?, thunks] at found
  exact faithful id thunk found

theorem Context.Faithful.fail (id : NodeId) (error : EvalError) :
    (context.addThunk id (.failed error)).Faithful compilation := by
  intro other thunk found
  rw [Context.thunk?_addThunk] at found
  split at found
  · cases found
    exact .inr ⟨error, rfl⟩
  · exact faithful other thunk found

end Contexts

/-- Statements may do anything. -/
theorem Statement.allows_faithful {compilation : Compilation} {closures : Array Closure → Prop}
    {evaluate : NodeId → Eval Value}
    (evaluates : ∀ id, Keeps (Machine.Has (Context.Faithful compilation) closures)
      (evaluate id)) :
    Statement.Allows compilation.evaluator.plan (Context.Faithful compilation) closures evaluate
      (fun _ => True) (fun _ => True) fun _ => True where
  evaluates id _ := evaluates id
  pending _ _ := trivial
  fails id error _ _ faithful := faithful.fail id error
  assigns _ _ _ _ _ _ faithful := faithful.congr rfl
  turns _ _ faithful := faithful.congr rfl
  adopts _ turn faithful _ := faithful.congr (Context.adopt_rest turn).1

namespace Compilation

variable {compilation : Compilation} (consistent : compilation.Consistent)

include consistent

/-- A recipe of the program that makes a function is about a reached declaration, and depends on
all its defaults. -/
theorem makes_of_thunk? {id : NodeId} {thunk : Thunk}
    (found : compilation.context.thunk? id = some thunk) {name : String} {type : StaticType}
    {declaration : Node} (makes : thunk.recipe = .closure name type declaration) :
    declaration.IsFunction ∧
      (∃ function?, (function?, declaration) ∈ reached none compilation.root) ∧
      ((Call.parametersOf declaration).filter Prod.snd).length = thunk.dependencies.length := by
  rw [consistent.context] at found
  obtain ⟨⟨function?, node⟩, mem, -, registers⟩ :=
    (Registration.sources_ofProgram compilation.root compilation.scope compilation.typing
      compilation.solution).thunks id thunk found
  cases registers with
  | function =>
    cases makes
    exact ⟨⟨_, _, _, _, _, rfl⟩, ⟨function?, mem⟩, Call.length_filter_parametersOf⟩
  | binary =>
    rename_i operator _ _
    cases operator <;> cases makes
  | _ => cases makes

/-- Evaluation keeps the recipes. -/
theorem invariant_faithful :
    compilation.evaluator.Invariant (Context.Faithful compilation)
      (Closure.Faithful compilation) where
  copies _ faithful := faithful.congr rfl
  progresses _ _ faithful := faithful.congr rfl
  adds _ _ _ _ _ _ _ faithful := faithful.congr rfl
  makes _ id thunk name type declaration faithful found same values length _ other := by
    rcases faithful id thunk found with registered | ⟨error, rfl⟩
    · obtain ⟨function, place, count⟩ := makes_of_thunk? consistent registered same
      exact
        { base := other.congr rfl
          parameters := Call.map_isSome_distribute _ (by omega)
          function
          place }
    · cases same
  runs _ evaluates closure faithful values := by
    have frame : (closure.frame compilation.evaluator.plan values).Faithful compilation :=
      faithful.base.congr (Context.addValues_rest _ _).1
    have waiting : ∀ id ∈ ([] : List NodeId), True := fun _ _ => trivial
    exact (Eval.ensures_within_has frame (Statement.executeBlock_ensures
      (Statement.allows_faithful evaluates) (fun _ _ => Statement.runs_of_identities fun _ _ => trivial)
      waiting)).toKeeps

/-- Whatever a program was asked for before, recipes are those of the program. -/
theorem faithful_after (queries : List Query) :
    (compilation.after queries).Faithful compilation :=
  (invariant_faithful consistent).after Context.Faithful.start queries

end Compilation

end DeclLang
