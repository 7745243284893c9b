import DeclLang.Proofs.EvaluationInvariants
import DeclLang.Proofs.PlainFunctions

/-!
# What holds after any queries

**Input.**  A compiled program, a plain function in it, and queries to the program one after the
other.

**Invariant.**  The function is intact in the context of the machine, and in every context that a
function value was made in.

**Results.**  `Compilation.intact_after`: the invariant holds after all queries.  Evaluation keeps
it: the body of another function leaves no variables of this one pending, and the body of this one
makes no function value.
-/

namespace DeclLang

open Step (Keeps Ensures)
open Inference (reached)

/-- A function value is made of a reached declaration, with its parameters, in a context where some
function is intact. -/
structure Closure.Intact (compilation : Compilation) (function : Node) (closure : Closure) :
    Prop where
  base : closure.base.Intact compilation function
  parameters : closure.parameters.map Prod.fst =
    (Call.parametersOf closure.declaration).map Prod.fst
  place : ∃ function?, (function?, closure.declaration) ∈ reached none compilation.root

/-- In all contexts at hand the function is intact. -/
abbrev Machine.Intact (compilation : Compilation) (function : Node) : Machine → Prop :=
  Machine.All (Context.Intact compilation function) (Closure.Intact compilation function)

/-- The subtrees that are evaluated for their values. -/
def Node.operands (node : Node) : List Node :=
  match node.kind with
  | .parameter _ _ operand? | .variableDecl _ _ operand? | .returnStatement operand? =>
    operand?.toList
  | .branch condition _ | .loop condition _ => [condition]
  | .call callee arguments => callee :: arguments
  | .expressionStatement operand | .argument _ operand => [operand]
  | .binary _ left right => [left, right]
  | .assignment target value => [target, value]
  | .array elements => elements
  | _ => []

/-- Statements of a function evaluate operands of nodes of it, leave variables of it pending, and
assign at places in it. -/
theorem Statement.runs_of_operands {root function : Node} {may waits places : NodeId → Prop}
    (evaluated : ∀ node, (some function, node) ∈ reached none root →
      (∀ callee arguments, node.kind ≠ .call callee arguments) →
        ∀ operand ∈ node.operands, (some function, operand) ∈ reached none root → may operand.id)
    (declared : ∀ node, (some function, node) ∈ reached none root → waits node.id)
    (assigned : ∀ node, (some function, node) ∈ reached none root → places node.id)
    {statement : Node} (place : (some function, statement) ∈ reached none root) :
    Statement.Runs may waits places statement := by
  induction statement using Node.children_induction with
  | step statement ih =>
    obtain ⟨id, kind⟩ := statement
    have block {block : List Node} (inside : ∀ statement ∈ block, statement ∈ kind.children)
        (goes : Inference.passesOver (.mk id kind) = false)
        (within : Inference.functionBelow (some function) (.mk id kind) = some function) :
        ∀ statement ∈ block, Statement.Runs may waits places statement :=
      fun statement mem => ih statement (inside statement mem)
        (reached_child place goes within (inside statement mem))
    cases kind with
    | branch condition statements =>
      exact .branch (evaluated _ place nofun _ List.mem_cons_self
          (reached_child place rfl rfl List.mem_cons_self))
        (block (fun _ mem => List.mem_cons_of_mem _ mem) rfl rfl)
    | loop condition statements =>
      exact .loop (evaluated _ place nofun _ List.mem_cons_self
          (reached_child place rfl rfl List.mem_cons_self))
        (block (fun _ mem => List.mem_cons_of_mem _ mem) rfl rfl)
    | returnStatement expression? =>
      refine .other (fun _ _ => ⟨nofun, nofun⟩) (fun expression same => ?_) nofun nofun nofun
      cases same
      exact evaluated _ place nofun _ List.mem_cons_self
        (reached_child place rfl rfl List.mem_cons_self)
    | expressionStatement expression =>
      have inner := reached_child place rfl rfl (List.mem_cons_self (a := expression))
      refine .other (fun _ _ => ⟨nofun, nofun⟩) nofun (fun expression same _ => ?_)
        (fun expression target value same assigns => ?_) nofun
      · cases same
        exact evaluated _ place nofun _ List.mem_cons_self inner
      · cases same
        obtain ⟨id, kind⟩ := expression
        cases assigns
        exact ⟨evaluated _ inner nofun _ (List.mem_cons_of_mem _ List.mem_cons_self)
          (reached_child inner rfl rfl (List.mem_cons_of_mem _ List.mem_cons_self)),
          assigned _ inner⟩
    | _ =>
      exact .other (fun _ _ => ⟨nofun, nofun⟩) nofun nofun nofun fun _ _ _ _ => declared _ place

/-- The operands are nodes of the function themselves. -/
theorem Statement.runs_of_reached {root function : Node} {may waits places : NodeId → Prop}
    (evaluated : ∀ node, (some function, node) ∈ reached none root → may node.id)
    (declared : ∀ node, (some function, node) ∈ reached none root → waits node.id)
    (assigned : ∀ node, (some function, node) ∈ reached none root → places node.id)
    {statement : Node} (place : (some function, statement) ∈ reached none root) :
    Statement.Runs may waits places statement :=
  runs_of_operands (fun _ _ _ operand _ below => evaluated operand below) declared assigned place

section Parameters

variable {compilation : Compilation} {function : Node} {closure : Closure}
  (intact : closure.Intact compilation function)

include intact

theorem Closure.Intact.map_id_parameters :
    closure.parameters.map (fun parameter => parameter.1.id) =
      (Call.parametersOf closure.declaration).map fun parameter => parameter.1.id := by
  have mapped := congrArg (List.map Node.id) intact.parameters
  rwa [List.map_map, List.map_map] at mapped

/-- A frame binds parameters of the declaration. -/
theorem Closure.Intact.parameter_of_mem_zip {values : List Value} {binding : NodeId × Value}
    (mem : binding ∈ (closure.parameters.map fun parameter => parameter.1.id).zip values) :
    ∃ parameter ∈ Call.parametersOf closure.declaration, parameter.1.id = binding.1 := by
  rw [intact.map_id_parameters] at mem
  exact List.mem_map.1 (List.of_mem_zip mem).1

end Parameters

section Frames

variable {compilation : Compilation} (consistent : compilation.Consistent) {function : Node}

theorem Context.Intact.addValues {context : Context}
    (intact : context.Intact compilation function) {bindings : List (NodeId × Value)}
    (others : ∀ binding ∈ bindings, ∀ literal,
      (some function, Node.mk binding.1 (.literal literal)) ∉ reached none compilation.root) :
    (context.addValues bindings).Intact compilation function := by
  unfold Context.addValues
  induction bindings generalizing context with
  | nil => exact intact
  | cons binding bindings ih =>
    exact ih (intact.addValue (others binding List.mem_cons_self) binding.2)
      fun other mem => others other (List.mem_cons_of_mem _ mem)

include consistent

/-- A function is intact where the body of a function value starts, if the parameters there are no
literals of the function. -/
theorem Closure.Intact.frame {closure : Closure} (intact : closure.Intact compilation function)
    (others : ∀ parameter ∈ Call.parametersOf closure.declaration, ∀ literal,
      (some function, Node.mk parameter.1.id (.literal literal)) ∉ reached none compilation.root)
    (plan : Plan) (values : List Value) :
    (closure.frame plan values).Intact compilation function := by
  refine Context.Intact.addValues (intact.base.turn consistent _) fun binding mem => ?_
  obtain ⟨parameter, inside, same⟩ := intact.parameter_of_mem_zip mem
  rw [← same]
  exact others parameter inside

/-- A plain function is intact where its own body starts. -/
theorem Closure.Intact.frame_own {closure : Closure} {function? : Option Node}
    (place : (function?, closure.declaration) ∈ reached none compilation.root)
    (plain : Plain.Function compilation.scope closure.declaration)
    (intact : closure.Intact compilation closure.declaration) (plan : Plan) (values : List Value) :
    (closure.frame plan values).Intact compilation closure.declaration :=
  intact.frame consistent (fun _ mem _ inside =>
    not_declares_literal consistent.distinct inside (plain.declares_of_own place
      (List.mem_append_left _ (List.mem_map_of_mem mem)))) plan values

/-- Parameters of another function are no literals of the function. -/
theorem not_literal_of_other {other : Node} {function? : Option Node} (h : other ≠ function)
    (place : (function?, other) ∈ reached none compilation.root) {parameter : Node × Bool}
    (mem : parameter ∈ Call.parametersOf other) (literal : Literal) :
    (some function, Node.mk parameter.1.id (.literal literal)) ∉
      reached none compilation.root := by
  intro inside
  have owned := (Node.owns_iff consistent.distinct (reached_parameter place mem)).1
    ⟨_, inside, rfl⟩
  exact h (Option.some.inj owned)

/-- Statements of another function leave no variables of the function pending, and assign at places
outside of it. -/
theorem runs_of_other {other : Node} (h : other ≠ function) {statement : Node}
    (place : (some other, statement) ∈ reached none compilation.root) :
    Statement.Runs (fun _ => True) (fun id => ¬compilation.root.Owns function id)
      (fun id => ¬compilation.root.Owns function id) statement := by
  refine Statement.runs_of_reached (fun _ _ => trivial) (fun node inside => ?_)
    (fun node inside => ?_) place <;>
  · rw [Node.owns_iff consistent.distinct inside, Option.some.injEq]
    exact h

end Frames

section Invariant

variable {compilation : Compilation} (consistent : compilation.Consistent) {function : Node}
  (plain : Plain.Function compilation.scope function)

include consistent plain

/-- The body of a function value leaves the function intact. -/
theorem executeBlock_intact {budget : Nat}
    (evaluates : ∀ id, Keeps (Machine.Intact compilation function)
      (compilation.evaluator.evaluateWithin budget id))
    {closure : Closure} (intact : closure.Intact compilation function) (limits : Limits)
    (values : List Value) :
    Keeps (Machine.Intact compilation function)
      (Eval.within (closure.frame compilation.evaluator.plan values)
        (Statement.executeBlock compilation.evaluator.plan limits
          (compilation.evaluator.evaluateWithin budget) (Call.bodyOf closure.declaration) [])) := by
  obtain ⟨function?, place⟩ := intact.place
  by_cases own : closure.declaration = function
  · -- The body of the function itself makes no function value.
    subst own
    have frame := intact.frame_own consistent place plain compilation.evaluator.plan values
    refine Eval.ensures_within fun session made => ⟨?_, fun _ _ => trivial⟩
    have closed : (Statement.executeBlock compilation.evaluator.plan limits
        (compilation.evaluator.evaluateWithin budget) (Call.bodyOf closure.declaration) []
        ⟨closure.frame compilation.evaluator.plan values, session⟩).2.session.closures =
          session.closures :=
      Layout.executeBlock_closed (Compilation.declares_of_plain consistent place plain frame)
        (fun statement => Compilation.wired_of_body consistent place plain frame) limits
        compilation.evaluator budget session
    rwa [closed]
  · have frame := intact.frame consistent
      (fun parameter => not_literal_of_other consistent own place) compilation.evaluator.plan values
    have waiting : ∀ id ∈ ([] : List NodeId), ¬compilation.root.Owns function id := nofun
    exact (Eval.ensures_within_has frame (Statement.executeBlock_ensures
      (Statement.allows_intact consistent evaluates)
      (fun statement mem => runs_of_other consistent own (reached_statement place mem))
      waiting)).toKeeps

/-- Evaluation leaves a plain function intact. -/
theorem invariant_intact :
    compilation.evaluator.Invariant (Context.Intact compilation function)
      (Closure.Intact compilation function) where
  copies _ intact := intact.copy
  progresses _ _ intact := intact.congr rfl rfl fun _ mem => mem
  adds _ _ _ intact found _ value other :=
    other.addValue (intact.not_literal consistent found) value
  makes _ id thunk name type declaration intact found same _ _ _ other :=
    { base := other.copy
      parameters := Call.map_fst_distribute _ _
      place := intact.makes id thunk name type declaration found same }
  runs _ evaluates _ intact values :=
    executeBlock_intact consistent plain evaluates intact compilation.evaluator.limits values

/-- Whatever a program was asked for before, every plain function is intact. -/
theorem Compilation.intact_after (queries : List Query) :
    (compilation.after queries).Intact compilation function :=
  (invariant_intact consistent plain).after (Context.Intact.start consistent) queries

end Invariant

end DeclLang
