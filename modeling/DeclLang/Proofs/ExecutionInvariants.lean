import DeclLang.Proofs.Contexts

/-!
# What execution keeps

**Input.**  A property of contexts and one of the functions made so far, and which nodes may be
evaluated and which variables may be pending.

**Results.**  `Statement.executeBlock_ensures`: statements that only evaluate such nodes and leave
such variables pending keep both properties, if evaluation does and the changes that statements make
to a context do (`Statement.Allows`).  `Call.follow_ensures`: following a recipe keeps both, if
evaluating, making functions and calling do.
-/

namespace DeclLang

open Step (Keeps Ensures)

/-- The context has one property, the functions made so far have another. -/
def Machine.Has (contexts : Context → Prop) (closures : Array Closure → Prop)
    (machine : Machine) : Prop :=
  contexts machine.context ∧ closures machine.session.closures

namespace Eval

variable {α : Type}

section Any

variable {keeps : Machine → Prop}

theorem ofExcept_keeps (outcome : Except EvalError α) : Keeps keeps (Eval.ofExcept outcome) := by
  cases outcome with
  | ok a => exact Step.ensures_pure trivial
  | error error => exact Step.ensures_throw error

theorem condition_keeps (value : Value) : Keeps keeps (Eval.condition value) := by
  unfold Eval.condition
  split
  · exact Step.ensures_pure trivial
  · exact Step.ensures_throw _

theorem attempt_keeps {step : Eval α} (h : Keeps keeps step) : Keeps keeps (Eval.attempt step) :=
  fun machine has => ⟨(h machine has).1, fun _ _ => trivial⟩

end Any

variable {contexts : Context → Prop} {closures : Array Closure → Prop}

theorem ensures_context :
    Ensures (Machine.Has contexts closures) Eval.context contexts :=
  Step.ensures_get.bind fun _ has => Step.ensures_pure has.1

theorem change_keeps {f : Context → Context} (h : ∀ context, contexts context →
    contexts (f context)) : Keeps (Machine.Has contexts closures) (Eval.change f) :=
  Step.ensures_modify fun _ has => ⟨h _ has.1, has.2⟩

theorem changeSession_keeps {f : Session → Session}
    (h : ∀ session, (f session).closures = session.closures) :
    Keeps (Machine.Has contexts closures) (Eval.changeSession f) :=
  Step.ensures_modify fun machine has =>
    ⟨has.1, show closures (f machine.session).closures from (h machine.session).symm ▸ has.2⟩

theorem report_keeps (id : NodeId) (error : EvalError) :
    Keeps (Machine.Has contexts closures) (Eval.report id error) :=
  changeSession_keeps fun _ => rfl

/-- A step in another context changes nothing here but the session. -/
theorem ensures_within {inner : Context} {step : Eval α} {gives : α × Context → Prop}
    (h : ∀ session, closures session.closures →
      closures (step ⟨inner, session⟩).2.session.closures ∧
        ∀ a, (step ⟨inner, session⟩).1 = .ok a → gives (a, (step ⟨inner, session⟩).2.context)) :
    Ensures (Machine.Has contexts closures) (Eval.within inner step) gives := by
  intro machine has
  obtain ⟨kept, given⟩ := h machine.session has.2
  refine ⟨⟨has.1, kept⟩, fun result same => ?_⟩
  change (step ⟨inner, machine.session⟩).1.map _ = _ at same
  cases outcome : (step ⟨inner, machine.session⟩).1 with
  | error error =>
    rw [outcome] at same
    cases same
  | ok a =>
    rw [outcome] at same
    cases same
    exact given a outcome

/-- What becomes of another context does not matter here, if the functions made there do not. -/
theorem within_keeps {inner : Context} {step : Eval α}
    (h : ∀ session, closures session.closures →
      closures (step ⟨inner, session⟩).2.session.closures) :
    Keeps (Machine.Has contexts closures) (Eval.within inner step) :=
  ensures_within fun session made => ⟨h session made, fun _ _ => trivial⟩

/-- A step that keeps the properties keeps them in another context that has them. -/
theorem ensures_within_has {inner : Context} {step : Eval α} {gives : α → Prop}
    (start : contexts inner) (h : Ensures (Machine.Has contexts closures) step gives) :
    Ensures (Machine.Has contexts closures) (Eval.within inner step) fun result =>
      gives result.1 ∧ contexts result.2 :=
  ensures_within fun session made =>
    have ⟨kept, given⟩ := h ⟨inner, session⟩ ⟨start, made⟩
    ⟨kept.2, fun a same => ⟨given a same, kept.1⟩⟩

end Eval

/-- The recipe of something that has failed. -/
def Thunk.failed (error : EvalError) : Thunk :=
  { dependencies := [], recipe := .failure error }

namespace Statement

/-- What statements may do: evaluate some nodes, leave some variables pending, and change a context
in the ways that they do. -/
structure Allows (plan : Plan) (contexts : Context → Prop) (closures : Array Closure → Prop)
    (evaluate : NodeId → Eval Value) (may waits places : NodeId → Prop) : Prop where
  evaluates : ∀ id, may id → Keeps (Machine.Has contexts closures) (evaluate id)
  pending : ∀ id, waits id → may id
  fails : ∀ id error context, waits id → contexts context →
    contexts (context.addThunk id (.failed error))
  assigns : ∀ place target value context, places place → plan.target? place = some target →
    contexts context → contexts (context.rebind target value)
  turns : ∀ subtree context, contexts context → contexts (context.copy.forget subtree)
  adopts : ∀ context turn, contexts context → contexts turn → contexts (context.adopt turn)

/-- The nodes that a statement evaluates, the variables that it leaves pending, and the places of
its assignments. -/
inductive Runs (may waits places : NodeId → Prop) : Node → Prop
  | branch {id : NodeId} {condition : Node} {block : List Node} (evaluated : may condition.id)
    (inside : ∀ statement ∈ block, Runs may waits places statement) :
    Runs may waits places (.mk id (.branch condition block))
  | loop {id : NodeId} {condition : Node} {block : List Node} (evaluated : may condition.id)
    (inside : ∀ statement ∈ block, Runs may waits places statement) :
    Runs may waits places (.mk id (.loop condition block))
  | other {node : Node}
    (simple : ∀ condition block, node.kind ≠ .branch condition block ∧
      node.kind ≠ .loop condition block)
    (returned : ∀ expression, node.kind = .returnStatement (some expression) → may expression.id)
    (evaluated : ∀ expression, node.kind = .expressionStatement expression →
      (∀ target value, expression.kind ≠ .assignment target value) → may expression.id)
    (assigned : ∀ expression target value, node.kind = .expressionStatement expression →
      expression.kind = .assignment target value → may value.id ∧ places expression.id)
    (declared : ∀ name type? initializer, node.kind = .variableDecl name type? (some initializer) →
      waits node.id) :
    Runs may waits places node

/-- Every statement runs some nodes, leaves some variables pending and assigns at places below. -/
theorem runs_of_identities {places : NodeId → Prop} {statement : Node}
    (below : ∀ id ∈ statement.identities, places id) :
    Runs (fun _ => True) (fun _ => True) places statement := by
  induction statement using Node.children_induction with
  | step statement ih =>
    have inside {child : Node} (mem : child ∈ statement.children) (id : NodeId)
        (here : id ∈ child.identities) : places id := by
      refine below id ?_
      rw [Node.identities_eq]
      exact List.mem_cons_of_mem _ (List.mem_flatMap.2 ⟨child, mem, here⟩)
    obtain ⟨id, kind⟩ := statement
    cases kind with
    | branch condition block =>
      exact .branch trivial fun statement mem =>
        ih statement (List.mem_cons_of_mem _ mem) (inside (List.mem_cons_of_mem _ mem))
    | loop condition block =>
      exact .loop trivial fun statement mem =>
        ih statement (List.mem_cons_of_mem _ mem) (inside (List.mem_cons_of_mem _ mem))
    | expressionStatement expression =>
      refine .other (fun _ _ => ⟨nofun, nofun⟩) nofun (fun _ _ _ => trivial)
        (fun expression target value same _ => ⟨trivial, ?_⟩) nofun
      cases same
      exact inside List.mem_cons_self _ (Node.id_mem_identities expression.self_mem_preorder)
    | _ =>
      exact .other (fun _ _ => ⟨nofun, nofun⟩) (fun _ _ => trivial) (fun _ _ _ => trivial) nofun
        fun _ _ _ _ => trivial

/-- Only allowed variables are left pending. -/
def LeavesPending (waits : NodeId → Prop) : Flow → Prop
  | .next pending => ∀ id ∈ pending, waits id
  | .returned _ => True

section

variable {plan : Plan} {limits : Limits} {contexts : Context → Prop}
  {closures : Array Closure → Prop} {evaluate : NodeId → Eval Value}
  {may waits places : NodeId → Prop}
  (allows : Allows plan contexts closures evaluate may waits places)

include allows

theorem settle_ensures {pending : List NodeId} (waiting : ∀ id ∈ pending, waits id)
    (affected : List NodeId) :
    Ensures (Machine.Has contexts closures) (settle plan evaluate affected pending)
      fun rest => ∀ id ∈ rest, waits id := by
  induction pending generalizing affected with
  | nil => exact Step.ensures_pure nofun
  | cons first pending ih =>
    have waitingFirst := waiting first List.mem_cons_self
    have rest (affected : List NodeId) :=
      ih (fun id mem => waiting id (List.mem_cons_of_mem _ mem)) affected
    unfold settle
    split
    · refine (Eval.attempt_keeps (allows.evaluates first (allows.pending first waitingFirst))).bind
        fun outcome _ => ?_
      split
      · exact (Eval.change_keeps fun context has =>
          allows.fails first _ context waitingFirst has).bind fun _ _ => rest _
      · exact rest _
    · refine (rest affected).bind fun left leftWaits => Step.ensures_pure fun id mem => ?_
      rcases List.mem_cons.1 mem with rfl | mem
      · exact waitingFirst
      · exact leftWaits id mem

theorem openTurn_ensures (subtree : List NodeId) {condition : Eval Bool}
    (h : Keeps (Machine.Has contexts closures) condition) :
    Ensures (Machine.Has contexts closures) (openTurn subtree condition)
      fun result => contexts result.2 :=
  Eval.ensures_context.bind fun context has =>
    (Eval.ensures_within_has (allows.turns subtree context has) h).imp fun _ given => given.2

theorem repeatLoop_keeps (subtree : List NodeId) {condition : Eval Bool} {body : Eval Flow}
    (tests : Keeps (Machine.Has contexts closures) condition)
    (runs : Keeps (Machine.Has contexts closures) body) (turns : Nat) :
    Keeps (Machine.Has contexts closures) (repeatLoop limits subtree condition body turns) := by
  induction turns with
  | zero =>
    rw [repeatLoop]
    refine (openTurn_ensures allows subtree tests).bind fun result _ => ?_
    dsimp only
    split
    · exact Step.ensures_throw _
    · exact Step.ensures_pure trivial
  | succ turns ih =>
    rw [repeatLoop]
    refine (openTurn_ensures allows subtree tests).bind fun result opened => ?_
    dsimp only
    split
    · refine (Eval.ensures_within_has opened runs).bind fun ended closed => ?_
      split
      · exact Step.ensures_pure trivial
      · exact (Eval.change_keeps fun context has => allows.adopts context _ has closed.2).bind
          fun _ _ => ih
    · exact Step.ensures_pure trivial

theorem executeExpression_ensures {expression : Node}
    (evaluated : (∀ target value, expression.kind ≠ .assignment target value) → may expression.id)
    (assigned : ∀ target value, expression.kind = .assignment target value →
      may value.id ∧ places expression.id)
    {pending : List NodeId} (waiting : ∀ id ∈ pending, waits id) :
    Ensures (Machine.Has contexts closures) (executeExpression plan evaluate expression pending)
      (LeavesPending waits) := by
  unfold executeExpression
  split
  · rename_i target value same
    split
    · exact Step.ensures_throw _
    · rename_i declaration planned
      refine (settle_ensures allows waiting [declaration]).bind fun rest restWaits => ?_
      obtain ⟨evaluated, placed⟩ := assigned target value same
      refine (allows.evaluates value.id evaluated).bind fun result _ => ?_
      refine (Eval.change_keeps fun context has =>
        allows.assigns _ _ result context placed planned has).bind fun _ _ => ?_
      exact Step.ensures_pure restWaits
  · rename_i plain
    exact (allows.evaluates expression.id (evaluated plain)).bind fun _ _ =>
      Step.ensures_pure waiting

omit allows in
theorem executeBlock_ensures_of {statements : List Node}
    (each : ∀ statement ∈ statements, ∀ pending, (∀ id ∈ pending, waits id) →
      Ensures (Machine.Has contexts closures) (execute plan limits evaluate statement pending)
        (LeavesPending waits))
    {pending : List NodeId} (waiting : ∀ id ∈ pending, waits id) :
    Ensures (Machine.Has contexts closures) (executeBlock plan limits evaluate statements pending)
      (LeavesPending waits) := by
  induction statements generalizing pending with
  | nil =>
    rw [executeBlock]
    exact Step.ensures_pure waiting
  | cons statement statements ih =>
    rw [executeBlock]
    refine (each statement List.mem_cons_self pending waiting).bind fun flow left => ?_
    cases flow with
    | next pending =>
      exact ih (fun other mem => each other (List.mem_cons_of_mem _ mem)) left
    | returned value => exact Step.ensures_pure trivial

theorem execute_ensures {statement : Node} (runs : Runs may waits places statement)
    {pending : List NodeId} (waiting : ∀ id ∈ pending, waits id) :
    Ensures (Machine.Has contexts closures) (execute plan limits evaluate statement pending)
      (LeavesPending waits) := by
  induction runs generalizing pending with
  | branch evaluated inside ih =>
    rw [execute]
    dsimp only [Node.kind_mk]
    refine (allows.evaluates _ evaluated).bind fun value _ =>
      (Eval.condition_keeps value).bind fun b _ => ?_
    split
    · exact executeBlock_ensures_of (fun statement mem _ => ih statement mem) waiting
    · exact Step.ensures_pure waiting
  | loop evaluated inside ih =>
    rw [execute]
    dsimp only [Node.kind_mk]
    refine (settle_ensures allows waiting _).bind fun rest restWaits => ?_
    have nothing : ∀ id ∈ ([] : List NodeId), waits id := nofun
    refine (repeatLoop_keeps allows _
      ((allows.evaluates _ evaluated).bind fun value _ => Eval.condition_keeps value)
      (executeBlock_ensures_of (fun statement mem _ => ih statement mem) nothing).toKeeps _).bind
        fun outcome _ => ?_
    split
    · exact Step.ensures_pure trivial
    · exact Step.ensures_pure restWaits
  | other simple returned evaluated assigned declared =>
    rw [execute]
    split
    · rename_i condition block same
      exact absurd same (simple condition block).1
    · rename_i condition block same
      exact absurd same (simple condition block).2
    · rename_i expression? same
      split
      · rename_i expression
        exact (allows.evaluates _ (returned expression same)).bind fun _ _ =>
          Step.ensures_pure trivial
      · exact Step.ensures_pure trivial
    · rename_i expression same
      exact executeExpression_ensures allows (evaluated expression same)
        (fun target value => assigned expression target value same) waiting
    · rename_i name type? initializer same
      refine Step.ensures_pure fun id mem => ?_
      rcases List.mem_append.1 mem with before | last
      · exact waiting id before
      · cases List.mem_singleton.1 last
        exact declared name type? initializer same
    · exact Step.ensures_pure waiting

/-- Statements that only do what is allowed keep what is kept by evaluation. -/
theorem executeBlock_ensures {statements : List Node}
    (runs : ∀ statement ∈ statements, Runs may waits places statement) {pending : List NodeId}
    (waiting : ∀ id ∈ pending, waits id) :
    Ensures (Machine.Has contexts closures) (executeBlock plan limits evaluate statements pending)
      (LeavesPending waits) :=
  executeBlock_ensures_of
    (fun statement mem _ => execute_ensures allows (runs statement mem)) waiting

end

end Statement

namespace Call

variable {plan : Plan} {limits : Limits} {contexts : Context → Prop}
  {closures : Array Closure → Prop} {evaluate : NodeId → Eval Value}

/-- A call keeps what calls of function values keep. -/
theorem callValue_ensures {arguments : Arguments}
    (calls : ∀ machine : Machine, machine.Has contexts closures →
      ∀ (serial : Nat) (closure : Closure), machine.session.closures[serial]? = some closure →
        Keeps (Machine.Has contexts closures)
          (callClosure plan limits evaluate closure arguments))
    (id : NodeId) (callee : Value) (result : StaticType) :
    Keeps (Machine.Has contexts closures)
      (callValue plan limits evaluate id callee arguments result) := by
  unfold callValue
  split
  · exact Eval.ofExcept_keeps _
  · refine Step.ensures_get.bind fun machine has => ?_
    split
    · rename_i closure found
      exact calls machine has _ closure found
    · exact Step.ensures_throw _
  · exact (Eval.ofExcept_keeps _).bind fun _ _ => Step.ensures_pure trivial
  · exact Step.ensures_pure trivial
  · exact (Eval.report_keeps _ _).bind fun _ _ => Step.ensures_pure trivial

/-- Following a recipe keeps what evaluating, making functions and calling keep. -/
theorem follow_ensures (evaluates : ∀ id, Keeps (Machine.Has contexts closures) (evaluate id))
    (apart : ∀ context id, contexts context →
      Keeps (Machine.Has contexts closures) (Eval.within context.copy (evaluate id)))
    {recipe : Recipe} {values : List Value}
    (makes : ∀ name type declaration, recipe = .closure name type declaration →
      Keeps (Machine.Has contexts closures) (makeClosure name type declaration values))
    (id : NodeId)
    (calls : ∀ callee arguments result, Keeps (Machine.Has contexts closures)
      (callValue plan limits evaluate id callee arguments result)) :
    Keeps (Machine.Has contexts closures) (follow plan limits evaluate id recipe values) := by
  cases recipe with
  | relay =>
    cases values with
    | nil => exact Step.ensures_throw _
    | cons value values => exact Step.ensures_pure trivial
  | array type => exact Step.ensures_pure trivial
  | closure name type declaration => exact makes name type declaration rfl
  | recordConstructor type record fields => exact Step.ensures_pure trivial
  | call result slots =>
    cases values with
    | nil => exact Step.ensures_throw _
    | cons callee values => exact calls callee _ result
  | operation operator =>
    unfold follow
    dsimp only
    split
    · exact Eval.ofExcept_keeps _
    · exact Step.ensures_throw _
  | shortCircuit decisive first second =>
    refine (evaluates first).bind fun value _ =>
      (Eval.condition_keeps value).bind fun holds _ => ?_
    split
    · exact Step.ensures_pure trivial
    · exact (evaluates second).bind fun value _ =>
        (Eval.condition_keeps value).bind fun _ _ => Step.ensures_pure trivial
  | failure error => exact Step.ensures_throw error
  | compute function => exact Eval.ofExcept_keeps _
  | evaluate other => exact evaluates other
  | condition other =>
    exact (evaluates other).bind fun value _ =>
      (Eval.condition_keeps value).bind fun _ _ => Step.ensures_pure trivial
  | evaluateApart other =>
    exact Eval.ensures_context.bind fun context has =>
      (apart context other has).bind fun _ _ => Step.ensures_pure trivial
  | tally key =>
    exact Step.ensures_get.bind fun _ _ => (Eval.changeSession_keeps fun _ => rfl).bind
      fun _ _ => Step.ensures_pure trivial

end Call

namespace Evaluator

variable {contexts : Context → Prop} {closures : Array Closure → Prop} {id : NodeId}

theorem lookup_keeps {run : Thunk → Eval Value}
    (h : ∀ context thunk, contexts context → context.thunk? id = some thunk →
      Keeps (Machine.Has contexts closures) (run thunk)) :
    Keeps (Machine.Has contexts closures) (lookup run id) := by
  refine Eval.ensures_context.bind fun context has => ?_
  split
  · exact Step.ensures_pure trivial
  · split
    · exact Step.ensures_throw _
    · rename_i thunk found
      split
      · exact Step.ensures_throw _
      · exact h context thunk has found

theorem nested_keeps {step : Eval Value}
    (progresses : ∀ (context : Context) inProgress,
      (∀ other, other ≠ id → (other ∈ inProgress ↔ other ∈ context.inProgress)) →
        contexts context → contexts { context with inProgress })
    (adds : ∀ context value, contexts context → contexts (context.addValue id value))
    (h : Keeps (Machine.Has contexts closures) step) :
    Keeps (Machine.Has contexts closures) (nested id step) := by
  have deepens (depth : Nat) : Keeps (Machine.Has contexts closures)
      (Eval.changeSession fun session => { session with depth }) :=
    Eval.changeSession_keeps fun _ => rfl
  refine Step.ensures_get.bind fun machine _ => ?_
  refine (Eval.change_keeps fun context has => progresses context _ (fun other different =>
    (context.mem_inProgress_insert id other).trans (or_iff_right different)) has).bind fun _ _ => ?_
  refine (deepens (machine.session.depth + 1)).bind fun _ _ => ?_
  refine (Eval.attempt_keeps h).bind fun outcome _ => ?_
  refine (deepens machine.session.depth).bind fun _ _ => ?_
  refine (Eval.change_keeps fun context has => progresses context _ (fun other different =>
    (context.mem_inProgress_erase id other).trans (and_iff_right different)) has).bind fun _ _ => ?_
  refine (Eval.ofExcept_keeps outcome).bind fun value _ => ?_
  refine (Eval.change_keeps fun context has => adds context value has).bind fun _ _ => ?_
  exact Step.ensures_pure trivial

end Evaluator

end DeclLang
