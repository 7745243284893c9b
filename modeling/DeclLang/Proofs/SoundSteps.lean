import DeclLang.Proofs.ConveyedArguments

/-!
# Steps that respect types

**Input.**  A checked program, and a machine in which nothing is not what types say.

**Judgment.**  `Compilation.Sound`: a step leaves such a machine behind.  The function values made so
far stay, nothing is reported, and the step has a result with some property or an error that is not
about types.  The property may depend on function values; it holds with those that are there when
the step ends.

**Results.**  One rule for every way in which steps are put together.  `Statement.executeBlock_sound`:
if evaluation respects types, so does the body of a function, and it returns what the type of the
function says.
-/

namespace DeclLang

open Inference (reached)

/-- Nothing in the machine is not what types say. -/
structure Machine.Typed (compilation : Compilation) (machine : Machine) : Prop where
  context : machine.context.Typed compilation machine.session.closures
  closures : ∀ closure ∈ machine.session.closures,
    closure.Typed compilation machine.session.closures

/-- Function values stay, and nothing is reported. -/
structure Session.Continues (before after : Session) : Prop where
  grown : Grown before.closures after.closures
  silent : after.diagnostics = before.diagnostics

namespace Session.Continues

theorem refl (session : Session) : session.Continues session :=
  ⟨.refl _, rfl⟩

theorem trans {before middle after : Session} (h : before.Continues middle)
    (h' : middle.Continues after) : before.Continues after :=
  ⟨h.grown.trans h'.grown, h'.silent.trans h.silent⟩

end Session.Continues

namespace Compilation

/-- With at least the function values `made`, the step respects types. -/
def Sound (compilation : Compilation) {α : Type} (made : Array Closure) (step : Eval α)
    (gives : Array Closure → α → Prop) : Prop :=
  ∀ machine : Machine, machine.Typed compilation → Grown made machine.session.closures →
    (step machine).2.Typed compilation ∧ machine.session.Continues (step machine).2.session ∧
      Outcome (gives (step machine).2.session.closures) (step machine).1

variable {compilation : Compilation} {α β : Type} {made : Array Closure} {step : Eval α}
  {gives : Array Closure → α → Prop} {more : Array Closure → β → Prop}

namespace Sound

theorem pure {a : α} (h : ∀ later, Grown made later → gives later a) :
    compilation.Sound made (pure a) gives :=
  fun _ typed grown => ⟨typed, .refl _, h _ grown⟩

theorem throw {error : EvalError} (fine : ¬error.IsTypeError) :
    compilation.Sound made (throw error) gives :=
  fun _ typed _ => ⟨typed, .refl _, fine⟩

theorem ofExcept {outcome : Except EvalError α}
    (h : ∀ later, Grown made later → Outcome (gives later) outcome) :
    compilation.Sound made (Eval.ofExcept outcome) gives := by
  cases outcome with
  | ok a => exact pure h
  | error error => exact throw (h made (.refl _))

theorem bind {next : α → Eval β} (first : compilation.Sound made step gives)
    (rest : ∀ later a, Grown made later → gives later a →
      compilation.Sound later (next a) more) : compilation.Sound made (step >>= next) more := by
  intro machine typed grown
  have begun := first machine typed grown
  cases ran : step machine with
  | mk outcome middle =>
    rw [ran] at begun
    obtain ⟨still, continues, given⟩ := begun
    cases outcome with
    | error error =>
      rw [Step.bind_error ran]
      exact ⟨still, continues, given⟩
    | ok a =>
      rw [Step.bind_ok ran]
      obtain ⟨ends, goesOn, result⟩ :=
        rest _ a (grown.trans continues.grown) given middle still (.refl _)
      exact ⟨ends, continues.trans goesOn, result⟩

theorem imp {other : Array Closure → α → Prop} (h : compilation.Sound made step gives)
    (imp : ∀ later a, Grown made later → gives later a → other later a) :
    compilation.Sound made step other := fun machine typed grown =>
  have ⟨still, continues, given⟩ := h machine typed grown
  ⟨still, continues, given.imp fun a => imp _ a (grown.trans continues.grown)⟩

theorem get : compilation.Sound made get fun later machine =>
    machine.Typed compilation ∧ machine.session.closures = later :=
  fun _ typed _ => ⟨typed, .refl _, typed, rfl⟩

theorem context : compilation.Sound made Eval.context fun later context =>
    context.Typed compilation later :=
  get.bind fun _ _ _ given => pure fun _ grown => (given.2 ▸ given.1.context).grow grown

theorem change {f : Context → Context} (h : ∀ later context, Grown made later →
    context.Typed compilation later → (f context).Typed compilation later) :
    compilation.Sound made (Eval.change f) fun _ _ => True :=
  fun _ typed grown => ⟨⟨h _ _ grown typed.context, typed.closures⟩, .refl _, trivial⟩

theorem changeSession {f : Session → Session}
    (closures : ∀ session, (f session).closures = session.closures)
    (diagnostics : ∀ session, (f session).diagnostics = session.diagnostics) :
    compilation.Sound made (Eval.changeSession f) fun _ _ => True := by
  intro machine typed grown
  have same : (f machine.session).closures = machine.session.closures := closures machine.session
  refine ⟨⟨?_, ?_⟩, ⟨?_, diagnostics machine.session⟩, trivial⟩
  · exact same.symm ▸ typed.context
  · exact same.symm ▸ typed.closures
  · exact same.symm ▸ Grown.refl _

/-- An error that is not about types may be looked at. -/
theorem attempt (h : compilation.Sound made step gives) :
    compilation.Sound made (Eval.attempt step) fun later outcome => Outcome (gives later) outcome :=
  h

/-- A step may be taken in another context. -/
theorem within {inner : Context} (typed : inner.Typed compilation made)
    (h : compilation.Sound made step gives) :
    compilation.Sound made (Eval.within inner step) fun later result =>
      gives later result.1 ∧ result.2.Typed compilation later := by
  intro machine around grown
  obtain ⟨still, continues, given⟩ :=
    h ⟨inner, machine.session⟩ ⟨typed.grow grown, around.closures⟩ grown
  refine ⟨⟨around.context.grow continues.grown, still.closures⟩, continues, ?_⟩
  change Outcome _ ((step ⟨inner, machine.session⟩).1.map _)
  cases outcome : (step ⟨inner, machine.session⟩).1 with
  | error error =>
    rw [outcome] at given
    exact given
  | ok a =>
    rw [outcome] at given
    exact ⟨given, still.context⟩

theorem mapM {items : List α} {step : α → Eval β} {relates : Array Closure → α → β → Prop}
    (grows : ∀ made later, Grown made later → ∀ a b, relates made a b → relates later a b)
    (each : ∀ made, ∀ a ∈ items, compilation.Sound made (step a) fun later => relates later a) :
    compilation.Sound made (items.mapM step) fun later =>
      List.Forall₂ (relates later) items := by
  induction items generalizing made with
  | nil => exact pure fun _ _ => .nil
  | cons item items ih =>
    rw [List.mapM_cons]
    refine (each made item List.mem_cons_self).bind fun later result _ first => ?_
    refine (ih fun made a mem => each made a (List.mem_cons_of_mem _ mem)).bind
      fun last results grown rest => ?_
    exact pure fun final grown' => .cons (grows _ _ (grown.trans grown') _ _ first)
      (rest.imp fun a b => grows _ _ grown' a b)

end Sound

/-- A value that fits the type of conditions can be used as one. -/
theorem sound_condition {value : Value} (fits : compilation.Fits made value .boolean) :
    compilation.Sound made (Eval.condition value) fun _ _ => True := by
  obtain ⟨b, content⟩ := fits.boolean_inv
  unfold Eval.condition Value.boolean?
  rw [content]
  exact .pure fun _ _ => trivial

end Compilation

/-- Evaluation gives what can stand at nodes. -/
abbrev Compilation.Evaluates (compilation : Compilation) (evaluate : NodeId → Eval Value) : Prop :=
  ∀ made id, compilation.Sound made (evaluate id) fun later value =>
    compilation.Admits later id value

/-- What is returned fits a type; if it is certain that something is returned, it is. -/
structure Flow.Ends (compilation : Compilation) (type : StaticType) (certain : Prop)
    (made : Array Closure) (flow : Flow) : Prop where
  fits : ∀ value, flow = .returned value → compilation.Fits made value type
  returns : certain → ∃ value, flow = .returned value

namespace Flow.Ends

variable {compilation : Compilation} {type : StaticType} {certain : Prop} {made : Array Closure}

theorem next {pending : List NodeId} (uncertain : ¬certain) :
    Flow.Ends compilation type certain made (.next pending) where
  fits _ same := by cases same
  returns h := absurd h uncertain

theorem returned {value : Value} (fits : compilation.Fits made value type) :
    Flow.Ends compilation type certain made (.returned value) where
  fits _ same := by
    cases same
    exact fits
  returns _ := ⟨value, rfl⟩

theorem uncertain {flow : Flow} {other : Prop} (ends : flow.Ends compilation type other made)
    (uncertain : ¬certain) : flow.Ends compilation type certain made where
  fits := ends.fits
  returns h := absurd h uncertain

end Flow.Ends

namespace Statement

variable {compilation : Compilation} (checked : compilation.Checked) {limits : Limits}
  {evaluate : NodeId → Eval Value} (evaluates : compilation.Evaluates evaluate)
  {made : Array Closure}

section Contexts

include evaluates

theorem settle_sound (affected pending : List NodeId) :
    compilation.Sound made (settle compilation.evaluator.plan evaluate affected pending)
      fun _ _ => True := by
  induction pending generalizing affected made with
  | nil => exact .pure fun _ _ => trivial
  | cons first pending ih =>
    unfold settle
    split
    · refine (evaluates made first).attempt.bind fun later outcome _ given => ?_
      split
      · exact (Compilation.Sound.change fun _ _ _ typed => typed.fail first given).bind
          fun _ _ _ _ => ih _
      · exact ih _
    · exact (ih affected).bind fun _ _ _ _ => .pure fun _ _ => trivial

omit evaluates in
theorem openTurn_sound (subtree : List NodeId) {condition : Eval Bool}
    (tests : ∀ made, compilation.Sound made condition fun _ _ => True) :
    compilation.Sound made (openTurn subtree condition) fun later result =>
      result.2.Typed compilation later :=
  Compilation.Sound.context.bind fun later _ _ typed =>
    ((tests later).within (typed.copy.forget subtree)).imp fun _ _ _ given => given.2

omit evaluates in
theorem repeatLoop_sound (subtree : List NodeId) {condition : Eval Bool} {body : Eval Flow}
    {type : StaticType} {certain : Prop}
    (tests : ∀ made, compilation.Sound made condition fun _ _ => True)
    (runs : ∀ made, compilation.Sound made body (Flow.Ends compilation type certain))
    (turns : Nat) :
    compilation.Sound made (repeatLoop limits subtree condition body turns) fun later outcome =>
      ∀ value, outcome = some value → compilation.Fits later value type := by
  induction turns generalizing made with
  | zero =>
    rw [repeatLoop]
    refine (openTurn_sound subtree tests).bind fun later result _ _ => ?_
    dsimp only
    split
    · refine .throw ?_
      unfold overrun
      split <;> exact id
    · exact .pure fun _ _ _ same => by cases same
  | succ turns ih =>
    rw [repeatLoop]
    refine (openTurn_sound subtree tests).bind fun later result _ opened => ?_
    dsimp only
    split
    · refine ((runs later).within opened).bind fun last ended _ both => ?_
      obtain ⟨ends, closed⟩ := both
      split
      · exact .pure fun final grown value same => by
          cases same
          exact (ends.fits _ rfl).grow grown
      · exact (Compilation.Sound.change fun _ _ grown typed =>
          typed.adopt (closed.grow grown)).bind fun _ _ _ _ => ih
    · exact .pure fun _ _ _ same => by cases same

end Contexts

section Places

variable {function? : Option Node} {node : Node}
  (mem : (function?, node) ∈ reached none compilation.root)

include checked mem

/-- The value of an operand that is typed as a condition fits the type of conditions. -/
theorem fits_condition {condition : Node} (among : condition ∈ node.operands)
    (boolean : ∀ type, compilation.judgment.typing.nodes[condition.id]? = some type →
      compilation.judgment.same type .boolean) {value : Value}
    (admits : compilation.Admits made condition.id value) :
    compilation.Fits made value .boolean := by
  have below := Inference.mem_reached_of_visited mem (Node.mem_visited_of_mem_operands among)
  have expression := checked.disciplined.operands _ (Inference.mem_preorder_of_mem_reached mem)
    condition among
  obtain ⟨own, known, -⟩ := checked.rules _ below (Node.isTyped_of_isExpression expression)
  have same : compilation.erased .boolean = .boolean := Compilation.erased_named "Boolean"
  exact same ▸ admits.fits checked mem among ⟨own, known, boolean own known⟩

/-- An assignment gives its target what can stand there. -/
theorem admits_target {target value : Node} (kind : node.kind = .assignment target value)
    {declaration : NodeId} (resolved : compilation.scope.resolve target.id = some declaration)
    {result : Value} (admits : compilation.Admits made value.id result) :
    compilation.Admits made declaration result := by
  have inside := Inference.mem_preorder_of_mem_reached mem
  have operands : node.operands = [target, value] := by rw [Node.operands, kind]
  have targets : target ∈ node.operands := operands ▸ List.mem_cons_self
  have values : value ∈ node.operands := operands ▸ List.mem_cons_of_mem _ List.mem_cons_self
  have below := Inference.mem_reached_of_visited mem (Node.mem_visited_of_mem_operands targets)
  obtain ⟨assigned, among, rfl, -⟩ := checked.consistent.resolves _ _ resolved
  have refers : compilation.environment.declaration? target.id = some assigned := by
    unfold Inference.Environment.declaration?
    rw [show compilation.environment.scope.resolve target.id = _ from resolved]
    exact checked.get?_self among
  have holds := checked.disciplined.assignment inside kind refers
  refine Compilation.admits_held checked among holds fun type stored => ?_
  have typed : Inference.isTyped node = true := by rw [Inference.isTyped, kind]
  obtain ⟨own, known, rule⟩ := checked.rules _ mem typed
  rw [Judgment.Rule, kind] at rule
  obtain ⟨-, both, ⟨targetType, found, same⟩, hasType⟩ := rule
  -- The target has the type of its declaration, which is not instantiated.
  have refers' := checked.refers below
    (checked.references _ (Inference.mem_preorder_of_mem_reached below) _ refers) found
  unfold Judgment.Refers at refers'
  rw [show compilation.judgment.environment.declaration? target.id = _ from refers] at refers'
  obtain ⟨_, ⟨declared, -⟩, same'⟩ := refers'
  cases stored.symm.trans declared
  rw [if_neg (by simp [Node.isPolymorphic_of_holdsValue holds])] at same'
  have same : compilation.erased targetType = compilation.erased both := same
  have same' : compilation.erased targetType = compilation.erased type := same'
  exact same'.symm.trans same ▸ admits.fits checked mem values hasType

include evaluates in
theorem executeExpression_sound (pending : List NodeId) {type : StaticType} :
    compilation.Sound made (executeExpression compilation.evaluator.plan evaluate node pending)
      (Flow.Ends compilation type False) := by
  have next (made : Array Closure) (pending : List NodeId) :
      compilation.Sound made (pure (.next pending)) (Flow.Ends compilation type False) :=
    .pure fun _ _ => .next id
  unfold executeExpression
  split
  · rename_i target value kind
    split
    · exact .throw id
    · rename_i declaration planned
      rw [checked.consistent.plan] at planned
      obtain ⟨assignment, inside, same, _, _, kind', resolved⟩ := Plan.assignment_of_target? planned
      obtain rfl := Node.eq_of_id_eq checked.consistent.distinct inside
        (Inference.mem_preorder_of_mem_reached mem) same
      cases kind.symm.trans kind'
      refine (settle_sound evaluates _ _).bind fun later rest _ _ => ?_
      refine (evaluates later value.id).bind fun last result _ admits => ?_
      refine (Compilation.Sound.change fun final context grown typed => ?_).bind
        fun _ _ _ _ => next _ _
      exact typed.rebind (admits_target checked mem kind resolved (admits.grow grown))
  · exact (evaluates made node.id).bind fun _ _ _ _ => next _ _

end Places

section Functions

variable {function : Node} {received : List (Option String × StaticType)} {returned : StaticType}
  (declared : compilation.typing.declarations[function.id]? = some (.function received returned))

omit checked in
theorem executeBlock_sound_of {type : StaticType} {statements : List Node}
    (each : ∀ statement ∈ statements, ∀ made pending, compilation.Sound made
      (execute compilation.evaluator.plan limits evaluate statement pending)
        (Flow.Ends compilation type (statement.isReturn = true)))
    (pending : List NodeId) :
    compilation.Sound made
      (executeBlock compilation.evaluator.plan limits evaluate statements pending)
        (Flow.Ends compilation type (∃ statement ∈ statements, statement.isReturn = true)) := by
  induction statements generalizing made pending with
  | nil =>
    rw [executeBlock]
    refine .pure fun _ _ => .next fun certain => ?_
    obtain ⟨_, among, -⟩ := certain
    cases among
  | cons statement statements ih =>
    rw [executeBlock]
    refine (each statement List.mem_cons_self made pending).bind fun later flow _ ends => ?_
    cases flow with
    | returned value =>
      exact .pure fun _ grown => .returned ((ends.fits _ rfl).grow grown)
    | next pending =>
      refine (ih (fun other mem => each other (List.mem_cons_of_mem _ mem)) pending).imp
        fun last flow _ rest => ⟨rest.fits, fun certain => ?_⟩
      obtain ⟨other, among, isReturn⟩ := certain
      rcases List.mem_cons.1 among with rfl | among
      · obtain ⟨_, same⟩ := ends.returns isReturn
        cases same
      · exact rest.returns ⟨other, among, isReturn⟩

include checked evaluates declared

/-- A statement of a function returns what the type of the function says. -/
theorem execute_sound {statement : Node}
    (mem : (some function, statement) ∈ reached none compilation.root) (pending : List NodeId) :
    compilation.Sound made
      (execute compilation.evaluator.plan limits evaluate statement pending)
        (Flow.Ends compilation (compilation.erased returned) (statement.isReturn = true)) := by
  induction statement using Node.children_induction generalizing made pending with
  | step statement ih =>
    have next (made : Array Closure) (pending : List NodeId)
        (runsOn : statement.isReturn = false) : compilation.Sound made (pure (.next pending))
          (Flow.Ends compilation (compilation.erased returned) (statement.isReturn = true)) :=
      .pure fun _ _ => .next (by rw [runsOn]; exact Bool.false_ne_true)
    have below {child : Node} (visit : child ∈ Inference.visited statement)
        (plain : Inference.functionBelow (some function) statement = some function) :
        (some function, child) ∈ reached none compilation.root :=
      plain ▸ Inference.mem_reached_of_visited mem visit
    have block {condition : Node} {block : List Node}
        (visited : Inference.visited statement = condition :: block)
        (plain : Inference.functionBelow (some function) statement = some function)
        (made : Array Closure) (pending : List NodeId) :
        compilation.Sound made
          (executeBlock compilation.evaluator.plan limits evaluate block pending)
          (Flow.Ends compilation (compilation.erased returned)
            (∃ statement ∈ block, statement.isReturn = true)) :=
      executeBlock_sound_of (fun inner among made pending =>
        have visit : inner ∈ Inference.visited statement :=
          visited ▸ List.mem_cons_of_mem _ among
        ih inner (Inference.mem_children_of_mem_visited visit) (below visit plain) pending) pending
    obtain ⟨id, kind⟩ := statement
    rw [execute]
    dsimp only [Node.kind_mk]
    split
    · rename_i condition statements
      obtain ⟨_, known, rule⟩ := checked.rules _ mem rfl
      refine (evaluates made condition.id).bind fun later value _ admits => ?_
      refine (Compilation.sound_condition
        (fits_condition checked mem List.mem_cons_self rule.2 admits)).bind fun last holds _ _ => ?_
      split
      · exact (block rfl rfl last pending).imp fun _ _ _ ends =>
          ends.uncertain Bool.false_ne_true
      · exact next last pending rfl
    · rename_i condition statements
      obtain ⟨_, known, rule⟩ := checked.rules _ mem rfl
      have tests (made : Array Closure) : compilation.Sound made
          (do Eval.condition (← evaluate condition.id)) fun _ _ => True :=
        (evaluates made condition.id).bind fun later value _ admits =>
          Compilation.sound_condition (fits_condition checked mem List.mem_cons_self rule.2 admits)
      refine (settle_sound evaluates _ _).bind fun later rest _ _ => ?_
      refine (repeatLoop_sound _ tests (fun made => block rfl rfl made []) _).bind
        fun last outcome _ returns => ?_
      split
      · exact .pure fun final grown => .returned ((returns _ rfl).grow grown)
      · exact next last rest rfl
    · rename_i expression?
      obtain ⟨_, known, -, rule⟩ := checked.rules _ mem rfl
      obtain ⟨_, _, ⟨stored, -⟩, returns⟩ := rule function rfl
      cases declared.symm.trans stored
      have ends (later : Array Closure) {value : Value}
          (fits : compilation.Fits later value (compilation.erased returned)) :
          compilation.Sound later (pure (.returned value)) (Flow.Ends compilation
            (compilation.erased returned)
            ((Node.mk id (.returnStatement expression?)).isReturn = true)) :=
        .pure fun _ grown => .returned (fits.grow grown)
      split
      · rename_i expression
        refine (evaluates made expression.id).bind fun later value _ admits => ?_
        exact ends later (admits.fits checked mem List.mem_cons_self returns)
      · have same : compilation.erased .unit = compilation.erased returned := returns
        exact ends made (.any (same ▸ Compilation.isOpaque_erased_unit))
    · rename_i expression
      exact (executeExpression_sound checked evaluates (below List.mem_cons_self rfl) pending).imp
        fun _ _ _ ends => ends.uncertain Bool.false_ne_true
    · exact next made _ rfl
    · rename_i noReturn _ _
      refine next made pending ?_
      cases kind with
      | returnStatement expression? => exact (noReturn expression? rfl).elim
      | _ => rfl

end Functions

end Statement

end DeclLang
