import DeclLang.Proofs.FailedConstraints
import DeclLang.Proofs.Instances
import DeclLang.Proofs.Placement
import DeclLang.Proofs.ReferringNodes

/-!
# Missing arguments

**Input.**  A program that compiles, and a call in it whose arguments fit the slots of a function or
of a record but leave a slot without a default empty.

**Argument.**  The call then hands over its arguments as they are written.  An aligned call fills one
slot for each argument (`align_lt_of_missing`), so there are fewer of them than slots.  The type of
the callee is a function with one parameter for each slot, whatever its generic parameters are
replaced by, and no binding changes the number of parameters of a function
(`Unifier.failure?_of_takes`).

**Results.**  `Compilation.missing_reported`: the wrong number of arguments is reported, with the
call to blame.
-/

namespace DeclLang

/-- The type is that of a function with the given number of parameters. -/
def StaticType.Takes (type : StaticType) (count : Nat) : Prop :=
  ∃ parameters result, type = .function parameters result ∧ parameters.length = count

namespace StaticType

variable {type : StaticType} {count : Nat}

theorem Takes.mapLeaves (h : type.Takes count) (f g : String → StaticType) :
    (type.mapLeaves f g).Takes count := by
  obtain ⟨parameters, result, rfl, length⟩ := h
  rw [StaticType.mapLeaves]
  exact ⟨_, _, rfl, by rw [List.length_map, length]⟩

theorem Takes.resolveWithin (h : type.Takes count) (substitution : Substitution) (passes : Nat) :
    (substitution.resolveWithin passes type).Takes count := by
  induction passes generalizing type with
  | zero => exact h
  | succ passes ih =>
    rw [Substitution.resolveWithin]
    have next : (substitution.apply type).Takes count := h.mapLeaves _ _
    split
    · exact next
    · exact ih next

end StaticType

namespace Unifier

/-- Functions with different numbers of parameters are never the same, whatever is bound. -/
theorem failure?_of_takes (unifier : Unifier) {constraint : Constraint} {expected found : Nat}
    (head : constraint.head.Takes expected) (tail : constraint.tail.Takes found)
    (differ : expected ≠ found) :
    unifier.failure? constraint = some (.parameterCountMismatch expected found) := by
  obtain ⟨parameters, result, left, length⟩ :=
    head.resolveWithin unifier.substitution unifier.substitution.size
  obtain ⟨arguments, returned, right, length'⟩ :=
    tail.resolveWithin unifier.substitution unifier.substitution.size
  have different : parameters.length ≠ arguments.length := by rwa [length, length']
  have demanded : Equations.demand (.function parameters result) (.function arguments returned) =
      .impossible (.parameterCountMismatch expected found) := by
    unfold Equations.demand
    rw [if_neg (fun same => different (by cases same; rfl)), ← length, ← length']
    exact if_pos different
  have pending : unifier.pending constraint =
      [(.function parameters result, .function arguments returned)] := by
    rw [Unifier.pending, Substitution.resolveAll, Substitution.resolveAll, left, right]
  rw [failure?, pending, Substitution.extend_eq, Equations.reduce_cons, demanded]

/-- A constraint that fails whatever is bound is reported. -/
theorem mem_errors_of_failure {constraints : List Constraint} {constraint : Constraint}
    (mem : constraint ∈ constraints) {error : UnificationError}
    (fails : ∀ unifier : Unifier, unifier.failure? constraint = some error) (unifier : Unifier) :
    (constraint.origin, error) ∈ (unifier.solveAll constraints).errors := by
  obtain ⟨before, after, rfl⟩ := List.append_of_mem mem
  rw [← Array.mem_toList_iff, solveAll_append, solveAll_cons, errors_solveAll, errors_solve, fails]
  simp

end Unifier

namespace Alignment

variable {α : Type} {slots : List Slot} {filled : List (Option α)}

/-- If a slot stays empty, there are fewer arguments than slots. -/
theorem lt_of_missing {arguments : List (Option String × α)}
    (aligned : align slots arguments = .ok filled) (missing : none ∈ filled) :
    arguments.length < slots.length := by
  have ended := align_ends slots arguments
  rw [aligned] at ended
  have count := ended.count_eq
  have length := ended.length_eq
  rw [countP_isSome_empty, Nat.zero_add] at count
  rw [List.length_map] at length
  rw [← count, ← length]
  refine Nat.lt_of_le_of_ne List.countP_le_length fun all => ?_
  have filled := List.countP_eq_length.1 all _ missing
  cases filled

end Alignment

namespace Inference

section Calls

variable {environment : Environment} {before after : State}

/-- A function with nothing but parameters, and a record, take as many arguments as there are
slots. -/
theorem takes_of_declaredAs {declaration : Node} {type : StaticType} {slots : List Slot}
    (declared : DeclaredAs environment declaration type)
    (plain : ∀ parameter ∈ Call.parametersOf declaration, parameter.1.parameterSlot?.isSome)
    (named : declaration.slots? = some slots) : type.Takes slots.length := by
  obtain ⟨id, kind⟩ := declaration
  unfold Node.slots? at named
  cases kind with
  | functionDecl name generics parameters result body =>
    cases named
    obtain ⟨received, returned, rfl, names, -⟩ := declared
    refine ⟨received, returned, rfl, ?_⟩
    rw [List.length_filterMap_eq_countP, List.countP_eq_length.2 fun parameter mem =>
      plain _ (List.mem_map_of_mem mem)]
    simpa only [List.length_map] using congrArg List.length names
  | recordDecl name generics declarations =>
    cases named
    obtain ⟨fields, rfl, names⟩ := declared
    refine ⟨fields, _, rfl, ?_⟩
    rw [List.length_filterMap_eq_countP, List.countP_eq_length_filter]
    simpa only [List.length_map] using congrArg List.length names
  | _ => cases named

/-- What has slots is instantiated where it is referred to. -/
theorem isPolymorphic_of_slots? {declaration : Node} {slots : List Slot}
    (named : declaration.slots? = some slots) : isPolymorphic declaration = true := by
  obtain ⟨id, kind⟩ := declaration
  unfold Node.slots? at named
  cases kind with
  | functionDecl | recordDecl => rfl
  | _ => cases named

/-- If the arguments leave a slot without a default empty, they are handed over as written. -/
theorem receivedArguments_of_missing {callee declaration : Node} {arguments : List Node}
    {slots : List Slot} {filled : List (Option Node)}
    (refers : environment.declaration? callee.id = some declaration)
    (named : declaration.slots? = some slots)
    (aligned : align slots (arguments.map labeledArgument) = .ok filled)
    (missing : ∃ pair ∈ filled.zip slots, pair.1 = none ∧ pair.2.hasDefault = false) :
    (receivedArguments environment callee arguments).length = arguments.length := by
  have incomplete : slotted? slots arguments = none := by
    obtain ⟨pair, mem, empty, required⟩ := missing
    unfold slotted?
    rw [aligned]
    refine if_neg fun complete => ?_
    have here := List.all_eq_true.1 complete pair mem
    rw [empty, required] at here
    cases here
  unfold receivedArguments
  rw [refers, Option.bind_some, named]
  dsimp only
  rw [Option.bind_some, incomplete, Option.getD_none, List.length_map, List.length_map]

/-- The type of the callee is held against a function that takes what the callee receives. -/
theorem callType_demands {node callee : Node} {arguments : List Node} {result : StaticType}
    (h : callType environment node callee arguments before = (result, after)) :
    ∃ calleeType slots, after.typing.nodes[callee.id]? = some calleeType ∧
      { head := calleeType, tail := .function slots result, origin := node.id } ∈
        after.typing.constraints ∧
      slots.length = (receivedArguments environment callee arguments).length := by
  let parts := callee.id :: arguments.map Node.id
  let blamed := node.id :: arguments.map Node.id
  have inside {argument : Node} (mem : argument ∈ arguments) : argument.id ∈ arguments.map Node.id :=
    List.mem_map_of_mem mem
  unfold callType at h
  obtain ⟨type, s₁, taken, h⟩ := bind_inv h
  obtain ⟨calleeType, s₂, typed, h⟩ := bind_inv h
  obtain ⟨⟨slots, demands⟩, s₃, slotted, h⟩ := bind_inv h
  obtain ⟨_, s₄, demanded, h⟩ := bind_inv h
  obtain ⟨_, s₅, loop, h⟩ := bind_inv h
  cases h
  have second : Extends environment node parts blamed s₁ s₂ ∧ _ :=
    typeOf_inv List.mem_cons_self typed
  have third : Extends environment node parts blamed s₂ s₃ ∧ _ := argumentSlots_inv
    (fun label? argument mem =>
      List.mem_cons_of_mem _ (inside (mem_of_mem_receivedArguments mem))) slotted
  have fifth : Extends environment node parts blamed s₄ after := by
    refine (demands_inv (fun demand mem => ?_) loop).1
    obtain ⟨label?, argument, received, origin⟩ := third.2.1 demand mem
    rw [origin]
    exact List.mem_cons_of_mem _ (inside (mem_of_mem_receivedArguments received))
  cases demanded
  exact ⟨calleeType, slots, fifth.nodes _ _ (third.1.nodes _ _ second.2),
    fifth.mem_constraints Array.mem_push_self, third.2.2.length_eq.symm⟩

/-- When a call is left, its callee is held against a function that takes what it receives. -/
theorem leave_call {id : NodeId} {callee : Node} {arguments : List Node}
    (different : callee.id ≠ id) {done : Unit}
    (h : leave environment (.mk id (.call callee arguments)) before = (done, after)) :
    ∃ calleeType slots result, after.typing.nodes[callee.id]? = some calleeType ∧
      { head := calleeType, tail := .function slots result, origin := id } ∈
        after.typing.constraints ∧
      slots.length = (receivedArguments environment callee arguments).length := by
  cases called : callType environment (.mk id (.call callee arguments)) callee arguments before with
  | mk result middle =>
    obtain ⟨calleeType, slots, typed, demanded, length⟩ := callType_demands called
    have given : Given (.mk id (.call callee arguments)) result middle after := by
      refine leave_given ?_ h
      unfold leftType?
      exact congrArg (fun outcome => (some outcome.1, outcome.2)) called
    exact ⟨calleeType, slots, result, (given.others _ different).trans typed,
      given.constraints _ demanded, length⟩

end Calls

end Inference

open Inference

/-- A call that leaves a slot without a default empty has fewer arguments than slots, and inference
demands that a function with one parameter for each slot is one with a parameter for each
argument. -/
theorem Typing.missing_infer {root : Node} {index : NodeIndex} (scope : Scope)
    (supply : VariableSupply) (distinct : root.Distinct)
    (built : NodeIndex.build root = .ok index) {function? : Option Node} {id : NodeId}
    {callee : Node} {arguments : List Node}
    (reach : (function?, .mk id (.call callee arguments)) ∈ reached none root)
    (isReference : IsReference callee) {declaration : Node}
    (refers : Environment.declaration? { scope, index } callee.id = some declaration)
    (plain : ∀ parameter ∈ Call.parametersOf declaration, parameter.1.parameterSlot?.isSome)
    {slots : List Slot}
    (named : declaration.slots? = some slots) {filled : List (Option Node)}
    (aligned : align slots (arguments.map labeledArgument) = .ok filled)
    (missing : ∃ pair ∈ filled.zip slots, pair.1 = none ∧ pair.2.hasDefault = false) :
    ∃ constraint ∈ (Typing.infer root scope index supply).constraints, constraint.origin = id ∧
      constraint.head.Takes slots.length ∧ constraint.tail.Takes arguments.length := by
  have below : (functionBelow function? (.mk id (.call callee arguments)), callee) ∈
      reached none root := mem_reached_of_visited reach List.mem_cons_self
  obtain ⟨before, after, split⟩ := exists_split below
  obtain ⟨type, own, names, ⟨-, declared⟩, typed, instance_, -⟩ :=
    Typing.instance_infer scope supply distinct built isReference refers
      (isPolymorphic_of_slots? named) split
  have takes : own.Takes slots.length := by
    rw [instance_.replaced]
    exact (takes_of_declaredAs declared plain named).mapLeaves _ _
  obtain ⟨earlier, later, split'⟩ := exists_split reach
  have different : callee.id ≠ id := by
    intro same
    have own : id ∈ callee.identities := same ▸ List.mem_map_of_mem callee.self_mem_preorder
    exact (distinct.inner (mem_preorder_of_mem_reached reach)).not_mem_child List.mem_cons_self own
  let environment : Environment := { scope, index }
  let reachedState := environment.run earlier (State.initial supply)
  obtain ⟨calleeType, received, result, known, demanded, length⟩ :=
    @leave_call environment reachedState _ id callee arguments different _ rfl
  have grows := Typing.grows_infer scope supply distinct built split'
  rw [Typing.infer_eq_run] at typed ⊢
  -- Types of nodes stay, so the call reads the type that its callee ends with.
  obtain rfl : calleeType = own := Option.some.inj ((grows.nodes _ _ known).symm.trans typed)
  refine ⟨_, grows.mem_constraints demanded, rfl, takes, received, result, rfl, ?_⟩
  rw [length, receivedArguments_of_missing refers named aligned missing]

namespace Compilation

/-- If the arguments of a call fit the parameters of a function, or the fields of a record, but leave
one without a default empty, there are fewer arguments than parameters.  Inference demands of the
call something that fails with the wrong number of arguments whatever is bound, and this is reported
with the call to blame. -/
theorem missing_reported {options : Options} {root : Node} {focus : Option NodeId}
    {before after : Reports} {compilation : Compilation}
    (compiled : ofTree options root focus before = (.ok compilation, after))
    {function? : Option Node} {id : NodeId} {callee : Node} {arguments : List Node}
    (reach : (function?, .mk id (.call callee arguments)) ∈ reached none compilation.root)
    {declaration : Node}
    (refers : compilation.environment.declaration? callee.id = some declaration)
    (plain : ∀ parameter ∈ Call.parametersOf declaration, parameter.1.parameterSlot?.isSome)
    {slots : List Slot} (named : declaration.slots? = some slots) {filled : List (Option Node)}
    (aligned : align slots (arguments.map labeledArgument) = .ok filled)
    (missing : ∃ pair ∈ filled.zip slots, pair.1 = none ∧ pair.2.hasDefault = false) :
    arguments.length < slots.length ∧
    (∃ constraint ∈ compilation.typing.constraints, constraint.origin = id ∧
      ∀ unifier : Unifier, unifier.failure? constraint =
        some (.parameterCountMismatch slots.length arguments.length)) ∧
    (id, .parameterCountMismatch slots.length arguments.length) ∈ compilation.unifier.errors := by
  have fewer : arguments.length < slots.length := by
    obtain ⟨⟨_, slot⟩, mem, rfl, -⟩ := missing
    simpa only [List.length_map] using Alignment.lt_of_missing aligned (List.of_mem_zip mem).1
  have inside : callee ∈ compilation.root.preorder := mem_preorder_of_mem_reached
    (mem_reached_of_visited reach List.mem_cons_self)
  have isReference := isReference_of_declaration compiled inside refers
  have distinct := (consistent_of_ofTree compiled).distinct
  obtain ⟨-, built, supply, inferred⟩ := typing_of_ofTree compiled
  obtain ⟨constraint, demanded, rfl, head, tail⟩ := Typing.missing_infer compilation.scope supply
    distinct built reach isReference refers plain named aligned missing
  rw [← inferred] at demanded
  have fails (unifier : Unifier) : unifier.failure? constraint =
      some (.parameterCountMismatch slots.length arguments.length) :=
    unifier.failure?_of_takes head tail fewer.ne'
  refine ⟨fewer, ⟨constraint, demanded, rfl, fails⟩, ?_⟩
  rw [unifier_of_ofTree compiled]
  exact Unifier.mem_errors_of_failure (Array.mem_toList_iff.2 demanded) fails {}

/-- A function of two parameters, the second with a default. -/
def bothFunction : Node :=
  .mk 1 (.functionDecl "both" []
    [.mk 2 (.parameter "left" (.mk 3 (.typeName "Boolean" [])) none),
      .mk 4 (.parameter "right" (.mk 5 (.typeName "Boolean" []))
        (some (.mk 6 (.literal (.boolean true)))))]
    (.mk 7 (.typeName "Boolean" [])) [])

/-- A call that gives the second parameter only. -/
def rightOnly : List Node :=
  [.mk 11 (.argument (some "right") (.mk 12 (.literal (.boolean true))))]

/-- The function and the call. -/
def leftMissing : Node :=
  .mk 0 (.program
    [bothFunction, .mk 8 (.expressionStatement
      (.mk 9 (.call (.mk 10 (.identifier "both")) rightOnly)))])

/-- The call gives one argument, and the function takes two. -/
theorem missing_reported_leftMissing :
    ∃ compilation after, ofTree {} leftMissing none {} = (.ok compilation, after) ∧
      (none, .mk 9 (.call (.mk 10 (.identifier "both")) rightOnly)) ∈
        reached none compilation.root ∧
      compilation.environment.declaration? 10 = some bothFunction ∧
      bothFunction.slots? = some [⟨"left", false⟩, ⟨"right", true⟩] ∧
      (9, .parameterCountMismatch 2 1) ∈ compilation.unifier.errors := by
  have checked : ((ofTree {} leftMissing none {}).1.toOption.bind fun compilation =>
      (compilation.environment.declaration? 10).map Node.id) = some 1 := by
    decide +kernel
  obtain ⟨compilation, compiled, refers⟩ := compiled_of_toOption checked
  have own := (typing_of_ofTree compiled).1
  have inside : bothFunction ∈ leftMissing.preorder :=
    Node.mem_preorder_of_mem_children List.mem_cons_self bothFunction.self_mem_preorder
  have function : compilation.environment.declaration? 10 = some bothFunction :=
    found_of_id compiled inside refers
  have statement : (none, .mk 8 (.expressionStatement
      (.mk 9 (.call (.mk 10 (.identifier "both")) rightOnly)))) ∈ reached none leftMissing :=
    mem_reached_of_visited (self_mem_reached none leftMissing)
      (List.mem_cons_of_mem _ List.mem_cons_self)
  have call : (none, .mk 9 (.call (.mk 10 (.identifier "both")) rightOnly)) ∈
      reached none compilation.root :=
    own.symm ▸ mem_reached_of_visited statement List.mem_cons_self
  have aligned : align [⟨"left", false⟩, ⟨"right", true⟩] (rightOnly.map labeledArgument) =
      .ok [none, some (.mk 11 (.argument (some "right") (.mk 12 (.literal (.boolean true)))))] :=
    rfl
  obtain ⟨-, -, reported⟩ := missing_reported compiled call function
    (by simp [Call.parametersOf, bothFunction, Node.parameterSlot?]) rfl aligned
    ⟨(none, ⟨"left", false⟩), List.mem_cons_self, rfl, rfl⟩
  exact ⟨compilation, _, compiled, call, function, rfl, reported⟩

/-- A call without arguments that stands where a type is expected. -/
def callInType : Node :=
  .mk 0 (.program
    [.mk 1 (.functionDecl "f" [] [.mk 2 (.parameter "a" (.mk 3 (.typeName "Number" [])) none)]
        (.mk 4 (.typeName "Number" [])) []),
      .mk 5 (.variableDecl "x"
        (some (.mk 6 (.typeName "Array" [.mk 7 (.call (.mk 8 (.identifier "f")) [])]))) none)])

/-- The callee refers to a function whose parameter stays empty, but nothing is reported, because
inference does not come to what stands below an annotation. -/
theorem callInType_unreported :
    .mk 7 (.call (.mk 8 (.identifier "f")) []) ∈ callInType.preorder ∧
    align [⟨"a", false⟩] (([] : List Node).map labeledArgument) = .ok [none] ∧
    ((ofTree {} callInType none {}).1.toOption.map fun compilation =>
      ((compilation.environment.declaration? 8).bind Node.slots?, compilation.unifier.errors)) =
        some (some [⟨"a", false⟩], #[]) := by
  have inside : callInType.preorder[7]? = some (.mk 7 (.call (.mk 8 (.identifier "f")) [])) := by
    cbv
  exact ⟨List.mem_of_getElem? inside, rfl, by decide +kernel⟩

end Compilation

end DeclLang
