import DeclLang.Proofs.Alignment
import DeclLang.Proofs.EarlyAssignments
import DeclLang.Proofs.FaithfulRecipes
import DeclLang.Proofs.Reachability

/-!
# Calls of plain functions

**Input.**  A compiled program, any queries to it, and a function value that was made meanwhile of a
plain function.

**Results.**
* `Compilation.callClosure_follows_strict`: if the strict execution of the function returns a value,
  a call returns the same value, provided that as many evaluations may be nested as the function has
  nodes; and if a loop of the strict execution goes on beyond its limit, the call fails in the same
  way.  In this execution a variable that was assigned before its declaration keeps its value, as
  its initializer is only evaluated when it has none.
* `Compilation.assignedAhead_keeps`: the initializer of a textbook would replace the value.  This is
  another execution only where an assignment stands in front of the declaration of its target.
-/

namespace DeclLang

open Inference (reached)

/-- The arguments give every parameter of a function value one of the values. -/
def Closure.Given (closure : Closure) (arguments : Arguments) (values : List Value) : Prop :=
  align (closure.slots.map fun slot => { name := slot.1, hasDefault := slot.2.isSome }) arguments =
    .ok (values.map fun value => some (some value))

/-- As many arguments without labels as there are parameters give them their values. -/
theorem Closure.given_positional {closure : Closure} {values : List Value}
    (h : closure.parameters.length = values.length) :
    closure.Given (values.map fun value => (none, some value)) values := by
  have length : (closure.slots.map fun slot =>
      ({ name := slot.1, hasDefault := slot.2.isSome } : Slot)).length =
        (values.map (some : Value → Option Value)).length := by
    rw [List.length_map, List.length_map, Closure.slots, List.length_map, h]
  have aligned := align_positional length
  rwa [List.map_map, List.map_map] at aligned

namespace Call

/-- Parameters that are all given a value receive it. -/
theorem receive_of_given {closure : Closure} {arguments : Arguments} {values : List Value}
    (given : closure.Given arguments values) : receive closure.slots arguments = .ok values := by
  have length := align_length given
  rw [List.length_map, List.length_map] at length
  unfold receive
  rw [show align _ arguments = _ from given]
  dsimp only
  generalize closure.slots = slots at length
  clear given
  induction slots generalizing values with
  | nil =>
    rw [List.length_eq_zero_iff.1 length]
    rfl
  | cons slot slots ih =>
    cases values with
    | nil => cases length
    | cons value values =>
      rw [List.map_cons, List.zip_cons_cons, List.mapM_cons]
      dsimp only [Option.join_some, Option.some_or]
      rw [ih (Nat.succ.inj length)]
      rfl

end Call

/-- The value of a function whose strict execution ended in some way. -/
def Strict.Flow.result : Strict.Flow → Value
  | .returned value => value
  | .next _ => .unit

/-- The call of a function gives the result of its body. -/
theorem Strict.call_eq (early : Early) (scope : Scope) (limits : Limits) (function : Node)
    (values : List Value) :
    call early scope limits function values =
      (executeBlock early scope limits (Call.bodyOf function) (Store.ofBindings
        (((Call.parametersOf function).map fun parameter => parameter.1.id).zip values))).map
          Flow.result := by
  unfold call
  dsimp only
  cases executeBlock early scope limits (Call.bodyOf function) _ with
  | error error => rfl
  | ok flow => cases flow <;> rfl

/-- A run that follows a strict execution has its result, and fails when a loop there fails. -/
theorem Layout.Follows.result {limits : Limits} {session : Session}
    {ends : Store → List NodeId → Context → Prop} {strict : Except EvalError Strict.Flow}
    {run : Except EvalError Flow × Machine} (h : Follows limits session ends strict run) :
    (∀ value, strict.map Strict.Flow.result = .ok value → run.1.map Flow.result = .ok value) ∧
      (strict.map Strict.Flow.result = .error (Statement.overrun limits) →
        run.1.map Flow.result = .error (Statement.overrun limits)) := by
  cases strict with
  | error error =>
    refine ⟨fun _ same => (by cases same), fun same => ?_⟩
    cases same
    rw [show run.1 = _ from h rfl]
    rfl
  | ok flow =>
    refine ⟨fun value same => ?_, fun same => (by cases same)⟩
    cases flow with
    | next store =>
      obtain ⟨pending, after, ran, -⟩ := h
      cases same
      rw [ran]
      rfl
    | returned result =>
      cases same
      rw [show run.1 = .ok (.returned result) from h]
      rfl

namespace Store

variable {bindings : List (NodeId × Value)} {id : NodeId} {value : Value}

theorem mem_of_foldl_set (store : Store)
    (h : bindings.foldl (fun store binding => store.set binding.1 binding.2) store id =
      some value) : store id = some value ∨ id ∈ bindings.map Prod.fst := by
  induction bindings generalizing store with
  | nil => exact .inl h
  | cons binding bindings ih =>
    rcases ih _ h with before | later
    · by_cases same : id = binding.1
      · exact .inr (same ▸ List.mem_cons_self)
      · exact .inl ((set_of_ne store binding.2 same).symm.trans before)
    · exact .inr (List.mem_cons_of_mem _ later)

/-- The store of some bindings knows nothing else. -/
theorem mem_of_ofBindings (h : ofBindings bindings id = some value) :
    id ∈ bindings.map Prod.fst :=
  (mem_of_foldl_set _ h).resolve_left nofun

theorem value?_of_foldl_set (store : Store) (context : Context)
    (before : ∀ id value, store id = some value → context.value? id = some value)
    (h : bindings.foldl (fun store binding => store.set binding.1 binding.2) store id =
      some value) : (context.addValues bindings).value? id = some value := by
  unfold Context.addValues
  induction bindings generalizing store context with
  | nil => exact before id value h
  | cons binding bindings ih =>
    refine ih _ _ (fun other value known => ?_) h
    rw [Context.value?_addValue]
    by_cases bound : other = binding.1
    · subst bound
      rw [if_pos rfl]
      exact (set_self store binding.1 binding.2).symm.trans known
    · rw [if_neg bound]
      exact before other value ((set_of_ne store binding.2 bound).symm.trans known)

/-- A context in which the same bindings were made has the values of the store. -/
theorem value?_of_ofBindings (context : Context) (h : ofBindings bindings id = some value) :
    (context.addValues bindings).value? id = some value :=
  value?_of_foldl_set _ context (fun _ _ known => by cases known) h

end Store

namespace Plain

/-- The parameters of a function. -/
abbrev parameterIds (function : Node) : List NodeId :=
  (Call.parametersOf function).map fun parameter => parameter.1.id

variable {function : Node} {name : String} {generics parameters body : List Node}
  {returnType : Node}

/-- The nodes of a function: those before its body, and its body. -/
theorem descendants_eq
    (kind : function.kind = .functionDecl name generics parameters returnType body) :
    function.descendants.map Node.id =
      (generics.flatMap Node.identities ++ parameters.flatMap Node.identities ++
        returnType.identities) ++ (Call.bodyOf function).flatMap Node.identities := by
  have same : Call.bodyOf function = body := by rw [Call.bodyOf, kind]
  rw [Node.map_id_descendants, Node.children, kind, same]
  simp only [Kind.children, List.flatMap_append, List.flatMap_cons, List.append_assoc]

theorem mem_of_mem_parameterIds
    (kind : function.kind = .functionDecl name generics parameters returnType body) {id : NodeId}
    (mem : id ∈ parameterIds function) : id ∈ generics.flatMap Node.identities ++
      parameters.flatMap Node.identities ++ returnType.identities := by
  obtain ⟨parameter, inside, rfl⟩ := List.mem_map.1 mem
  unfold Call.parametersOf at inside
  rw [kind] at inside
  dsimp only at inside
  obtain ⟨node, below, rfl⟩ := List.mem_map.1 inside
  exact List.mem_append_left _ (List.mem_append_right _ (List.mem_flatMap.2
    ⟨node, below, Node.id_mem_identities node.self_mem_preorder⟩))

/-- Before a plain function is executed, none of its variables has a value. -/
theorem unset_of_body (distinct : function.Distinct)
    (kind : function.kind = .functionDecl name generics parameters returnType body)
    (values : List Value) {id : NodeId}
    (inside : id ∈ (Call.bodyOf function).flatMap Node.identities) :
    Store.ofBindings ((parameterIds function).zip values) id = none := by
  cases known : Store.ofBindings ((parameterIds function).zip values) id with
  | none => rfl
  | some value =>
    obtain ⟨pair, mem, rfl⟩ := List.mem_map.1 (Store.mem_of_ofBindings known)
    rw [Node.Distinct, Node.identities_eq, ← Node.map_id_descendants, descendants_eq kind]
      at distinct
    exact absurd inside ((List.nodup_append'.1 (List.nodup_cons.1 distinct).2).2.2
      (mem_of_mem_parameterIds kind (List.of_mem_zip mem).1))

/-- In a plain function without an assignment in front of the declaration of its target, it makes no
difference what a declaration does with a value. -/
theorem call_replaced_eq_kept {scope : Scope} (distinct : function.Distinct)
    (plain : Function scope function) (ordered : Strict.Ordered scope function.preorder)
    (limits : Limits) (values : List Value) :
    Strict.call .replaced scope limits function values =
      Strict.call .kept scope limits function values := by
  obtain ⟨name, generics, parameters, returnType, body, kind⟩ := plain.kind
  rw [Strict.call_eq, Strict.call_eq]
  refine congrArg (Except.map Strict.Flow.result)
    ((Strict.alike_body distinct ordered).same _ fun id mem => ?_)
  obtain ⟨statement, inside, declares⟩ := List.mem_flatMap.1 mem
  obtain ⟨node, below, rfl⟩ := exists_of_mem_declared declares
  exact unset_of_body distinct kind values
    (List.mem_flatMap.2 ⟨statement, inside, Node.id_mem_identities below⟩)

theorem subtree_of_plain {root : Node} (distinct : root.Distinct) {function? : Option Node}
    (scope : Scope) (plain : Function scope function)
    (place : (function?, function) ∈ reached none root) :
    (Plan.build root scope).subtree function.id = function.descendants.map Node.id := by
  obtain ⟨name, generics, parameters, returnType, body, kind⟩ := plain.kind
  obtain ⟨id, _⟩ := function
  cases kind
  exact Plan.subtree_function distinct scope place

end Plain

namespace Compilation

section Frame

variable {compilation : Compilation} (consistent : compilation.Consistent) {closure : Closure}
  {function? : Option Node}
  (place : (function?, closure.declaration) ∈ reached none compilation.root)
  (plain : Plain.Function compilation.scope closure.declaration)
  (intact : closure.Intact compilation closure.declaration)

include consistent place plain intact

/-- The frame binds the parameters of the declaration, and has none of the computed values below
it. -/
theorem frame_eq (values : List Value) :
    closure.frame compilation.evaluator.plan values =
      (closure.base.copy.forget (closure.declaration.descendants.map Node.id)).addValues
        ((Plain.parameterIds closure.declaration).zip values) := by
  rw [Closure.frame, intact.map_id_parameters, consistent.plan,
    Plain.subtree_of_plain consistent.distinct compilation.scope plain place]

/-- The context in which the body is executed owes the values of the parameters, and nothing of the
body was executed. -/
theorem starts_frame (values : List Value) :
    (compilation.layout closure.declaration
        (closure.frame compilation.evaluator.plan values)).Starts
      ((Call.bodyOf closure.declaration).flatMap Node.identities)
      ((Call.bodyOf closure.declaration).flatMap Node.looped)
      (Store.ofBindings ((Plain.parameterIds closure.declaration).zip values))
      (Plain.parameterIds closure.declaration) []
      (((Call.bodyOf closure.declaration).flatMap Node.identities).filterMap
        compilation.evaluator.plan.target?)
      (closure.frame compilation.evaluator.plan values) := by
  obtain ⟨name, generics, parameters, returnType, body, kind⟩ := plain.kind
  have nodes := Plain.descendants_eq kind
  have before {id : NodeId} (mem : id ∈ Plain.parameterIds closure.declaration) :=
    Plain.mem_of_mem_parameterIds kind mem
  have inner := consistent.distinct.inner (Inference.mem_preorder_of_mem_reached place)
  have distinct : (closure.declaration.descendants.map Node.id).Nodup := by
    rw [Node.Distinct, Node.identities_eq, ← Node.map_id_descendants] at inner
    exact (List.nodup_cons.1 inner).2
  rw [nodes] at distinct
  have disjoint := List.nodup_append'.1 distinct
  have bound := frame_eq consistent place plain intact values
  have rest := Context.addValues_rest
    (closure.base.copy.forget (closure.declaration.descendants.map Node.id))
    ((Plain.parameterIds closure.declaration).zip values)
  rw [← bound] at rest
  have kept {id : NodeId} {value : Value}
      (known : Store.ofBindings ((Plain.parameterIds closure.declaration).zip values) id =
        some value) :
      (closure.frame compilation.evaluator.plan values).value? id = some value := by
    rw [bound]
    exact Store.value?_of_ofBindings _ known
  have parameter {id : NodeId} {value : Value}
      (known : Store.ofBindings ((Plain.parameterIds closure.declaration).zip values) id =
        some value) : id ∈ Plain.parameterIds closure.declaration := by
    obtain ⟨pair, mem, same⟩ := List.mem_map.1 (Store.mem_of_ofBindings known)
    exact same ▸ (List.of_mem_zip mem).1
  refine
    { holds :=
        { laid := ⟨rfl, fun _ _ _ _ known => known⟩
          idle := fun id => ?_
          nested := List.Subset.refl _
          inside := fun id mem => ?_
          known := fun id value known => List.mem_append_left _ (parameter known)
          owed := fun id value known => .kept (kept known) known
          fresh := fun id mem unbound _ recipe => ?_
          assigned := fun id mem => ?_ }
      waits := ⟨fun _ mem => absurd mem List.not_mem_nil, fun id value known unknown => ?_⟩
      inside := ?_
      distinct := disjoint.2.1
      unused := fun id mem bound => disjoint.2.2 (before bound) mem
      targets := List.Subset.refl _
      unset := fun id mem => ?_ }
  · rw [rest.2.1]
    exact Std.TreeSet.not_mem_emptyc
  · change id ∈ closure.declaration.descendants.map Node.id
    rw [nodes]
    exact List.mem_append_left _ (before mem)
  · change ((closure.frame compilation.evaluator.plan values).thunk? id).isSome at recipe
    rw [Context.thunk?, rest.1] at recipe
    have unbound : id ∉ ((Plain.parameterIds closure.declaration).zip values).map Prod.fst := by
      intro mem
      obtain ⟨pair, mem, same⟩ := List.mem_map.1 mem
      exact unbound (same ▸ (List.of_mem_zip mem).1)
    rw [bound, Context.value?_addValues _ unbound, Context.value?_forget, if_pos ⟨mem, recipe⟩]
  · rw [rest.2.2] at mem
    exact absurd mem Std.TreeSet.not_mem_emptyc
  · rw [kept known] at unknown
    cases unknown
  · change _ ⊆ closure.declaration.descendants.map Node.id
    rw [nodes]
    exact List.subset_append_right _ _
  · obtain ⟨statement, inside, mem⟩ := List.mem_flatMap.1 mem
    exact Plain.unset_of_body inner kind values
      (List.mem_flatMap.2 ⟨statement, inside, statement.looped_subset mem⟩)

/-- Calls of a function value that is intact follow the strict execution of its declaration. -/
theorem callClosure_of_intact {arguments : Arguments} {values : List Value}
    (given : closure.Given arguments values) {budget : Nat}
    (enough : closure.declaration.preorder.length ≤ budget) (limits : Limits) (machine : Machine) :
    (∀ value, Strict.call .kept compilation.scope limits closure.declaration values = .ok value →
      (Call.callClosure compilation.evaluator.plan limits
        (compilation.evaluator.evaluateWithin budget) closure arguments machine).1 = .ok value) ∧
    (Strict.call .kept compilation.scope limits closure.declaration values =
        .error (Statement.overrun limits) →
      (Call.callClosure compilation.evaluator.plan limits
        (compilation.evaluator.evaluateWithin budget) closure arguments machine).1 =
          .error (Statement.overrun limits)) := by
  have frame := intact.frame_own consistent place plain compilation.evaluator.plan values
  have many : (compilation.layout closure.declaration
      (closure.frame compilation.evaluator.plan values)).nodes.length ≤ budget := by
    change (closure.declaration.descendants.map Node.id).length ≤ budget
    rw [List.length_map]
    rw [Node.preorder_eq, List.length_cons] at enough
    omega
  have followed : Layout.Follows limits machine.session _
      (Strict.executeBlock .kept compilation.scope limits (Call.bodyOf closure.declaration)
        (Store.ofBindings ((Plain.parameterIds closure.declaration).zip values)))
      (Statement.executeBlock compilation.evaluator.plan limits
        (compilation.evaluator.evaluateWithin budget) (Call.bodyOf closure.declaration) []
        ⟨closure.frame compilation.evaluator.plan values, machine.session⟩) :=
    Layout.simulates_executeBlock many (sheltered_of_body consistent place)
      (fun statement => wired_of_body consistent place plain frame) _ _ _ _ _ machine.session
      (starts_frame consistent place plain intact values)
  rw [Call.callClosure_fst, Call.receive_of_given given, Strict.call_eq]
  exact followed.result

end Frame

/-- A call of a function value, made of a plain function while the program was queried, returns what
the strict execution of the function returns, and overruns its loops where that does.  A variable
that was assigned before its declaration keeps its value; if no assignment stands in front of the
declaration of its target, this is the execution in which every initializer is evaluated. -/
theorem callClosure_follows_strict {options : Options} {root : Node} {focus : Option NodeId}
    {before after : Reports} {compilation : Compilation}
    (compiled : ofTree options root focus before = (.ok compilation, after)) (queries : List Query)
    {closure : Closure} (made : closure ∈ (compilation.after queries).session.closures)
    (plain : Plain.Function compilation.scope closure.declaration) {arguments : Arguments}
    {values : List Value} (given : closure.Given arguments values) {budget : Nat}
    (enough : closure.declaration.preorder.length ≤ budget) (limits : Limits)
    (machine : Machine) :
    (∀ value, Strict.call .kept compilation.scope limits closure.declaration values = .ok value →
      (Call.callClosure compilation.evaluator.plan limits
        (compilation.evaluator.evaluateWithin budget) closure arguments machine).1 = .ok value) ∧
    (Strict.call .kept compilation.scope limits closure.declaration values =
        .error (Statement.overrun limits) →
      (Call.callClosure compilation.evaluator.plan limits
        (compilation.evaluator.evaluateWithin budget) closure arguments machine).1 =
          .error (Statement.overrun limits)) ∧
    (Strict.Ordered compilation.scope closure.declaration.preorder →
      Strict.call .replaced compilation.scope limits closure.declaration values =
        Strict.call .kept compilation.scope limits closure.declaration values) := by
  have consistent := consistent_of_ofTree compiled
  have intact := (intact_after consistent plain queries).2 closure made
  obtain ⟨function?, place⟩ := intact.place
  obtain ⟨returns, overruns⟩ :=
    callClosure_of_intact consistent place plain intact given enough limits machine
  have distinct := consistent.distinct.inner (Inference.mem_preorder_of_mem_reached place)
  exact ⟨returns, overruns, fun ordered =>
    Plain.call_replaced_eq_kept distinct plain ordered limits values⟩

section Programs

/-- The program of one function. -/
abbrev programOf (function : Node) : Node :=
  .mk 0 (.program [function])

/-- Whether the first query for a function makes a value of it with some number of parameters, and
references lead to declarations. -/
def isMade (function : Node) (parameters : Nat) (references : List NodeId)
    (declarations : List (Option NodeId)) : Bool :=
  ((ofTree {} (programOf function) none {}).1.toOption.bind fun compilation =>
    (compilation.after [.evaluate function.id]).session.closures[0]?.map fun closure =>
      closure.declaration.id == function.id && closure.parameters.length == parameters &&
        references.map compilation.scope.resolve == declarations) == some true

theorem exists_closure {function : Node} {parameters : Nat} {references : List NodeId}
    {declarations : List (Option NodeId)}
    (h : isMade function parameters references declarations = true) :
    ∃ compilation after closure, ofTree {} (programOf function) none {} = (.ok compilation, after) ∧
      closure ∈ (compilation.after [.evaluate function.id]).session.closures ∧
      closure.declaration = function ∧ closure.parameters.length = parameters ∧
      references.map compilation.scope.resolve = declarations := by
  obtain ⟨compilation, compiled, found⟩ := compiled_of_toOption (beq_iff_eq.1 h)
  obtain ⟨closure, first, holds⟩ := Option.map_eq_some_iff.1 found
  simp only [Bool.and_eq_true, beq_iff_eq] at holds
  obtain ⟨⟨same, count⟩, resolved⟩ := holds
  have made := Array.mem_of_getElem? first
  have consistent := consistent_of_ofTree compiled
  obtain ⟨_, place⟩ := ((faithful_after consistent _).2 closure made).place
  have inside : function ∈ compilation.root.preorder := by
    rw [root_of_ofTree compiled]
    exact Node.mem_preorder_of_mem_children List.mem_cons_self function.self_mem_preorder
  exact ⟨compilation, _, closure, compiled, made, Node.eq_of_id_eq consistent.distinct
    (Inference.mem_preorder_of_mem_reached place) inside same, count, resolved⟩

end Programs

/-- A function that keeps its parameter in a variable, then assigns it until it no longer holds. -/
def keptFlag : Node :=
  .mk 1 (.functionDecl "f" [] [.mk 2 (.parameter "flag" (.mk 3 (.typeName "Boolean" [])) none)]
    (.mk 4 (.typeName "Boolean" []))
    [.mk 5 (.variableDecl "before" none (some (.mk 6 (.identifier "flag")))),
      .mk 7 (.loop (.mk 8 (.identifier "flag"))
        [.mk 9 (.expressionStatement (.mk 10 (.assignment (.mk 11 (.identifier "flag"))
          (.mk 12 (.literal (.boolean false))))))]),
      .mk 13 (.returnStatement (some (.mk 14 (.identifier "before"))))])

section KeptFlag

variable {scope : Scope}
  (resolved : [6, 8, 11, 14].map scope.resolve = [some 2, some 2, some 2, some 5])

include resolved

theorem keptFlag_plain : Plain.Function scope keptFlag where
  kind := ⟨_, _, _, _, _, rfl⟩
  parameters parameter mem := by
    rw [List.mem_singleton.1 mem]
    rfl
  body statement mem := by
    simp only [List.map_cons, List.map_nil, List.cons.injEq] at resolved
    obtain ⟨kept, tested, target, returned, -⟩ := resolved
    have own : Plain.ownDeclarations keptFlag = [2, 5] := by
      simp [Plain.ownDeclarations, Call.parametersOf, Call.bodyOf, Plain.declared, keptFlag]
    have flag : 2 ∈ Plain.ownDeclarations keptFlag := by rw [own]; decide
    have before : 5 ∈ Plain.ownDeclarations keptFlag := by rw [own]; decide
    have mem : statement ∈ [_, _, _] := mem
    simp only [List.mem_cons, List.not_mem_nil, or_false] at mem
    rcases mem with rfl | rfl | rfl
    · exact .declaration (.identifier kept flag)
    · refine .loop (.identifier tested flag) fun statement mem => ?_
      rw [List.mem_singleton.1 mem]
      exact .assignment target flag .literal
    · exact .returnValue (.identifier returned before)

/-- One turn of the loop is enough. -/
theorem keptFlag_call {limits : Limits} {turns : Nat}
    (enough : limits.iterations.getD limits.patience = turns + 1) :
    Strict.call .kept scope limits keptFlag [.boolean true] = .ok (.boolean true) := by
  simp only [List.map_cons, List.map_nil, List.cons.injEq] at resolved
  obtain ⟨kept, tested, target, returned, -⟩ := resolved
  cases turns <;> simp [Strict.call, Call.parametersOf, Call.bodyOf, keptFlag, Strict.executeBlock,
    Strict.execute, Strict.evaluate, Strict.repeatLoop, Strict.truth, Strict.Early.initializes,
    Store.ofBindings, Store.set, Store.without, Node.descendants, Node.preorder_eq, Node.children,
    Kind.children, Value.boolean, Value.boolean?, kept, tested, target, returned, enough, bind,
    Except.bind, pure, Except.pure, Registration.literalValue]

end KeptFlag

/-- The variable has the value that the parameter had before the loop. -/
theorem callClosure_follows_strict_keptFlag :
    ∃ compilation after closure,
      ofTree {} (programOf keptFlag) none {} = (.ok compilation, after) ∧
      closure ∈ (compilation.after [.evaluate 1]).session.closures ∧
      Plain.Function compilation.scope closure.declaration ∧
      closure.Given [(none, some (.boolean true))] [.boolean true] ∧
      closure.declaration.preorder.length ≤ 14 ∧
      Strict.call .kept compilation.scope {} closure.declaration [.boolean true] =
        .ok (.boolean true) ∧
      ∀ machine, (Call.callClosure compilation.evaluator.plan {}
        (compilation.evaluator.evaluateWithin 14) closure [(none, some (.boolean true))]
          machine).1 = .ok (.boolean true) := by
  obtain ⟨compilation, after, closure, compiled, made, declaration, parameters, resolved⟩ :=
    exists_closure (show isMade keptFlag 1 [6, 8, 11, 14] [some 2, some 2, some 2, some 5] by
      decide +kernel)
  have plain := keptFlag_plain resolved
  have turns : (({} : Limits).iterations.getD ({} : Limits).patience) = (1 <<< 64 - 1) + 1 := by
    decide
  have strict := keptFlag_call resolved turns
  rw [← declaration] at plain strict
  have given : closure.Given ([Value.boolean true].map fun value => (none, some value))
      [Value.boolean true] := Closure.given_positional parameters
  have enough : closure.declaration.preorder.length ≤ 14 := by
    rw [declaration]
    decide +kernel
  exact ⟨compilation, after, closure, compiled, made, plain, given, enough, strict, fun machine =>
    (callClosure_follows_strict compiled [.evaluate 1] made plain given enough {} machine).1 _
      strict⟩

/-- A function that assigns its variable by its path in front of the declaration. -/
def assignedAhead : Node :=
  .mk 1 (.functionDecl "f" [] [] (.mk 2 (.typeName "Boolean" []))
    [.mk 3 (.expressionStatement (.mk 4 (.assignment (.mk 5 (.identifier "f.x"))
        (.mk 6 (.literal (.boolean true)))))),
      .mk 7 (.variableDecl "x" none (some (.mk 8 (.literal (.boolean false))))),
      .mk 9 (.returnStatement (some (.mk 10 (.identifier "x"))))])

section AssignedAhead

variable {scope : Scope} (resolved : [5, 10].map scope.resolve = [some 7, some 7])

include resolved

theorem assignedAhead_plain : Plain.Function scope assignedAhead where
  kind := ⟨_, _, _, _, _, rfl⟩
  parameters := nofun
  body statement mem := by
    simp only [List.map_cons, List.map_nil, List.cons.injEq] at resolved
    obtain ⟨target, returned, -⟩ := resolved
    have own : Plain.ownDeclarations assignedAhead = [7] := by
      simp [Plain.ownDeclarations, Call.parametersOf, Call.bodyOf, Plain.declared, assignedAhead]
    have declared : 7 ∈ Plain.ownDeclarations assignedAhead := by rw [own]; decide
    have mem : statement ∈ [_, _, _] := mem
    simp only [List.mem_cons, List.not_mem_nil, or_false] at mem
    rcases mem with rfl | rfl | rfl
    · exact .assignment target declared .literal
    · exact .declaration .literal
    · exact .returnValue (.identifier returned declared)

/-- Only a declaration that evaluates its initializer in any case replaces the value. -/
theorem assignedAhead_call (early : Strict.Early) :
    Strict.call early scope {} assignedAhead [] =
      .ok (.boolean (early = .kept)) := by
  simp only [List.map_cons, List.map_nil, List.cons.injEq] at resolved
  obtain ⟨target, returned, -⟩ := resolved
  cases early <;> simp [Strict.call, Call.parametersOf, Call.bodyOf, assignedAhead,
    Strict.executeBlock, Strict.execute, Strict.evaluate, Strict.Early.initializes,
    Store.ofBindings, Store.set, target, returned, bind, Except.bind, pure, Except.pure,
    Registration.literalValue]

end AssignedAhead

/-- The initializer of a variable that has a value already is not evaluated: where it would replace
the value, the function would return something else than its call does. -/
theorem assignedAhead_keeps :
    ∃ compilation after closure,
      ofTree {} (programOf assignedAhead) none {} = (.ok compilation, after) ∧
      closure ∈ (compilation.after [.evaluate 1]).session.closures ∧
      Plain.Function compilation.scope closure.declaration ∧ closure.Given [] [] ∧
      closure.declaration.preorder.length ≤ 10 ∧
      Strict.call .replaced compilation.scope {} closure.declaration [] = .ok (.boolean false) ∧
      ∀ machine, (Call.callClosure compilation.evaluator.plan {}
        (compilation.evaluator.evaluateWithin 10) closure [] machine).1 = .ok (.boolean true) := by
  obtain ⟨compilation, after, closure, compiled, made, declaration, parameters, resolved⟩ :=
    exists_closure (show isMade assignedAhead 0 [5, 10] [some 7, some 7] by decide +kernel)
  have plain := assignedAhead_plain resolved
  have replaced := assignedAhead_call resolved .replaced
  have kept := assignedAhead_call resolved .kept
  rw [← declaration] at plain replaced kept
  have given : closure.Given (([] : List Value).map fun value => (none, some value)) [] :=
    Closure.given_positional parameters
  have enough : closure.declaration.preorder.length ≤ 10 := by
    rw [declaration]
    decide +kernel
  have consistent := consistent_of_ofTree compiled
  have intact := (intact_after consistent plain [.evaluate 1]).2 closure made
  obtain ⟨function?, place⟩ := intact.place
  exact ⟨compilation, after, closure, compiled, made, plain, given, enough, replaced,
    fun machine => (callClosure_of_intact consistent place plain intact given enough {} machine).1 _
      kept⟩

end Compilation

end DeclLang
