import DeclLang.Proofs.SoundCalls

/-!
# Recipes that respect types

**Input.**  A checked program, evaluation that respects types, and a node with the recipe that it is
registered with.

**Results.**  `Call.follow_sound`: what the recipe makes of values that can stand at the nodes it
depends on can stand at the node itself.  There is one lemma for every recipe that does more than
pass a value on, and one case for every way in which nodes are registered.
-/

namespace DeclLang

open Inference (reached Operates IsReference)

namespace Call

variable {compilation : Compilation} (checked : compilation.Checked) {limits : Limits}
  {evaluate : NodeId → Eval Value} (evaluates : compilation.Evaluates evaluate)
  {made : Array Closure}

include checked

section Functions

/-- The default of a parameter fits its type. -/
theorem defaults_fit {declaration : Node} {parameters : List Node}
    (among : ∀ parameter ∈ parameters, parameter.IsParameter ∧
      (some declaration, parameter) ∈ reached none compilation.root) {values : List Value}
    (admits : List.Forall₂ (compilation.Admits made)
      (parameters.filterMap Registration.defaultOf?) values) :
    ∀ parameter ∈ distribute (parameters.map fun parameter =>
        (parameter, (parameter.parameterSlot?.map Slot.hasDefault).getD false)) values,
      ∀ value, parameter.2 = some value →
        ∀ type, compilation.typing.declarations[parameter.1.id]? = some type →
          compilation.Fits made value (compilation.erased type) := by
  induction parameters generalizing values with
  | nil => exact fun _ mem => absurd mem List.not_mem_nil
  | cons parameter parameters ih =>
    obtain ⟨⟨name, ascription, default?, kind⟩, place⟩ := among parameter List.mem_cons_self
    have others := fun other mem => among other (List.mem_cons_of_mem _ mem)
    have slot : (parameter.parameterSlot?.map Slot.hasDefault).getD false = default?.isSome := by
      rw [Node.parameterSlot?, kind]
      rfl
    have own : Registration.defaultOf? parameter = default?.map Node.id := by
      rw [Registration.defaultOf?, kind]
    rw [List.map_cons, slot]
    rw [List.filterMap_cons, own] at admits
    cases default? with
    | none =>
      refine List.forall_mem_cons.2 ⟨fun value same => ?_, ih others admits⟩
      cases same
    | some default =>
      cases admits with
      | cons first rest =>
        refine List.forall_mem_cons.2 ⟨fun value same type stored => ?_, ih others rest⟩
        cases same
        have typed : Inference.isTyped parameter = true := by rw [Inference.isTyped, kind]
        have operand : default ∈ parameter.operands := by
          rw [Node.operands, kind]
          exact List.mem_singleton_self default
        obtain ⟨_, known, rule⟩ := checked.rules _ place typed
        rw [Judgment.Rule, kind] at rule
        obtain ⟨type', ⟨stored', -⟩, -, initialized⟩ := rule
        cases stored.symm.trans stored'
        exact first.fits checked place operand (initialized default rfl)

variable {function? : Option Node} {declaration : Node}
  (mem : (function?, declaration) ∈ reached none compilation.root)

include mem

/-- A function with a recipe is not a native one. -/
theorem native?_of_thunk? (function : declaration.IsFunction) {thunk : Thunk}
    (found : compilation.context.thunk? declaration.id = some thunk) :
    compilation.native? declaration = none := by
  obtain ⟨id, kind⟩ := declaration
  obtain ⟨name, generics, parameters, returnType, body, rfl⟩ := function
  rw [checked.consistent.context] at found
  obtain ⟨before, empty, same⟩ := Registration.entry_ofProgram checked.consistent.distinct
    compilation.scope compilation.typing compilation.solution mem
  have known : compilation.context.value? id = none := by
    rw [checked.consistent.context]
    rcases Registration.registerFunction_cases
      { scope := compilation.scope, typing := compilation.typing, solution := compilation.solution }
      (.mk id (.functionDecl name generics parameters returnType body)) name parameters body before
      with ⟨path, registered⟩ | ⟨path, registered⟩
    · have entry := same.trans ((congrArg (fun result => Registration.entry id result.2)
        registered).trans (Registration.entry_addValue_self empty _))
      cases found.symm.trans (congrArg Prod.fst entry)
    · have entry := same.trans ((congrArg (fun result => Registration.entry id result.2)
        registered).trans (Registration.entry_addThunk_self empty _ _))
      exact congrArg Prod.snd entry
  rw [Compilation.native?, Node.id_mk, known]
  rfl

omit mem in
/-- A function value is made in the current context, with defaults that fit. -/
theorem makeClosure_sound {id : NodeId} {name : String} {generics parameters body : List Node}
    {returnType : Node}
    (mem : (function?, .mk id (.functionDecl name generics parameters returnType body)) ∈
      reached none compilation.root)
    (foreign : compilation.native?
      (.mk id (.functionDecl name generics parameters returnType body)) = none)
    {values : List Value} (admits : List.Forall₂ (compilation.Admits made)
      (parameters.filterMap Registration.defaultOf?) values) (path : String) (type : StaticType) :
    compilation.Sound made (makeClosure path type
      (.mk id (.functionDecl name generics parameters returnType body)) values)
        fun later value => compilation.Admits later id value := by
  intro machine typed grown
  let declaration := Node.mk id (.functionDecl name generics parameters returnType body)
  let before := machine.session.closures
  let closure : Closure :=
    { declaration, parameters := distribute (parametersOf declaration) values,
      base := machine.context.copy }
  have ran : makeClosure path type declaration values machine =
      (.ok (.mk type (.closure path id before.size)),
        { machine with session := { machine.session with closures := before.push closure } }) := rfl
  rw [ran]
  have inside := Inference.mem_preorder_of_mem_reached mem
  have pushed : Grown before (before.push closure) := .push before closure
  have enough : ((parametersOf declaration).filter Prod.snd).length ≤ values.length := by
    rw [length_filter_parametersOf, admits.length_eq]
  have among : ∀ parameter ∈ parameters, parameter.IsParameter ∧
      (some declaration, parameter) ∈ reached none compilation.root := fun parameter among =>
    ⟨checked.isParameter inside _ (List.mem_map_of_mem among),
      Inference.mem_reached_of_visited mem
        (List.mem_append_left _ (List.mem_append_right _ among))⟩
  have own : closure.Typed compilation (before.push closure) :=
    { base := typed.context.copy.grow pushed
      function := ⟨_, _, _, _, _, rfl⟩
      place := ⟨function?, mem⟩
      foreign
      parameters := map_isSome_distribute _ enough
      defaults := defaults_fit checked among
        (admits.imp fun _ _ h => h.grow (grown.trans pushed)) }
  refine ⟨⟨typed.context.grow pushed, fun other among => ?_⟩, ⟨pushed, rfl⟩, ?_⟩
  · rcases Array.mem_push.1 among with earlier | rfl
    · exact (typed.closures other earlier).grow pushed
    · exact own
  · exact Compilation.admits_polymorphic checked inside rfl
      (.closure ⟨_, _, _, _, _, rfl⟩ foreign Array.getElem?_push_size rfl)

end Functions

section Operators

variable {operator : Operator} {operand result : StaticType}
  (operates : Operates operator operand result)

include operates

omit checked in
/-- Operands that fit the type that an operator takes give what it gives. -/
theorem operation_sound (strict : Strict.decisive? operator = none) (id : NodeId)
    {left right : Value} (first : compilation.Fits made left operand)
    (second : compilation.Fits made right operand) :
    compilation.Sound made (follow compilation.evaluator.plan limits evaluate id
      (.operation operator) [left, right]) fun later value => compilation.Fits later value result :=
  .ofExcept fun _ grown => operator.apply_fits operates strict (first.grow grown) (second.grow grown)

omit checked in
/-- An operator that may do without its right operand evaluates conditions. -/
theorem shortCircuit_sound {decisive : Bool} (decides : Strict.decisive? operator = some decisive)
    (id : NodeId) {left right : NodeId}
    (first : ∀ made, compilation.Sound made (evaluate left) fun later value =>
      compilation.Fits later value operand)
    (second : ∀ made, compilation.Sound made (evaluate right) fun later value =>
      compilation.Fits later value operand) :
    compilation.Sound made (follow compilation.evaluator.plan limits evaluate id
      (.shortCircuit decisive left right) []) fun later value =>
        compilation.Fits later value result := by
  obtain ⟨rfl, rfl⟩ := Operator.booleans_of_decisive operates decides
  have truth (made : Array Closure) (b : Bool) : compilation.Sound made (pure (.boolean b))
      fun later value => compilation.Fits later value .boolean := .pure fun _ _ => .boolean b
  refine (first made).bind fun later value _ fits => ?_
  refine (Compilation.sound_condition fits).bind fun later holds _ _ => ?_
  split
  · exact truth later holds
  · exact (second later).bind fun last value _ fits =>
      (Compilation.sound_condition fits).bind fun _ _ _ _ => truth _ _

end Operators

section Recipes

variable {place : Option Node × Node} (mem : place ∈ reached none compilation.root)

include mem evaluates

/-- An operator makes what can stand at its node of what can stand at its operands. -/
theorem operatorThunk_sound {operator : Operator} {left right : Node}
    (kind : place.2.kind = .binary operator left right) {values : List Value}
    (admits : List.Forall₂ (compilation.Admits made)
      (operatorThunk operator left.id right.id).dependencies values) :
    compilation.Sound made
      (follow compilation.evaluator.plan limits evaluate place.2.id
        (operatorThunk operator left.id right.id).recipe values)
        fun later value => compilation.Admits later place.2.id value := by
  obtain ⟨function?, ⟨id, _⟩⟩ := place
  cases kind
  obtain ⟨own, known, operand, result, operates, same, hasLeft, hasRight⟩ :=
    checked.rules _ mem rfl
  have same : compilation.erased own = compilation.erased result := same
  have operates : Operates operator (compilation.erased operand) (compilation.erased result) :=
    Compilation.operates_erased operates
  have lefts {made : Array Closure} {value : Value} (h : compilation.Admits made left.id value) :=
    h.fits checked mem List.mem_cons_self hasLeft
  have rights {made : Array Closure} {value : Value}
      (h : compilation.Admits made right.id value) :=
    h.fits checked mem (List.mem_cons_of_mem _ List.mem_cons_self) hasRight
  have stands {later : Array Closure} {value : Value}
      (fits : compilation.Fits later value (compilation.erased result)) :
      compilation.Admits later id value :=
    Compilation.admits_expression checked mem rfl (Node.not_isReference_mk rfl) known (same ▸ fits)
  unfold operatorThunk at admits ⊢
  cases decides : Strict.decisive? operator with
  | none =>
    rw [decides] at admits
    cases admits with
    | cons first rest =>
      cases rest with
      | cons second none =>
        cases none
        exact (operation_sound operates decides id (lefts first) (rights second)).imp
          fun _ _ _ => stands
  | some decisive =>
    rw [decides] at admits
    cases admits
    exact (shortCircuit_sound operates decides id
      (fun made => (evaluates made left.id).imp fun _ _ _ => lefts)
      (fun made => (evaluates made right.id).imp fun _ _ _ => rights)).imp
        fun _ _ _ => stands

/-- A recipe makes what can stand at its node of what can stand at the nodes it depends on. -/
theorem follow_sound {thunk : Thunk}
    (registers : Registration.Registers compilation.registration place.2 thunk)
    (found : compilation.context.thunk? place.2.id = some thunk) {values : List Value}
    (admits : List.Forall₂ (compilation.Admits made) thunk.dependencies values) :
    compilation.Sound made
      (follow compilation.evaluator.plan limits evaluate place.2.id thunk.recipe values)
        fun later value => compilation.Admits later place.2.id value := by
  have inside := Inference.mem_preorder_of_mem_reached mem
  have typed (isTyped : Inference.isTyped place.2 = true) := checked.rules place mem isTyped
  obtain ⟨function?, node⟩ := place
  cases registers with
  | function =>
    have foreign := native?_of_thunk? checked mem ⟨_, _, _, _, _, rfl⟩ found
    exact makeClosure_sound checked mem foreign admits _ _
  | record =>
    exact .pure fun _ _ => Compilation.admits_polymorphic checked inside rfl (.recordConstructor rfl)
  | @«variable» id name type? initializer =>
    obtain ⟨_, -, type, ⟨stored, -⟩, -, initialized⟩ := typed rfl
    cases admits with
    | cons first rest =>
      have fits := first.fits checked mem List.mem_cons_self (initialized initializer rfl)
      refine .pure fun later grown => Compilation.admits_held checked inside rfl
        fun other stored' => ?_
      cases stored.symm.trans stored'
      exact fits.grow grown
  | identifier resolved =>
    cases admits with
    | cons first rest =>
      exact .pure fun _ grown =>
        (Compilation.admits_reference checked mem (.inl ⟨_, rfl⟩) resolved first).grow grown
  | member resolved =>
    cases admits with
    | cons first rest =>
      exact .pure fun _ grown =>
        (Compilation.admits_reference checked mem (.inr ⟨_, _, rfl⟩) resolved first).grow grown
  | call labeled =>
    obtain ⟨own, known, -⟩ := typed rfl
    subst labeled
    cases admits with
    | cons first rest =>
      have written := Compilation.written_distribute checked mem
        (fun argument among => List.mem_cons_of_mem _ among) rest
      exact (callValue_sound checked evaluates mem rfl known first written _ _).imp
        fun _ _ _ fits =>
          Compilation.admits_expression checked mem rfl (Node.not_isReference_mk rfl) known fits
  | binary => exact operatorThunk_sound checked evaluates mem rfl admits
  | assignment =>
    obtain ⟨own, known, same, -⟩ := typed rfl
    have same : compilation.erased own = compilation.erased .unit := same
    cases admits with
    | cons first rest =>
      exact .pure fun _ _ =>
        Compilation.admits_expression checked mem rfl (Node.not_isReference_mk rfl) known
          (.any (same ▸ Compilation.isOpaque_erased_unit))
  | @array id elements =>
    obtain ⟨own, known, element, same, each⟩ := typed rfl
    have same : compilation.erased own = .array (compilation.erased element) :=
      Eq.trans same (Compilation.erased_constant "Array" [element])
    rw [List.forall₂_map_left_iff] at admits
    have fit : ∀ item ∈ values, compilation.Fits made item (compilation.erased element) :=
      ((List.forall₂_and_left _ _).1 (forall₂_imp_of_mem admits fun node among value h =>
        ⟨h.fits checked mem among (each node among), trivial⟩).flip).1
    exact .pure fun later grown =>
      Compilation.admits_expression checked mem rfl (Node.not_isReference_mk rfl) known
        (same ▸ .array fun item among => (fit item among).grow grown)

end Recipes

end Call

end DeclLang
