import DeclLang.Proofs.SolvedTypes

/-!
# The types of sheets

A sheet is a program of variables whose initializers are formulas: literals, arrays, identifiers and
binary operators.

**Input.**  A sheet with distinct identities.

**Invariant.**  `Typing.LabelFree`: no type that inference came by has labels.  Only functions,
records and enumeration cases have labels to offer, and a sheet has none.

**Results.**
* `Typing.labelFree_infer`: no type of a sheet has labels.
* `Compilation.conforms`: so the solved types of a sheet without type errors fit together exactly,
  not just up to labels.
-/

namespace DeclLang

/-- The nodes that sheets are made of: programs, variables, annotations and formulas. -/
def Node.isSheetPart (node : Node) : Bool :=
  match node.kind with
  | .program _ | .variableDecl .. | .typeName .. | .functionType .. => true
  | .literal _ | .array _ | .identifier _ | .binary .. => true
  | _ => false

/-- The tree is a sheet: it is made of variables, their annotations and formulas. -/
def Node.IsSheet (root : Node) : Prop :=
  ∀ node ∈ root.preorder, node.isSheetPart = true

instance (root : Node) : Decidable root.IsSheet :=
  inferInstanceAs (Decidable (∀ node ∈ root.preorder, node.isSheetPart = true))

/-- No type in the typing has labels. -/
structure Typing.LabelFree (typing : Typing) : Prop where
  constraints : ∀ constraint ∈ typing.constraints, constraint.LabelFree
  nodes : ∀ (id : NodeId) (type : StaticType), typing.nodes[id]? = some type → type.LabelFree
  declarations : ∀ (id : NodeId) (type : StaticType), typing.declarations[id]? = some type →
    type.LabelFree

namespace Inference

/-- No type that inference knows of has labels. -/
structure State.LabelFree (state : State) : Prop where
  typing : state.typing.LabelFree
  demanded : ∀ (id : NodeId) (type : StaticType), state.demanded[id]? = some type → type.LabelFree

/-- The step brings in no labels; what it gives has a property. -/
def BringsFree {α : Type} (step : Infer α) (gives : α → Prop) : Prop :=
  ∀ state : State, state.LabelFree → (step state).2.LabelFree ∧ gives (step state).1

section Steps

variable {α β : Type} {gives : α → Prop} {givesNext : β → Prop}

theorem bringsFree_pure {a : α} (has : gives a) : BringsFree (pure a : Infer α) gives :=
  brings_pure has

theorem bringsFree_get : BringsFree (get : Infer State) State.LabelFree :=
  fun _ free => ⟨free, free⟩

theorem bringsFree_modify {f : State → State}
    (keeps : ∀ state, state.LabelFree → (f state).LabelFree) :
    BringsFree (modify f : Infer PUnit) fun _ => True :=
  fun state free => ⟨keeps state free, trivial⟩

theorem BringsFree.bind {step : Infer α} {rest : α → Infer β} (first : BringsFree step gives)
    (next : ∀ a, gives a → BringsFree (rest a) givesNext) : BringsFree (step >>= rest) givesNext :=
  Brings.bind first next

theorem bringsFree_mapM {items : List α} {step : α → Infer β}
    (each : ∀ a ∈ items, BringsFree (step a) givesNext) :
    BringsFree (items.mapM step) fun results => ∀ b ∈ results, givesNext b :=
  brings_mapM each

theorem bringsFree_forIn {items : List α} {body : α → PUnit → Infer (ForInStep PUnit)}
    (each : ∀ a ∈ items, BringsFree (body a PUnit.unit) fun _ => True) :
    BringsFree (forIn items PUnit.unit body) fun _ => True :=
  brings_forIn each

theorem bringsFree_fresh : BringsFree fresh StaticType.LabelFree :=
  fun _ free => ⟨⟨⟨free.typing.constraints, free.typing.nodes, free.typing.declarations⟩,
    free.demanded⟩, StaticType.labelFree_variable⟩

theorem bringsFree_constrain {head tail : StaticType} (first : head.LabelFree)
    (second : tail.LabelFree) (origin : NodeId) :
    BringsFree (constrain head tail origin) fun _ => True := by
  refine bringsFree_modify fun state free => ⟨⟨fun constraint mem => ?_, free.typing.nodes,
    free.typing.declarations⟩, free.demanded⟩
  rcases Array.mem_push.1 mem with before | rfl
  · exact free.typing.constraints constraint before
  · exact ⟨first, second⟩

/-- A table into which a type without labels is put has only such types if it had before. -/
theorem labelFree_insert {table : Std.TreeMap NodeId StaticType}
    (free : ∀ (id : NodeId) (type : StaticType), table[id]? = some type → type.LabelFree)
    (id : NodeId) {type : StaticType} (typeFree : type.LabelFree) :
    ∀ (other : NodeId) (found : StaticType), (table.insert id type)[other]? = some found →
      found.LabelFree := by
  intro other found known
  rw [Std.TreeMap.getElem?_insert] at known
  split at known
  · cases known
    exact typeFree
  · exact free other found known

theorem bringsFree_setNodeType (id : NodeId) {type : StaticType} (typeFree : type.LabelFree) :
    BringsFree (setNodeType id type) fun _ => True :=
  bringsFree_modify fun _ free => ⟨⟨free.typing.constraints,
    labelFree_insert free.typing.nodes id typeFree, free.typing.declarations⟩, free.demanded⟩

theorem bringsFree_setDeclarationType (id : NodeId) {type : StaticType}
    (typeFree : type.LabelFree) : BringsFree (setDeclarationType id type) fun _ => True :=
  bringsFree_modify fun _ free => ⟨⟨free.typing.constraints, free.typing.nodes,
    labelFree_insert free.typing.declarations id typeFree⟩, free.demanded⟩

theorem bringsFree_erase (id : NodeId) :
    BringsFree (modify fun state => { state with demanded := state.demanded.erase id })
      fun _ => True := by
  refine bringsFree_modify fun state free => ⟨free.typing, fun other type known =>
    free.demanded other type ?_⟩
  rw [Std.TreeMap.getElem?_erase] at known
  split at known
  · cases known
  · exact known

theorem bringsFree_typeOf (node : Node) : BringsFree (typeOf node) StaticType.LabelFree := by
  refine bringsFree_get.bind fun state free => ?_
  split
  · rename_i type known
    exact bringsFree_pure (free.typing.nodes _ type known)
  · exact bringsFree_fresh.bind fun type typeFree =>
      (bringsFree_setNodeType node.id typeFree).bind fun _ _ => bringsFree_pure typeFree

variable (environment : Environment)

/-- Annotations have no labels to offer. -/
theorem bringsFree_annotationType (node : Node) :
    BringsFree (annotationType environment node) StaticType.LabelFree := by
  induction node using Node.children_induction with
  | step node ih =>
    obtain ⟨id, kind⟩ := node
    rw [annotationType_eq]
    cases kind with
    | typeName name arguments =>
      refine (bringsFree_mapM ih).bind fun parameters all => ?_
      split
      · exact bringsFree_pure StaticType.labelFree_generic
      · exact bringsFree_pure (StaticType.labelFree_constant_iff.2 all)
      · exact bringsFree_pure (StaticType.labelFree_constant_iff.2 all)
      · exact bringsFree_fresh
      · exact bringsFree_pure (StaticType.labelFree_constant_iff.2 all)
    | functionType arguments result =>
      have slots : BringsFree (arguments.mapM fun argument => do
          return ((none : Option String), ← annotationType environment argument))
          fun slots => ∀ slot ∈ slots, slot.1 = none ∧ slot.2.LabelFree :=
        bringsFree_mapM fun argument mem => (ih argument (List.mem_append_left _ mem)).bind
          fun type typeFree => bringsFree_pure ⟨rfl, typeFree⟩
      refine slots.bind fun parameters all => ?_
      refine (ih result (List.mem_append_right _ (List.mem_singleton_self _))).bind
        fun type typeFree => ?_
      exact bringsFree_pure (StaticType.labelFree_function_iff.2 ⟨all, typeFree⟩)
    | _ => exact bringsFree_fresh

variable {environment}

/-- A part of a sheet is declared without labels. -/
theorem bringsFree_writtenType {node : Node} (part : node.isSheetPart = true) (steps : Nat) :
    BringsFree (writtenType environment steps node) StaticType.LabelFree := by
  obtain ⟨id, kind⟩ := node
  cases kind with
  | variableDecl name ascription? =>
    cases ascription? with
    | some ascription => exact bringsFree_annotationType environment ascription
    | none => exact bringsFree_fresh
  | program | literal | array | identifier | binary | typeName | functionType =>
    exact bringsFree_fresh
  | _ => cases part

theorem bringsFree_typeOfDeclaration {node : Node} (part : node.isSheetPart = true) :
    BringsFree (typeOfDeclaration environment node) StaticType.LabelFree := by
  unfold typeOfDeclaration
  rw [declarationType_succ]
  refine bringsFree_get.bind fun state free => ?_
  split
  · rename_i type known
    exact bringsFree_pure (free.typing.declarations _ type known)
  · exact (bringsFree_writtenType part _).bind fun type typeFree =>
      (bringsFree_setDeclarationType node.id typeFree).bind fun _ _ => bringsFree_pure typeFree

theorem bringsFree_referenceType {id : NodeId}
    (part : ∀ declaration, environment.declaration? id = some declaration →
      declaration.isSheetPart = true) :
    BringsFree (referenceType environment id) StaticType.LabelFree := by
  unfold referenceType
  cases refers : environment.declaration? id with
  | none => exact bringsFree_fresh
  | some declaration =>
    have monomorphic : isPolymorphic declaration = false := by
      have sheetPart := part declaration refers
      obtain ⟨_, kind⟩ := declaration
      cases kind <;> first | rfl | cases sheetPart
    refine (bringsFree_typeOfDeclaration (part declaration refers)).bind fun type typeFree => ?_
    rw [monomorphic, Bool.false_and, if_neg Bool.false_ne_true]
    exact bringsFree_pure typeFree

theorem bringsFree_arrayType (node : Node) (elements : List Node) :
    BringsFree (arrayType node elements) StaticType.LabelFree := by
  refine bringsFree_fresh.bind fun element elementFree => ?_
  refine (bringsFree_forIn fun item _ => (bringsFree_typeOf item).bind fun type typeFree =>
    (bringsFree_constrain elementFree typeFree node.id).bind fun _ _ =>
      bringsFree_pure trivial).bind fun _ _ => ?_
  exact bringsFree_pure (StaticType.labelFree_constant_iff.2
    (List.forall_mem_singleton.2 elementFree))

/-- A type without parameters has no labels. -/
theorem labelFree_named (name : String) : (StaticType.named name).LabelFree :=
  StaticType.labelFree_constant_iff.2 fun _ mem => absurd mem List.not_mem_nil

theorem labelFree_operandTypes (operator : Operator) :
    (operandTypes operator).1.LabelFree ∧ (operandTypes operator).2.LabelFree := by
  unfold operandTypes
  split
  · exact ⟨labelFree_named _, labelFree_named _⟩
  · split
    · exact ⟨labelFree_named _, labelFree_named _⟩
    · exact ⟨labelFree_named _, labelFree_named _⟩

theorem bringsFree_binaryType (node : Node) (operator : Operator) (left right : Node) :
    BringsFree (binaryType node operator left right) StaticType.LabelFree := by
  refine (bringsFree_typeOf left).bind fun leftType leftFree =>
    (bringsFree_typeOf right).bind fun rightType rightFree => ?_
  have boolean : StaticType.boolean.LabelFree := labelFree_named _
  obtain ⟨operandFree, resultFree⟩ := labelFree_operandTypes operator
  split
  · exact (bringsFree_constrain leftFree rightFree node.id).bind fun _ _ => bringsFree_pure boolean
  · exact (bringsFree_constrain leftFree rightFree node.id).bind fun _ _ => bringsFree_pure boolean
  · exact (bringsFree_constrain operandFree leftFree node.id).bind fun _ _ =>
      (bringsFree_constrain operandFree rightFree node.id).bind fun _ _ =>
        bringsFree_pure resultFree

theorem bringsFree_initializedType {node : Node} (part : node.isSheetPart = true)
    (initializer? : Option Node) :
    BringsFree (initializedType environment node initializer?) StaticType.LabelFree := by
  refine (bringsFree_typeOfDeclaration part).bind fun declared declaredFree => ?_
  cases initializer? with
  | none => exact bringsFree_pure declaredFree
  | some initializer =>
    exact (bringsFree_typeOf initializer).bind fun type typeFree =>
      (bringsFree_constrain declaredFree typeFree node.id).bind fun _ _ =>
        bringsFree_pure declaredFree

end Steps

section Tour

variable {environment : Environment} {root : Node} (sheet : root.IsSheet)
  (built : NodeIndex.build root = .ok environment.index) {node : Node}
  (inside : node ∈ root.preorder)

include sheet inside

theorem bringsFree_enter : BringsFree (enter environment node) fun _ => True := by
  have part := sheet node inside
  obtain ⟨id, kind⟩ := node
  cases kind with
  | program | variableDecl | literal | array | identifier | binary | typeName | functionType =>
    exact bringsFree_pure trivial
  | _ => cases part

include built

theorem bringsFree_leftType? : BringsFree (leftType? environment node)
    fun type? => ∀ type, type? = some type → type.LabelFree := by
  have part := sheet node inside
  have typed {step : Infer StaticType} (brings : BringsFree step StaticType.LabelFree) :
      BringsFree (do return some (← step)) fun type? => ∀ type, type? = some type →
        type.LabelFree := by
    refine brings.bind fun type typeFree => bringsFree_pure ?_
    rintro _ ⟨⟩
    exact typeFree
  obtain ⟨id, kind⟩ := node
  cases kind with
  | literal value =>
    refine bringsFree_pure ?_
    rintro _ ⟨⟩
    cases value <;> exact labelFree_named _
  | array elements => exact typed (bringsFree_arrayType _ elements)
  | identifier name =>
    refine typed (bringsFree_referenceType fun declaration refers => ?_)
    obtain ⟨_, _, got⟩ := Option.bind_eq_some_iff.1 refers
    exact sheet declaration (NodeIndex.mem_of_get? built got).1
  | binary operator left right => exact typed (bringsFree_binaryType _ operator left right)
  | variableDecl name ascription? initializer? => exact typed (bringsFree_initializedType part _)
  | program | typeName | functionType => exact bringsFree_pure fun _ same => nomatch same
  | _ => cases part

theorem bringsFree_leave : BringsFree (leave environment node) fun _ => True := by
  refine (bringsFree_leftType? sheet built inside).bind fun type? free => ?_
  cases type? with
  | none => exact bringsFree_pure trivial
  | some type =>
    have typeFree := free type rfl
    refine bringsFree_get.bind fun state stateFree => ?_
    split
    · rename_i expected wanted
      exact (bringsFree_erase node.id).bind fun _ _ =>
        (bringsFree_constrain (stateFree.demanded _ expected wanted) typeFree node.id).bind
          fun _ _ => bringsFree_setNodeType node.id typeFree
    · exact bringsFree_setNodeType node.id typeFree

end Tour

end Inference

open Inference

variable {root : Node} {index : NodeIndex}

/-- No type of a sheet has labels. -/
theorem Typing.labelFree_infer (sheet : root.IsSheet) (built : NodeIndex.build root = .ok index)
    (scope : Scope) (supply : VariableSupply) :
    (Typing.infer root scope index supply).LabelFree := by
  have start : State.LabelFree { typing := { supply } } :=
    ⟨⟨fun _ mem => absurd mem (Array.not_mem_empty _), by simp, by simp⟩, by simp⟩
  have inside {place : Option Node × Node} (mem : place ∈ reached none root) :=
    mem_preorder_of_mem_reached mem
  exact (collect_keeps State.LabelFree (enter_descends { scope, index })
    (enter_within { scope, index })
    (fun _ mem state free => (bringsFree_enter sheet (inside mem) state free).1)
    (fun _ mem state free => (bringsFree_leave sheet built (inside mem) state free).1) start).typing

namespace Compilation

/-- How the solved type of a node of a sheet belongs together with those of its children and of what
it refers to. -/
def Conforms (compilation : Compilation) (node : Node) (type : StaticType) : Prop :=
  match node.kind with
  | .literal value => type = literalType value
  | .array elements => ∃ element, type = .array element ∧
      ∀ item ∈ elements, compilation.solvedType? item.id = some element
  | .identifier _ => ∀ place ∈ reached none compilation.root,
      compilation.scope.resolve node.id = some place.2.id →
        compilation.solvedType? place.2.id = some type
  | .binary operator left right => ∃ operand, Operates operator operand type ∧
      compilation.solvedType? left.id = some operand ∧
      compilation.solvedType? right.id = some operand
  | .variableDecl _ _ initializer? => ∀ initializer, initializer? = some initializer →
      compilation.solvedType? initializer.id = some type
  | _ => True

section Compiled

variable {options : Options} {root : Node} {focus : Option NodeId} {before after : Reports}
  {compilation : Compilation}
  (compiled : ofTree options root focus before = (.ok compilation, after))

/-- The solved type without labels. -/
def erased (compilation : Compilation) (type : StaticType) : StaticType :=
  (compilation.solution.apply type).unlabeled

theorem erased_constant (name : String) (parameters : List StaticType) :
    compilation.erased (.constant name parameters) =
      .constant name (parameters.map compilation.erased) := by
  unfold erased Substitution.apply
  rw [StaticType.mapLeaves, StaticType.unlabeled, List.map_map]
  rfl

theorem erased_named (name : String) : compilation.erased (.named name) = .named name :=
  erased_constant name []

theorem erased_array (element : StaticType) :
    compilation.erased (.array element) = .array (compilation.erased element) :=
  erased_constant "Array" [element]

theorem operates_erased {operator : Operator} {operand result : StaticType}
    (operates : Operates operator operand result) :
    Operates operator (compilation.erased operand) (compilation.erased result) := by
  have number : compilation.erased .number = .number := erased_named _
  have boolean : compilation.erased .boolean = .boolean := erased_named _
  cases operates with
  | arithmetic isArithmetic => rw [number]; exact .arithmetic isArithmetic
  | ordering isOrdering => rw [number, boolean]; exact .ordering isOrdering
  | equal type => rw [boolean]; exact .equal _
  | notEqual type => rw [boolean]; exact .notEqual _
  | and => rw [boolean]; exact .and
  | or => rw [boolean]; exact .or

/-- A variable is the only part of a sheet with a name. -/
theorem variableDecl_of_declares {node : Node} (part : node.isSheetPart = true)
    (named : node.declaredName?.isSome) :
    ∃ name type? initializer?, node.kind = .variableDecl name type? initializer? := by
  obtain ⟨id, kind⟩ := node
  cases kind with
  | variableDecl name type? initializer? => exact ⟨name, type?, initializer?, rfl⟩
  | program | literal | array | identifier | binary | typeName | functionType => cases named
  | _ => cases part

include compiled

/-- The solution of a sheet has no labels. -/
theorem labelFree_of_ofTree (sheet : compilation.root.IsSheet) :
    compilation.typing.LabelFree ∧ compilation.solution.LabelFree := by
  obtain ⟨-, built, supply, inferred⟩ := typing_of_ofTree compiled
  have free : compilation.typing.LabelFree := by
    rw [inferred]
    exact Typing.labelFree_infer sheet built compilation.scope supply
  refine ⟨free, ?_⟩
  rw [solution_of_ofTree compiled, unifier_of_ofTree compiled]
  exact Unifier.labelFree_finish fun constraint mem =>
    free.constraints constraint (Array.mem_toList_iff.1 mem)

variable (sheet : compilation.root.IsSheet)

include sheet

/-- The solved type of a node of a sheet is any type that it is the same as, without labels. -/
theorem solvedType?_of_same {id : NodeId} {own type : StaticType}
    (known : compilation.typing.nodes[id]? = some own)
    (same : (compilation.typing.solvedJudgment compilation.environment).same own type) :
    compilation.solvedType? id = some (compilation.erased type) := by
  obtain ⟨free, solutionFree⟩ := labelFree_of_ofTree compiled sheet
  have agrees : (compilation.solution.apply own).Agrees (compilation.solution.apply type) := by
    rw [solution_of_ofTree compiled, unifier_of_ofTree compiled]
    exact same
  have solved : compilation.solution.apply own = compilation.erased type :=
    (solutionFree.apply (free.nodes id own known)).symm.trans agrees
  rw [solvedType?, Typing.typeOf?, known, Option.some_or, Option.map_some, solved]

theorem solvedType?_of_hasType {node : Node} {type : StaticType}
    (typed : (compilation.typing.solvedJudgment compilation.environment).HasType node type) :
    compilation.solvedType? node.id = some (compilation.erased type) := by
  obtain ⟨own, known, same⟩ := typed
  exact solvedType?_of_same compiled sheet known same

variable (accepted : compilation.unifier.errors = #[])

include accepted

/-- The solved type of a variable is the one that it is declared with. -/
theorem solvedType?_of_declares {place : Option Node × Node}
    (mem : place ∈ reached none compilation.root) (named : place.2.declaredName?.isSome)
    {type : StaticType}
    (declared : compilation.typing.declarations[place.2.id]? = some type) :
    compilation.solvedType? place.2.id = some (compilation.erased type) := by
  obtain ⟨name, type?, initializer?, kind⟩ :=
    variableDecl_of_declares (sheet place.2 (mem_preorder_of_mem_reached mem)) named
  obtain ⟨own, known, rule⟩ := rules_of_ofTree compiled accepted mem (by rw [isTyped, kind])
  rw [Judgment.Rule, kind] at rule
  obtain ⟨other, declares, same, -⟩ := rule
  cases declares.1.symm.trans declared
  exact solvedType?_of_same compiled sheet known same

/-- An identifier has the solved type of the variable that it stands for. -/
theorem solvedType?_of_refers {id : NodeId} {own : StaticType}
    (known : compilation.typing.nodes[id]? = some own)
    (refers : (compilation.typing.solvedJudgment compilation.environment).Refers id own)
    {target : Option Node × Node} (among : target ∈ reached none compilation.root)
    (resolved : compilation.scope.resolve id = some target.2.id) :
    compilation.solvedType? target.2.id = compilation.solvedType? id := by
  obtain ⟨-, built, -⟩ := typing_of_ofTree compiled
  have inside := mem_preorder_of_mem_reached among
  have declaration : compilation.environment.declaration? id = some target.2 := by
    rw [Environment.declaration?, show compilation.environment.scope.resolve id = _ from resolved]
    exact NodeIndex.get?_of_mem built inside
  have consistent := consistent_of_ofTree compiled
  obtain ⟨node, mem, same, named⟩ := consistent.resolves _ _ resolved
  cases Node.eq_of_id_eq consistent.distinct mem inside same
  -- Variables are not polymorphic, so every reference has the type of the declaration itself.
  have monomorphic : isPolymorphic target.2 = false := by
    obtain ⟨_, _, _, kind⟩ := variableDecl_of_declares (sheet _ inside) named
    rw [isPolymorphic, kind]
  rw [Judgment.Refers, show Judgment.environment _ = compilation.environment from rfl,
    declaration] at refers
  obtain ⟨type, declares, same⟩ := refers
  rw [monomorphic, if_neg Bool.false_ne_true] at same
  rw [solvedType?_of_same compiled sheet known same]
  exact solvedType?_of_declares compiled sheet accepted among named declares.1

/-- The solved types of a sheet that is accepted fit together exactly. -/
theorem conforms {place : Option Node × Node} (mem : place ∈ reached none compilation.root)
    (typed : isTyped place.2 = true) :
    ∃ type, compilation.solvedType? place.2.id = some type ∧
      compilation.Conforms place.2 type := by
  obtain ⟨own, known, rule⟩ := rules_of_ofTree compiled accepted mem typed
  have part := sheet place.2 (mem_preorder_of_mem_reached mem)
  have whole {type : StaticType}
      (same : (compilation.typing.solvedJudgment compilation.environment).same own type) :=
    solvedType?_of_same compiled sheet known same
  have child {node : Node} {type : StaticType}
      (hasType : (compilation.typing.solvedJudgment compilation.environment).HasType node type) :=
    solvedType?_of_hasType compiled sheet hasType
  obtain ⟨function?, id, kind⟩ := place
  cases kind with
  | literal value =>
    refine ⟨_, whole rule, ?_⟩
    cases value <;> exact erased_named _
  | array elements =>
    obtain ⟨element, same, items⟩ := rule
    exact ⟨_, whole same, _, erased_array element, fun item among => child (items item among)⟩
  | binary operator left right =>
    obtain ⟨operand, result, operates, same, first, second⟩ := rule
    exact ⟨_, whole same, _, operates_erased operates, child first, child second⟩
  | variableDecl name type? initializer? =>
    obtain ⟨type, -, same, initialized⟩ := rule
    exact ⟨_, whole same, fun initializer given => child (initialized initializer given)⟩
  | identifier name =>
    refine ⟨_, whole (.refl _), fun target among resolved => ?_⟩
    rw [solvedType?_of_refers compiled sheet accepted known rule among resolved]
    exact whole (.refl _)
  | program | typeName | functionType => cases typed
  | _ => cases part

end Compiled

end Compilation

end DeclLang
