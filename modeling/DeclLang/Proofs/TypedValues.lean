import DeclLang.Proofs.CompilationOutcomes
import DeclLang.Proofs.DataEvaluation
import DeclLang.Proofs.RegisteredRecipes
import DeclLang.Proofs.Sheets

/-!
# Values carry their inferred types

**Input.**  A sheet that compiles without a type error, and any queries to it.

**Judgment.**  `Compilation.Carries`: the value has the solved type of the node, and the shape of
that type.

**Argument.**  A sheet is a region of data, so that evaluation has the outcome of a walk through it
that keeps no values.  Every recipe turns values that their nodes carry into one that its own node
carries; the rest is an induction on the length of the walk.  Declarations may need each other: then
there is no value at all.

**Results.**  `Compilation.evaluate_typed`: what is evaluated has its inferred type and the shape of
that type, and types exclude all failures but cycles, missing values, divisions by zero and
evaluations that are nested too deeply.
-/

namespace DeclLang

open Inference (reached mem_preorder_of_mem_reached Operates isTyped literalType)

/-- The content of the value has the shape of its type; items of an array have the type of its
elements. -/
inductive Value.Shaped : Value → Prop
  | unit : Shaped .unit
  | boolean (value : Bool) : Shaped (.boolean value)
  | number (value : Float) : Shaped (.number value)
  | string (value : String) : Shaped (.string value)
  | color (value : String) : Shaped (.color value)
  | array {element : StaticType} {items : List Value} (same : ∀ item ∈ items, item.type = element)
    (each : ∀ item ∈ items, Shaped item) : Shaped (.array element items)

namespace Value.Shaped

variable {value : Value} (shaped : value.Shaped)

include shaped

theorem boolean_inv (type : value.type = .boolean) : ∃ b, value = .boolean b := by
  cases shaped with
  | boolean b => exact ⟨b, rfl⟩
  | _ =>
    have name := (StaticType.constant.inj type).1
    exact absurd name (by decide)

theorem number_inv (type : value.type = .number) : ∃ x, value = .number x := by
  cases shaped with
  | number x => exact ⟨x, rfl⟩
  | _ =>
    have name := (StaticType.constant.inj type).1
    exact absurd name (by decide)

end Value.Shaped

/-- The errors that types do not exclude. -/
def EvalError.BeyondTypes : EvalError → Prop
  | cycle _ | missingValue _ | divisionByZero | depthExceeded .. => True
  | _ => False

/-- The outcome of a division is a number, or it is a division by zero. -/
theorem Operator.apply_divide (x y : Float) :
    Operator.divide.apply (.number x) (.number y) =
      if y == 0 then .error .divisionByZero else .ok (.number (x / y)) := by
  have outcome : Operator.divide.apply (.number x) (.number y) =
      (if y == 0 then .error .divisionByZero else .ok (x / y) : Except EvalError Float).map
        Value.number := rfl
  rw [outcome]
  split <;> rfl

/-- An operator on two operands of the type that it takes gives a result of the type that it
gives, or a division by zero. -/
theorem Operator.apply_typed {operator : Operator} {operand result : StaticType}
    (operates : Operates operator operand result)
    (strict : Strict.decisive? operator = none) {left right : Value} (first : left.Shaped)
    (firstType : left.type = operand) (second : right.Shaped) (secondType : right.type = operand) :
    (∃ value, operator.apply left right = .ok value ∧ value.Shaped ∧ value.type = result) ∨
      operator.apply left right = .error .divisionByZero := by
  cases operates with
  | arithmetic isArithmetic =>
    obtain ⟨x, rfl⟩ := first.number_inv firstType
    obtain ⟨y, rfl⟩ := second.number_inv secondType
    cases operator with
    | add | subtract | multiply => exact .inl ⟨_, rfl, .number _, rfl⟩
    | divide =>
      rw [apply_divide]
      split
      · exact .inr rfl
      · exact .inl ⟨_, rfl, .number _, rfl⟩
    | _ => cases isArithmetic
  | ordering isOrdering =>
    obtain ⟨x, rfl⟩ := first.number_inv firstType
    obtain ⟨y, rfl⟩ := second.number_inv secondType
    cases operator with
    | less | greater | lessOrEqual | greaterOrEqual => exact .inl ⟨_, rfl, .boolean _, rfl⟩
    | _ => cases isOrdering
  | equal | notEqual => exact .inl ⟨_, rfl, .boolean _, rfl⟩
  | and | or => cases strict

/-- Operators that may do without their right operand are about booleans. -/
theorem Operator.booleans_of_decisive {operator : Operator} {operand result : StaticType}
    {decisive : Bool} (operates : Operates operator operand result)
    (decides : Strict.decisive? operator = some decisive) :
    operand = .boolean ∧ result = .boolean := by
  cases operates with
  | and | or => exact ⟨rfl, rfl⟩
  | equal | notEqual => cases decides
  | arithmetic isArithmetic =>
    cases operator with
    | and | or => cases isArithmetic
    | _ => cases decides
  | ordering isOrdering =>
    cases operator with
    | and | or => cases isOrdering
    | _ => cases decides

namespace Compilation

/-- The value has the solved type of the node, and the shape of that type. -/
structure Carries (compilation : Compilation) (id : NodeId) (value : Value) : Prop where
  reached : ∃ place ∈ reached none compilation.root, place.2.id = id
  type : compilation.solvedType? id = some value.type
  shaped : value.Shaped

/-- The outcome for the node is a value that it carries, or an error that types do not exclude. -/
def Fine (compilation : Compilation) (id : NodeId) : Except EvalError Value → Prop
  | .ok value => compilation.Carries id value
  | .error error => error.BeyondTypes

/-- What nodes are registered with. -/
def registration (compilation : Compilation) : Registration.Environment :=
  ⟨compilation.scope, compilation.typing, compilation.solution⟩

section Inquiries

variable {compilation : Compilation} {look : NodeId → Except EvalError Value}

/-- An inquiry for one node goes on if the node has a value. -/
theorem fine_ask {id source : NodeId} {next : Value → Inquiry}
    (asked : compilation.Fine source (look source))
    (goes : ∀ value, compilation.Carries source value →
      compilation.Fine id ((next value).outcome look)) :
    compilation.Fine id ((Inquiry.ask source next).outcome look) := by
  rw [Inquiry.outcome]
  cases found : look source with
  | error error =>
    rw [found] at asked
    exact asked
  | ok value =>
    rw [found] at asked
    exact goes value asked

/-- An inquiry for several nodes goes on if all of them have values. -/
theorem fine_askAll {id : NodeId} {sources : List NodeId} {next : List Value → Inquiry}
    (asked : ∀ source ∈ sources, compilation.Fine source (look source))
    (goes : ∀ values, List.Forall₂ compilation.Carries sources values →
      compilation.Fine id ((next values).outcome look)) :
    compilation.Fine id ((Inquiry.askAll sources next).outcome look) := by
  induction sources generalizing next with
  | nil => exact goes [] .nil
  | cons source sources ih =>
    refine fine_ask (asked source List.mem_cons_self) fun value carries => ?_
    refine ih (fun other mem => asked other (List.mem_cons_of_mem _ mem)) fun values all => ?_
    exact goes (value :: values) (.cons carries all)

/-- Each of several values is carried by one of the nodes. -/
theorem exists_source {sources : List NodeId} {values : List Value}
    (all : List.Forall₂ compilation.Carries sources values) {value : Value}
    (mem : value ∈ values) : ∃ source ∈ sources, compilation.Carries source value := by
  induction all with
  | nil => cases mem
  | cons carries _ ih =>
    rcases List.mem_cons.1 mem with rfl | later
    · exact ⟨_, List.mem_cons_self, carries⟩
    · obtain ⟨source, among, carries⟩ := ih later
      exact ⟨source, List.mem_cons_of_mem _ among, carries⟩

/-- An inquiry for a condition goes on if the node is a boolean. -/
theorem fine_decide {id source : NodeId} {value : Value} {next : Bool → Inquiry}
    (carries : compilation.Carries source value)
    (boolean : compilation.solvedType? source = some .boolean)
    (goes : ∀ b, compilation.Fine id ((next b).outcome look)) :
    compilation.Fine id ((Inquiry.decide value next).outcome look) := by
  have type : value.type = .boolean := Option.some.inj (carries.type.symm.trans boolean)
  obtain ⟨b, rfl⟩ := carries.shaped.boolean_inv type
  exact goes b

/-- Passing a value on is fine if both nodes have the same type. -/
theorem fine_relay {place : Option Node × Node} (mem : place ∈ reached none compilation.root)
    {source : NodeId} (asked : compilation.Fine source (look source))
    (same : (∃ target ∈ reached none compilation.root, target.2.id = source) →
      compilation.solvedType? source = compilation.solvedType? place.2.id) :
    compilation.Fine place.2.id
      ((Thunk.inquiry place.2.id { dependencies := [source], recipe := .relay }).outcome look) :=
  fine_ask asked fun _ carries =>
    ⟨⟨place, mem, rfl⟩, (same carries.reached).symm.trans carries.type, carries.shaped⟩

end Inquiries

section Sheet

variable {options : Options} {root : Node} {focus : Option NodeId} {before after : Reports}
  {compilation : Compilation}
  (compiled : ofTree options root focus before = (.ok compilation, after))
  (sheet : compilation.root.IsSheet) (accepted : compilation.unifier.errors = #[])

include compiled

/-- Values are registered with solved types. -/
theorem typeOf_registration {id : NodeId} {type : StaticType}
    (solved : compilation.solvedType? id = some type) :
    compilation.registration.typeOf id = type := by
  obtain ⟨own, known, rfl⟩ := Option.map_eq_some_iff.1 solved
  rw [Registration.Environment.typeOf, show compilation.registration.typing.typeOf? id = _ from
    known, Option.map_some, Option.getD_some]
  exact resolveWithin_solution compiled (by decide) own

/-- Where recipes and first values of a program come from. -/
theorem sources_registration :
    Registration.Sources compilation.registration compilation.root compilation.context := by
  rw [(consistent_of_ofTree compiled).context]
  exact Registration.sources_ofProgram compilation.root compilation.scope compilation.typing
    compilation.solution

include sheet

/-- What a recipe of a sheet needs belongs to the sheet, and no recipe executes statements. -/
theorem data_of_registers {place : Option Node × Node} (mem : place ∈ reached none compilation.root)
    {thunk : Thunk} (registers : Registration.Registers compilation.registration place.2 thunk) :
    thunk.recipe.isData ∧ ∀ source ∈ thunk.sources, source ∈ compilation.root.identities := by
  have inside := mem_preorder_of_mem_reached mem
  have child {node : Node} (below : node ∈ place.2.children) :
      node.id ∈ compilation.root.identities :=
    Node.id_mem_identities (Node.mem_preorder_trans inside
      (Node.mem_preorder_of_mem_children below (Node.self_mem_preorder node)))
  have part := sheet place.2 inside
  obtain ⟨function?, node⟩ := place
  cases registers with
  | @«variable» id name type? initializer =>
    refine ⟨rfl, fun source among => ?_⟩
    obtain rfl := List.mem_singleton.1 among
    exact child (List.mem_append_right _ List.mem_cons_self)
  | @identifier id declaration name resolved =>
    refine ⟨rfl, fun source among => ?_⟩
    obtain rfl := List.mem_singleton.1 among
    obtain ⟨node, written, rfl, -⟩ := (consistent_of_ofTree compiled).resolves _ _ resolved
    exact Node.id_mem_identities written
  | @binary id operator left right =>
    have operands (source : NodeId) (among : source ∈ [left.id, right.id]) :
        source ∈ compilation.root.identities := by
      rcases List.mem_pair.1 among with rfl | rfl
      · exact child List.mem_cons_self
      · exact child (List.mem_cons_of_mem _ List.mem_cons_self)
    unfold operatorThunk
    split
    · exact ⟨rfl, operands⟩
    · exact ⟨rfl, operands⟩
  | array =>
    refine ⟨rfl, fun source among => ?_⟩
    rcases List.mem_append.1 among with element | none
    · obtain ⟨item, written, rfl⟩ := List.mem_map.1 element
      exact child written
    · cases none
  | function | record | member | call | assignment => cases part

/-- A sheet is a region of data, together with any other node. -/
theorem data_sheet (id : NodeId) :
    compilation.context.Data (id :: compilation.root.identities) := by
  have sources := sources_registration compiled
  -- A node that is not part of the sheet has neither a value nor a recipe, so it is data as well.
  intro other _
  rw [Context.isData]
  split
  · rename_i value kept
    obtain ⟨place, mem, rfl, holds⟩ := sources.values other value kept
    have part := sheet place.2 (mem_preorder_of_mem_reached mem)
    obtain ⟨function?, node⟩ := place
    cases holds with
    | @literal id literal => cases literal <;> rfl
    | enumerationCase | native => cases part
  · rfl
  · rename_i thunk unknown found
    obtain ⟨place, mem, rfl, registers⟩ := sources.thunks other thunk found
    obtain ⟨isData, within⟩ := data_of_registers compiled sheet mem registers
    exact Bool.and_eq_true_iff.2 ⟨isData, List.all_eq_true.2 fun source among =>
      List.contains_iff_mem.2 (List.mem_cons_of_mem _ (within source among))⟩

include accepted

section Place

variable {place : Option Node × Node} (mem : place ∈ reached none compilation.root)

include mem

/-- What a reached node is registered with at once, it carries. -/
theorem carries_of_holds {value : Value}
    (holds : Registration.Holds compilation.registration place.2 value) :
    compilation.Carries place.2.id value := by
  have part := sheet place.2 (mem_preorder_of_mem_reached mem)
  obtain ⟨function?, node⟩ := place
  cases holds with
  | @literal id literal =>
    obtain ⟨_, solved, rfl⟩ := conforms compiled sheet accepted mem rfl
    refine ⟨⟨_, mem, rfl⟩, ?_, ?_⟩
    · cases literal <;> exact solved
    · cases literal
      · exact .unit
      · exact .boolean _
      · exact .number _
      · exact .string _
      · exact .color _
  | enumerationCase | native => cases part

variable {look : NodeId → Except EvalError Value}

/-- The recipe of an operator turns values that its operands carry into one that its node
carries. -/
theorem fine_operator {operator : Operator} {left right : Node}
    (kind : place.2.kind = .binary operator left right)
    (asked : ∀ source ∈ (operatorThunk operator left.id right.id).sources,
      compilation.Fine source (look source)) :
    compilation.Fine place.2.id
      (((operatorThunk operator left.id right.id).inquiry place.2.id).outcome look) := by
  obtain ⟨type, solved, conforming⟩ := conforms compiled sheet accepted mem (by rw [isTyped, kind])
  rw [Conforms, kind] at conforming
  obtain ⟨operand, operates, first, second⟩ := conforming
  have carries {value : Value} (shaped : value.Shaped) (same : value.type = type) :
      compilation.Carries place.2.id value :=
    ⟨⟨place, mem, rfl⟩, solved.trans (congrArg some same.symm), shaped⟩
  unfold operatorThunk at asked ⊢
  cases decides : Strict.decisive? operator with
  | some decisive =>
    rw [decides] at asked
    obtain ⟨rfl, rfl⟩ := Operator.booleans_of_decisive operates decides
    have boolean (b : Bool) : compilation.Carries place.2.id (.boolean b) :=
      carries (.boolean b) rfl
    refine fine_ask (asked _ List.mem_cons_self) fun value carriesLeft => ?_
    refine fine_decide carriesLeft first fun holds => ?_
    split
    · exact boolean holds
    · refine fine_ask (asked _ (List.mem_cons_of_mem _ List.mem_cons_self))
        fun value carriesRight => ?_
      exact fine_decide carriesRight second boolean
  | none =>
    rw [decides] at asked
    refine fine_askAll (fun source among => asked source (List.mem_append_left _ among))
      fun values all => ?_
    obtain ⟨leftValue, _, carriesLeft, later, rfl⟩ := List.forall₂_cons_left_iff.1 all
    obtain ⟨rightValue, _, carriesRight, none, rfl⟩ := List.forall₂_cons_left_iff.1 later
    obtain rfl := List.forall₂_nil_left_iff.1 none
    have leftType := Option.some.inj (carriesLeft.type.symm.trans first)
    have rightType := Option.some.inj (carriesRight.type.symm.trans second)
    change compilation.Fine place.2.id (operator.apply leftValue rightValue)
    rcases Operator.apply_typed operates decides carriesLeft.shaped leftType carriesRight.shaped
      rightType with ⟨value, applied, shaped, same⟩ | failed
    · rw [applied]
      exact carries shaped same
    · rw [failed]
      trivial

/-- The items of an array that elements carry make up a value that its node carries. -/
theorem fine_array {elements : List Node} (kind : place.2.kind = .array elements)
    (asked : ∀ element ∈ elements, compilation.Fine element.id (look element.id)) :
    compilation.Fine place.2.id ((Thunk.inquiry place.2.id
      { dependencies := elements.map Node.id
        recipe := .array (compilation.registration.typeOf place.2.id) }).outcome look) := by
  obtain ⟨type, solved, conforming⟩ := conforms compiled sheet accepted mem (by rw [isTyped, kind])
  rw [Conforms, kind] at conforming
  obtain ⟨element, rfl, typed⟩ := conforming
  rw [typeOf_registration compiled solved]
  refine fine_askAll (fun source among => ?_) fun values all => ?_
  · obtain ⟨item, inside, rfl⟩ := List.mem_map.1 among
    exact asked item inside
  · have each (value : Value) (inside : value ∈ values) : value.type = element ∧ value.Shaped := by
      obtain ⟨source, among, carries⟩ := exists_source all inside
      obtain ⟨item, written, rfl⟩ := List.mem_map.1 among
      exact ⟨Option.some.inj (carries.type.symm.trans (typed item written)), carries.shaped⟩
    exact ⟨⟨place, mem, rfl⟩, solved, .array (fun value inside => (each value inside).1)
      fun value inside => (each value inside).2⟩

/-- Every recipe of a sheet turns values that their nodes carry into one that its node carries. -/
theorem fine_of_registers {thunk : Thunk}
    (registers : Registration.Registers compilation.registration place.2 thunk)
    (asked : ∀ source ∈ thunk.sources, compilation.Fine source (look source)) :
    compilation.Fine place.2.id ((thunk.inquiry place.2.id).outcome look) := by
  have part := sheet place.2 (mem_preorder_of_mem_reached mem)
  obtain ⟨function?, node⟩ := place
  cases registers with
  | @«variable» id name type? initializer =>
    obtain ⟨type, solved, initialized⟩ := conforms compiled sheet accepted mem rfl
    exact fine_relay mem (asked _ List.mem_cons_self) fun _ =>
      (initialized initializer rfl).trans solved.symm
  | @identifier id declaration name resolved =>
    obtain ⟨type, solved, refers⟩ := conforms compiled sheet accepted mem rfl
    refine fine_relay mem (asked _ List.mem_cons_self) fun reaches => ?_
    obtain ⟨target, among, rfl⟩ := reaches
    exact (refers target among resolved).trans solved.symm
  | binary => exact fine_operator compiled sheet accepted mem rfl asked
  | array =>
    exact fine_array compiled sheet accepted mem rfl fun element among =>
      asked element.id (List.mem_append_left _ (List.mem_map_of_mem among))
  | function | record | member | call | assignment => cases part

end Place

/-- The outcome of a walk through a sheet is a value that its node carries, or an error that types
do not exclude. -/
theorem fine_explore (length : Nat) (path : List NodeId) (id : NodeId) :
    compilation.Fine id (compilation.context.explore length path id) := by
  have sources := sources_registration compiled
  have known {id : NodeId} {value : Value} (kept : compilation.context.value? id = some value) :
      compilation.Carries id value := by
    obtain ⟨place, mem, rfl, holds⟩ := sources.values id value kept
    exact carries_of_holds compiled sheet accepted mem holds
  -- The induction is on the length of the walk: declarations come in no order that it could follow.
  induction length generalizing path id with
  | zero =>
    rw [Context.explore]
    split
    · exact known ‹_›
    · trivial
    · split <;> trivial
  | succ length ih =>
    rw [Context.explore]
    split
    · exact known ‹_›
    · trivial
    · rename_i thunk unknown found
      split
      · trivial
      · obtain ⟨place, mem, rfl, registers⟩ := sources.thunks id thunk found
        exact fine_of_registers compiled sheet accepted mem registers fun source _ =>
          ih _ source

/-- Whatever a sheet was asked for before, evaluating a node of it has an outcome that is fine. -/
theorem fine_evaluate (queries : List Query) (id : NodeId) :
    compilation.Fine id (compilation.evaluator.evaluate id (compilation.after queries)).1 := by
  rcases evaluate_after (consistent_of_ofTree compiled) (data_sheet compiled sheet id)
    List.mem_cons_self queries with explored | ⟨error, failed, deep⟩
  · rw [explored]
    exact fine_explore compiled sheet accepted _ _ id
  · rw [failed]
    cases error with
    | depthExceeded => trivial
    | _ => cases deep

end Sheet

/-- Programs that are sheets are joined into a sheet. -/
theorem isSheet_of_ofPrograms {options : Options} {rootId : NodeId} {programs : List Node}
    (sheets : ∀ program ∈ programs, program.IsSheet) {before after : Reports}
    {compilation : Compilation}
    (compiled : ofPrograms options rootId programs before = (.ok compilation, after)) :
    compilation.root.IsSheet := by
  intro node mem
  rw [root_of_ofTree (ofTree_of_ofPrograms compiled)] at mem
  rcases mem_preorder_joined mem with rfl | ⟨program, given, below⟩
  · rfl
  · exact sheets program given node below

/-- Values carry their inferred types.  If a sheet has no type error, every value that a node of it
is evaluated to, whatever was asked for before, has exactly the solved type of the node, unsolved
variables included, and is shaped as that type says.  One pass is enough to resolve that type.  If a
node has no value, that is because of a cycle, of a missing value, of a division by zero or of
evaluations that are nested too deeply. -/
theorem evaluate_typed {options : Options} {rootId : NodeId} {programs : List Node}
    (sheets : ∀ program ∈ programs, program.IsSheet) {before after : Reports}
    {compilation : Compilation}
    (compiled : ofPrograms options rootId programs before = (.ok compilation, after))
    (accepted : compilation.unifier.errors = #[]) (queries : List Query) (id : NodeId) :
    (∀ value, (compilation.evaluator.evaluate id (compilation.after queries)).1 = .ok value →
      (compilation.typing.typeOf? id).map compilation.solution.resolve = some value.type ∧
        (compilation.passes ≠ 0 → compilation.resolvedType? id = some value.type) ∧
        value.Shaped) ∧
    ∀ error, (compilation.evaluator.evaluate id (compilation.after queries)).1 = .error error →
      error.BeyondTypes := by
  have tree := ofTree_of_ofPrograms compiled
  have fine := fine_evaluate tree (isSheet_of_ofPrograms sheets compiled) accepted queries id
  constructor
  · intro value found
    rw [found] at fine
    refine ⟨?_, fun some => (resolvedType?_eq tree some id).trans fine.type, fine.shaped⟩
    rw [← fine.type, solvedType?]
    congr 1
    funext type
    exact resolveWithin_solution tree (by decide) type
  · intro error failed
    rw [failed] at fine
    exact fine

/-- Flags with a declared type, an empty list that is compared with itself, variables without a
value and variables that need each other. -/
def checklist : Node :=
  .mk 1 (.program
    [.mk 2 (.variableDecl "flags"
        (some (.mk 3 (.typeName "Array" [.mk 4 (.typeName "Boolean" [])])))
        (some (.mk 5 (.array [.mk 6 (.identifier "plain"), .mk 7 (.literal (.boolean false))])))),
      .mk 8 (.variableDecl "plain" none (some (.mk 9 (.binary .and (.mk 10 (.identifier "same"))
        (.mk 11 (.literal (.boolean true))))))),
      .mk 12 (.variableDecl "same" none (some (.mk 13 (.binary .equal
        (.mk 14 (.identifier "blank")) (.mk 15 (.identifier "blank")))))),
      .mk 16 (.variableDecl "blank" none (some (.mk 17 (.array [])))),
      .mk 18 (.variableDecl "check" (some (.mk 19 (.functionType [.mk 20 (.typeName "String" [])]
        (.mk 21 (.typeName "Boolean" []))))) none),
      .mk 22 (.variableDecl "first" none (some (.mk 23 (.identifier "second")))),
      .mk 24 (.variableDecl "second" none (some (.mk 25 (.identifier "first"))))])

/-- The flags are booleans, the elements of the empty array are of an unsolved type, and a variable
that needs itself has no value. -/
theorem evaluate_typed_checklist :
    checklist.IsSheet ∧ ∃ compilation reports flags blank error,
      ofPrograms {} 0 [checklist] {} = (.ok compilation, reports) ∧
      compilation.unifier.errors = #[] ∧
      (compilation.evaluator.evaluate 2 (compilation.after [.evaluate 24])).1 = .ok flags ∧
      compilation.resolvedType? 2 = some (.array .boolean) ∧ flags.Shaped ∧
      (compilation.evaluator.evaluate 16 (compilation.after [.evaluate 24])).1 = .ok blank ∧
      compilation.resolvedType? 16 = some (.array (.variable "?4")) ∧ blank.Shaped ∧
      (compilation.evaluator.evaluate 22 (compilation.after [.evaluate 24])).1 = .error error ∧
      error.BeyondTypes := by
  have sheet : checklist.IsSheet := by decide +kernel
  have checked : ((ofPrograms {} 0 [checklist] {}).1.toOption.bind fun compilation =>
      some (compilation.unifier.errors.isEmpty, compilation.passes, [2, 16, 22].map fun id =>
        (compilation.evaluator.evaluate id (compilation.after [.evaluate 24])).1.toOption.map
          Value.type)) =
      some (true, 32, [some (.array .boolean), some (.array (.variable "?4")), none]) := by
    decide +kernel
  obtain ⟨compilation, compiled, holds⟩ := Step.ok_of_toOption checked
  simp only [List.map_cons, List.map_nil, Option.some.injEq, Prod.mk.injEq, List.cons.injEq,
    Array.isEmpty_iff] at holds
  obtain ⟨accepted, passes, first, second, third, -⟩ := holds
  have passing : compilation.passes ≠ 0 := passes.trans_ne (by decide)
  have typed := evaluate_typed (List.forall_mem_singleton.2 sheet) compiled accepted
    [.evaluate 24]
  obtain ⟨flags, foundFlags, flagsType⟩ := Option.map_eq_some_iff.1 first
  obtain ⟨blank, foundBlank, blankType⟩ := Option.map_eq_some_iff.1 second
  have hasFlags := eq_ok_of_toOption foundFlags
  have hasBlank := eq_ok_of_toOption foundBlank
  obtain ⟨-, flagsSolved, flagsShaped⟩ := (typed 2).1 flags hasFlags
  obtain ⟨-, blankSolved, blankShaped⟩ := (typed 16).1 blank hasBlank
  cases failed : (compilation.evaluator.evaluate 22 (compilation.after [.evaluate 24])).1 with
  | ok value =>
    rw [failed] at third
    cases third
  | error error =>
    exact ⟨sheet, compilation, _, flags, blank, error, compiled, accepted,
      hasFlags, (flagsSolved passing).trans (congrArg _ flagsType), flagsShaped,
      hasBlank, (blankSolved passing).trans (congrArg _ blankType), blankShaped,
      failed, (typed 22).2 error failed⟩

end Compilation

end DeclLang
