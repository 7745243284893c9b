import DeclLang.Proofs.NominalTypes
import DeclLang.Proofs.ReturnedTypes
import DeclLang.Proofs.TidyTrees
import DeclLang.Proofs.TypeAccounts

/-!
# Inference finds principal types

**Input.**  A tree with distinct identities, in which records have no fields, and an account that
fits it (`Account.Fits`): its types satisfy the typing rules, however they were come by.

**Argument.**  Every step of inference goes on as the account says (`Account.Answers`).  What a rule
demands of the types of a node is just what the step for that node needs, so there is one lemma for
every operation of inference, and the tour is an induction on the tree.

**Results.**
* `Account.Fits.realized`: some assignment makes all constraints hold, and turns the types that
  inference finds into those of the account.
* `Typing.solved_iff_fits`: a tidy tree is inferred without an error exactly if an account fits it.
-/

namespace DeclLang

namespace Inference

namespace Account

/-- The account satisfies the typing rules of the tree. -/
structure Fits (account : Account) (root : Node) : Prop where
  rules : ∀ place ∈ reached none root, isTyped place.2 = true →
    ∃ own, account.typing.nodes[place.2.id]? = some own ∧
      account.judgment.Rule place.1 place.2 own
  /-- What is given back has a type, also outside of functions. -/
  returned : ∀ place ∈ reached none root, ∀ expression,
    place.2.kind = .returnStatement (some expression) →
      ∃ own, account.typing.nodes[expression.id]? = some own
  suitable : Suitable account.environment root account.typing.declarations
  linked : Linked root account.typing.declarations
  shallow : Shallow account.environment.index root
  /-- Cases belong to enumerations, whose types are known. -/
  cases : ∀ node ∈ root.preorder, ∀ name values, node.kind = .enumerationCase name values →
    ∃ parent, account.environment.index.parent? node.id = some parent ∧ parent.IsEnumeration ∧
      ∃ own, account.typing.declarations[parent.id]? = some own
  /-- Records have no fields. -/
  fieldless : ∀ node ∈ root.preorder, ∀ name generics declarations,
    node.kind = .recordDecl name generics declarations →
      (declarations.filter fun field => field.fieldSlot?.isSome) = []

section Annotations

variable {account : Account} {stem : String} {functions : List Node} {given : Assignment → Prop}

/-- Every annotation denotes something. -/
theorem exists_denotes (environment : Environment) (node : Node) :
    ∃ type, Denotes environment node type := by
  cases ran : annotationType environment node {} with
  | mk type after =>
    have denotes : Extends environment node [] [] {} after ∧ _ := annotationType_inv ran
    exact ⟨type, denotes.2⟩

theorem exists_denoted (environment : Environment) (nodes : List Node) :
    ∃ types, List.Forall₂ (Denotes environment) nodes types := by
  induction nodes with
  | nil => exact ⟨[], .nil⟩
  | cons node nodes ih =>
    obtain ⟨type, denotes⟩ := exists_denotes environment node
    obtain ⟨types, denoted⟩ := ih
    exact ⟨type :: types, .cons denotes denoted⟩

/-- The type of an annotation is what it denotes. -/
theorem answers_annotationType {node : Node} {own : StaticType}
    (denotes : Denotes account.environment node own) :
    account.Answers stem functions functions given (annotationType account.environment node)
      fun type assignment => account.Matches assignment type own := by
  induction node using Node.children_induction generalizing own given with
  | step node ih =>
    obtain ⟨id, kind⟩ := node
    rw [annotationType_eq]
    cases kind with
    | typeName name arguments =>
      have written {parameters : List StaticType}
          (denoted : List.Forall₂ (Denotes account.environment) arguments parameters) :
          account.Answers stem functions functions given
            (arguments.mapM (annotationType account.environment)) fun types assignment =>
              List.Forall₂ (account.Matches assignment) types parameters :=
        answers_mapM (forall₂_imp_of_mem denoted fun argument mem _ denotes =>
          ih argument mem denotes)
      obtain ⟨parameters, denoted⟩ := exists_denoted account.environment arguments
      dsimp only [Node.kind_mk, Node.id_mk]
      cases denotes with
      | generic refers kind =>
        refine (written denoted).bind fun types => ?_
        rw [refers, Option.map_some, kind]
        exact answers_pure fun _ _ => .closed (by rw [StaticType.freeVariables])
      | @declared _ _ _ _ declaration _ refers kind denoted =>
        refine (written denoted).bind fun types => ?_
        rw [refers, Option.map_some]
        obtain ⟨_, form⟩ := declaration
        cases form with
        | recordDecl | enumerationDecl =>
          cases kind
          exact answers_pure fun _ known => .constant known.2
        | _ => cases kind
      | undeclared refers denoted =>
        refine (written denoted).bind fun types => ?_
        rw [refers, Option.map_none]
        exact answers_pure fun _ known => .constant known.2
      | @nothing _ name silent =>
        refine (written denoted).bind fun types => ?_
        rw [isMeaningful] at silent
        dsimp only [Node.kind_mk, Node.id_mk] at silent
        cases refers : account.environment.typeDeclaration? id with
        | none =>
          rw [refers] at silent
          cases silent
        | some declaration =>
          -- The name is that of a value, which is no type: anything may come in its place.
          rw [refers] at silent
          rw [Option.map_some]
          obtain ⟨_, kind⟩ := declaration
          cases kind with
          | genericParameter | recordDecl | enumerationDecl => cases silent
          | _ => exact answers_fresh_matches name
    | functionType arguments result =>
      cases denotes with
      | @function _ _ _ parameters type denoted denotedResult =>
        have written : account.Answers stem functions functions given (arguments.mapM
            fun argument => do return ((none : Option String),
              ← annotationType account.environment argument)) fun types assignment =>
            List.Forall₂ (fun slot own => account.Matches assignment slot.2 own) types
              parameters :=
          answers_mapM (forall₂_imp_of_mem denoted fun argument mem _ denotes =>
            (ih argument (List.mem_append_left _ mem) denotes).bind fun _ =>
              answers_pure fun _ known => known.2)
        refine written.bind fun types => Answers.bind
          (ih result (List.mem_append_right _ (List.mem_singleton_self _)) denotedResult)
          fun type => answers_pure fun assignment known => .function ?_ known.2
        rw [List.forall₂_map_right_iff]
        exact known.1.2
      | nothing silent => cases silent
    | _ =>
      cases denotes with
      | nothing silent => exact answers_fresh_matches _

/-- Annotations of values without labels. -/
theorem answers_values {values : List Node} {owns : List StaticType}
    (denoted : List.Forall₂ (Denotes account.environment) values owns) :
    account.Answers stem functions functions given (values.mapM fun value => do
      return ((none : Option String), ← annotationType account.environment value))
      fun types assignment =>
        List.Forall₂ (fun slot own => account.Matches assignment slot.2 own) types owns :=
  answers_mapM (denoted.imp fun _ _ denotes => (answers_annotationType denotes).bind fun _ =>
    answers_pure fun _ known => known.2)

end Annotations

section Declarations

variable {account : Account} {root : Node} {stem : String} {functions : List Node}
  {given : Assignment → Prop} (fits : account.Fits root)

/-- Working out the type of a declaration goes on as the account says if writing the type down
does. -/
theorem answers_declarationType {steps : Nat} {node : Node} {own : StaticType}
    (entry : account.typing.declarations[node.id]? = some own)
    (written : account.Answers stem functions functions given
      (writtenType account.environment steps node)
      fun type assignment => account.Matches assignment type own) :
    account.Answers stem functions functions given
      (declarationType account.environment (steps + 1) node)
      fun type assignment => account.Matches assignment type own := by
  rw [declarationType_succ]
  refine answers_get.bind fun state => ?_
  split
  · rename_i stored
    refine answers_pure fun assignment known => ?_
    obtain ⟨_, again, matching⟩ := known.2.declarations _ _ stored
    cases again.symm.trans entry
    exact matching
  · exact (written.of_given fun _ known => known.1).bind fun type =>
      (answers_setDeclarationType entry fun _ known => known.2).bind fun _ =>
        answers_pure fun _ known => known.1.2

theorem freeVariables_genericTypes (name : String) (generics : List Node) :
    (StaticType.constant name (genericTypes generics)).freeVariables = [] := by
  rw [StaticType.freeVariables, List.flatMap_eq_nil_iff, genericTypes]
  intro type mem
  obtain ⟨generic, -, named⟩ := List.mem_filterMap.1 mem
  obtain ⟨name, -, rfl⟩ := Option.map_eq_some_iff.1 named
  rw [StaticType.freeVariables]

/-- The type that another declaration is written with. -/
theorem answers_writtenType_simple {steps : Nat} {node : Node} {own : StaticType}
    (simple : isComposed node = false) (declared : DeclaredAs account.environment node own) :
    account.Answers stem functions functions given (writtenType account.environment steps node)
      fun type assignment => account.Matches assignment type own := by
  obtain ⟨id, kind⟩ := node
  cases kind with
  | functionDecl | recordDecl | enumerationCase => cases simple
  | parameter => exact answers_annotationType declared
  | variableDecl name ascription? =>
    cases ascription? with
    | some ascription => exact answers_annotationType declared
    | none =>
      obtain ⟨name, rfl⟩ := declared
      exact answers_fresh_matches name
  | enumerationDecl name generics cases =>
    cases declared
    exact answers_pure fun _ _ => .closed (freeVariables_genericTypes name generics)
  | genericParameter name =>
    cases declared
    exact answers_pure fun _ _ => .closed (by rw [StaticType.freeVariables])
  | _ =>
    obtain ⟨name, rfl⟩ := declared
    exact answers_fresh_matches name

include fits

/-- The types of declarations that do not lead on. -/
theorem answers_simple {steps : Nat} {node : Node} (inside : node ∈ root.preorder)
    (simple : isComposed node = false) {own : StaticType}
    (entry : account.typing.declarations[node.id]? = some own) :
    account.Answers stem functions functions given
      (declarationType account.environment (steps + 1) node)
      fun type assignment => account.Matches assignment type own :=
  answers_declarationType entry
    (answers_writtenType_simple simple (fits.suitable node inside own entry).1)

/-- The parameters of a function have the types that the function takes. -/
theorem answers_labeledTypes {steps : Nat} {parts : List Node}
    {slots : List (Option String × StaticType)}
    (simple : ∀ part ∈ parts, part ∈ root.preorder ∧ isComposed part = false)
    (links : List.Forall₂ (fun (part : Node) slot =>
      account.typing.declarations[part.id]? = some slot.2) parts slots) :
    account.Answers stem functions functions given
      (labeledTypes account.environment (steps + 1) parts) fun types assignment =>
        List.Forall₂ (fun slot other => account.Matches assignment slot.2 other.2) types slots :=
  answers_mapM (forall₂_imp_of_mem links fun part mem _ entry =>
    (answers_simple fits (simple part mem).1 (simple part mem).2 entry).bind fun _ =>
      answers_pure fun _ known => known.2)

/-- The type that a function, a record or an enumeration case is written with. -/
theorem answers_writtenType {steps : Nat} {node : Node} (inside : node ∈ root.preorder)
    (composed : isComposed node = true) {own : StaticType}
    (entry : account.typing.declarations[node.id]? = some own) :
    account.Answers stem functions functions given
      (writtenType account.environment (steps + 1) node)
      fun type assignment => account.Matches assignment type own := by
  have simple := fits.shallow node inside
  obtain ⟨declared, whole⟩ := fits.suitable node inside own entry
  obtain ⟨id, kind⟩ := node
  cases kind with
  | functionDecl name generics parameters result body =>
    obtain ⟨received, returned, rfl, links⟩ :=
      fits.linked _ inside name generics parameters result body rfl own entry
    obtain ⟨_, _, same, -, denotes⟩ := declared
    cases same
    exact (answers_labeledTypes fits simple links).bind fun types =>
      (answers_annotationType denotes).bind fun type =>
        answers_pure fun _ known => .function known.1.2 known.2
  | recordDecl name generics declarations =>
    have none := fits.fieldless _ inside name generics declarations rfl
    obtain ⟨fields, rfl, labels⟩ := declared
    rw [none, List.map_nil, List.map_eq_nil_iff] at labels
    subst labels
    rw [writtenType]
    dsimp only [Node.kind_mk]
    rw [none]
    refine Answers.bind (answers_value []) fun types => answers_pure fun _ known => ?_
    rw [known.2]
    exact .function .nil (.closed (freeVariables_genericTypes name generics))
  | enumerationCase name values =>
    obtain ⟨parent, above, isEnumeration, around, known⟩ := fits.cases _ inside name values rfl
    obtain ⟨received, enumeration, rfl, denoted⟩ := declared
    obtain ⟨_, _, same, parents⟩ := whole
    cases same
    have among : parent ∈ typedParts account.environment.index
        (.mk id (.enumerationCase name values)) := Option.mem_toList.2 above
    obtain ⟨insideParent, alone⟩ := simple parent among
    have own : around = enumeration := by
      have declares := (fits.suitable parent insideParent around known).1
      have again := parents parent among
      obtain ⟨_, _, _, kind⟩ := isEnumeration
      rw [DeclaredAs, kind] at declares again
      rw [declares, again]
    subst own
    rw [writtenType]
    dsimp only [Node.kind_mk, Node.id_mk] at above ⊢
    rw [above, Option.map_some, Option.getD_some]
    refine (answers_simple fits insideParent alone known).bind fun type =>
      (answers_values denoted).bind fun types => answers_pure fun _ known => .function ?_ known.1.2
    rw [List.forall₂_map_right_iff]
    exact known.2
  | _ => cases composed

variable (built : NodeIndex.build root = .ok account.environment.index)

include built

/-- The type of a declaration that has one in the account. -/
theorem answers_typeOfDeclaration {node : Node} (inside : node ∈ root.preorder) {own : StaticType}
    (entry : account.typing.declarations[node.id]? = some own) :
    account.Answers stem functions functions given (typeOfDeclaration account.environment node)
      fun type assignment => account.Matches assignment type own := by
  have positive := size_ne_zero built
  obtain ⟨steps, twice⟩ : ∃ steps, 2 * account.environment.index.size + 1 = steps + 2 :=
    ⟨2 * account.environment.index.size - 1, by omega⟩
  unfold typeOfDeclaration
  rw [twice]
  cases composed : isComposed node with
  | false => exact answers_simple fits inside composed entry
  | true => exact answers_declarationType entry (answers_writtenType fits inside composed entry)

omit fits built in
/-- A type with other variables in place of its generic parameters. -/
theorem stands_replaceGenerics {assignment : Assignment} {type own : StaticType}
    (matching : account.Matches assignment type own) {found : String → Option StaticType}
    {replacement : String → Option StaticType}
    (same : ∀ name ∈ type.generics, ∃ fresh, found name = some fresh ∧
      fresh.instantiate assignment =
        ((replacement name).getD (.generic name)).instantiate account.solution) :
    account.Stands assignment (type.replaceGenerics found) (own.replaceGenerics replacement) := by
  unfold Stands StaticType.instantiate StaticType.replaceGenerics at *
  rw [StaticType.mapLeaves_mapLeaves, StaticType.mapLeaves_mapLeaves]
  have both := matching fun name =>
    ((replacement name).getD (.generic name)).mapLeaves account.solution .generic
  simp only [StaticType.mapLeaves] at both ⊢
  refine Eq.trans (congrArg StaticType.unlabeled ?_) both
  refine StaticType.mapLeaves_congr (fun _ _ => rfl) fun name mem => ?_
  obtain ⟨fresh, here, stands⟩ := same name mem
  rw [here, Option.getD_some, stands]

/-- The type of a reference. -/
theorem answers_referenceType {id : NodeId} {own : StaticType}
    (refers : account.judgment.Refers id own) :
    account.Answers stem functions functions given (referenceType account.environment id)
      fun type assignment => account.Stands assignment type own := by
  unfold Judgment.Refers at refers
  unfold referenceType
  cases found : account.environment.declaration? id with
  | none => exact answers_fresh_stands own
  | some declaration =>
    rw [show account.judgment.environment.declaration? id = some declaration from found] at refers
    obtain ⟨type, declares, instance_⟩ := refers
    obtain ⟨_, _, got⟩ := Option.bind_eq_some_iff.1 found
    refine (answers_typeOfDeclaration fits built (NodeIndex.mem_of_get? built got).1
      declares.1).bind fun written => ?_
    split
    · rename_i polymorphic
      rw [Bool.and_eq_true] at polymorphic
      rw [if_pos polymorphic.1] at instance_
      obtain ⟨replacement, same⟩ := instance_
      refine (answers_freshFor (fun name => (replacement name).getD (.generic name)) _).bind
        fun replacements => answers_pure fun assignment known => ?_
      refine (stands_replaceGenerics known.1.2 fun name mem => ?_).of_same same.symm
      exact known.2 name (List.mem_eraseDups.2 mem)
    · rename_i closed
      refine answers_pure fun assignment known => ?_
      split at instance_
      · rename_i polymorphic
        obtain ⟨replacement, same⟩ := instance_
        have none : written.generics = [] := by
          simpa [polymorphic, StaticType.hasGenerics] using closed
        have stands := @stands_replaceGenerics account assignment written type known.2
          (fun _ => Option.none) replacement (by simp [none])
        rw [StaticType.replaceGenerics_none] at stands
        exact stands.of_same same.symm
      · exact known.2.stands.of_same instance_.symm

end Declarations

section Expressions

variable {account : Account} {stem : String} {functions : List Node} {given : Assignment → Prop}

theorem answers_arrayType {node : Node} {elements : List Node} {own element : StaticType}
    (same : account.judgment.same own (.array element))
    (items : ∀ item ∈ elements, account.judgment.HasType item element) :
    account.Answers stem functions functions given (arrayType node elements)
      fun type assignment => account.Stands assignment type own := by
  refine (answers_fresh_stands element).bind fun type => ?_
  refine Answers.bind (answers_forIn fun item mem => ?_) fun _ =>
    answers_pure fun assignment known => ?_
  · exact (answers_typeOf (items item mem)).bind fun _ =>
      (answers_constrain fun _ known => known.1.2.holds known.2 (.refl _)).bind fun _ =>
        answers_pure fun _ _ => trivial
  · refine Stands.of_same (show account.Stands assignment (.array type) (.array element) from ?_)
      same.symm
    unfold Stands StaticType.instantiate StaticType.array
    simp only [StaticType.mapLeaves]
    exact agrees_constant (.cons known.1.2 .nil)

/-- Every slot has the type that the callee receives, and what its argument demands holds. -/
theorem answers_argumentSlots {received : List (Option String × Option Node)}
    {slots : List (Option String × StaticType)}
    (receives : List.Forall₂ account.judgment.Receives received slots) :
    account.Answers stem functions functions given (argumentSlots received)
      fun found assignment =>
        List.Forall₂ (fun slot other => account.Stands assignment slot.2 other.2) found.1 slots ∧
          ∀ demand ∈ found.2, demand.Holds assignment := by
  induction receives with
  | nil => exact answers_pure fun _ _ => ⟨.nil, List.forall_mem_nil _⟩
  | @cons entry slot received slots first _ ih =>
    obtain ⟨label?, argument?⟩ := entry
    refine (answers_fresh_stands slot.2).bind fun type => ?_
    cases argument? with
    | none =>
      refine (answers_value []).bind fun demands => (ih.of_given fun _ known => known.1.1).bind
        fun rest => answers_pure fun assignment known => ?_
      rw [known.1.2, List.nil_append]
      exact ⟨.cons known.1.1.2 known.2.1, known.2.2⟩
    | some argument =>
      refine (answers_typeOf (first.2 argument rfl)).bind fun found => (answers_value _).bind
        fun demands => (ih.of_given fun _ known => known.1.1.1).bind fun rest =>
          answers_pure fun assignment known => ?_
      refine ⟨.cons known.1.1.1.2 known.2.1, fun demand mem => ?_⟩
      rw [known.1.2, List.mem_append, List.mem_singleton] at mem
      rcases mem with rfl | mem
      · exact known.1.1.1.2.holds known.1.1.2 (.refl _)
      · exact known.2.2 demand mem

theorem answers_callType {node callee : Node} {arguments : List Node} {own result : StaticType}
    {slots : List (Option String × StaticType)} (same : account.judgment.same own result)
    (called : account.judgment.HasType callee (.function slots result))
    (receives : List.Forall₂ account.judgment.Receives
      (receivedArguments account.environment callee arguments) slots) :
    account.Answers stem functions functions given
      (callType account.environment node callee arguments)
      fun type assignment => account.Stands assignment type own := by
  refine (answers_fresh_stands result).bind fun type => (answers_typeOf called).bind
    fun calleeType => (answers_argumentSlots receives).bind fun found => ?_
  obtain ⟨types, demands⟩ := found
  refine (answers_constrain fun assignment known => ?_).bind fun _ => Answers.bind
    (answers_forIn fun demand mem => (answers_constrain fun assignment known =>
      known.1.2.2 demand mem).bind fun _ => answers_pure fun _ _ => trivial) fun _ =>
      answers_pure fun assignment known => ?_
  · exact known.1.2.holds (Stands.function known.2.1 known.1.1.2) (.refl _)
  · exact known.1.1.1.1.2.of_same same.symm

/-- Both operands are held against a type without variables. -/
theorem answers_operands {id : NodeId} {leftType rightType operand result own : StaticType}
    (closed : ∀ assignment, account.Stands assignment operand operand)
    (left : ∀ assignment, given assignment → account.Stands assignment leftType operand)
    (right : ∀ assignment, given assignment → account.Stands assignment rightType operand)
    (stands : ∀ assignment, account.Stands assignment result own) :
    account.Answers stem functions functions given (do
      constrain operand leftType id
      constrain operand rightType id
      return result) fun type assignment => account.Stands assignment type own :=
  (answers_constrain fun assignment known =>
      (closed assignment).holds (left assignment known) (.refl _)).bind fun _ =>
    (answers_constrain fun assignment known =>
      (closed assignment).holds (right assignment known.1) (.refl _)).bind fun _ =>
    answers_pure fun assignment _ => stands assignment

theorem answers_equality {id : NodeId} {leftType rightType operand own : StaticType}
    (left : ∀ assignment, given assignment → account.Stands assignment leftType operand)
    (right : ∀ assignment, given assignment → account.Stands assignment rightType operand)
    (stands : ∀ assignment, account.Stands assignment .boolean own) :
    account.Answers stem functions functions given (do
      constrain leftType rightType id
      return StaticType.boolean) fun type assignment => account.Stands assignment type own :=
  (answers_constrain fun assignment known =>
      (left assignment known).holds (right assignment known) (.refl _)).bind fun _ =>
    answers_pure fun assignment _ => stands assignment

theorem answers_binaryType {node left right : Node} {operator : Operator}
    {own operand result : StaticType} (operates : Operates operator operand result)
    (same : account.judgment.same own result)
    (leftTyped : account.judgment.HasType left operand)
    (rightTyped : account.judgment.HasType right operand) :
    account.Answers stem functions functions given (binaryType node operator left right)
      fun type assignment => account.Stands assignment type own := by
  have closed {type : StaticType} (h : type.freeVariables = []) (assignment : Assignment) :
      account.Stands assignment type type := (Matches.closed h).stands
  refine (answers_typeOf leftTyped).bind fun leftType => (answers_typeOf rightTyped).bind
    fun rightType => ?_
  have number (assignment : Assignment) : account.Stands assignment .number .number :=
    closed (by simp [StaticType.number, StaticType.freeVariables]) assignment
  have boolean (assignment : Assignment) : account.Stands assignment .boolean .boolean :=
    closed (by simp [StaticType.boolean, StaticType.freeVariables]) assignment
  cases operator with
  | equal =>
    cases operates with
    | equal =>
      exact answers_equality (fun _ known => known.1.2) (fun _ known => known.2)
        fun assignment => (boolean assignment).of_same same.symm
    | arithmetic h | ordering h => cases h
  | notEqual =>
    cases operates with
    | notEqual =>
      exact answers_equality (fun _ known => known.1.2) (fun _ known => known.2)
        fun assignment => (boolean assignment).of_same same.symm
    | arithmetic h | ordering h => cases h
  | add | subtract | multiply | divide =>
    cases operates with
    | ordering h => cases h
    | arithmetic =>
      exact answers_operands number (fun _ known => known.1.2) (fun _ known => known.2)
        fun assignment => (number assignment).of_same same.symm
  | less | greater | lessOrEqual | greaterOrEqual =>
    cases operates with
    | arithmetic h => cases h
    | ordering =>
      exact answers_operands number (fun _ known => known.1.2) (fun _ known => known.2)
        fun assignment => (boolean assignment).of_same same.symm
  | and =>
    cases operates with
    | and =>
      exact answers_operands boolean (fun _ known => known.1.2) (fun _ known => known.2)
        fun assignment => (boolean assignment).of_same same.symm
    | arithmetic h | ordering h => cases h
  | or =>
    cases operates with
    | or =>
      exact answers_operands boolean (fun _ known => known.1.2) (fun _ known => known.2)
        fun assignment => (boolean assignment).of_same same.symm
    | arithmetic h | ordering h => cases h

end Expressions

/-- The functions around what is below the node, from the inside out. -/
def functionsBelow (functions : List Node) (node : Node) : List Node :=
  match node.kind with
  | .functionDecl .. => node :: functions
  | _ => functions

theorem head?_functionsBelow (functions : List Node) (node : Node) :
    (functionsBelow functions node).head? = functionBelow functions.head? node := by
  obtain ⟨id, kind⟩ := node
  cases kind <;> rfl

section Tour

variable {account : Account} {root : Node} {stem : String} {functions : List Node}
  {given : Assignment → Prop} (fits : account.Fits root)
  (built : NodeIndex.build root = .ok account.environment.index)

/-- What a `return` brings is what the innermost function gives back. -/
theorem answers_expected {id : NodeId} {returned : StaticType}
    (stands : ∀ function, functions.head? = some function → ∀ received result,
      account.typing.declarations[function.id]? = some (.function received result) →
        ∀ assignment, given assignment → account.Stands assignment returned result) :
    account.Answers stem functions functions given (do
      if let some expected := (← get).returnTypes.head? then
        constrain expected returned id
      return some StaticType.unit) fun type? _ => type? = some .unit := by
  refine answers_get.bind fun state => ?_
  cases innermost : state.returnTypes.head? with
  | none => exact answers_value _
  | some expected =>
    refine (answers_constrain fun assignment known => ?_).bind fun _ => answers_value _
    have returns := known.2.returns
    cases types : state.returnTypes with
    | nil =>
      rw [types] at innermost
      cases innermost
    | cons type types =>
      rw [types] at innermost returns
      cases innermost
      cases returns with
      | cons first _ =>
        obtain ⟨received, result, entry, same⟩ := first
        exact same.holds (stands _ rfl received result entry assignment known.1) (.refl _)

include fits in
theorem answers_returned {id : NodeId} {expression? : Option Node} {own : StaticType}
    (place : (functions.head?, .mk id (.returnStatement expression?)) ∈ reached none root)
    (rule : account.judgment.Rule functions.head? (.mk id (.returnStatement expression?)) own) :
    account.Answers stem functions functions given
      (leftType? account.environment (.mk id (.returnStatement expression?)))
      fun type? _ => type? = some .unit := by
  have brings {function : Node} (around : functions.head? = some function)
      {received : List (Option String × StaticType)} {result : StaticType}
      (entry : account.typing.declarations[function.id]? = some (.function received result)) :
      account.judgment.Returns expression? result := by
    obtain ⟨received', result', declares, returns⟩ := rule.2 function around
    cases declares.1.symm.trans entry
    exact returns
  cases expression? with
  | none =>
    refine (answers_value StaticType.unit).bind fun returned => answers_expected ?_
    intro function around received result entry assignment known
    rw [known.2]
    have closed : account.Matches assignment .unit .unit :=
      .closed (by simp [StaticType.unit, StaticType.freeVariables])
    exact closed.stands.of_same (brings around entry)
  | some expression =>
    obtain ⟨type, entry⟩ := fits.returned _ place expression rfl
    refine (answers_typeOf ⟨type, entry, .refl _⟩).bind fun returned => answers_expected ?_
    intro function around received result stored assignment known
    obtain ⟨_, again, same⟩ := brings around stored
    cases again.symm.trans entry
    exact known.2.of_same same

include fits built

theorem answers_initializedType {node : Node} (inside : node ∈ root.preorder)
    {initializer? : Option Node} {own : StaticType}
    (rule : ∃ type, account.judgment.Declares node type ∧ account.judgment.same own type ∧
      ∀ initializer, initializer? = some initializer → account.judgment.HasType initializer type) :
    account.Answers stem functions functions given
      (initializedType account.environment node initializer?)
      fun type assignment => account.Stands assignment type own := by
  obtain ⟨type, declares, same, initialized⟩ := rule
  refine (answers_typeOfDeclaration fits built inside declares.1).bind fun declared => ?_
  cases initializer? with
  | none => exact answers_pure fun _ known => known.2.stands.of_same same.symm
  | some initializer =>
    exact (answers_typeOf (initialized initializer rfl)).bind fun _ =>
      (answers_constrain fun _ known => known.1.2.stands.holds known.2 (.refl _)).bind fun _ =>
        answers_pure fun _ known => known.1.1.2.stands.of_same same.symm

/-- The type that a declaration is left with. -/
theorem answers_declared {node : Node} (inside : node ∈ root.preorder) {own : StaticType}
    (rule : ∃ type, account.judgment.Declares node type ∧ account.judgment.same own type) :
    account.Answers stem functions functions given (do
      return some (← typeOfDeclaration account.environment node))
      fun type? assignment => ∀ type, type? = some type → account.Stands assignment type own := by
  obtain ⟨type, declares, same⟩ := rule
  refine (answers_typeOfDeclaration fits built inside declares.1).bind fun declared =>
    answers_pure fun assignment known => ?_
  rintro _ ⟨⟩
  exact known.2.stands.of_same same.symm

/-- A node is left with its type in the account. -/
theorem answers_leftType {node : Node} {own : StaticType}
    (place : (functions.head?, node) ∈ reached none root)
    (rule : account.judgment.Rule functions.head? node own) :
    account.Answers stem (functionsBelow functions node) functions given
      (leftType? account.environment node)
      fun type? assignment => ∀ type, type? = some type → account.Stands assignment type own := by
  have inside := mem_preorder_of_mem_reached place
  have typed {step : Infer StaticType}
      (h : account.Answers stem functions functions given step
        fun type assignment => account.Stands assignment type own) :
      account.Answers stem functions functions given (do return some (← step))
        fun type? assignment => ∀ type, type? = some type →
          account.Stands assignment type own := by
    refine h.bind fun type => answers_pure fun assignment known => ?_
    rintro _ ⟨⟩
    exact known.2
  have closed {type : StaticType} (noVariable : type.freeVariables = [])
      (same : account.judgment.same own type) (assignment : Assignment) :
      ∀ other, some type = some other → account.Stands assignment other own := by
    rintro _ ⟨⟩
    exact (Matches.closed noVariable).stands.of_same same.symm
  have unit : StaticType.unit.freeVariables = [] := by
    simp [StaticType.unit, StaticType.freeVariables]
  obtain ⟨id, kind⟩ := node
  cases kind with
  | literal value =>
    refine answers_pure fun assignment _ => closed ?_ rule assignment
    cases value <;> simp [literalType, StaticType.unit, StaticType.boolean, StaticType.number,
      StaticType.string, StaticType.color, StaticType.freeVariables]
  | array elements =>
    obtain ⟨element, same, items⟩ := rule
    exact typed (answers_arrayType same items)
  | identifier name | member object name => exact typed (answers_referenceType fits built rule)
  | call callee arguments =>
    obtain ⟨slots, result, same, called, receives⟩ := rule
    exact typed (answers_callType same called receives)
  | argument label? expression => exact typed (answers_typeOf rule)
  | expressionStatement expression => exact typed (answers_typeOf rule)
  | placeholder => exact typed (answers_fresh_stands own)
  | binary operator left right =>
    obtain ⟨operand, result, operates, same, onLeft, onRight⟩ := rule
    exact typed (answers_binaryType operates same onLeft onRight)
  | assignment target value =>
    obtain ⟨same, type, onLeft, onRight⟩ := rule
    exact (answers_typeOf onLeft).bind fun _ => (answers_typeOf onRight).bind fun _ =>
      (answers_constrain fun _ known => known.1.2.holds known.2 (.refl _)).bind fun _ =>
        answers_pure fun assignment _ => closed unit same assignment
  | functionDecl =>
    refine Answers.bind (answers_modify (fun _ => rfl) fun state assignment _ realizes => ?_)
      fun _ => answers_declared fits built inside rule
    -- The return type of the function that is left is the innermost one.
    have returns := realizes.returns
    refine ⟨realizes.constraints, realizes.nodes, realizes.declarations, ?_, realizes.demanded⟩
    cases types : state.returnTypes with
    | nil =>
      rw [types] at returns
      cases returns
    | cons innermost outer =>
      rw [types] at returns
      cases returns with
      | cons _ rest => exact rest
  | recordDecl | enumerationDecl | enumerationCase => exact answers_declared fits built inside rule
  | variableDecl | parameter => exact typed (answers_initializedType fits built inside rule)
  | returnStatement expression? =>
    refine (answers_returned fits place rule).imp (fun _ known => known) ?_
    rintro _ assignment - rfl
    exact closed unit rule.1 assignment
  | branch | loop => exact answers_pure fun assignment _ => closed unit rule.1 assignment
  | _ =>
    refine answers_pure fun assignment _ => ?_
    rintro _ ⟨⟩

/-- A node is entered as the account says. -/
theorem answers_enter {node : Node} (place : (functions.head?, node) ∈ reached none root) :
    account.Answers stem functions (functionsBelow functions node) given
      (enter account.environment node) fun _ _ => True := by
  have inside := mem_preorder_of_mem_reached place
  have rule := fits.rules _ place
  have demands {condition : Node} (boolean : ∀ type,
      account.typing.nodes[condition.id]? = some type → account.judgment.same type .boolean) :
      account.Answers stem functions functions given (do
        modify fun state =>
          { state with demanded := state.demanded.insert condition.id .boolean }
        return Direction.descend) fun _ _ => True := by
    refine Answers.bind (answers_modify (fun _ => rfl) fun state assignment _ realizes => ?_)
      fun _ => answers_pure fun _ _ => trivial
    refine ⟨realizes.constraints, realizes.nodes, realizes.declarations, realizes.returns,
      fun id type found own entry => ?_⟩
    rw [Std.TreeMap.getElem?_insert] at found
    split at found
    · rename_i same
      rw [Nat.compare_eq_eq] at same
      cases found
      subst same
      have closed : account.Matches assignment .boolean .boolean :=
        .closed (by simp [StaticType.boolean, StaticType.freeVariables])
      exact closed.stands.of_same (boolean own entry).symm
    · exact realizes.demanded id type found own entry
  obtain ⟨id, kind⟩ := node
  cases kind with
  | functionDecl name generics parameters result body =>
    obtain ⟨own, -, type, declares, -⟩ := rule rfl
    obtain ⟨received, returned, rfl, -⟩ :=
      fits.linked _ inside name generics parameters result body rfl type declares.1
    refine (answers_typeOfDeclaration fits built inside declares.1).bind fun found => ?_
    have pushes (type : StaticType) (more : Assignment → Prop)
        (stands : ∀ assignment, more assignment → account.Stands assignment type returned) :
        account.Answers stem functions
          (.mk id (.functionDecl name generics parameters result body) :: functions) more (do
            modify fun state => { state with returnTypes := type :: state.returnTypes }
            return Direction.descend) fun _ _ => True := by
      refine Answers.bind (answers_modify (fun _ => rfl) fun state assignment known realizes => ?_)
        fun _ => answers_pure fun _ _ => trivial
      exact ⟨realizes.constraints, realizes.nodes, realizes.declarations,
        .cons ⟨received, returned, declares.1, stands assignment known⟩ realizes.returns,
        realizes.demanded⟩
    cases found with
    | function types type => exact pushes type _ fun _ known => known.2.result.stands
    | _ => exact (answers_fresh_stands returned).bind fun type =>
        pushes type _ fun _ known => known.2
  | recordDecl | enumerationDecl =>
    obtain ⟨own, -, type, declares, -⟩ := rule rfl
    exact (answers_typeOfDeclaration fits built inside declares.1).bind fun _ =>
      answers_pure fun _ _ => trivial
  | branch condition block =>
    obtain ⟨own, -, -, boolean⟩ := rule rfl
    exact demands boolean
  | loop condition block =>
    obtain ⟨own, -, -, boolean⟩ := rule rfl
    exact demands boolean
  | _ => exact answers_pure fun _ _ => trivial

/-- A node is left as the account says. -/
theorem answers_leave {node : Node} (place : (functions.head?, node) ∈ reached none root) :
    account.Answers stem (functionsBelow functions node) functions given
      (leave account.environment node) fun _ _ => True := by
  cases typed : isTyped node with
  | false =>
    have untyped : leftType? account.environment node = pure none := by
      obtain ⟨id, kind⟩ := node
      cases kind <;> first | rfl | cases typed
    have same : functionsBelow functions node = functions := by
      obtain ⟨id, kind⟩ := node
      cases kind <;> first | rfl | cases typed
    rw [leave, untyped, same]
    exact answers_pure fun _ _ => trivial
  | true =>
    obtain ⟨own, entry, rule⟩ := fits.rules _ place typed
    refine (answers_leftType fits built place rule).bind fun type? => ?_
    cases type? with
    | none => exact answers_pure fun _ _ => trivial
    | some type =>
      refine answers_get.bind fun state => ?_
      cases wanted : state.demanded[node.id]? with
      | none => exact answers_setNodeType entry fun _ known => known.1.2 type rfl
      | some expected =>
        refine Answers.bind (answers_modify (fun _ => rfl) fun other assignment _ realizes => ?_)
          fun _ => (answers_constrain fun assignment known => ?_).bind fun _ =>
            answers_setNodeType entry fun _ known => known.1.1.1.2 type rfl
        · refine ⟨realizes.constraints, realizes.nodes, realizes.declarations, realizes.returns,
            fun id type found => realizes.demanded id type ?_⟩
          rw [Std.TreeMap.getElem?_erase] at found
          split at found
          · cases found
          · exact found
        · exact (known.1.2.demanded _ _ wanted own entry).holds (known.1.1.2 type rfl) (.refl _)

omit fits built in
/-- Tours that go on as the account says may follow each other. -/
theorem models_foldl {children : List Node} {values : List StaticType} {before : State}
    (each : ∀ child ∈ children, ∀ values before, account.Models stem functions values before →
      ∃ more, values <+: more ∧
        account.Models stem functions more (child.collect (visitor account.environment) before))
    (models : account.Models stem functions values before) :
    ∃ more, values <+: more ∧ account.Models stem functions more
      (children.foldl (fun state child => child.collect (visitor account.environment) state)
        before) := by
  induction children generalizing values before with
  | nil => exact ⟨values, List.prefix_refl _, models⟩
  | cons child children ih =>
    obtain ⟨more, longer, modelsNext⟩ := each child List.mem_cons_self values before models
    obtain ⟨all, longest, modelsLast⟩ :=
      ih (fun other mem => each other (List.mem_cons_of_mem _ mem)) modelsNext
    exact ⟨all, longer.trans longest, modelsLast⟩

/-- The tour of a tree goes on as the account says. -/
theorem models_collect {node : Node} (place : (functions.head?, node) ∈ reached none root)
    {values : List StaticType} {before : State}
    (models : account.Models stem functions values before) :
    ∃ more, values <+: more ∧
      account.Models stem functions more (node.collect (visitor account.environment) before) := by
  induction node using Node.children_induction generalizing functions values before with
  | step node ih =>
    obtain ⟨entered, longer, modelsEntered, -⟩ := answers_enter fits built place values before
      models fun _ _ => trivial
    have below : ∃ more, entered <+: more ∧ account.Models stem (functionsBelow functions node) more
        (afterChildren (visitor account.environment) node
          (enter account.environment node before).1
          (enter account.environment node before).2) := by
      unfold afterChildren
      split
      · rename_i descends
        have visits : visited node = node.children := by
          rw [visited, enter_within account.environment node before descends]
          rfl
        refine models_foldl (fun child mem values before models => ih child mem ?_ models)
          modelsEntered
        rw [head?_functionsBelow]
        exact mem_reached_of_visited place (visits ▸ mem)
      · exact ⟨entered, List.prefix_refl _, modelsEntered⟩
    obtain ⟨toured, further, modelsToured⟩ := below
    obtain ⟨all, longest, modelsLeft, -⟩ := answers_leave fits built place toured _ modelsToured
      fun _ _ => trivial
    rw [visitor, Node.collect_eq (enter_descends account.environment)]
    exact ⟨all, (longer.trans further).trans longest, modelsLeft⟩

/-- Inference finds the most general types: some assignment makes all constraints hold, and turns
the types of nodes and declarations into those of the account. -/
theorem Fits.realized (supply : VariableSupply) :
    let typing := Typing.infer root account.environment.scope account.environment.index supply
    ∃ assignment, Unifies assignment typing.constraints.toList ∧
      (∀ (id : NodeId) (type : StaticType), typing.nodes[id]? = some type →
        ∃ own, account.typing.nodes[id]? = some own ∧ account.Stands assignment type own) ∧
      ∀ (id : NodeId) (type : StaticType), typing.declarations[id]? = some type →
        ∃ own, account.typing.declarations[id]? = some own ∧
          account.Matches assignment type own := by
  intro typing
  have start : account.Models supply.stem [] (List.replicate supply.next .unit)
      { typing := { supply } } :=
    { supply := rfl
      taken := List.length_replicate.symm
      realizes := fun assignment _ =>
        { constraints := by simp
          nodes := by simp
          declarations := by simp
          returns := .nil
          demanded := by simp } }
  have place : (([] : List Node).head?, root) ∈ reached none root := self_mem_reached none root
  obtain ⟨values, -, models⟩ := models_collect fits built place start
  obtain ⟨assignment, follows⟩ := exists_follows supply.stem values
  have realizes := models.realizes assignment follows
  exact ⟨assignment, fun constraint mem =>
    realizes.constraints constraint (Array.mem_toList_iff.1 mem), realizes.nodes,
    realizes.declarations⟩

end Tour

end Account

end Inference

open Inference

section Solved

variable {root : Node} {index : NodeIndex} {scope : Scope} {supply : VariableSupply}

/-- The account that inference gives of a tree. -/
def Typing.account (typing : Typing) (environment : Environment) : Account where
  environment
  typing
  solution name := ((({} : Unifier).solveAll typing.constraints.toList).finish.get? name).getD
    (.variable name)

variable (distinct : root.Distinct) (built : NodeIndex.build root = .ok index)
  (tidy : ∀ node ∈ root.preorder, node.Tidy) (top : ¬root.IsCase)

include distinct built tidy top

/-- If the constraints of a tidy tree are solved without an error, then the account that inference
gives of it fits. -/
theorem Typing.fits_of_solved
    (solved : (({} : Unifier).solveAll
      (Typing.infer root scope index supply).constraints.toList).errors = #[]) :
    ((Typing.infer root scope index supply).account { scope, index }).Fits root := by
  have shallow := shallow_of_tidy tidy top built
  have rules (place : Option Node × Node) (mem : place ∈ reached none root)
      (typed : isTyped place.2 = true) := Typing.rules_of_solved distinct built solved mem typed
  refine ⟨rules, Typing.returned_infer distinct built scope supply,
    Typing.suitable_infer_of_shallow distinct built shallow scope supply,
    Typing.linked_infer distinct built shallow.plain scope supply, shallow, ?_, ?_⟩
  · intro node inside name values kind
    obtain ⟨parent, above, among, isEnumeration⟩ :=
      enumeration_of_case tidy top inside ⟨name, values, kind⟩
    refine ⟨parent, NodeIndex.parent?_of_mem built above among, isEnumeration, ?_⟩
    obtain ⟨_, _, _, kind⟩ := isEnumeration
    have declares : parent.declares = true := by
      rw [Node.declares, kind]
      rfl
    obtain ⟨function?, mem⟩ := reached_of_declares tidy above declares none
    obtain ⟨own, -, rule⟩ := rules _ mem (by rw [isTyped, kind])
    rw [Judgment.Rule, kind] at rule
    obtain ⟨type, declared, -⟩ := rule
    exact ⟨type, declared.1⟩
  · intro node inside name generics declarations kind
    refine List.filter_eq_nil_iff.2 fun child mem => ?_
    rw [(tidy node inside).fieldless name generics declarations kind child mem]
    decide

/-- The constraints of a tidy tree are solved without an error exactly if some account of its types
satisfies the typing rules. -/
theorem Typing.solved_iff_fits :
    (({} : Unifier).solveAll
      (Typing.infer root scope index supply).constraints.toList).errors = #[] ↔
    ∃ account : Account, account.environment = { scope, index } ∧ account.Fits root := by
  constructor
  · exact fun solved => ⟨_, rfl, Typing.fits_of_solved distinct built tidy top solved⟩
  · rintro ⟨⟨environment, typing, solution⟩, rfl, fits⟩
    obtain ⟨assignment, unifies, -⟩ := fits.realized built supply
    exact Unifier.solved_of_unifies unifies

end Solved

end DeclLang
