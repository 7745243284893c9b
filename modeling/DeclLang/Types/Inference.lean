import DeclLang.Names.Scope
import DeclLang.Syntax.Arguments
import DeclLang.Syntax.Index
import DeclLang.Types.FreshVariable
import DeclLang.Types.Unifier

/-!
# Type inference

**Input.**  A tree with resolved references.

**Algorithm.**  One tour gives every expression and declaration a type, fresh variables standing for
what is not known yet, and collects the constraints that the typing rules demand.  The type of a
declaration is worked out from its annotations when it is first needed, and kept.  Every reference
to a function, a record or an enumeration case gets fresh variables in place of its generic
parameters.  A condition is demanded to be a boolean when it is left; a `return` is held against
the innermost enclosing function.

**Results.**  The constraints in the order of their generation, the types of nodes and of
declarations before solving, and the rest of the supply of variables.
-/

namespace DeclLang

/-- What inference finds out about a tree before its constraints are solved. -/
structure Typing where
  constraints : Array Constraint := #[]
  nodes : Std.TreeMap NodeId StaticType := ∅
  declarations : Std.TreeMap NodeId StaticType := ∅
  supply : VariableSupply := {}

/-- The type of a node, or else of a declaration, before solving. -/
def Typing.typeOf? (typing : Typing) (id : NodeId) : Option StaticType :=
  typing.nodes[id]?.or typing.declarations[id]?

namespace Inference

/-- What the tour looks things up in. -/
structure Environment where
  scope : Scope
  index : NodeIndex

/-- The state of the tour: the result so far, the return types of the enclosing functions from the
inside out, the types demanded of nodes that are still to be left, and whether the type of a
declaration was found to contain itself. -/
structure State where
  typing : Typing := {}
  returnTypes : List StaticType := []
  demanded : Std.TreeMap NodeId StaticType := ∅
  selfContained : Bool := false

/-- The steps of the tour. -/
abbrev Infer := StateM State

/-- Takes a fresh variable. -/
def fresh : Infer StaticType :=
  modifyGet fun state =>
    let (type, supply) := state.typing.supply.takeVariable
    (type, { state with typing := { state.typing with supply } })

/-- Takes a fresh variable for each of several names. -/
def freshFor : List String → Infer (List (String × StaticType))
  | [] => return []
  | name :: names => do
    let type ← fresh
    let rest ← freshFor names
    return (name, type) :: rest

/-- Demands that two types become equal. -/
def constrain (head tail : StaticType) (origin : NodeId) : Infer Unit :=
  modify fun state => { state with
    typing := { state.typing with
      constraints := state.typing.constraints.push { head, tail, origin } } }

/-- Gives a node its type. -/
def setNodeType (id : NodeId) (type : StaticType) : Infer Unit :=
  modify fun state => { state with
    typing := { state.typing with nodes := state.typing.nodes.insert id type } }

/-- Gives a declaration its type. -/
def setDeclarationType (id : NodeId) (type : StaticType) : Infer Unit :=
  modify fun state => { state with
    typing := { state.typing with declarations := state.typing.declarations.insert id type } }

/-- The type of a node; one that has none yet gets a fresh variable. -/
def typeOf (node : Node) : Infer StaticType := do
  match (← get).typing.nodes[node.id]? with
  | some type => return type
  | none =>
    let type ← fresh
    setNodeType node.id type
    return type

/-- The generic parameters of a declaration as types. -/
def genericTypes (generics : List Node) : List StaticType :=
  generics.filterMap fun generic => generic.declaredName?.map StaticType.generic

/-- The declaration that a type name refers to. -/
def Environment.typeDeclaration? (environment : Environment) (id : NodeId) : Option Node :=
  (environment.scope.resolveType id).bind environment.index.get?

/-- The declaration that an identifier or a member expression refers to. -/
def Environment.declaration? (environment : Environment) (id : NodeId) : Option Node :=
  (environment.scope.resolve id).bind environment.index.get?

/-- The type that an annotation denotes.  A name without a declaration denotes a constant of that
name; a name of something that is no type, and anything that is no annotation, a fresh variable. -/
def annotationType (environment : Environment) (node : Node) : Infer StaticType := do
  match _h : node.kind with
  | .typeName name arguments =>
    let parameters ← arguments.attach.mapM fun ⟨argument, _⟩ =>
      annotationType environment argument
    match (environment.typeDeclaration? node.id).map Node.kind with
    | some (.genericParameter generic) => return .generic generic
    | some (.recordDecl declared ..) | some (.enumerationDecl declared ..) =>
      return .constant declared parameters
    | some _ => fresh
    | none => return .constant name parameters
  | .functionType arguments result =>
    let parameters ← arguments.attach.mapM fun ⟨argument, _⟩ => do
      return (none, ← annotationType environment argument)
    return .function parameters (← annotationType environment result)
  | _ => fresh
termination_by sizeOf node
decreasing_by
  all_goals exact Node.sizeOf_lt_of_mem_children (by simp_all [Node.children, Kind.children])

/-- The type of a declaration, worked out on first use: a function takes its parameters to its
return type, a record its fields to the record, an enumeration case its values to the enumeration
around it, a variable and a parameter have the type of their annotation.

The way goes up from cases and down into parameters, at most `steps` times; only a case among the
parameters of a function could go on for ever. -/
def declarationType (environment : Environment) : Nat → Node → Infer StaticType
  | 0, _ => do
    modify fun state => { state with selfContained := true }
    fresh
  | steps + 1, node => do
    if let some type := (← get).typing.declarations[node.id]? then
      return type
    let labeled (part : Node) : Infer (Option String × StaticType) := do
      return (part.declaredName?, ← declarationType environment steps part)
    let type ← match node.kind with
      | .functionDecl _ _ parameters result _ => do
        let parameters ← parameters.mapM labeled
        pure (.function parameters (← annotationType environment result))
      | .recordDecl name generics declarations => do
        let fields ← (declarations.filter fun field => field.fieldSlot?.isSome).mapM labeled
        pure (.function fields (.constant name (genericTypes generics)))
      | .enumerationDecl name generics _ => pure (.constant name (genericTypes generics))
      | .enumerationCase _ values => do
        let enumeration ← match environment.index.parent? node.id with
          | some parent => declarationType environment steps parent
          | none => fresh
        let parameters ← values.mapM fun value => do
          return (none, ← annotationType environment value)
        pure (.function parameters enumeration)
      | .parameter _ type _ | .variableDecl _ (some type) _ => annotationType environment type
      | .genericParameter name => pure (.generic name)
      | _ => fresh
    setDeclarationType node.id type
    return type

/-- The type of a declaration.  No way up and down the tree is longer than twice its size. -/
def typeOfDeclaration (environment : Environment) (node : Node) : Infer StaticType :=
  declarationType environment (2 * environment.index.size + 1) node

/-- Whether references to the node get fresh variables in place of its generic parameters. -/
def isPolymorphic (node : Node) : Bool :=
  match node.kind with
  | .functionDecl .. | .recordDecl .. | .enumerationCase .. => true
  | _ => false

/-- The type of a reference. -/
def referenceType (environment : Environment) (id : NodeId) : Infer StaticType := do
  match environment.declaration? id with
  | none => fresh
  | some declaration =>
    let type ← typeOfDeclaration environment declaration
    if isPolymorphic declaration && type.hasGenerics then
      let replacements ← freshFor type.genericNames
      return type.replaceGenerics fun name => replacements.lookup name
    else
      return type

/-- The type of an array literal. -/
def arrayType (node : Node) (elements : List Node) : Infer StaticType := do
  let element ← fresh
  for item in elements do
    constrain element (← typeOf item) node.id
  return .array element

/-- The type of a literal. -/
def literalType : Literal → StaticType
  | .none => .unit
  | .boolean _ => .boolean
  | .number _ => .number
  | .string _ => .string
  | .color _ => .color

/-- An argument with the label that it is written with. -/
def labeledArgument (argument : Node) : Option String × Node :=
  match argument.kind with
  | .argument label? _ => (label?, argument)
  | _ => (none, argument)

/-- The arguments by slot, if they fit the slots and no slot without a default stays empty. -/
def slotted? (slots : List Slot) (arguments : List Node) :
    Option (List (Option String × Option Node)) :=
  match align slots (arguments.map labeledArgument) with
  | .error _ => none
  | .ok filled =>
    if (filled.zip slots).all fun pair => pair.1.isSome || pair.2.hasDefault then
      some ((slots.map fun slot => some slot.name).zip filled)
    else none

/-- The arguments of a call as the callee sees them: by slot if they fit its slots, else as they
are written, so that solving the constraints reports the wrong number of arguments. -/
def receivedArguments (environment : Environment) (callee : Node) (arguments : List Node) :
    List (Option String × Option Node) :=
  let slots? := (environment.declaration? callee.id).bind Node.slots?
  (slots?.bind fun slots => slotted? slots arguments).getD
    ((arguments.map labeledArgument).map fun argument => (argument.1, some argument.2))

/-- Takes a variable for each received argument, and collects what the arguments demand of them. -/
def argumentSlots :
    List (Option String × Option Node) →
      Infer (List (Option String × StaticType) × List Constraint)
  | [] => return ([], [])
  | (label?, argument?) :: arguments => do
    let slot ← fresh
    let demands ← match argument? with
      | some argument => do
        pure [{ head := slot, tail := ← typeOf argument, origin := argument.id : Constraint }]
      | none => pure []
    let (slots, constraints) ← argumentSlots arguments
    return ((label?, slot) :: slots, demands ++ constraints)

/-- The type of a call.  The callee is constrained before the arguments. -/
def callType (environment : Environment) (node callee : Node) (arguments : List Node) :
    Infer StaticType := do
  let result ← fresh
  let calleeType ← typeOf callee
  let (slots, constraints) ←
    argumentSlots (receivedArguments environment callee arguments)
  constrain calleeType (.function slots result) node.id
  for demand in constraints do
    constrain demand.head demand.tail demand.origin
  return result

/-- The type of both operands and the type of the result, for all operators but equality. -/
def operandTypes (operator : Operator) : StaticType × StaticType :=
  if operator.isArithmetic then (.number, .number)
  else if operator.isOrdering then (.number, .boolean)
  else (.boolean, .boolean)

/-- The type of a binary expression. -/
def binaryType (node : Node) (operator : Operator) (left right : Node) : Infer StaticType := do
  let leftType ← typeOf left
  let rightType ← typeOf right
  match operator with
  | .equal | .notEqual =>
    constrain leftType rightType node.id
    return .boolean
  | operator =>
    let (operand, result) := operandTypes operator
    constrain operand leftType node.id
    constrain operand rightType node.id
    return result

/-- The declared type of a variable or a parameter, held against its initializer or default. -/
def initializedType (environment : Environment) (node : Node) (initializer? : Option Node) :
    Infer StaticType := do
  let declared ← typeOfDeclaration environment node
  if let some initializer := initializer? then
    constrain declared (← typeOf initializer) node.id
  return declared

/-- Prepares a node whose children are toured next. -/
def enter (environment : Environment) (node : Node) : Infer Direction := do
  match node.kind with
  | .functionDecl .. =>
    let result ← match ← typeOfDeclaration environment node with
      | .function _ result => pure result
      | _ => fresh
    modify fun state => { state with returnTypes := result :: state.returnTypes }
    return .descend
  | .recordDecl .. | .enumerationDecl .. =>
    let _ ← typeOfDeclaration environment node
    return .descend
  | .branch condition _ | .loop condition _ =>
    modify fun state => { state with demanded := state.demanded.insert condition.id .boolean }
    return .descend
  | .member .. | .enumerationCase .. | .typeName .. | .functionType .. => return .pass
  | _ => return .descend

/-- The type of a node after its children were toured, if it is a node with a type. -/
def leftType? (environment : Environment) (node : Node) : Infer (Option StaticType) := do
  match node.kind with
  | .literal value => return some (literalType value)
  | .array elements => return some (← arrayType node elements)
  | .identifier _ | .member .. => return some (← referenceType environment node.id)
  | .call callee arguments => return some (← callType environment node callee arguments)
  | .argument _ expression | .expressionStatement expression => return some (← typeOf expression)
  | .placeholder => return some (← fresh)
  | .binary operator left right => return some (← binaryType node operator left right)
  | .assignment target value =>
    let targetType ← typeOf target
    let valueType ← typeOf value
    constrain targetType valueType node.id
    return some .unit
  | .functionDecl .. =>
    modify fun state => { state with returnTypes := state.returnTypes.tail }
    return some (← typeOfDeclaration environment node)
  | .recordDecl .. | .enumerationDecl .. | .enumerationCase .. =>
    return some (← typeOfDeclaration environment node)
  | .variableDecl _ _ initializer? => return some (← initializedType environment node initializer?)
  | .parameter _ _ default? => return some (← initializedType environment node default?)
  | .returnStatement expression? =>
    let returned ← match expression? with
      | some expression => typeOf expression
      | none => pure .unit
    if let some expected := (← get).returnTypes.head? then
      constrain expected returned node.id
    return some .unit
  | .branch .. | .loop .. => return some .unit
  | .program _ | .namespaceDecl .. | .importDecl _ | .genericParameter _ | .typeName ..
  | .functionType .. => return none

/-- Gives a node its type when it is left, and holds it against what is demanded of the node. -/
def leave (environment : Environment) (node : Node) : Infer Unit := do
  if let some type ← leftType? environment node then
    if let some expected := (← get).demanded[node.id]? then
      modify fun state => { state with demanded := state.demanded.erase node.id }
      constrain expected type node.id
    setNodeType node.id type

/-- The visitor of the tour. -/
def visitor (environment : Environment) : Visitor Empty State :=
  .ofTotal (enter environment) (leave environment)

end Inference

/-- Infers the types of a tree. -/
def Typing.infer (root : Node) (scope : Scope) (index : NodeIndex) (supply : VariableSupply) :
    Typing :=
  (root.collect (Inference.visitor { scope, index }) { typing := { supply } }).typing

end DeclLang
