import DeclLang.Proofs.Moments

/-!
# Inference step by step

Inference as it goes, with everything written down that it comes past.

**Construction.**  A walk takes the steps of inference one at a time.  A single step enters at most
one type into the tables; what it leaves behind is the next state of the trail.  The type that a
node is found to have, or is given for the time being, is handed out to whoever asks for it, and
that is written down too.  There is one walk for every operation of inference.

That walks come to what inference comes to, and what their trails are like, is shown of single
declarations first and then of the whole tour.
-/

namespace DeclLang

namespace Inference

/-- How far inference has come: its state, the states that it came through, the latest first, and
the types that were handed out for nodes. -/
structure Trail where
  state : State
  passed : List State := []
  handed : List (NodeId × StaticType) := []

/-- All states of the trail, the earliest first. -/
def Trail.states (trail : Trail) : List State :=
  (trail.state :: trail.passed).reverse

/-- The trail after one more step. -/
def Trail.step (trail : Trail) (state : State) : Trail :=
  { trail with state, passed := trail.state :: trail.passed }

theorem Trail.states_step (trail : Trail) (state : State) :
    (trail.step state).states = trail.states ++ [state] := by
  simp [Trail.step, Trail.states]

/-- Steps that leave a trail. -/
abbrev Walk := StateM Trail

namespace Walk

variable {α : Type}

/-- Takes a single step of inference. -/
def take (step : Infer α) : Walk α := fun trail =>
  let (a, state) := step trail.state
  (a, trail.step state)

/-- The current state. -/
def state : Walk State :=
  return (← get).state

/-- Writes down that a type was handed out for a node. -/
def hand (id : NodeId) (type : StaticType) : Walk Unit :=
  modify fun trail => { trail with handed := (id, type) :: trail.handed }

/-- The type of a node; one that has none yet gets a fresh variable. -/
def typeOf (node : Node) : Walk StaticType := do
  let type ← take (Inference.typeOf node)
  hand node.id type
  return type

section Tour

variable (environment : Environment)

/-- The types of values without labels. -/
def valueTypes (values : List Node) : Walk (List (Option String × StaticType)) :=
  values.mapM fun value => do return (none, ← take (annotationType environment value))

/-- The type that a declaration is written with, once it is known how to work out the types of its
parts. -/
def writtenType (typeOfPart : Node → Walk StaticType) (node : Node) : Walk StaticType :=
  match node.kind with
  | .functionDecl _ _ parameters result _ => do
    let parameters ← parameters.mapM fun part => do
      return (part.declaredName?, ← typeOfPart part)
    return .function parameters (← take (annotationType environment result))
  | .recordDecl name generics declarations => do
    let fields ← (declarations.filter fun field => field.fieldSlot?.isSome).mapM fun part => do
      return (part.declaredName?, ← typeOfPart part)
    return .function fields (.constant name (genericTypes generics))
  | .enumerationDecl name generics _ => return .constant name (genericTypes generics)
  | .enumerationCase _ values => do
    let enumeration ← ((environment.index.parent? node.id).map typeOfPart).getD (take fresh)
    return .function (← valueTypes environment values) enumeration
  | .parameter _ type _ | .variableDecl _ (some type) _ => take (annotationType environment type)
  | .genericParameter name => return .generic name
  | _ => take fresh

/-- The type of a declaration, worked out on first use. -/
def declarationType : Nat → Node → Walk StaticType
  | 0, node => take (Inference.declarationType environment 0 node)
  | steps + 1, node => do
    match (← state).typing.declarations[node.id]? with
    | some type => return type
    | none =>
      let type ← writtenType environment (declarationType steps) node
      take (setDeclarationType node.id type)
      return type

/-- The type of a declaration. -/
def typeOfDeclaration (node : Node) : Walk StaticType :=
  declarationType environment (2 * environment.index.size + 1) node

/-- The type of a reference. -/
def referenceType (id : NodeId) : Walk StaticType := do
  match environment.declaration? id with
  | none => take fresh
  | some declaration =>
    let type ← typeOfDeclaration environment declaration
    if isPolymorphic declaration && type.hasGenerics then
      let replacements ← take (freshFor type.genericNames)
      return type.replaceGenerics fun name => replacements.lookup name
    else
      return type

/-- The type of an array literal. -/
def arrayType (node : Node) (elements : List Node) : Walk StaticType := do
  let element ← take fresh
  for item in elements do
    take (constrain element (← typeOf item) node.id)
  return .array element

/-- Takes a variable for each received argument, and collects what the arguments demand of them. -/
def argumentSlots :
    List (Option String × Option Node) →
      Walk (List (Option String × StaticType) × List Constraint)
  | [] => return ([], [])
  | (label?, argument?) :: arguments => do
    let slot ← take fresh
    let demands ← match argument? with
      | some argument => do
        pure [{ head := slot, tail := ← typeOf argument, origin := argument.id : Constraint }]
      | none => pure []
    let (slots, constraints) ← argumentSlots arguments
    return ((label?, slot) :: slots, demands ++ constraints)

/-- The type of a call. -/
def callType (node callee : Node) (arguments : List Node) : Walk StaticType := do
  let result ← take fresh
  let calleeType ← typeOf callee
  let (slots, constraints) ← argumentSlots (receivedArguments environment callee arguments)
  take (constrain calleeType (.function slots result) node.id)
  for demand in constraints do
    take (constrain demand.head demand.tail demand.origin)
  return result

/-- The type of a binary expression. -/
def binaryType (node : Node) (operator : Operator) (left right : Node) : Walk StaticType := do
  let leftType ← typeOf left
  let rightType ← typeOf right
  match operator with
  | .equal | .notEqual =>
    take (constrain leftType rightType node.id)
    return .boolean
  | operator =>
    let (operand, result) := operandTypes operator
    take (constrain operand leftType node.id)
    take (constrain operand rightType node.id)
    return result

/-- The declared type of a variable or a parameter, held against its initializer or default. -/
def initializedType (node : Node) (initializer? : Option Node) : Walk StaticType := do
  let declared ← typeOfDeclaration environment node
  if let some initializer := initializer? then
    take (constrain declared (← typeOf initializer) node.id)
  return declared

/-- Prepares a node whose children are toured next. -/
def enter (node : Node) : Walk Direction := do
  match node.kind with
  | .functionDecl .. =>
    let result ← match ← typeOfDeclaration environment node with
      | .function _ result => pure result
      | _ => take fresh
    take (modify fun state => { state with returnTypes := result :: state.returnTypes })
    return .descend
  | .recordDecl .. | .enumerationDecl .. =>
    let _ ← typeOfDeclaration environment node
    return .descend
  | .branch condition _ | .loop condition _ =>
    take (modify fun state =>
      { state with demanded := state.demanded.insert condition.id .boolean })
    return .descend
  | .member .. | .enumerationCase .. | .typeName .. | .functionType .. => return .pass
  | _ => return .descend

/-- The type of a node after its children were toured, if it is a node with a type. -/
def leftType? (node : Node) : Walk (Option StaticType) := do
  match node.kind with
  | .literal value => return some (literalType value)
  | .array elements => return some (← arrayType node elements)
  | .identifier _ | .member .. => return some (← referenceType environment node.id)
  | .call callee arguments => return some (← callType environment node callee arguments)
  | .argument _ expression | .expressionStatement expression => return some (← typeOf expression)
  | .placeholder => return some (← take fresh)
  | .binary operator left right => return some (← binaryType node operator left right)
  | .assignment target value =>
    let targetType ← typeOf target
    let valueType ← typeOf value
    take (constrain targetType valueType node.id)
    return some .unit
  | .functionDecl .. =>
    take (modify fun state => { state with returnTypes := state.returnTypes.tail })
    return some (← typeOfDeclaration environment node)
  | .recordDecl .. | .enumerationDecl .. | .enumerationCase .. =>
    return some (← typeOfDeclaration environment node)
  | .variableDecl _ _ initializer? => return some (← initializedType environment node initializer?)
  | .parameter _ _ default? => return some (← initializedType environment node default?)
  | .returnStatement expression? =>
    let returned ← match expression? with
      | some expression => typeOf expression
      | none => pure .unit
    if let some expected := (← state).returnTypes.head? then
      take (constrain expected returned node.id)
    return some .unit
  | .branch .. | .loop .. => return some .unit
  | .program _ | .namespaceDecl .. | .importDecl _ | .genericParameter _ | .typeName ..
  | .functionType .. => return none

/-- Gives a node its type when it is left, and holds it against what is demanded of the node. -/
def leave (node : Node) : Walk Unit := do
  if let some type ← leftType? environment node then
    if let some expected := (← state).demanded[node.id]? then
      take (modify fun state => { state with demanded := state.demanded.erase node.id })
      take (constrain expected type node.id)
    take (setNodeType node.id type)

/-- Walks on through one moment of the tour. -/
def advance : Moment → Walk Unit
  | .entering node => do
    let _ ← enter environment node
  | .leaving node => leave environment node

/-- Walks through a stretch of the tour. -/
def through : List Moment → Walk Unit
  | [] => return
  | moment :: stretch => do
    advance environment moment
    through stretch

end Tour

end Walk

end Inference

end DeclLang
