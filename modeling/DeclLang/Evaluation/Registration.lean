import DeclLang.Evaluation.Evaluate
import DeclLang.Types.Inference

/-!
# The context of a program

Every node that can be evaluated gets a value or a thunk: literals and constructors of enumeration
cases get values, everything else gets a thunk that depends on other nodes.  Nothing is evaluated
yet.  Values carry the inferred types of their nodes.
-/

namespace DeclLang

namespace Registration

/-- What nodes are looked up in. -/
structure Environment where
  scope : Scope
  typing : Typing
  solution : Substitution

/-- The solved type of a node or of a declaration, and the unit type for anything else. -/
def Environment.typeOf (environment : Environment) (id : NodeId) : StaticType :=
  ((environment.typing.typeOf? id).map environment.solution.resolve).getD .unit

/-- The state of the tour: the context so far, and the names of the enclosing declarations from the
outside in. -/
structure State where
  context : Context := {}
  enclosing : List String := []

/-- The steps of the tour. -/
abbrev Register := StateM State

def addValue (id : NodeId) (value : Value) : Register Unit :=
  modify fun state => { state with context := state.context.addValue id value }

def addThunk (id : NodeId) (dependencies : List NodeId) (recipe : Recipe) : Register Unit :=
  modify fun state => { state with context := state.context.addThunk id { dependencies, recipe } }

def openDeclaration (name : String) : Register Unit :=
  modify fun state => { state with enclosing := state.enclosing ++ [name] }

def closeDeclaration : Register Unit :=
  modify fun state => { state with enclosing := state.enclosing.dropLast }

/-- The name of a function with the names of all declarations around it. -/
def fullName (enclosing : List String) (name : String) : String :=
  Path.join (enclosing ++ [name])

/-- The value of a literal. -/
def literalValue : Literal → Value
  | .none => .unit
  | .boolean b => .boolean b
  | .number x => .number x
  | .string s => .string s
  | .color s => .color s

/-- The default of a parameter. -/
def defaultOf? (parameter : Node) : Option NodeId :=
  match parameter.kind with
  | .parameter _ _ default? => default?.map Node.id
  | _ => none

/-- A function without a body that is native gets its value at once; any other function depends on
the defaults of its parameters. -/
def registerFunction (environment : Environment) (node : Node) (name : String)
    (parameters body : List Node) : Register Unit := do
  let path := fullName (← get).enclosing name
  let type := environment.typeOf node.id
  if body.isEmpty && Builtin.isPath path then
    addValue node.id (.mk type (.builtin path))
  else
    addThunk node.id (parameters.filterMap defaultOf?) (.closure path type node)

/-- A record depends on its fields with a default. -/
def registerRecord (environment : Environment) (node : Node) (declarations : List Node) :
    Register Unit :=
  let fields := declarations.filterMap fun field =>
    field.fieldSlot?.map fun slot => (field.id, slot)
  addThunk node.id ((fields.filter fun field => field.2.hasDefault).map Prod.fst)
    (.recordConstructor (environment.typeOf node.id) node.id
      (fields.map fun field => (field.2.name, field.2.hasDefault)))

/-- The label of an argument, and its expression. -/
def labeledExpression (argument : Node) : Option String × Node :=
  match argument.kind with
  | .argument label? expression => (label?, expression)
  | _ => (none, argument)

/-- Whether an argument leaves its slot to the default. -/
def isPlaceholder (expression : Node) : Bool :=
  match expression.kind with
  | .placeholder => true
  | _ => false

/-- A call depends on its callee and on all arguments but placeholders. -/
def registerCall (environment : Environment) (node callee : Node) (arguments : List Node) :
    Register Unit :=
  let written := arguments.map labeledExpression
  let given := written.filter fun argument => !isPlaceholder argument.2
  addThunk node.id (callee.id :: given.map fun argument => argument.2.id)
    (.call (environment.typeOf node.id)
      (written.map fun argument => (argument.1, !isPlaceholder argument.2)))

/-- The right operand of `and` and `or` is only evaluated if the left one does not decide. -/
def registerBinary (node : Node) (operator : Operator) (left right : Node) : Register Unit :=
  match operator with
  | .and => addThunk node.id [] (.shortCircuit false left.id right.id)
  | .or => addThunk node.id [] (.shortCircuit true left.id right.id)
  | operator => addThunk node.id [left.id, right.id] (.operation operator)

/-- Registers a node when it is entered. -/
def enter (environment : Environment) (node : Node) : Register Direction := do
  match node.kind with
  | .namespaceDecl name _ | .enumerationDecl name .. =>
    openDeclaration name
    return .descend
  | .functionDecl name _ parameters _ body =>
    registerFunction environment node name parameters body
    openDeclaration name
    return .descend
  | .recordDecl name _ declarations =>
    registerRecord environment node declarations
    openDeclaration name
    return .descend
  | .enumerationCase name _ =>
    addValue node.id (.mk (environment.typeOf node.id) (.caseConstructor name))
    return .pass
  | .variableDecl _ _ (some initializer) =>
    addThunk node.id [initializer.id] .relay
    return .descend
  | .identifier _ | .member .. =>
    if let some declaration := environment.scope.resolve node.id then
      addThunk node.id [declaration] .relay
    return .pass
  | .call callee arguments =>
    registerCall environment node callee arguments
    return .descend
  | .binary operator left right =>
    registerBinary node operator left right
    return .descend
  | .assignment _ value =>
    addThunk node.id [value.id] .relay
    return .descend
  | .literal value =>
    addValue node.id (literalValue value)
    return .descend
  | .array elements =>
    addThunk node.id (elements.map Node.id) (.array (environment.typeOf node.id))
    return .descend
  | .typeName .. | .functionType .. => return .pass
  | _ => return .descend

/-- Comes out of a declaration when it is left. -/
def leave (node : Node) : Register Unit := do
  match node.kind with
  | .namespaceDecl .. | .functionDecl .. | .recordDecl .. | .enumerationDecl .. => closeDeclaration
  | _ => return

end Registration

/-- The context in which a program is evaluated, before anything is evaluated. -/
def Context.ofProgram (root : Node) (scope : Scope) (typing : Typing) (solution : Substitution) :
    Context :=
  let environment : Registration.Environment := { scope, typing, solution }
  (root.collect (.ofTotal (Registration.enter environment) Registration.leave) {}).context

end DeclLang
