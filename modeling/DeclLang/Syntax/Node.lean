import DeclLang.Syntax.Operator

/-!
# Syntax trees

A program is a tree of nodes.  Every node has an identity, and all later tables (what a name
refers to, which type a node has, which value it evaluates to) are keyed by that identity.

`Kind α` is one layer of syntax with subtrees of type `α`; `Node` ties the knot.  Splitting the
layer from the recursion gives one list of direct subtrees, `Kind.children`, in written order, and
one fact that every recursion over trees rests on: a child is smaller than its parent
(`Node.sizeOf_lt_of_mem_children`).
-/

namespace DeclLang

/-- The identity of a node. -/
abbrev NodeId := Nat

namespace NodeId

/-- The lower-case hexadecimal digit of a number below sixteen. -/
def hexDigit (n : Nat) : Char :=
  if n < 10 then Char.ofNat ('0'.toNat + n) else Char.ofNat ('a'.toNat + (n - 10))

/-- The last `count` hexadecimal digits of a number, most significant first. -/
def hexDigits (count n : Nat) : List Char :=
  (List.range count).reverse.map fun place => hexDigit ((n >>> (4 * place)) % 16)

/-- An identity is written as 32 hexadecimal digits in groups of 8, 4, 4, 4 and 12. -/
def text (id : NodeId) : String :=
  let digits := hexDigits 32 id
  String.intercalate "-"
    ([(0, 8), (8, 4), (12, 4), (16, 4), (20, 12)].map fun group =>
      String.ofList ((digits.drop group.1).take group.2))

end NodeId

/-- Literals without subtrees. -/
inductive Literal where
  | none
  | boolean (value : Bool)
  | number (value : Float)
  | string (value : String)
  | color (value : String)
  deriving Inhabited

/-- One layer of syntax, with subtrees of type `α`. -/
inductive Kind (α : Type) where
  | program (declarations : List α)
  | namespaceDecl (name : String) (declarations : List α)
  | importDecl (name : String)
  | functionDecl (name : String) (generics parameters : List α) (returnType : α) (body : List α)
  | parameter (name : String) (type : α) (default? : Option α)
  | genericParameter (name : String)
  | recordDecl (name : String) (generics declarations : List α)
  | enumerationDecl (name : String) (generics cases : List α)
  | enumerationCase (name : String) (values : List α)
  | variableDecl (name : String) (type? initializer? : Option α)
  | branch (condition : α) (block : List α)
  | loop (condition : α) (block : List α)
  | returnStatement (expression? : Option α)
  | expressionStatement (expression : α)
  | identifier (name : String)
  | member (object : α) (name : String)
  | call (callee : α) (arguments : List α)
  | argument (label? : Option String) (expression : α)
  | placeholder
  | binary (operator : Operator) (left right : α)
  | assignment (target value : α)
  | literal (value : Literal)
  | array (elements : List α)
  | typeName (name : String) (arguments : List α)
  | functionType (arguments : List α) (returnType : α)
  deriving Inhabited

namespace Kind

variable {α : Type}

/-- The direct subtrees in written order. -/
def children : Kind α → List α
  | program declarations => declarations
  | namespaceDecl _ declarations => declarations
  | functionDecl _ generics parameters returnType body =>
    generics ++ parameters ++ returnType :: body
  | parameter _ type default? => type :: default?.toList
  | recordDecl _ generics declarations => generics ++ declarations
  | enumerationDecl _ generics cases => generics ++ cases
  | enumerationCase _ values => values
  | variableDecl _ type? initializer? => type?.toList ++ initializer?.toList
  | branch condition block => condition :: block
  | loop condition block => condition :: block
  | returnStatement expression? => expression?.toList
  | expressionStatement expression => [expression]
  | member object _ => [object]
  | call callee arguments => callee :: arguments
  | argument _ expression => [expression]
  | binary _ left right => [left, right]
  | assignment target value => [target, value]
  | array elements => elements
  | typeName _ arguments => arguments
  | functionType arguments returnType => arguments ++ [returnType]
  | importDecl _ | genericParameter _ | identifier _ | placeholder | literal _ => []

/-- The name that a declaration introduces. -/
def declaredName? : Kind α → Option String
  | namespaceDecl name _ | functionDecl name .. | parameter name .. | genericParameter name
  | recordDecl name .. | enumerationDecl name .. | enumerationCase name _
  | variableDecl name .. => some name
  | _ => none

/-- What a message calls a node of this kind. -/
def description : Kind α → String
  | program _ => "program"
  | namespaceDecl .. => "namespace"
  | importDecl _ => "import"
  | functionDecl .. => "function"
  | parameter .. => "parameter"
  | genericParameter _ => "generic parameter"
  | recordDecl .. => "record"
  | enumerationDecl .. => "enumeration"
  | enumerationCase .. => "enumeration case"
  | variableDecl .. => "variable"
  | branch .. => "branch"
  | loop .. => "loop"
  | returnStatement _ => "return"
  | expressionStatement _ => "expression statement"
  | identifier _ => "identifier"
  | member .. => "member expression"
  | call .. => "call"
  | argument .. => "argument"
  | placeholder => "placeholder"
  | binary .. => "binary expression"
  | assignment .. => "assignment"
  | literal _ | array _ => "literal"
  | typeName .. => "type identifier"
  | functionType .. => "function type"

end Kind

/-- A node of a syntax tree: an identity and a layer of syntax over further nodes. -/
inductive Node where
  | mk (id : NodeId) (kind : Kind Node)
  deriving Inhabited

namespace Node

/-- The identity of the node. -/
def id : Node → NodeId
  | mk id _ => id

/-- The outermost layer of syntax. -/
def kind : Node → Kind Node
  | mk _ kind => kind

@[simp] theorem id_mk (id : NodeId) (kind : Kind Node) : (mk id kind).id = id := rfl

@[simp] theorem kind_mk (id : NodeId) (kind : Kind Node) : (mk id kind).kind = kind := rfl

def children (node : Node) : List Node :=
  node.kind.children

def declaredName? (node : Node) : Option String :=
  node.kind.declaredName?

private theorem sizeOf_add_two_le_of_mem {α : Type} [SizeOf α] {x : α} {l : List α} (h : x ∈ l) :
    sizeOf x + 2 ≤ sizeOf l := by
  induction h with
  | head l =>
    cases l with
    | nil =>
      rw [List.cons.sizeOf_spec, List.nil.sizeOf_spec]
      omega
    | cons y l =>
      rw [List.cons.sizeOf_spec, List.cons.sizeOf_spec]
      omega
  | tail y _ ih =>
    rw [List.cons.sizeOf_spec]
    omega

private theorem sizeOf_append_add_one {α : Type} [SizeOf α] (l m : List α) :
    sizeOf (l ++ m) + 1 = sizeOf l + sizeOf m := by
  induction l with
  | nil => simp; omega
  | cons x l ih => simp; omega

private theorem sizeOf_toList_le {α : Type} [SizeOf α] (x? : Option α) :
    sizeOf x?.toList ≤ sizeOf x? + 1 := by
  cases x? <;> simp

private theorem sizeOf_children_le (node : Node) : sizeOf node.children ≤ sizeOf node + 1 := by
  obtain ⟨id, kind⟩ := node
  cases kind <;> simp [children, Kind.children]
  case functionDecl name generics parameters returnType body =>
    have := sizeOf_append_add_one (generics ++ parameters) (returnType :: body)
    have := sizeOf_append_add_one generics parameters
    simp at *
    omega
  case parameter name type default? =>
    have := sizeOf_toList_le default?
    omega
  case recordDecl name generics declarations =>
    have := sizeOf_append_add_one generics declarations
    omega
  case enumerationDecl name generics cases =>
    have := sizeOf_append_add_one generics cases
    omega
  case variableDecl name type? initializer? =>
    have := sizeOf_append_add_one type?.toList initializer?.toList
    have := sizeOf_toList_le type?
    have := sizeOf_toList_le initializer?
    omega
  case returnStatement expression? =>
    have := sizeOf_toList_le expression?
    omega
  case functionType arguments returnType =>
    have := sizeOf_append_add_one arguments [returnType]
    simp at *
    omega
  all_goals omega

/-- A child is smaller than its parent, so recursion over children ends. -/
theorem sizeOf_lt_of_mem_children {node child : Node} (h : child ∈ node.children) :
    sizeOf child < sizeOf node := by
  have := sizeOf_add_two_le_of_mem h
  have := sizeOf_children_le node
  omega

/-- To prove a fact of every tree it is enough to derive it from the children of a node. -/
theorem children_induction {motive : Node → Prop}
    (step : ∀ node, (∀ child ∈ node.children, motive child) → motive node) (node : Node) :
    motive node :=
  step node fun child h =>
    have := sizeOf_lt_of_mem_children h
    children_induction step child
termination_by sizeOf node

/-- The nodes of the tree, each before its children, each with its parent if it has one. -/
def withParents (parent? : Option NodeId) (node : Node) : List (Option NodeId × Node) :=
  (parent?, node) :: node.children.attach.flatMap fun ⟨child, _⟩ =>
    withParents (some node.id) child
termination_by sizeOf node
decreasing_by exact sizeOf_lt_of_mem_children ‹_›

/-- The nodes of the tree, each before its children, children in written order. -/
def preorder (node : Node) : List Node :=
  node :: node.children.attach.flatMap fun ⟨child, _⟩ => preorder child
termination_by sizeOf node
decreasing_by exact sizeOf_lt_of_mem_children ‹_›

/-- The nodes of the tree except its root. -/
def descendants (node : Node) : List Node :=
  node.children.flatMap preorder

theorem preorder_eq (node : Node) : node.preorder = node :: node.descendants := by
  rw [preorder, descendants]
  simp [List.flatMap_subtype]

end Node

end DeclLang
