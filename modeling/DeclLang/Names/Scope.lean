import Std.Data.TreeSet
import DeclLang.Diagnostics
import DeclLang.Names.Namespace
import DeclLang.Names.ScopeStack

/-!
# Lexical scopes

**Input.**  A tree, its namespace, and perhaps a node at which to look around.

**Algorithm.**  A tour carries a stack of value scopes and a stack of type scopes.  The outermost
scope holds the whole namespace under full paths; a namespace opens a scope with its direct
members, functions, branches and loops open empty ones.  A function is bound when it is entered, a
parameter or a variable when it is left; the fields of a record are bound around the record, once
the record is left.  An identifier is looked up on the stack, a member expression by its dotted
path, relative to every enclosing declaration from the inside out.

**Results.**  Every reference is either resolved to a declaration or undefined.  An undefined
reference is reported as a warning and stops nothing.  With a focus, the tour stops on entering
that node, and the stacks show what is visible there.
-/

namespace DeclLang

/-- What the references of a tree stand for, and the scopes that were open at the end. -/
structure Scope where
  identifiers : Std.TreeMap NodeId NodeId := ∅
  members : Std.TreeMap NodeId NodeId := ∅
  typeNames : Std.TreeMap NodeId NodeId := ∅
  undefinedIdentifiers : Std.TreeSet NodeId := ∅
  undefinedMembers : Std.TreeSet NodeId := ∅
  undefinedTypes : Std.TreeSet NodeId := ∅
  values : ScopeStack NodeId := {}
  types : ScopeStack NodeId := {}

namespace Scope

/-- The declaration that an identifier or a member expression refers to. -/
def resolve (scope : Scope) (reference : NodeId) : Option NodeId :=
  scope.identifiers[reference]?.or scope.members[reference]?

/-- The declaration that a type name refers to. -/
def resolveType (scope : Scope) (reference : NodeId) : Option NodeId :=
  scope.typeNames[reference]?

def isUndefined (scope : Scope) (reference : NodeId) : Bool :=
  scope.undefinedIdentifiers.contains reference || scope.undefinedMembers.contains reference ||
    scope.undefinedTypes.contains reference

/-- The visible values by name. -/
def visibleValues (scope : Scope) : Frame NodeId :=
  scope.values.flatten

/-- The visible types by name. -/
def visibleTypes (scope : Scope) : Frame NodeId :=
  scope.types.flatten

/-- The direct members of a declaration with a given path, under their own names. -/
def membersOf (table : Std.TreeMap String NodeId) (owner : String) : List (String × NodeId) :=
  table.toList.filterMap fun entry =>
    (Path.memberName? owner entry.1).map fun name => (name, entry.2)

/-- Looks up a path relative to the enclosing declarations, from the inside out. -/
def lookupQualified (table : Std.TreeMap String NodeId) (enclosing : List String) (path : String) :
    Option NodeId :=
  (List.range (enclosing.length + 1)).reverse.findSome? fun depth =>
    table[Path.qualify (enclosing.take depth) path]?

/-- The names and identities of the declared generic parameters. -/
def genericBindings (generics : List Node) : List (String × NodeId) :=
  generics.filterMap fun generic => generic.declaredName?.map fun name => (name, generic.id)

/-- The state of the tour: what is resolved so far, the names of the enclosing declarations from
the outside in, how many records are open, and the fields waiting to be bound around them. -/
structure Progress where
  scope : Scope := {}
  enclosing : List String := []
  openRecords : Nat := 0
  fields : List (String × NodeId) := []
  diagnostics : Diagnostics := {}

/-- The steps of the tour. -/
abbrev Resolving := Step ScopeError Progress

/-- Applies a change to the resolved references and scopes. -/
def change (f : Scope → Scope) : Resolving Unit :=
  modify fun progress => { progress with scope := f progress.scope }

def openDeclaration (name : String) : Resolving Unit :=
  modify fun progress => { progress with enclosing := progress.enclosing ++ [name] }

def closeDeclaration : Resolving Unit :=
  modify fun progress => { progress with enclosing := progress.enclosing.dropLast }

/-- Opens an empty value scope. -/
def openValues : Resolving Unit :=
  change fun scope => { scope with values := scope.values.push }

/-- Opens a type scope with generic parameters. -/
def openGenerics (generics : List Node) : Resolving Unit :=
  change fun scope => { scope with types := scope.types.pushFrame (genericBindings generics) }

/-- Closes the innermost value scope. -/
def closeValues : Resolving Unit := do
  match (← get).scope.values.pop with
  | .ok (_, values) => change fun scope => { scope with values }
  | .error error => throw error

/-- Closes the innermost type scope. -/
def closeTypes : Resolving Unit := do
  match (← get).scope.types.pop with
  | .ok (_, types) => change fun scope => { scope with types }
  | .error error => throw error

/-- Binds a value in the innermost scope. -/
def bindValue (name : String) (id : NodeId) : Resolving Unit := do
  match (← get).scope.values.bind name id with
  | .ok (_, values) => change fun scope => { scope with values }
  | .error _ => throw .emptyStack

/-- Reports a reference without a declaration. -/
def warnUndefined (what name : String) (id : NodeId) : Resolving Unit :=
  modify fun progress => { progress with
    diagnostics := progress.diagnostics.warn
      (NodeId.text id ++ ": undefined " ++ what ++ " `" ++ name ++ "`") }

/-- Resolves an identifier on the stack of value scopes. -/
def resolveIdentifier (id : NodeId) (name : String) : Resolving Unit := do
  match (← get).scope.values.lookup name with
  | some declaration =>
    change fun scope => { scope with identifiers := scope.identifiers.insert id declaration }
  | none =>
    change fun scope => { scope with undefinedIdentifiers := scope.undefinedIdentifiers.insert id }
    warnUndefined "identifier" name id

/-- Resolves a member expression by its dotted path. -/
def resolveMember (names : Namespace) (node : Node) (member : String) : Resolving Unit := do
  let enclosing := (← get).enclosing
  match node.dottedPath?.bind (lookupQualified names.values enclosing) with
  | some declaration =>
    change fun scope => { scope with members := scope.members.insert node.id declaration }
  | none =>
    change fun scope => { scope with undefinedMembers := scope.undefinedMembers.insert node.id }
    warnUndefined "member" (node.dottedPath?.getD member) node.id

/-- Resolves a type name on the stack of type scopes, then by path. -/
def resolveTypeName (names : Namespace) (id : NodeId) (name : String) : Resolving Unit := do
  let progress ← get
  match (progress.scope.types.lookup name).or
      (lookupQualified names.types progress.enclosing name) with
  | some declaration =>
    change fun scope => { scope with typeNames := scope.typeNames.insert id declaration }
  | none =>
    change fun scope => { scope with undefinedTypes := scope.undefinedTypes.insert id }
    warnUndefined "type" name id

/-- Opens the scopes of a node, and resolves it if it is a reference. -/
def enter (names : Namespace) (node : Node) : Resolving Direction := do
  match node.kind with
  | .namespaceDecl name _ =>
    openDeclaration name
    let owner := Path.join (← get).enclosing
    change fun scope => { scope with
      values := scope.values.pushFrame (membersOf names.values owner)
      types := scope.types.pushFrame (membersOf names.types owner) }
    return .descend
  | .functionDecl name generics .. =>
    bindValue name node.id
    openDeclaration name
    openValues
    openGenerics generics
    return .descend
  | .recordDecl name generics _ =>
    openDeclaration name
    openGenerics generics
    modify fun progress => { progress with openRecords := progress.openRecords + 1 }
    return .descend
  | .enumerationDecl name generics _ =>
    openDeclaration name
    openGenerics generics
    return .descend
  | .branch .. | .loop .. =>
    openValues
    return .descend
  | .identifier name =>
    resolveIdentifier node.id name
    return .descend
  | .member _ member =>
    resolveMember names node member
    return .pass
  | .typeName name _ =>
    resolveTypeName names node.id name
    return .descend
  | _ => return .descend

/-- Closes the scopes of a node, and binds it if it is a parameter or a variable. -/
def leave (node : Node) : Resolving Unit := do
  match node.kind with
  | .namespaceDecl .. =>
    closeValues
    closeTypes
    closeDeclaration
  | .functionDecl .. =>
    closeTypes
    closeValues
    closeDeclaration
  | .recordDecl .. =>
    closeTypes
    closeDeclaration
    let fields := (← get).fields
    modify fun progress => { progress with openRecords := progress.openRecords - 1, fields := [] }
    for (name, id) in fields do
      bindValue name id
  | .enumerationDecl .. =>
    closeTypes
    closeDeclaration
  | .branch .. | .loop .. => closeValues
  | .parameter name .. => bindValue name node.id
  | .variableDecl name .. =>
    if (← get).openRecords > 0 then
      modify fun progress => { progress with fields := progress.fields ++ [(name, node.id)] }
    else
      bindValue name node.id
  | _ => return

/-- Resolves references until the focus is entered. -/
def visitor (names : Namespace) (focus : Option NodeId) : Visitor ScopeError Progress where
  enter node := if focus = some node.id then return .stop else enter names node
  leave := leave

/-- The scope around the tree: everything in the namespace under its full path. -/
def outermost (names : Namespace) : Scope where
  values := ({} : ScopeStack NodeId).pushFrame names.values.toList
  types := ({} : ScopeStack NodeId).pushFrame names.types.toList

/-- Resolves every reference of a tree that is entered before the focus. -/
def build (root : Node) (names : Namespace) (focus : Option NodeId) :
    Except ScopeError Scope × Diagnostics :=
  match root.tour (visitor names focus) { scope := outermost names } with
  | (.ok _, progress) => (.ok progress.scope, progress.diagnostics)
  | (.error error, progress) => (.error error, progress.diagnostics)

end Scope

end DeclLang
