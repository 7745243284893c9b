import Std.Data.TreeMap
import DeclLang.Syntax.Path
import DeclLang.Syntax.Tour
import DeclLang.Types.StaticType

/-!
# The namespace of a program

Every declaration that can be reached by a dotted path, in one table for values and one for types.

Namespaces, functions, records and enumerations contribute their name to the paths below them.
Functions, parameters, variables and enumeration cases are values; records and enumerations are
types, and a record is also the value that constructs it, unless its name is one of the types that
the language itself gives meaning to.  What stands inside a branch, a loop or an expression has no
path.  Two declarations of one kind with one path collide.
-/

namespace DeclLang

/-- Whether a name stands for a value or for a type. -/
inductive NameKind where
  | value
  | type
  deriving DecidableEq, Repr

def NameKind.text : NameKind → String
  | value => "value"
  | type => "type"

/-- Two declarations of one kind with one path. -/
structure Collision where
  kind : NameKind
  path : String
  first : NodeId
  second : NodeId
  deriving DecidableEq, Repr

/-- The text of the error. -/
def Collision.message (collision : Collision) : String :=
  collision.kind.text ++ " `" ++ collision.path ++ "` is declared twice (" ++
    NodeId.text collision.first ++ " and " ++ NodeId.text collision.second ++ ")"

/-- The declarations of a program by path. -/
structure Namespace where
  values : Std.TreeMap String NodeId := ∅
  types : Std.TreeMap String NodeId := ∅

namespace Namespace

/-- The table of one kind. -/
def table (names : Namespace) : NameKind → Std.TreeMap String NodeId
  | .value => names.values
  | .type => names.types

/-- Adds a declaration, unless there is one of that kind with that path. -/
def register (names : Namespace) (kind : NameKind) (path : String) (id : NodeId) :
    Except Collision Namespace :=
  match (names.table kind)[path]?, kind with
  | some first, _ => .error { kind, path, first, second := id }
  | none, .value => .ok { names with values := names.values.insert path id }
  | none, .type => .ok { names with types := names.types.insert path id }

/-- The state of the tour: the names found so far, and the names of the declarations around the
current node, the outermost first. -/
structure Progress where
  names : Namespace := {}
  enclosing : List String := []

/-- Registers a declaration at the current place. -/
def declare (kind : NameKind) (name : String) (id : NodeId) : Step Collision Progress Unit := do
  let progress ← get
  match progress.names.register kind (Path.qualify progress.enclosing name) id with
  | .ok names => set { progress with names }
  | .error collision => throw collision

/-- Goes into a declaration with a name. -/
def openDeclaration (name : String) : Step Collision Progress Unit :=
  modify fun progress => { progress with enclosing := progress.enclosing ++ [name] }

/-- Comes back out of a declaration. -/
def closeDeclaration : Step Collision Progress Unit :=
  modify fun progress => { progress with enclosing := progress.enclosing.dropLast }

/-- Registers the declarations of a tree. -/
def visitor : Visitor Collision Progress where
  enter node := do
    match node.kind with
    | .program _ => return .descend
    | .namespaceDecl name _ =>
      openDeclaration name
      return .descend
    | .functionDecl name .. =>
      declare .value name node.id
      openDeclaration name
      return .descend
    | .parameter name .. | .variableDecl name .. =>
      declare .value name node.id
      return .pass
    | .recordDecl name .. =>
      declare .type name node.id
      if !StaticType.builtinNames.contains name then
        declare .value name node.id
      openDeclaration name
      return .descend
    | .enumerationDecl name .. =>
      declare .type name node.id
      openDeclaration name
      return .pass
    | _ => return .pass
  leave node := do
    match node.kind with
    | .enumerationDecl _ _ cases =>
      for member in cases do
        if let .enumerationCase name _ := member.kind then
          declare .value name member.id
      closeDeclaration
    | .namespaceDecl .. | .functionDecl .. | .recordDecl .. => closeDeclaration
    | _ => return

/-- The namespace of a tree. -/
def build (root : Node) : Except Collision Namespace :=
  match root.tour visitor {} with
  | (.ok _, progress) => .ok progress.names
  | (.error collision, _) => .error collision

end Namespace

end DeclLang
