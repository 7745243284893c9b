import Std.Data.TreeMap
import DeclLang.Syntax.Node

/-!
# Indexes and joined programs

An index finds a node and its parent by identity.  It exists exactly for trees whose identities
are pairwise distinct; for the others, building it names the first identity that comes again.

Several programs are compiled as one: their declarations follow each other below a new root.
-/

namespace DeclLang

/-- What is wrong with a tree or a list of trees before any name is looked at. -/
inductive SyntaxError where
  | duplicateNodeId (id : NodeId)
  | notAProgram (found : String)
  deriving DecidableEq, Repr

/-- The text of the error. -/
def SyntaxError.message : SyntaxError → String
  | duplicateNodeId id => "node id " ++ NodeId.text id ++ " appears more than once in the tree"
  | notAProgram found => "expected a program node at the root, found " ++ found

/-- The nodes of a tree and their parents by identity. -/
structure NodeIndex where
  nodes : Std.TreeMap NodeId Node := ∅
  parents : Std.TreeMap NodeId NodeId := ∅

namespace NodeIndex

/-- Adds a node below its parent, and refuses an identity that is already there. -/
def insert (index : NodeIndex) (entry : Option NodeId × Node) : Except SyntaxError NodeIndex :=
  let (parent?, node) := entry
  if index.nodes.contains node.id then
    .error (.duplicateNodeId node.id)
  else
    .ok {
      nodes := index.nodes.insert node.id node
      parents := match parent? with
        | some parent => index.parents.insert node.id parent
        | none => index.parents }

/-- The index of a tree. -/
def build (root : Node) : Except SyntaxError NodeIndex :=
  (root.withParents none).foldlM insert {}

/-- The node with an identity. -/
def get? (index : NodeIndex) (id : NodeId) : Option Node :=
  index.nodes[id]?

/-- The parent of the node with an identity. -/
def parent? (index : NodeIndex) (id : NodeId) : Option Node :=
  index.parents[id]?.bind index.get?

/-- The number of nodes. -/
def size (index : NodeIndex) : Nat :=
  index.nodes.size

end NodeIndex

/-- The declarations of several programs, in order; a root of another kind is refused. -/
def joinedDeclarations (programs : List Node) : Except SyntaxError (List Node) := do
  let declarations ← programs.mapM fun root =>
    match root.kind with
    | .program declarations => .ok declarations
    | other => .error (.notAProgram other.description)
  return declarations.flatten

/-- Joins programs into one program with a given identity. -/
def joinPrograms (id : NodeId) (programs : List Node) : Except SyntaxError Node :=
  (joinedDeclarations programs).map fun declarations => .mk id (.program declarations)

end DeclLang
