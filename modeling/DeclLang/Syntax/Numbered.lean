import DeclLang.Syntax.Node

/-!
# Numbered trees

Trees that are written down in a program get their identities in preorder: a node is numbered
before its subtrees, and the subtrees from left to right.
-/

namespace DeclLang

/-- Steps that hand out identities; the state is the next one. -/
abbrev Numbered := StateM NodeId

namespace Numbered

/-- A node with the next identity.  Its subtrees are numbered after it. -/
def node (kind : Numbered (Kind Node)) : Numbered Node := do
  let id ← modifyGet fun next => (next, next + 1)
  return .mk id (← kind)

/-- Trees one after the other. -/
def inOrder (trees : List (Numbered Node)) : Numbered (List Node) :=
  trees.mapM id

/-- A tree whose nodes are numbered upwards from `first` on. -/
def startingAt (first : NodeId) (tree : Numbered Node) : Node :=
  (tree.run first).1

end Numbered

end DeclLang
