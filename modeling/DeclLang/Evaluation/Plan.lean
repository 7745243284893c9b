import DeclLang.Names.Scope

/-!
# Execution plans

What executing statements has to know about a tree beforehand: which nodes are computed anew for
every call of a function and every turn of a loop, which declaration an assignment writes to, and
which declarations the initializer of a variable reads.
-/

namespace DeclLang

/-- Facts about the functions, loops, assignments and variables of a tree. -/
structure Plan where
  subtrees : Std.TreeMap NodeId (List NodeId) := ∅
  targets : Std.TreeMap NodeId NodeId := ∅
  reads : Std.TreeMap NodeId (List NodeId) := ∅

namespace Plan

/-- The nodes below a function or a loop. -/
def subtree (plan : Plan) (id : NodeId) : List NodeId :=
  plan.subtrees[id]?.getD []

/-- The declaration that an assignment writes to. -/
def target? (plan : Plan) (assignment : NodeId) : Option NodeId :=
  plan.targets[assignment]?

/-- The declarations that the initializer of a variable refers to. -/
def readsOf (plan : Plan) (declaration : NodeId) : List NodeId :=
  plan.reads[declaration]?.getD []

/-- Adds the facts about one node. -/
def note (scope : Scope) (plan : Plan) (node : Node) : Plan :=
  match node.kind with
  | .functionDecl .. | .loop .. =>
    { plan with subtrees := plan.subtrees.insert node.id (node.descendants.map Node.id) }
  | .assignment target _ =>
    match scope.resolve target.id with
    | some declaration => { plan with targets := plan.targets.insert node.id declaration }
    | none => plan
  | .variableDecl _ _ (some initializer) =>
    { plan with
      reads := plan.reads.insert node.id
        (initializer.preorder.filterMap fun part => scope.resolve part.id) }
  | _ => plan

/-- Collects facts everywhere but inside annotations. -/
def visitor (scope : Scope) : Visitor Empty Plan :=
  .ofTotal
    (fun node => do
      modify fun plan => plan.note scope node
      match node.kind with
      | .typeName .. | .functionType .. => return .pass
      | _ => return .descend)
    (fun _ => return)

/-- The plan of a tree. -/
def build (root : Node) (scope : Scope) : Plan :=
  root.collect (visitor scope) {}

end Plan

end DeclLang
