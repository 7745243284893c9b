import DeclLang.Syntax.Node

/-!
# Tours of a tree

A tour enters a node, tours its children from left to right and leaves the node.  The visitor
carries a state, may fail at either moment, and answers every entrance with where to go next.

`Node.tour_eq` is the equation that every proof about a tour starts from.
-/

namespace DeclLang

/-- Where a tour goes after entering a node. -/
inductive Direction where
  /-- To the children, then leave the node. -/
  | descend
  /-- Past the children, straight to leaving the node. -/
  | pass
  /-- Nowhere: the tour ends at once. -/
  | stop
  deriving DecidableEq, Repr, Inhabited

/-- Steps that carry a state of type `σ` and may fail with an error of type `ε`.  The state reached
before a failure is kept. -/
abbrev Step (ε σ α : Type) := ExceptT ε (StateM σ) α

/-- What happens when a tour enters and leaves a node. -/
structure Visitor (ε σ : Type) where
  enter : Node → Step ε σ Direction := fun _ => pure .descend
  leave : Node → Step ε σ Unit := fun _ => pure ()

variable {ε σ : Type}

/-- Tours the tree, and says whether it came to its end without being stopped. -/
def Node.tour (visitor : Visitor ε σ) (node : Node) : Step ε σ Bool := do
  match ← visitor.enter node with
  | .stop => return false
  | .pass => visitor.leave node; return true
  | .descend =>
    if ← node.children.attach.allM fun ⟨child, _⟩ => child.tour visitor then
      visitor.leave node
      return true
    else
      return false
termination_by sizeOf node
decreasing_by exact Node.sizeOf_lt_of_mem_children ‹_›

private theorem allM_subtype {m : Type → Type} [Monad m] {α : Type} {p : α → Prop}
    (f : α → m Bool) : ∀ l : List { x // p x }, l.allM (fun x => f x.1) = (l.map (·.1)).allM f
  | [] => rfl
  | x :: l => by
    simp only [List.allM, List.map_cons, allM_subtype f l]

/-- A tour enters, goes where the visitor says, and leaves unless it was stopped on the way. -/
theorem Node.tour_eq (visitor : Visitor ε σ) (node : Node) :
    node.tour visitor = (do
      match ← visitor.enter node with
      | .stop => return false
      | .pass => visitor.leave node; return true
      | .descend =>
        if ← node.children.allM (Node.tour visitor) then
          visitor.leave node
          return true
        else
          return false) := by
  rw [Node.tour]
  have children := allM_subtype (Node.tour visitor) node.children.attach
  rw [List.attach_map_subtype_val] at children
  rw [← children]

/-- A visitor that cannot fail. -/
def Visitor.ofTotal (enter : Node → StateM σ Direction) (leave : Node → StateM σ Unit) :
    Visitor Empty σ where
  enter node := ExceptT.lift (enter node)
  leave node := ExceptT.lift (leave node)

/-- The state in which a tour ends, for a visitor that cannot fail. -/
def Node.collect (visitor : Visitor Empty σ) (node : Node) (state : σ) : σ :=
  (node.tour visitor state).2

end DeclLang
