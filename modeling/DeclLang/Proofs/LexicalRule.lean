import DeclLang.Names.Namespace
import DeclLang.Proofs.Places

/-!
# The rule of lexical scopes

**Input.**  The namespace of a tree, and the place of a reference in the tree.

**Algorithm.**  The reference looks outwards over the scopes around it, which functions, namespaces,
branches, loops and the whole tree have.  A scope gives a name to what was bound there most recently
before the reference: a variable or a parameter is bound when it is complete, a function as soon as
it begins, in the scope around it, and the fields of a record when the record is complete, around
the record.  A name that was not bound there is one of the namespace: a member of the namespace that
the scope belongs to, or in the scope of the whole tree a declaration at top level.

**Results.**  `Node.bindings`, `scopesAround` and `declarationOf?` say this without a tour.
`Node.HoldsFields` is what the rule asks of records.
-/

namespace DeclLang

namespace Node

/-- What a node that is complete has bound in the scope around it, in the order of binding.  Member
expressions are not looked into. -/
def bindings (node : Node) : List (String × NodeId) :=
  let inner := node.children.attach.flatMap fun ⟨child, _⟩ => bindings child
  match node.kind with
  | .functionDecl name .. => [(name, node.id)]
  | .parameter name .. | .variableDecl name .. => inner ++ [(name, node.id)]
  | .namespaceDecl .. | .branch .. | .loop .. | .member .. => []
  | _ => inner
termination_by sizeOf node
decreasing_by exact sizeOf_lt_of_mem_children ‹_›

theorem bindings_eq (node : Node) :
    node.bindings =
      match node.kind with
      | .functionDecl name .. => [(name, node.id)]
      | .parameter name .. | .variableDecl name .. =>
        node.children.flatMap bindings ++ [(name, node.id)]
      | .namespaceDecl .. | .branch .. | .loop .. | .member .. => []
      | _ => node.children.flatMap bindings := by
  rw [bindings]
  simp only [List.flatMap_subtype, List.unattach_attach]

/-- The node declares a value, a type or a namespace, and not only a generic parameter. -/
def declares (node : Node) : Bool :=
  match node.kind with
  | .genericParameter _ => false
  | kind => kind.declaredName?.isSome

/-- There is no declaration in the tree. -/
def Silent (node : Node) : Prop :=
  ∀ inner ∈ node.preorder, inner.declares = false

instance (node : Node) : Decidable node.Silent :=
  inferInstanceAs (Decidable (∀ inner ∈ node.preorder, inner.declares = false))

/-- The node is a member expression. -/
def isMember (node : Node) : Bool :=
  node.kind matches .member ..

/-- The node declares a variable. -/
def isVariable (node : Node) : Bool :=
  node.kind matches .variableDecl ..

/-- The node is a variable without declarations inside. -/
def IsField (node : Node) : Prop :=
  node.isVariable = true ∧ ∀ operand ∈ node.children, operand.Silent

instance (node : Node) : Decidable node.IsField :=
  inferInstanceAs (Decidable (node.isVariable = true ∧ ∀ operand ∈ node.children, operand.Silent))

/-- If the node is a record, then it contains nothing but variables. -/
def HoldsFields (node : Node) : Prop :=
  match node.kind with
  | .recordDecl _ generics declarations =>
    (∀ generic ∈ generics, generic.Silent) ∧ ∀ declaration ∈ declarations, declaration.IsField
  | _ => True

instance (node : Node) : Decidable node.HoldsFields := by
  unfold HoldsFields
  split <;> infer_instance

end Node

/-- A scope around a reference: what has been bound in it so far, and what it knows from the
namespace. -/
structure LexicalScope where
  made : List (String × NodeId)
  table : String → Option NodeId

/-- What a name stands for in the scope. -/
def LexicalScope.candidate (scope : LexicalScope) (name : String) : Option NodeId :=
  (scope.made.reverse.lookup name).or (scope.table name)

/-- What the elder siblings have bound.  The fields of a record are not bound yet. -/
def Level.made (level : Level) : List (String × NodeId) :=
  match level.parent.kind with
  | .recordDecl .. => []
  | _ => level.elders.flatMap Node.bindings

/-- The scopes around a place, from the inside out; `later` is what has been bound in the innermost
of them since the tree was entered at this place. -/
def scopesAround (names : Namespace) : List Level → List (String × NodeId) → List LexicalScope
  | [], later => [{ made := later, table := fun name => names.values[name]? }]
  | level :: outer, later =>
    match level.parent.kind with
    | .functionDecl name .. =>
      { made := level.made ++ later, table := fun _ => none } ::
        scopesAround names outer [(name, level.parent.id)]
    | .branch .. | .loop .. =>
      { made := level.made ++ later, table := fun _ => none } :: scopesAround names outer []
    | .namespaceDecl .. =>
      { made := level.made ++ later
        table := fun name =>
          names.values[Path.join (pathOf (level :: outer)) ++ "." ++ name]? } ::
        scopesAround names outer []
    | _ => scopesAround names outer (level.made ++ later)

/-- What a name stands for at a place: the candidate of the first scope that has the name. -/
def declarationOf? (names : Namespace) (levels : List Level) (name : String) : Option NodeId :=
  (scopesAround names levels []).findSome? fun scope => scope.candidate name

/-- What elder siblings have bound is bound in the innermost scope. -/
theorem scopesAround_elders (names : Namespace) (parent : Node) (elders : List Node)
    (levels : List Level) (later : List (String × NodeId)) :
    scopesAround names (⟨parent, elders⟩ :: levels) later =
      scopesAround names (⟨parent, []⟩ :: levels) (Level.made ⟨parent, elders⟩ ++ later) := by
  have first : Level.made ⟨parent, []⟩ = [] := by
    unfold Level.made
    split <;> rfl
  have path : pathOf (⟨parent, elders⟩ :: levels) = pathOf (⟨parent, []⟩ :: levels) := by
    rw [pathOf_cons, pathOf_cons]
  unfold scopesAround
  dsimp only
  rw [first, path]
  rfl

/-- What is bound later is bound in the innermost scope. -/
theorem scopesAround_later (names : Namespace) (levels : List Level)
    (later : List (String × NodeId)) :
    ∃ scope outer, scopesAround names levels [] = scope :: outer ∧
      scopesAround names levels later = { scope with made := scope.made ++ later } :: outer := by
  induction levels generalizing later with
  | nil => exact ⟨_, _, rfl, rfl⟩
  | cons level levels ih =>
    unfold scopesAround
    split
    · exact ⟨_, _, rfl, by simp⟩
    · exact ⟨_, _, rfl, by simp⟩
    · exact ⟨_, _, rfl, by simp⟩
    · exact ⟨_, _, rfl, by simp⟩
    · obtain ⟨scope, outer, before, _⟩ := ih []
      obtain ⟨first, rest, start, made⟩ := ih (level.made ++ [])
      obtain ⟨other, others, startOther, madeOther⟩ := ih (level.made ++ later)
      rw [start] at startOther
      cases startOther
      exact ⟨_, _, made, by simp [madeOther]⟩

end DeclLang
