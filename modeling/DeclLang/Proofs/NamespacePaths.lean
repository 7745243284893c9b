import DeclLang.Names.Namespace
import DeclLang.Proofs.Places
import DeclLang.Proofs.StepInvariants

/-!
# What the paths of a namespace mean

**Input.**  A tree, and a moment of the tour that registers its declarations.

**Invariant.**  `Namespace.Listed`: the enclosing names are those of the declarations around the
place that the tour has come to, and every path to a value was put together from the place of a
declaration and its name.

**Results.**
* `Namespace.tour_lists`: the tour of a subtree keeps this.
* `Namespace.declaresAt_of_build`: a path in the namespace of a tree is the path of a declaration of
  the tree.
-/

namespace DeclLang

open Step (Keeps Ensures)

/-- The path belongs to the place of a declaration with this identity. -/
def Node.DeclaresAt (root : Node) (path : String) (id : NodeId) : Prop :=
  ∃ levels node name, root.At levels node ∧ node.id = id ∧ node.declaredName? = some name ∧
    path = Path.qualify (pathOf levels) name

/-- Elder siblings do not matter for paths. -/
theorem pathOf_elders (parent : Node) (elders : List Node) (levels : List Level) :
    pathOf (⟨parent, elders⟩ :: levels) = pathOf (⟨parent, []⟩ :: levels) := by
  rw [pathOf_cons, pathOf_cons]

namespace Namespace

/-- The tour is at a place with these names around it, and has registered declarations under the
paths of their places. -/
structure Listed (root : Node) (around : List String) (progress : Progress) : Prop where
  enclosing : progress.enclosing = around
  values : ∀ (path : String) (id : NodeId), progress.names.values[path]? = some id →
    root.DeclaresAt path id

variable {root node : Node} {levels : List Level} {before entered touring after : Progress}

/-- A successful registration adds at most one value. -/
theorem getElem?_register {names added : Namespace} {kind : NameKind} {path other : String}
    {id found : NodeId} (ok : names.register kind path id = .ok added)
    (there : added.values[other]? = some found) :
    other = path ∧ found = id ∨ names.values[other]? = some found := by
  unfold Namespace.register at ok
  split at ok
  · cases ok
  · cases ok
    dsimp only at there
    rw [Std.TreeMap.getElem?_insert] at there
    split at there
    · rename_i same
      cases there
      exact .inl ⟨(Std.LawfulEqOrd.compare_eq_iff_eq.1 same).symm, rfl⟩
    · exact .inr there
  · cases ok
    exact .inr there

/-- Registering a declaration where it stands. -/
theorem declare_lists (place : root.At levels node) {name : String}
    (named : node.declaredName? = some name) (kind : NameKind) :
    Keeps (Listed root (pathOf levels)) (declare kind name node.id) := by
  unfold declare
  refine Step.ensures_get.bind fun progress listed => ?_
  split
  · rename_i names ok
    refine Step.ensures_set ⟨listed.enclosing, fun path id there => ?_⟩
    rcases getElem?_register ok there with ⟨rfl, rfl⟩ | older
    · rw [listed.enclosing]
      exact ⟨levels, node, name, place, rfl, named, rfl⟩
    · exact listed.values path id older
  · exact Step.ensures_throw _

/-- Going into a node with a name. -/
theorem Listed.opened (listed : Listed root (pathOf levels) before) {name : String}
    (qualified : node.qualifier? = some name) :
    Listed root (pathOf (⟨node, []⟩ :: levels))
      { before with enclosing := before.enclosing ++ [name] } where
  enclosing := by
    rw [listed.enclosing, pathOf_cons, qualified]
    rfl
  values := listed.values

/-- Going into a node without a name. -/
theorem Listed.stays (listed : Listed root (pathOf levels) before)
    (plain : node.qualifier? = none) :
    Listed root (pathOf (⟨node, []⟩ :: levels)) before where
  enclosing := by
    rw [listed.enclosing, pathOf_cons, plain]
    exact (List.append_nil _).symm
  values := listed.values

/-- Coming out of a node with a name. -/
theorem Listed.closed (listed : Listed root (pathOf (⟨node, []⟩ :: levels)) before) {name : String}
    (qualified : node.qualifier? = some name) :
    Listed root (pathOf levels) { before with enclosing := before.enclosing.dropLast } where
  enclosing := by
    rw [listed.enclosing, pathOf_cons, qualified]
    exact List.dropLast_concat
  values := listed.values

/-- Coming out of a node without a name. -/
theorem Listed.left (listed : Listed root (pathOf (⟨node, []⟩ :: levels)) before)
    (plain : node.qualifier? = none) : Listed root (pathOf levels) before where
  enclosing := by
    rw [listed.enclosing, pathOf_cons, plain]
    exact List.append_nil _
  values := listed.values

theorem enter_lists (place : root.At levels node) (listed : Listed root (pathOf levels) before)
    {direction : Direction} (enters : visitor.enter node before = (.ok direction, entered)) :
    direction ≠ .stop ∧ Listed root (pathOf (⟨node, []⟩ :: levels)) entered := by
  have declared {name : String} (named : node.declaredName? = some name) {kind : NameKind}
      {middle registered : Progress} (start : Listed root (pathOf levels) middle)
      (ran : declare kind name node.id middle = (.ok (), registered)) :
      Listed root (pathOf levels) registered :=
    (declare_lists place named kind).after_ok start ran
  obtain ⟨id, kind⟩ := node
  cases kind with
  | namespaceDecl name declarations =>
    cases enters
    exact ⟨nofun, listed.opened rfl⟩
  | functionDecl name generics parameters returnType body =>
    obtain ⟨_, middle, ran, rest⟩ := Step.bind_ok_inv enters
    cases rest
    exact ⟨nofun, (declared rfl listed ran).opened rfl⟩
  | parameter name type default? =>
    obtain ⟨_, middle, ran, rest⟩ := Step.bind_ok_inv enters
    cases rest
    exact ⟨nofun, (declared rfl listed ran).stays rfl⟩
  | variableDecl name type? initializer? =>
    obtain ⟨_, middle, ran, rest⟩ := Step.bind_ok_inv enters
    cases rest
    exact ⟨nofun, (declared rfl listed ran).stays rfl⟩
  | recordDecl name generics declarations =>
    obtain ⟨_, middle, ran, rest⟩ := Step.bind_ok_inv enters
    have typed := declared rfl listed ran
    dsimp only [Node.kind_mk, Node.id_mk] at rest
    split at rest
    · obtain ⟨_, registered, ranAgain, rest⟩ := Step.bind_ok_inv rest
      cases rest
      exact ⟨nofun, (declared rfl typed ranAgain).opened rfl⟩
    · cases rest
      exact ⟨nofun, typed.opened rfl⟩
  | enumerationDecl name generics cases =>
    obtain ⟨_, middle, ran, rest⟩ := Step.bind_ok_inv enters
    cases rest
    exact ⟨nofun, (declared rfl listed ran).opened rfl⟩
  | _ =>
    cases enters
    exact ⟨nofun, listed.stays rfl⟩

theorem leave_lists (place : root.At levels node)
    (listed : Listed root (pathOf (⟨node, []⟩ :: levels)) touring)
    (leaves : visitor.leave node touring = (.ok (), after)) :
    Listed root (pathOf levels) after := by
  obtain ⟨id, kind⟩ := node
  cases kind with
  | enumerationDecl name generics cases =>
    obtain ⟨_, registered, ran, rest⟩ := Step.bind_ok_inv leaves
    cases rest
    refine (Ensures.after_ok (Step.ensures_forIn fun member mem => ?_) listed ran).closed rfl
    split
    · -- A case is registered below the name of the enumeration.
      rename_i caseName values declared
      obtain ⟨elders, younger, -, below⟩ := place.child (List.mem_append_right generics mem)
      have keeps := declare_lists below (congrArg Kind.declaredName? declared) .value
      rw [pathOf_elders] at keeps
      exact keeps.bind fun _ _ => Step.ensures_pure rfl
    · exact Step.ensures_pure rfl
  | namespaceDecl name declarations =>
    cases leaves
    exact listed.closed rfl
  | functionDecl name generics parameters returnType body =>
    cases leaves
    exact listed.closed rfl
  | recordDecl name generics declarations =>
    cases leaves
    exact listed.closed rfl
  | _ =>
    cases leaves
    exact listed.left rfl

/-- Siblings are toured one after the other. -/
theorem siblings_list {around : List String} {siblings : List Node}
    (each : ∀ sibling ∈ siblings, ∀ before after toured, Listed root around before →
      sibling.tour visitor before = (.ok toured, after) → toured = true ∧ Listed root around after)
    (listed : Listed root around before) {toured : Bool}
    (ran : siblings.allM (Node.tour visitor) before = (.ok toured, after)) :
    toured = true ∧ Listed root around after := by
  induction siblings generalizing before with
  | nil =>
    cases ran
    exact ⟨rfl, listed⟩
  | cons sibling siblings ih =>
    rw [List.allM] at ran
    obtain ⟨goesOn, middle, first, rest⟩ := Step.bind_ok_inv ran
    obtain ⟨rfl, here⟩ := each sibling List.mem_cons_self _ _ _ listed first
    exact ih (fun other mem => each other (List.mem_cons_of_mem _ mem)) here rest

/-- The tour of a subtree comes back to the place of the subtree, and registers its declarations
under the paths of their places. -/
theorem tour_lists (place : root.At levels node) (listed : Listed root (pathOf levels) before)
    {toured : Bool} (ran : node.tour visitor before = (.ok toured, after)) :
    toured = true ∧ Listed root (pathOf levels) after := by
  induction node using Node.children_induction generalizing levels before after toured with
  | step node ih =>
    rw [Node.tour_eq] at ran
    obtain ⟨direction, entered, enters, rest⟩ := Step.bind_ok_inv ran
    obtain ⟨notStop, inside⟩ := enter_lists place listed enters
    cases direction with
    | stop => exact absurd rfl notStop
    | pass =>
      obtain ⟨_, ended, leaves, ends⟩ := Step.bind_ok_inv rest
      cases ends
      exact ⟨rfl, leave_lists place inside leaves⟩
    | descend =>
      obtain ⟨goesOn, touring, children, rest⟩ := Step.bind_ok_inv rest
      obtain ⟨rfl, here⟩ := siblings_list (fun child mem before after toured start first => by
        obtain ⟨elders, younger, -, below⟩ := place.child mem
        rw [← pathOf_elders node elders] at start ⊢
        exact ih child mem below start first) inside children
      rw [if_pos rfl] at rest
      obtain ⟨_, ended, leaves, ends⟩ := Step.bind_ok_inv rest
      cases ends
      exact ⟨rfl, leave_lists place here leaves⟩

/-- A path to a value leads to a declaration of the tree that has this path. -/
theorem declaresAt_of_build {names : Namespace} (built : build root = .ok names) {path : String}
    {id : NodeId} (found : names.values[path]? = some id) : root.DeclaresAt path id := by
  unfold build at built
  split at built
  · rename_i ended
    cases built
    have start : Listed root (pathOf []) {} := ⟨rfl, fun path id none => by cases none⟩
    exact (tour_lists .here start ended).2.values path id found
  · cases built

end Namespace

end DeclLang
