import DeclLang.Proofs.Paths
import DeclLang.Proofs.Registrations

/-!
# What a tree declares

The registrations of a tree follow the tour into some of the nodes.  Here they are listed without
a tour: every node of the tree is looked at together with the nodes around it.

**Input.**  A tree.

**Rule.**  `Node.declarations`: a node registers its own names if every node around it is a program,
a namespace, a function or a record.  The path of a name is made of the names of the declarations
around it.

**Results.**
* `Node.map_snd_lineages`: all nodes are looked at, in preorder.
* `Node.registrations_eq_declarations`: the list by the rule is what the tour registers.
* `Namespace.build_collects`: a tree has a namespace exactly if no kind and path are declared twice;
  the namespace then holds exactly the declarations, and otherwise the first repetition is reported.
-/

namespace DeclLang

namespace Node

/-- The nodes of the tree in preorder, each with the nodes around it, the outermost first. -/
def lineages (around : List Node) (node : Node) : List (List Node × Node) :=
  (around, node) :: node.children.attach.flatMap fun ⟨child, _⟩ =>
    child.lineages (around ++ [node])
termination_by sizeOf node
decreasing_by exact sizeOf_lt_of_mem_children ‹_›

/-- What the node itself declares, among declarations with the given names. -/
def declared (enclosing : List String) (node : Node) : List Registration :=
  match node.kind with
  | .functionDecl name .. | .parameter name .. | .variableDecl name .. =>
    [⟨.value, Path.qualify enclosing name, node.id⟩]
  | .recordDecl name .. =>
    if StaticType.builtinNames.contains name then [⟨.type, Path.qualify enclosing name, node.id⟩]
    else [⟨.type, Path.qualify enclosing name, node.id⟩,
      ⟨.value, Path.qualify enclosing name, node.id⟩]
  | .enumerationDecl name _ cases =>
    ⟨.type, Path.qualify enclosing name, node.id⟩ ::
      cases.filterMap (caseRegistration? (enclosing ++ [name]))
  | _ => []

/-- What the node declares if all nodes around it give paths to what is in them. -/
def declaredWithin (lineage : List Node × Node) : List Registration :=
  if lineage.1.all opensPaths then lineage.2.declared (lineage.1.filterMap qualifier?) else []

/-- What the tree declares, in preorder. -/
def declarations (root : Node) : List Registration :=
  (root.lineages []).flatMap declaredWithin

variable {around : List Node} {node : Node}

theorem lineages_eq (around : List Node) (node : Node) :
    node.lineages around =
      (around, node) :: node.children.flatMap (lineages (around ++ [node])) := by
  rw [lineages]
  simp [List.flatMap_subtype]

/-- Every node is looked at once, in preorder. -/
theorem map_snd_lineages (around : List Node) (node : Node) :
    (node.lineages around).map Prod.snd = node.preorder := by
  induction node using children_induction generalizing around with
  | step node ih =>
    rw [lineages_eq, preorder_eq, descendants, List.map_cons, List.map_flatMap]
    rw [List.flatMap_congr fun child mem => ih child mem (around ++ [node])]

/-- The nodes in which the tree begins are around each of its nodes. -/
theorem prefix_of_mem_lineages {lineage : List Node × Node} (mem : lineage ∈ node.lineages around) :
    around <+: lineage.1 := by
  induction node using children_induction generalizing around with
  | step node ih =>
    rw [lineages_eq, List.mem_cons, List.mem_flatMap] at mem
    rcases mem with rfl | ⟨child, inside, mem⟩
    · exact List.prefix_rfl
    · exact (List.prefix_append around [node]).trans (ih child inside mem)

/-- Nothing is declared within a node that gives no paths. -/
theorem declaredWithin_eq_nil {closed : Node} (mem : closed ∈ around)
    (closes : closed.opensPaths = false) :
    (node.lineages around).flatMap declaredWithin = [] := by
  refine List.flatMap_eq_nil_iff.2 fun lineage inside => if_neg fun opens => ?_
  have within := (prefix_of_mem_lineages inside).subset mem
  rw [List.all_eq_true.1 opens closed within] at closes
  cases closes

/-- A node declares what is registered when the tour enters and when it leaves it. -/
theorem declared_eq (enclosing : List String) (node : Node) :
    node.declared enclosing = node.entered enclosing ++ node.left enclosing := by
  obtain ⟨id, kind⟩ := node
  cases kind <;> simp [declared, entered, left]

/-- Only a node that gives no paths is registered with something when the tour leaves it. -/
theorem left_of_opensPaths (enclosing : List String) (opens : node.opensPaths = true) :
    node.left enclosing = [] := by
  obtain ⟨id, kind⟩ := node
  cases kind <;> first | rfl | cases opens

theorem declarations_within (opens : around.all opensPaths = true) :
    (node.lineages around).flatMap declaredWithin =
      node.registrations (around.filterMap qualifier?) := by
  induction node using children_induction generalizing around with
  | step node ih =>
    rw [lineages_eq, registrations_eq, List.flatMap_cons, List.flatMap_assoc, declaredWithin,
      if_pos opens, declared_eq]
    cases inner : node.opensPaths with
    | false =>
      have nothing : node.children.flatMap (fun child =>
          (child.lineages (around ++ [node])).flatMap declaredWithin) = [] :=
        List.flatMap_eq_nil_iff.2 fun child _ =>
          declaredWithin_eq_nil (List.mem_append_right _ List.mem_cons_self) inner
      rw [nothing, if_neg Bool.false_ne_true, List.append_nil, List.append_nil]
    | true =>
      have deeper : (around ++ [node]).all opensPaths = true := by
        simp only [List.all_append, opens, List.all_cons, inner, List.all_nil, Bool.and_self]
      have path : (around ++ [node]).filterMap qualifier? =
          around.filterMap qualifier? ++ node.qualifier?.toList := by
        rw [List.filterMap_append]
        cases named : node.qualifier? <;> simp [named]
      rw [List.flatMap_congr fun child mem => ih child mem deeper, path, if_pos rfl,
        left_of_opensPaths _ inner, List.append_nil, List.append_nil]

/-- The tour registers what the tree declares. -/
theorem registrations_eq_declarations (root : Node) :
    root.registrations [] = root.declarations :=
  (@declarations_within [] root rfl).symm

end Node

namespace Namespace

/-- A tree has a namespace exactly if no kind and path are declared twice, and then the namespace
holds exactly what the tree declares.  Otherwise the first declaration is reported whose kind and
path were declared before, together with the earlier one. -/
theorem build_collects (root : Node) :
    ((∃ names, build root = .ok names) ↔ (root.declarations.map Registration.key).Nodup) ∧
    (∀ names, build root = .ok names → ∀ kind path id,
      (names.table kind)[path]? = some id ↔ ⟨kind, path, id⟩ ∈ root.declarations) ∧
    (∀ collision, build root = .error collision ↔
      ∃ before first second,
        FirstRepetition Registration.key root.declarations before second ∧
        first ∈ before ∧ first.key = second.key ∧
        collision = ⟨second.kind, second.path, first.id, second.id⟩) := by
  rw [← root.registrations_eq_declarations]
  exact ⟨build_ok_iff, fun names built => getElem?_of_build built, fun collision => build_error_iff⟩

/-- A shop for toys, with more declarations behind its own. -/
def toyShop (more : List Node) : Node :=
  .mk 0 (.program (.mk 1 (.namespaceDecl "toys" [
    .mk 2 (.recordDecl "Car" [] [.mk 3 (.variableDecl "wheels" none none)]),
    .mk 4 (.enumerationDecl "Color" [] [.mk 5 (.enumerationCase "Red" [])])]) :: more))

/-- The cases of an enumeration are found under its path, and the same namespace opened once more
cannot declare the name of a record again. -/
theorem build_collects_toyShop :
    (∃ names, build (toyShop []) = .ok names ∧
      (names.table .value)["toys.Color.Red"]? = some 5) ∧
    build (toyShop [.mk 6 (.namespaceDecl "toys" [.mk 7 (.variableDecl "Car" none none)])]) =
      .error ⟨.value, "toys.Car", 2, 7⟩ := by
  constructor
  · obtain ⟨names, built⟩ := (build_collects (toyShop [])).1.2 (by decide +kernel)
    exact ⟨names, built, ((build_collects _).2.1 names built _ _ _).2 (by decide +kernel)⟩
  · refine ((build_collects _).2.2 _).2
      ⟨(toyShop []).declarations, ⟨.value, "toys.Car", 2⟩, ⟨.value, "toys.Car", 7⟩,
        ⟨⟨[], by decide +kernel⟩, by decide +kernel, by decide +kernel⟩, by decide +kernel, rfl,
        rfl⟩

end Namespace

end DeclLang
