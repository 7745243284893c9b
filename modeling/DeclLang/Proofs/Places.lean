import DeclLang.Proofs.Trees
import DeclLang.Syntax.Path

/-!
# Places in a tree

**Input.**  A tree, and one of its nodes.

**Results.**
* `Node.At`: a place is the way from a node up to the root.  Every step of it, a `Level`, names the
  parent and the elder siblings.
* `Node.At.encloses_iff`: in a tree with distinct identities, the parents on the way up are exactly
  the nodes that the node is properly below.
-/

namespace DeclLang

/-- One step up from a node: its parent, and the children of the parent that come before it. -/
structure Level where
  parent : Node
  elders : List Node

/-- The node is found in the tree at this place, which is given from the inside out. -/
inductive Node.At (root : Node) : List Level → Node → Prop
  | here : root.At [] root
  | deeper {levels : List Level} {parent child : Node} {elders younger : List Node}
    (outer : root.At levels parent) (children : parent.children = elders ++ child :: younger) :
    root.At (⟨parent, elders⟩ :: levels) child

/-- The name that a declaration adds to the paths of everything below it. -/
def Node.qualifier? (node : Node) : Option String :=
  match node.kind with
  | .namespaceDecl name _ | .functionDecl name .. | .recordDecl name ..
  | .enumerationDecl name .. => some name
  | _ => none

/-- The names of the declarations around a place, from the outside in. -/
def pathOf (levels : List Level) : List String :=
  levels.reverse.filterMap fun level => level.parent.qualifier?

theorem pathOf_cons (level : Level) (levels : List Level) :
    pathOf (level :: levels) = pathOf levels ++ level.parent.qualifier?.toList := by
  rw [pathOf, List.reverse_cons, List.filterMap_append]
  cases named : level.parent.qualifier? <;> simp [pathOf, named]

/-- A way up goes through the names of its last part first. -/
theorem pathOf_append (inside outer : List Level) :
    pathOf (inside ++ outer) = pathOf outer ++ pathOf inside := by
  rw [pathOf, List.reverse_append, List.filterMap_append]
  rfl

namespace Node

variable {root node : Node} {levels : List Level}

theorem mem_descendants_of_mem_children {child : Node} (h : child ∈ node.children) :
    child ∈ node.descendants :=
  mem_descendants_iff.2 ⟨child, h, child.self_mem_preorder⟩

theorem mem_preorder_of_mem_descendants {inner : Node} (h : inner ∈ node.descendants) :
    inner ∈ node.preorder := by
  rw [preorder_eq]
  exact List.mem_cons_of_mem _ h

theorem mem_descendants_trans {middle inner : Node} (h : middle ∈ node.descendants)
    (inside : inner ∈ middle.preorder) : inner ∈ node.descendants := by
  obtain ⟨child, mem, below⟩ := mem_descendants_iff.1 h
  exact mem_descendants_iff.2 ⟨child, mem, mem_preorder_trans below inside⟩

/-- What is properly below a node is smaller. -/
theorem sizeOf_lt_of_mem_descendants {inner : Node} (h : inner ∈ node.descendants) :
    sizeOf inner < sizeOf node := by
  induction node using children_induction with
  | step node ih =>
    obtain ⟨child, mem, below⟩ := mem_descendants_iff.1 h
    have smaller := sizeOf_lt_of_mem_children mem
    rcases mem_preorder_iff.1 below with rfl | deeper
    · exact smaller
    · exact Nat.lt_trans (ih child mem (mem_descendants_iff.2 deeper)) smaller

/-- Nothing is in what is properly below it. -/
theorem not_mem_preorder_of_mem_descendants {inner : Node} (h : inner ∈ node.descendants) :
    node ∉ inner.preorder := by
  intro inside
  have smaller := sizeOf_lt_of_mem_descendants h
  rcases mem_preorder_iff.1 inside with rfl | deeper
  · exact Nat.lt_irrefl _ smaller
  · exact Nat.lt_asymm smaller (sizeOf_lt_of_mem_descendants (mem_descendants_iff.2 deeper))

/-- What is properly below a node has a parent there. -/
theorem exists_parent {inner : Node} (h : inner ∈ node.descendants) :
    ∃ parent ∈ node.preorder, inner ∈ parent.children := by
  induction node using children_induction with
  | step node ih =>
    obtain ⟨child, mem, below⟩ := mem_descendants_iff.1 h
    rcases mem_preorder_iff.1 below with rfl | deeper
    · exact ⟨node, node.self_mem_preorder, mem⟩
    · obtain ⟨parent, inside, childOf⟩ := ih child mem (mem_descendants_iff.2 deeper)
      exact ⟨parent, mem_preorder_of_mem_children mem inside, childOf⟩

namespace At

theorem mem_preorder (place : root.At levels node) : node ∈ root.preorder := by
  induction place with
  | here => exact root.self_mem_preorder
  | @deeper levels parent child elders younger outer children ih =>
    have mem : child ∈ parent.children := by simp [children]
    exact mem_preorder_trans ih (mem_preorder_of_mem_descendants
      (mem_descendants_of_mem_children mem))

/-- A child is found one level further in. -/
theorem child {inner : Node} (place : root.At levels node) (mem : inner ∈ node.children) :
    ∃ elders younger, node.children = elders ++ inner :: younger ∧
      root.At (⟨node, elders⟩ :: levels) inner := by
  obtain ⟨elders, younger, children⟩ := List.append_of_mem mem
  exact ⟨elders, younger, children, .deeper place children⟩

/-- What is below a node is found further in, below that node. -/
theorem inner {below : Node} (place : root.At levels node) (mem : below ∈ node.preorder) :
    ∃ inside, root.At (inside ++ levels) below := by
  induction node using children_induction generalizing levels with
  | step node ih =>
    rcases mem_preorder_iff.1 mem with rfl | ⟨child, inChildren, deeper⟩
    · exact ⟨[], place⟩
    · obtain ⟨elders, younger, -, placed⟩ := place.child inChildren
      obtain ⟨inside, found⟩ := ih child inChildren placed deeper
      exact ⟨inside ++ [⟨node, elders⟩], by simpa using found⟩

/-- A step on the way up goes to a parent that is found there, from a child next to its elders that
the node is at or below. -/
theorem level {inside outer : List Level} {level : Level}
    (place : root.At (inside ++ level :: outer) node) :
    root.At outer level.parent ∧ ∃ child younger,
      level.parent.children = level.elders ++ child :: younger ∧ node ∈ child.preorder := by
  induction inside generalizing node with
  | nil =>
    cases place with
    | deeper outer children => exact ⟨outer, node, _, children, node.self_mem_preorder⟩
  | cons first inside ih =>
    cases place with
    | @deeper _ parent _ elders younger outer children =>
      obtain ⟨above, child, after, among, below⟩ := ih outer
      have mem : node ∈ parent.children := by simp [children]
      exact ⟨above, child, after, among, mem_preorder_trans below
        (mem_preorder_of_mem_descendants (mem_descendants_of_mem_children mem))⟩

/-- The parents on the way up have the node properly below them. -/
theorem mem_descendants {level : Level} (place : root.At levels node) (mem : level ∈ levels) :
    node ∈ level.parent.descendants := by
  induction place with
  | here => cases mem
  | @deeper levels parent child elders younger outer children ih =>
    have inside : child ∈ parent.children := by simp [children]
    rcases List.mem_cons.1 mem with rfl | further
    · exact mem_descendants_of_mem_children inside
    · exact mem_descendants_trans (ih further)
        (mem_preorder_of_mem_descendants (mem_descendants_of_mem_children inside))

end At

/-- Every node of the tree is found somewhere. -/
theorem exists_at (mem : node ∈ root.preorder) : ∃ levels, root.At levels node := by
  obtain ⟨levels, place⟩ := At.here.inner mem
  exact ⟨levels ++ [], place⟩

section Distinct

variable (distinct : root.Distinct)

include distinct

/-- Two nodes with a node below both are one below the other. -/
theorem Distinct.nested {left right inner : Node} (hl : left ∈ root.preorder)
    (hr : right ∈ root.preorder) (il : inner ∈ left.preorder) (ir : inner ∈ right.preorder) :
    left ∈ right.preorder ∨ right ∈ left.preorder := by
  induction root using children_induction with
  | step root ih =>
    rcases mem_preorder_iff.1 hl with rfl | ⟨child, inChildren, deepLeft⟩
    · exact .inr hr
    · rcases mem_preorder_iff.1 hr with rfl | ⟨other, otherIn, deepRight⟩
      · exact .inl hl
      · by_cases same : child = other
        · subst same
          exact ih child inChildren (distinct.child inChildren) deepLeft deepRight
        · exact absurd (id_mem_identities (mem_preorder_trans deepRight ir))
            (distinct.disjoint inChildren otherIn same
              (id_mem_identities (mem_preorder_trans deepLeft il)))

/-- Nothing is both in a child and in one of its elder siblings. -/
theorem Distinct.elders_disjoint {child elder inner : Node} {elders younger : List Node}
    (children : root.children = elders ++ child :: younger) (mem : elder ∈ elders)
    (inElder : inner ∈ elder.preorder) : inner ∉ child.preorder := by
  intro inChild
  have nodup := distinct
  rw [Node.Distinct, identities_eq, children, List.flatMap_append, List.nodup_cons,
    List.nodup_append'] at nodup
  exact nodup.2.2.2 (List.mem_flatMap.2 ⟨elder, mem, id_mem_identities inElder⟩)
    (List.mem_flatMap.2 ⟨child, List.mem_cons_self, id_mem_identities inChild⟩)

/-- A node has one parent. -/
theorem Distinct.parent_unique {left right child : Node} (hl : left ∈ root.preorder)
    (hr : right ∈ root.preorder) (il : child ∈ left.children) (ir : child ∈ right.children) :
    left = right := by
  have same {outer inner : Node} (distinct : outer.Distinct) (mem : inner ∈ outer.preorder)
      (fromOuter : child ∈ outer.children) (fromInner : child ∈ inner.children) :
      inner = outer := by
    rcases mem_preorder_iff.1 mem with same | ⟨other, otherIn, deeper⟩
    · exact same
    · -- Else the child would be found properly below one of its siblings.
      obtain ⟨next, nextIn, further⟩ := mem_descendants_iff.1
        (mem_descendants_of_mem_children fromInner)
      have inside : child ∈ other.descendants := by
        rcases mem_preorder_iff.1 deeper with rfl | deeper
        · exact mem_descendants_iff.2 ⟨next, nextIn, further⟩
        · exact mem_descendants_trans (mem_descendants_iff.2 deeper)
            (mem_preorder_of_mem_descendants (mem_descendants_iff.2 ⟨next, nextIn, further⟩))
      exact absurd (List.mem_cons_of_mem _ (List.mem_map_of_mem fromOuter))
        (distinct.not_mem_children otherIn inside)
  have inLeft := mem_preorder_of_mem_descendants (mem_descendants_of_mem_children il)
  have inRight := mem_preorder_of_mem_descendants (mem_descendants_of_mem_children ir)
  rcases distinct.nested hl hr inLeft inRight with mem | mem
  · exact same (distinct.inner hr) mem ir il
  · exact (same (distinct.inner hl) mem il ir).symm

/-- The parents on the way up are the nodes that the node is properly below. -/
theorem At.encloses_iff (place : root.At levels node) {outer : Node} :
    (∃ level ∈ levels, level.parent = outer) ↔
      outer ∈ root.preorder ∧ node ∈ outer.descendants := by
  induction place with
  | here =>
    exact ⟨fun ⟨_, mem, _⟩ => (List.not_mem_nil mem).elim, fun ⟨mem, below⟩ =>
      (not_mem_preorder_of_mem_descendants below mem).elim⟩
  | @deeper levels parent child elders younger above children ih =>
    have inside : child ∈ parent.children := by simp [children]
    constructor
    · rintro ⟨level, mem, rfl⟩
      rcases List.mem_cons.1 mem with rfl | further
      · exact ⟨above.mem_preorder, mem_descendants_of_mem_children inside⟩
      · obtain ⟨within, below⟩ := ih.1 ⟨level, further, rfl⟩
        exact ⟨within, mem_descendants_trans below
          (mem_preorder_of_mem_descendants (mem_descendants_of_mem_children inside))⟩
    · rintro ⟨within, below⟩
      obtain ⟨middle, inOuter, childOf⟩ := exists_parent below
      have same := distinct.parent_unique (mem_preorder_trans within inOuter)
        above.mem_preorder childOf inside
      subst same
      rcases mem_preorder_iff.1 inOuter with rfl | deeper
      · exact ⟨_, List.mem_cons_self, rfl⟩
      · obtain ⟨level, mem, same⟩ := ih.2 ⟨within, mem_descendants_iff.2 deeper⟩
        exact ⟨level, List.mem_cons_of_mem _ mem, same⟩

/-- A node has one way up. -/
theorem At.parents_unique {others : List Level} (place : root.At levels node)
    (other : root.At others node) : levels.map Level.parent = others.map Level.parent := by
  have notBelow {parent : Node} (mem : parent ∈ root.preorder) (child : root ∈ parent.children) :
      False :=
    not_mem_preorder_of_mem_descendants (mem_descendants_of_mem_children child) mem
  induction place generalizing others with
  | here =>
    cases other with
    | here => rfl
    | deeper outer children => exact (notBelow outer.mem_preorder (by simp [children])).elim
  | @deeper levels parent child elders younger outer children ih =>
    have mem : child ∈ parent.children := by simp [children]
    cases other with
    | here => exact (notBelow outer.mem_preorder mem).elim
    | @deeper others otherParent _ _ _ otherOuter otherChildren =>
      have otherMem : child ∈ otherParent.children := by simp [otherChildren]
      obtain rfl := distinct.parent_unique outer.mem_preorder otherOuter.mem_preorder mem otherMem
      rw [List.map_cons, List.map_cons, ih otherOuter]

/-- A node has one path. -/
theorem At.pathOf_unique {others : List Level} (place : root.At levels node)
    (other : root.At others node) : pathOf levels = pathOf others := by
  have path (levels : List Level) :
      pathOf levels = (levels.map Level.parent).reverse.filterMap qualifier? := by
    rw [pathOf, ← List.map_reverse, List.filterMap_map]
    rfl
  rw [path, path, place.parents_unique distinct other]

end Distinct

end Node

end DeclLang
