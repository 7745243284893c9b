import Mathlib.Data.List.Nodup
import Mathlib.Data.List.Pairwise
import DeclLang.Syntax.Index
import DeclLang.Syntax.Tour

/-!
# Identities in a tree, indexes and tours that cannot fail

**Results.**
* `Node.eq_of_id_eq`: in a tree with distinct identities a node is known by its identity; children
  have disjoint subtrees, and none contains the parent.
* `NodeIndex.build_ok`: such a tree has an index, and `NodeIndex.mem_of_get?`: an index only gives
  nodes of its tree.
* `Node.collect_eq`: a tour that neither fails nor stops enters, tours the children in order unless
  they are passed, and leaves.
-/

namespace DeclLang

namespace Node

/-- The node declares a function. -/
def IsFunction (node : Node) : Prop :=
  ∃ name generics parameters returnType body,
    node.kind = .functionDecl name generics parameters returnType body

/-- The node is a parameter. -/
def IsParameter (node : Node) : Prop :=
  ∃ name ascription default?, node.kind = .parameter name ascription default?

/-- The node declares an enumeration. -/
def IsEnumeration (node : Node) : Prop :=
  ∃ name generics cases, node.kind = .enumerationDecl name generics cases

/-- The node is a branch or a loop. -/
def IsBlock (node : Node) : Prop :=
  ∃ condition block, node.kind = .branch condition block ∨ node.kind = .loop condition block

theorem self_mem_preorder (node : Node) : node ∈ node.preorder := by
  rw [preorder_eq]
  exact List.mem_cons_self

theorem mem_descendants_iff {node inner : Node} :
    inner ∈ node.descendants ↔ ∃ child ∈ node.children, inner ∈ child.preorder := by
  rw [descendants, List.mem_flatMap]

theorem mem_preorder_iff {node inner : Node} :
    inner ∈ node.preorder ↔ inner = node ∨ ∃ child ∈ node.children, inner ∈ child.preorder := by
  rw [preorder_eq, List.mem_cons, mem_descendants_iff]

theorem mem_preorder_of_mem_children {node child inner : Node} (h : child ∈ node.children)
    (inside : inner ∈ child.preorder) : inner ∈ node.preorder :=
  mem_preorder_iff.2 (.inr ⟨child, h, inside⟩)

theorem mem_preorder_trans {node middle inner : Node} (h : middle ∈ node.preorder)
    (inside : inner ∈ middle.preorder) : inner ∈ node.preorder := by
  induction node using children_induction with
  | step node ih =>
    rcases mem_preorder_iff.1 h with rfl | ⟨child, mem, below⟩
    · exact inside
    · exact mem_preorder_of_mem_children mem (ih child mem below)

/-- The identities in a tree, in preorder. -/
def identities (node : Node) : List NodeId :=
  node.preorder.map id

/-- No identity occurs twice in the tree. -/
def Distinct (node : Node) : Prop :=
  node.identities.Nodup

theorem id_mem_identities {node inner : Node} (h : inner ∈ node.preorder) :
    inner.id ∈ node.identities :=
  List.mem_map_of_mem h

theorem identities_subset {node inner : Node} (h : inner ∈ node.preorder) :
    inner.identities ⊆ node.identities := by
  intro id mem
  obtain ⟨innermost, inside, rfl⟩ := List.mem_map.1 mem
  exact id_mem_identities (mem_preorder_trans h inside)

theorem identities_eq (node : Node) :
    node.identities = node.id :: node.children.flatMap identities := by
  rw [identities, preorder_eq, List.map_cons, descendants, List.map_flatMap]
  rfl

theorem map_id_descendants (node : Node) :
    node.descendants.map id = node.children.flatMap identities := by
  rw [descendants, List.map_flatMap]
  rfl

section Distinct

variable {node : Node} (distinct : node.Distinct)

include distinct

/-- A node is known by its identity. -/
theorem eq_of_id_eq {left right : Node} (hl : left ∈ node.preorder) (hr : right ∈ node.preorder)
    (h : left.id = right.id) : left = right :=
  List.inj_on_of_nodup_map distinct hl hr h

theorem Distinct.not_mem_child {child : Node} (h : child ∈ node.children) :
    node.id ∉ child.identities := by
  rw [Distinct, identities_eq, List.nodup_cons] at distinct
  intro mem
  exact distinct.1 (List.mem_flatMap.2 ⟨child, h, mem⟩)

theorem Distinct.child {child : Node} (h : child ∈ node.children) : child.Distinct := by
  rw [Distinct, identities_eq, List.nodup_cons, List.nodup_flatMap] at distinct
  exact distinct.2.1 child h

theorem Distinct.inner {inner : Node} (h : inner ∈ node.preorder) : inner.Distinct := by
  induction node using children_induction with
  | step node ih =>
    rcases mem_preorder_iff.1 h with rfl | ⟨child, mem, below⟩
    · exact distinct
    · exact ih child mem (distinct.child mem) below

/-- Children that follow each other have no identity in common. -/
theorem Distinct.pairwise_disjoint :
    node.children.Pairwise fun left right => left.identities.Disjoint right.identities := by
  rw [Distinct, identities_eq, List.nodup_cons, List.nodup_flatMap] at distinct
  exact distinct.2.2

theorem Distinct.disjoint {left right : Node} (hl : left ∈ node.children)
    (hr : right ∈ node.children) (h : left ≠ right) :
    left.identities.Disjoint right.identities := by
  have symm : Std.Symm fun left right : Node => left.identities.Disjoint right.identities :=
    ⟨fun _ _ disjoint _ right left => disjoint left right⟩
  exact distinct.pairwise_disjoint.forall hl hr h

/-- What is properly below a child is neither the node nor one of its children. -/
theorem Distinct.not_mem_children {child inner : Node} (h : child ∈ node.children)
    (below : inner ∈ child.descendants) : inner.id ∉ node.id :: node.children.map id := by
  have inside : inner ∈ child.preorder := by
    rw [preorder_eq]
    exact List.mem_cons_of_mem _ below
  rw [List.mem_cons, List.mem_map]
  rintro (same | ⟨other, mem, same⟩)
  · exact distinct.not_mem_child h (same ▸ id_mem_identities inside)
  · by_cases own : other = child
    · subst own
      obtain ⟨next, nextMem, deeper⟩ := mem_descendants_iff.1 below
      exact (distinct.child h).not_mem_child nextMem (same ▸ id_mem_identities deeper)
    · exact distinct.disjoint mem h own (id_mem_identities other.self_mem_preorder)
        (same ▸ id_mem_identities inside)

end Distinct

/-- The nodes with their parents are the nodes. -/
theorem map_snd_withParents (parent? : Option NodeId) (node : Node) :
    (node.withParents parent?).map Prod.snd = node.preorder := by
  induction node using children_induction generalizing parent? with
  | step node ih =>
    rw [withParents, preorder_eq, descendants, List.map_cons, List.map_flatMap]
    simp only [List.flatMap_subtype, List.unattach_attach]
    rw [List.flatMap_congr fun child mem => ih child mem (some node.id)]

end Node

namespace NodeIndex

theorem get?_insert {index added : NodeIndex} {entry : Option NodeId × Node}
    (h : index.insert entry = .ok added) (id : NodeId) :
    added.get? id = if id = entry.2.id then some entry.2 else index.get? id := by
  obtain ⟨parent?, node⟩ := entry
  simp only [insert] at h
  split at h
  · cases h
  · cases h
    simp only [get?, Std.TreeMap.getElem?_insert, Nat.compare_eq_eq]
    by_cases same : id = node.id
    · rw [if_pos same.symm, if_pos same]
    · rw [if_neg (Ne.symm same), if_neg same]

theorem insert_ok {index : NodeIndex} {entry : Option NodeId × Node}
    (fresh : index.get? entry.2.id = none) : ∃ added, index.insert entry = .ok added := by
  obtain ⟨parent?, node⟩ := entry
  have absent : index.nodes.contains node.id = false := by
    rw [Std.TreeMap.contains_eq_isSome_getElem?]
    exact congrArg Option.isSome fresh
  simp only [insert, absent]
  exact ⟨_, rfl⟩

/-- Entries with distinct identities that the index does not have yet can all be added. -/
theorem foldlM_insert_ok {entries : List (Option NodeId × Node)} {index : NodeIndex}
    (distinct : (entries.map fun entry => entry.2.id).Nodup)
    (fresh : ∀ entry ∈ entries, index.get? entry.2.id = none) :
    ∃ full, entries.foldlM insert index = .ok full := by
  induction entries generalizing index with
  | nil => exact ⟨index, rfl⟩
  | cons entry entries ih =>
    rw [List.map_cons, List.nodup_cons] at distinct
    obtain ⟨added, ok⟩ := insert_ok (fresh entry List.mem_cons_self)
    rw [List.foldlM_cons, ok]
    refine ih distinct.2 fun other mem => ?_
    rw [get?_insert ok, if_neg, fresh other (List.mem_cons_of_mem _ mem)]
    intro same
    exact distinct.1 (List.mem_map.2 ⟨other, mem, same⟩)

/-- What is found was added or was there before. -/
theorem get?_foldlM_insert {entries : List (Option NodeId × Node)} {index full : NodeIndex}
    (h : entries.foldlM insert index = .ok full) {id : NodeId} {node : Node}
    (found : full.get? id = some node) :
    (node ∈ entries.map Prod.snd ∧ node.id = id) ∨ index.get? id = some node := by
  induction entries generalizing index with
  | nil =>
    cases h
    exact .inr found
  | cons entry entries ih =>
    rw [List.foldlM_cons] at h
    cases ok : index.insert entry with
    | error error =>
      rw [ok] at h
      cases h
    | ok added =>
      rw [ok] at h
      rcases ih h with ⟨mem, same⟩ | before
      · exact .inl ⟨List.mem_cons_of_mem _ mem, same⟩
      · rw [get?_insert ok] at before
        split at before
        · rename_i same
          cases before
          exact .inl ⟨List.mem_cons_self, same.symm⟩
        · exact .inr before

theorem map_id_withParents (root : Node) :
    (root.withParents none).map (fun entry => entry.2.id) = root.identities := by
  rw [Node.identities, ← Node.map_snd_withParents none root, List.map_map]
  rfl

/-- A tree with distinct identities has an index. -/
theorem build_ok {root : Node} (distinct : root.Distinct) :
    ∃ index, build root = .ok index := by
  refine foldlM_insert_ok ?_ fun entry _ => rfl
  rw [map_id_withParents]
  exact distinct

/-- Entries that can all be added have distinct identities, and the index had none of them. -/
theorem nodup_of_foldlM_insert {entries : List (Option NodeId × Node)} {index full : NodeIndex}
    (h : entries.foldlM insert index = .ok full) :
    (entries.map fun entry => entry.2.id).Nodup ∧
      ∀ entry ∈ entries, index.get? entry.2.id = none := by
  induction entries generalizing index with
  | nil => exact ⟨List.nodup_nil, nofun⟩
  | cons entry entries ih =>
    rw [List.foldlM_cons] at h
    cases ok : index.insert entry with
    | error error =>
      rw [ok] at h
      cases h
    | ok added =>
      rw [ok] at h
      obtain ⟨distinct, fresh⟩ := ih h
      have absent : index.get? entry.2.id = none := by
        obtain ⟨parent?, node⟩ := entry
        simp only [insert] at ok
        split at ok
        · cases ok
        · rename_i missing
          rw [Std.TreeMap.contains_eq_isSome_getElem?] at missing
          exact Option.not_isSome_iff_eq_none.1 missing
      have apart (other : Option NodeId × Node) (mem : other ∈ entries) :
          other.2.id ≠ entry.2.id ∧ index.get? other.2.id = none := by
        have none := fresh other mem
        rw [get?_insert ok] at none
        split at none
        · cases none
        · rename_i different
          exact ⟨different, none⟩
      rw [List.map_cons, List.nodup_cons]
      refine ⟨⟨fun mem => ?_, distinct⟩, fun other mem => ?_⟩
      · obtain ⟨other, inside, same⟩ := List.mem_map.1 mem
        exact (apart other inside).1 same
      · rcases List.mem_cons.1 mem with rfl | mem
        · exact absent
        · exact (apart other mem).2

/-- What was added is found, and what was there before is still found. -/
theorem get?_of_foldlM_insert {entries : List (Option NodeId × Node)} {index full : NodeIndex}
    (h : entries.foldlM insert index = .ok full) :
    (∀ entry ∈ entries, full.get? entry.2.id = some entry.2) ∧
      ∀ id node, index.get? id = some node → full.get? id = some node := by
  induction entries generalizing index with
  | nil =>
    cases h
    exact ⟨nofun, fun _ _ found => found⟩
  | cons entry entries ih =>
    have fresh := (nodup_of_foldlM_insert h).2 entry List.mem_cons_self
    rw [List.foldlM_cons] at h
    cases ok : index.insert entry with
    | error error =>
      rw [ok] at h
      cases h
    | ok added =>
      rw [ok] at h
      obtain ⟨later, kept⟩ := ih h
      refine ⟨fun other mem => ?_, fun id node found => kept id node ?_⟩
      · rcases List.mem_cons.1 mem with rfl | mem
        · refine kept _ _ ?_
          rw [get?_insert ok, if_pos rfl]
        · exact later other mem
      · rw [get?_insert ok, if_neg, found]
        rintro rfl
        rw [fresh] at found
        cases found

/-- An index finds every node of its tree. -/
theorem get?_of_mem {root : Node} {index : NodeIndex} (built : build root = .ok index)
    {node : Node} (mem : node ∈ root.preorder) : index.get? node.id = some node := by
  rw [← Node.map_snd_withParents none root] at mem
  obtain ⟨entry, inside, rfl⟩ := List.mem_map.1 mem
  exact (get?_of_foldlM_insert built).1 entry inside

/-- A tree with an index has distinct identities. -/
theorem distinct_of_build {root : Node} {index : NodeIndex} (built : build root = .ok index) :
    root.Distinct := by
  rw [Node.Distinct, ← map_id_withParents]
  exact (nodup_of_foldlM_insert built).1

/-- An index only gives nodes of its tree, under their own identities. -/
theorem mem_of_get? {root : Node} {index : NodeIndex} (built : build root = .ok index)
    {id : NodeId} {node : Node} (found : index.get? id = some node) :
    node ∈ root.preorder ∧ node.id = id := by
  rcases get?_foldlM_insert built found with ⟨mem, same⟩ | before
  · rw [Node.map_snd_withParents] at mem
    exact ⟨mem, same⟩
  · cases before

theorem mem_of_parent? {root : Node} {index : NodeIndex} (built : build root = .ok index)
    {id : NodeId} {parent : Node} (found : index.parent? id = some parent) :
    parent ∈ root.preorder := by
  obtain ⟨_, _, got⟩ := Option.bind_eq_some_iff.1 found
  exact (mem_of_get? built got).1

end NodeIndex

section Collect

variable {σ : Type} {enter : Node → StateM σ Direction} {leave : Node → StateM σ Unit}

/-- Children that are each toured to the end are toured to the end together. -/
theorem allM_tour {visitor : Visitor Empty σ} {children : List Node}
    (h : ∀ child ∈ children, ∀ state,
      child.tour visitor state = (.ok true, child.collect visitor state)) (state : σ) :
    children.allM (Node.tour visitor) state =
      (.ok true, children.foldl (fun state child => child.collect visitor state) state) := by
  induction children generalizing state with
  | nil => rfl
  | cons child children ih =>
    have first := h child List.mem_cons_self state
    have rest := ih (fun other mem => h other (List.mem_cons_of_mem _ mem))
      (child.collect visitor state)
    simp only [List.allM, bind, ExceptT.bind, ExceptT.mk, StateT.bind] at rest ⊢
    rw [first]
    exact rest

/-- The state in which the children of a node are left behind, in the direction taken. -/
def afterChildren (visitor : Visitor Empty σ) (node : Node) : Direction → σ → σ
  | .descend, state => node.children.foldl (fun state child => child.collect visitor state) state
  | _, state => state

theorem tour_ofTotal (descends : ∀ node state, (enter node state).1 ≠ .stop) (node : Node)
    (state : σ) :
    node.tour (.ofTotal enter leave) state =
      (.ok true, (leave node (afterChildren (.ofTotal enter leave) node
        (enter node state).1 (enter node state).2)).2) := by
  induction node using Node.children_induction generalizing state with
  | step node ih =>
    have toured (child : Node) (mem : child ∈ node.children) (state : σ) :
        child.tour (.ofTotal enter leave) state =
          (.ok true, child.collect (.ofTotal enter leave) state) := by
      rw [Node.collect, ih child mem state]
    have children := allM_tour toured
    have goesOn := descends node state
    rw [Node.tour_eq]
    simp only [bind, ExceptT.bind, ExceptT.mk, StateT.bind, Visitor.ofTotal, ExceptT.lift,
      Functor.map, StateT.map, pure, ExceptT.pure] at children ⊢
    cases entered : enter node state with
    | mk direction after =>
      rw [entered] at goesOn
      cases direction with
      | stop => exact absurd rfl goesOn
      | pass => simp only [ExceptT.bindCont, afterChildren, StateT.bind]; rfl
      | descend =>
        simp only [ExceptT.bindCont, afterChildren, StateT.bind, children]
        rfl

/-- A tour that cannot fail enters, goes where it is told, and leaves. -/
theorem Node.collect_eq (descends : ∀ node state, (enter node state).1 ≠ .stop) (node : Node)
    (state : σ) :
    node.collect (.ofTotal enter leave) state =
      (leave node (afterChildren (.ofTotal enter leave) node
        (enter node state).1 (enter node state).2)).2 := by
  rw [Node.collect, tour_ofTotal descends]

end Collect

end DeclLang
