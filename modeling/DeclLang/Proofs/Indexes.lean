import DeclLang.Proofs.Places
import DeclLang.Proofs.Repetitions

/-!
# What an index knows

**Input.**  A tree.

**Algorithm.**  The nodes are added in preorder, each with its parent, until one comes under an
identity that is there already.

**Results.**
* `NodeIndex.parents_of_foldlM_insert`: the parents that were added are found, and no others are.
* `NodeIndex.parent?_eq_some_iff_mem`: the parent of a node has it among its children.
* `NodeIndex.climb_of_at`: the way up from a place goes through the parents that an index knows.
* `NodeIndex.build_exact`: a tree has an index exactly if its identities are distinct, and the index
  then knows exactly the nodes and parents of the tree.
-/

namespace DeclLang

namespace Node

variable {root node : Node} {parent? : Option NodeId}

theorem withParents_eq (parent? : Option NodeId) (node : Node) :
    node.withParents parent? =
      (parent?, node) :: node.children.flatMap (withParents (some node.id)) := by
  rw [withParents]
  simp [List.flatMap_subtype]

/-- The nodes of the tree below its root come with their parents. -/
theorem mem_withParents_iff {entry : Option NodeId × Node} :
    entry ∈ root.withParents parent? ↔ entry = (parent?, root) ∨
      ∃ parent ∈ root.preorder, entry.1 = some parent.id ∧ entry.2 ∈ parent.children := by
  induction root using children_induction generalizing parent? with
  | step root ih =>
    rw [withParents_eq, List.mem_cons, List.mem_flatMap]
    refine or_congr_right ⟨?_, ?_⟩
    · rintro ⟨child, mem, below⟩
      rcases (ih child mem).1 below with rfl | ⟨parent, inside, above, among⟩
      · exact ⟨root, root.self_mem_preorder, rfl, mem⟩
      · exact ⟨parent, mem_preorder_of_mem_children mem inside, above, among⟩
    · rintro ⟨parent, inside, above, among⟩
      rcases mem_preorder_iff.1 inside with rfl | ⟨child, mem, deeper⟩
      · exact ⟨entry.2, among, (ih entry.2 among).2 (.inl (Prod.ext above rfl))⟩
      · exact ⟨child, mem, (ih child mem).2 (.inr ⟨parent, deeper, above, among⟩)⟩

/-- The tree has more nodes than a tree below it. -/
theorem length_preorder_lt {child : Node} (mem : child ∈ node.children) :
    child.preorder.length < node.preorder.length := by
  obtain ⟨elders, younger, children⟩ := List.append_of_mem mem
  rw [preorder_eq node, descendants, children, List.flatMap_append, List.flatMap_cons,
    List.length_cons, List.length_append, List.length_append]
  omega

/-- A way up is shorter than the tree has nodes. -/
theorem At.length_add_le {levels : List Level} (place : root.At levels node) :
    levels.length + node.preorder.length ≤ root.preorder.length := by
  induction place with
  | here => exact Nat.le_of_eq (Nat.zero_add _)
  | @deeper levels parent child elders younger outer children ih =>
    have among : child ∈ parent.children := by simp [children]
    have smaller := length_preorder_lt among
    rw [List.length_cons]
    omega

end Node

namespace NodeIndex

theorem parents_insert {index added : NodeIndex} {entry : Option NodeId × Node}
    (h : index.insert entry = .ok added) (id : NodeId) :
    added.parents[id]? =
      if id = entry.2.id then entry.1.or index.parents[id]? else index.parents[id]? := by
  obtain ⟨parent?, node⟩ := entry
  simp only [insert] at h
  split at h
  · cases h
  · cases h
    cases parent? with
    | none => simp
    | some parent =>
      simp only [Std.TreeMap.getElem?_insert, Nat.compare_eq_eq, Option.some_or]
      by_cases same : id = node.id
      · rw [if_pos same.symm, if_pos same]
      · rw [if_neg (Ne.symm same), if_neg same]

/-- The parents that were added are found, and no others are. -/
theorem parents_of_foldlM_insert {entries : List (Option NodeId × Node)} {index full : NodeIndex}
    (h : entries.foldlM insert index = .ok full) :
    (∀ entry ∈ entries, full.parents[entry.2.id]? =
      entry.1.or index.parents[entry.2.id]?) ∧
      ∀ id, (∀ entry ∈ entries, entry.2.id ≠ id) → full.parents[id]? = index.parents[id]? := by
  induction entries generalizing index with
  | nil =>
    cases h
    exact ⟨fun _ mem => absurd mem List.not_mem_nil, fun _ _ => rfl⟩
  | cons entry entries ih =>
    have distinct := (nodup_of_foldlM_insert h).1
    rw [List.map_cons, List.nodup_cons] at distinct
    rw [List.foldlM_cons] at h
    cases ok : index.insert entry with
    | error error =>
      rw [ok] at h
      cases h
    | ok added =>
      rw [ok] at h
      obtain ⟨later, kept⟩ := ih h
      refine ⟨fun other mem => ?_, fun id absent => ?_⟩
      · rcases List.mem_cons.1 mem with rfl | mem
        · rw [kept, parents_insert ok, if_pos rfl]
          exact fun other among same => distinct.1 (List.mem_map.2 ⟨other, among, same⟩)
        · rw [later other mem, parents_insert ok, if_neg]
          exact fun same => distinct.1 (List.mem_map.2 ⟨other, mem, same⟩)
      · rw [kept id fun other among => absent other (List.mem_cons_of_mem _ among),
          parents_insert ok, if_neg]
        exact (absent entry List.mem_cons_self).symm

/-- Every entry that is added counts. -/
theorem size_of_foldlM_insert {entries : List (Option NodeId × Node)} {index full : NodeIndex}
    (h : entries.foldlM insert index = .ok full) : full.size = index.size + entries.length := by
  induction entries generalizing index with
  | nil =>
    cases h
    rfl
  | cons entry entries ih =>
    rw [List.foldlM_cons] at h
    cases ok : index.insert entry with
    | error error =>
      rw [ok] at h
      cases h
    | ok added =>
      rw [ok] at h
      have one : added.size = index.size + 1 := by
        simp only [insert] at ok
        split at ok
        · cases ok
        · rename_i fresh
          cases ok
          simp [size, Std.TreeMap.size_insert, fresh]
      rw [ih h, one, List.length_cons]
      omega

variable {root node : Node} {index : NodeIndex} (built : build root = .ok index)

include built

/-- An index finds exactly the nodes of its tree. -/
theorem get?_eq_some_iff {id : NodeId} :
    index.get? id = some node ↔ node ∈ root.preorder ∧ node.id = id :=
  ⟨mem_of_get? built, fun ⟨mem, same⟩ => same ▸ get?_of_mem built mem⟩

/-- An index knows the parent of every node below the root. -/
theorem parent?_of_mem {child : Node} (inside : node ∈ root.preorder)
    (mem : child ∈ node.children) : index.parent? child.id = some node := by
  have parent := (parents_of_foldlM_insert built).1 (some node.id, child)
    (Node.mem_withParents_iff.2 (.inr ⟨node, inside, rfl, mem⟩))
  rw [parent?, parent, Option.some_or, Option.bind_some, get?_of_mem built inside]

/-- The parents that an index knows are those of the tree. -/
theorem parent?_eq_some_iff {id : NodeId} :
    index.parent? id = some node ↔
      node ∈ root.preorder ∧ ∃ child ∈ node.children, child.id = id := by
  constructor
  · intro found
    obtain ⟨above, known, got⟩ := Option.bind_eq_some_iff.1 found
    obtain ⟨added, others⟩ := parents_of_foldlM_insert built
    have among : ∃ entry ∈ root.withParents none, entry.2.id = id := by
      by_contra absent
      rw [others id fun entry mem same => absent ⟨entry, mem, same⟩] at known
      cases known
    obtain ⟨entry, mem, rfl⟩ := among
    rw [added entry mem] at known
    rcases Node.mem_withParents_iff.1 mem with rfl | ⟨parent, inside, has, child⟩
    · cases known
    · rw [has, Option.some_or] at known
      cases known
      rw [get?_of_mem built inside] at got
      cases got
      exact ⟨inside, entry.2, child, rfl⟩
  · rintro ⟨inside, child, mem, rfl⟩
    exact parent?_of_mem built inside mem

/-- The parent of a node is the node that has it among its children. -/
theorem parent?_eq_some_iff_mem (mem : node ∈ root.preorder) {parent : Node} :
    index.parent? node.id = some parent ↔ parent ∈ root.preorder ∧ node ∈ parent.children := by
  refine ⟨fun found => ?_, fun ⟨inside, among⟩ => parent?_of_mem built inside among⟩
  obtain ⟨inside, child, among, same⟩ := (parent?_eq_some_iff built).1 found
  have below := Node.mem_preorder_of_mem_descendants (Node.mem_descendants_of_mem_children among)
  cases Node.eq_of_id_eq (distinct_of_build built) (Node.mem_preorder_trans inside below) mem same
  exact ⟨inside, among⟩

/-- Only the root has no parent. -/
theorem parent?_eq_none_iff (mem : node ∈ root.preorder) :
    index.parent? node.id = none ↔ node = root := by
  constructor
  · intro none
    by_contra different
    rcases Node.mem_preorder_iff.1 mem with same | below
    · exact different same
    · obtain ⟨parent, inside, among⟩ := Node.exists_parent (Node.mem_descendants_iff.2 below)
      rw [parent?_of_mem built inside among] at none
      cases none
  · rintro rfl
    refine Option.eq_none_iff_forall_ne_some.2 fun parent found => ?_
    obtain ⟨inside, among⟩ := (parent?_eq_some_iff_mem built mem).1 found
    -- The parent of the root would be in the tree below it.
    exact Node.not_mem_preorder_of_mem_descendants (Node.mem_descendants_of_mem_children among)
      inside

omit built

/-- The node that many steps up from the node with an identity. -/
def climb (index : NodeIndex) : Nat → NodeId → Option Node
  | 0, id => index.get? id
  | steps + 1, id => (index.parent? id).bind fun parent => index.climb steps parent.id

include built

/-- The way up from a place leads to the root. -/
theorem climb_of_at {levels : List Level} (place : root.At levels node) :
    index.climb levels.length node.id = some root := by
  induction place with
  | here => exact get?_of_mem built root.self_mem_preorder
  | @deeper levels parent child elders younger outer children ih =>
    have among : child ∈ parent.children := by simp [children]
    rw [List.length_cons, climb, parent?_of_mem built outer.mem_preorder among]
    exact ih

/-- An index has as many entries as its tree has nodes. -/
theorem size_of_build : index.size = root.preorder.length := by
  have entries : (root.withParents none).length = root.preorder.length := by
    rw [← Node.map_snd_withParents none root, List.length_map]
  rw [size_of_foldlM_insert built, entries]
  exact Nat.zero_add _

/-- From every node the root is reached in fewer steps than there are nodes. -/
theorem exists_climb (mem : node ∈ root.preorder) :
    ∃ steps < index.size, index.climb steps node.id = some root := by
  obtain ⟨levels, place⟩ := Node.exists_at mem
  refine ⟨levels.length, ?_, climb_of_at built place⟩
  have short := place.length_add_le
  have inside : 0 < node.preorder.length := List.length_pos_of_mem node.self_mem_preorder
  rw [size_of_build built]
  omega

omit built

/-- A tree has an index exactly if its identities are pairwise distinct; otherwise the first node in
preorder is reported whose identity was there before.  The index has as many entries as the tree has
nodes, finds exactly the nodes of the tree under their identities, and knows exactly the parents:
the parent of a node has it among its children, only the root has none, and from every node the way
up ends at the root. -/
theorem build_exact (root : Node) :
    ((∃ index, build root = .ok index) ↔ (root.preorder.map Node.id).Nodup) ∧
    (∀ error, build root = .error error ↔ ∃ before node,
      FirstRepetition Node.id root.preorder before node ∧ error = .duplicateNodeId node.id) ∧
    ∀ index, build root = .ok index →
      index.size = root.preorder.length ∧
      (∀ id node, index.get? id = some node ↔ node ∈ root.preorder ∧ node.id = id) ∧
      (∀ node ∈ root.preorder, ∀ parent, index.parent? node.id = some parent ↔
        parent ∈ root.preorder ∧ node ∈ parent.children) ∧
      (∀ node ∈ root.preorder, index.parent? node.id = none ↔ node = root) ∧
      ∀ node ∈ root.preorder, ∃ steps < index.size, index.climb steps node.id = some root :=
  ⟨⟨fun ⟨_, built⟩ => distinct_of_build built, build_ok⟩, fun _ => build_error_iff,
    fun _ built => ⟨size_of_build built, fun _ _ => get?_eq_some_iff built,
      fun _ mem _ => parent?_eq_some_iff_mem built mem, fun _ mem => parent?_eq_none_iff built mem,
      fun _ mem => exists_climb built mem⟩⟩

/-- A constant in a namespace, and another declaration behind it. -/
def shelf (id : NodeId) : Node :=
  .mk 7 (.program [
    .mk 3 (.namespaceDecl "shelf" [
      .mk 5 (.variableDecl "books" none (some (.mk 1 (.literal .none))))]),
    .mk id (.importDecl "ladder")])

/-- From a literal the way up goes through variable and namespace to the program; where the
declaration behind them takes the identity of the literal, it is reported. -/
theorem build_exact_shelf :
    (∃ index, build (shelf 2) = .ok index ∧ index.size = 5 ∧
      index.get? 1 = some (.mk 1 (.literal .none)) ∧ index.parent? 7 = none ∧
      ∃ steps < 5, index.climb steps 1 = some (shelf 2)) ∧
    build (shelf 1) = .error (.duplicateNodeId 1) := by
  constructor
  · obtain ⟨index, built⟩ := (build_exact (shelf 2)).1.2 (by decide +kernel)
    obtain ⟨size, finds, -, rootless, climbs⟩ := (build_exact (shelf 2)).2.2 index built
    have five : index.size = 5 := size.trans (by decide +kernel)
    have literal : Node.mk 1 (.literal .none) ∈ (shelf 2).preorder := by
      simp [shelf, Node.preorder_eq, Node.descendants, Node.children, Kind.children]
    refine ⟨index, built, five, (finds 1 _).2 ⟨literal, rfl⟩,
      (rootless _ (shelf 2).self_mem_preorder).2 rfl, ?_⟩
    rw [← five]
    exact climbs _ literal
  · refine ((build_exact (shelf 1)).2.1 _).2
      ⟨(shelf 1).preorder.take 4, .mk 1 (.importDecl "ladder"), ⟨⟨[], ?_⟩, by decide +kernel,
        by decide +kernel⟩, rfl⟩
    simp [shelf, Node.preorder_eq, Node.descendants, Node.children, Kind.children]

end NodeIndex

end DeclLang
