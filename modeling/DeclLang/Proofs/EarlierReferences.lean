import Mathlib.Data.List.Flatten
import DeclLang.Proofs.Places
import DeclLang.Proofs.References

/-!
# References into branches and loops come later

**Input.**  A tree with distinct identities, its namespace, and perhaps a node at which the tour
that resolves references stops.

**Invariant.**  `Scope.Bound` with `Scope.CameBy`: what is bound, waits or was found has a path, or
is a node that the tour came by before.

**Results.**
* `Namespace.leadsTo_unblocked`: what has a path is not inside of a branch or a loop.
* `Scope.build_sheltered`: so nothing that stands before a branch or a loop refers to a declaration
  inside of it.
-/

namespace DeclLang

open Step (Keeps Ensures)

/-- What follows an element of a list without repetitions is behind it. -/
theorem mem_of_pair_sublist {α : Type} {first second : α} {before after : List α}
    (pair : [first, second].Sublist (before ++ first :: after))
    (distinct : (before ++ first :: after).Nodup) : second ∈ after := by
  obtain ⟨left, right, whole, inBefore, inAfter⟩ := List.sublist_append_iff.1 pair
  cases left with
  | nil =>
    cases whole
    exact List.singleton_sublist.1 (List.cons_sublist_cons.1 inAfter)
  | cons other rest =>
    obtain ⟨rfl, -⟩ := List.cons.inj whole
    exact absurd rfl ((List.nodup_append.1 distinct).2.2 _ (inBefore.subset List.mem_cons_self) _
      List.mem_cons_self)

namespace Node

/-- The node is not inside of a branch or a loop of the tree. -/
def Unblocked (root node : Node) : Prop :=
  ∀ outer ∈ root.preorder, outer.IsBlock → node ∉ outer.descendants

/-- The identity belongs to a node that is not inside of a branch or a loop of the tree. -/
def Reachable (root : Node) (id : NodeId) : Prop :=
  ∃ node ∈ root.preorder, node.id = id ∧ root.Unblocked node

/-- Nothing that stands before a branch or a loop refers to something inside of it. -/
def Sheltered (root : Node) (scope : Scope) : Prop :=
  root.preorder.Pairwise fun part later => ∀ declaration,
    scope.resolve part.id = some declaration → later.IsBlock →
      declaration ∉ later.descendants.map Node.id

variable {root node : Node}

/-- What is in a node stands together in preorder. -/
theorem preorder_sublist (mem : node ∈ root.preorder) : node.preorder.Sublist root.preorder := by
  induction root using children_induction with
  | step root ih =>
    rcases mem_preorder_iff.1 mem with rfl | ⟨child, inChildren, below⟩
    · exact List.Sublist.refl _
    · rw [preorder_eq root]
      have part := (List.singleton_sublist.2 inChildren).flatMap preorder
      rw [List.flatMap_singleton] at part
      exact ((ih child inChildren below).trans part).cons root

/-- A node comes before what is inside of it. -/
theorem pair_sublist (mem : node ∈ root.descendants) : [root, node].Sublist root.preorder := by
  rw [preorder_eq]
  exact (List.singleton_sublist.2 mem).cons_cons root

theorem unblocked_root : root.Unblocked root :=
  fun _ mem _ below => not_mem_preorder_of_mem_descendants below mem

/-- What is directly in a node that is neither a branch nor a loop is inside of no other. -/
theorem Unblocked.child (distinct : root.Distinct) (mem : node ∈ root.preorder)
    (unblocked : root.Unblocked node) (other : ¬node.IsBlock) {child : Node}
    (below : child ∈ node.children) : root.Unblocked child := by
  intro outer inside isBlock deeper
  obtain ⟨parent, inOuter, isParent⟩ := exists_parent deeper
  have same := distinct.parent_unique (mem_preorder_trans inside inOuter) mem isParent below
  subst same
  rcases mem_preorder_iff.1 inOuter with rfl | further
  · exact other isBlock
  · exact unblocked outer inside isBlock (mem_descendants_iff.2 further)

end Node

namespace Namespace

/-- The tour for the namespace passes branches and loops. -/
theorem enter_block {node : Node} (isBlock : node.IsBlock) :
    visitor.enter node = pure .pass := by
  obtain ⟨condition, block, same | same⟩ := isBlock <;> simp [visitor, same]

/-- Paths only lead to what is not inside of a branch or a loop. -/
theorem leadsTo_unblocked {root : Node} (distinct : root.Distinct) {names : Namespace}
    (built : build root = .ok names) : names.LeadsTo root.Reachable := by
  have toured : Keeps (fun progress : Progress => progress.names.LeadsTo root.Reachable)
      (root.tour visitor) := by
    refine Node.tour_ensures_reaching Node.unblocked_root (fun node mem unblocked => ?_)
      fun node mem unblocked => ?_
    · by_cases isBlock : node.IsBlock
      · rw [enter_block isBlock]
        exact Step.ensures_pure nofun
      · exact (enter_keeps fun _ => ⟨node, mem, rfl, unblocked⟩).imp fun _ _ _ _ below =>
          unblocked.child distinct mem isBlock below
    · by_cases isBlock : node.IsBlock
      · have leaves : visitor.leave node = pure () := by
          obtain ⟨condition, block, same | same⟩ := isBlock <;> simp [visitor, same]
        rw [leaves]
        exact Step.ensures_pure trivial
      · refine leave_keeps fun member below _ => ⟨member, ?_, rfl,
          unblocked.child distinct mem isBlock below⟩
        exact Node.mem_preorder_trans mem
          (Node.mem_preorder_of_mem_children below member.self_mem_preorder)
  have start : ({} : Progress).names.LeadsTo root.Reachable := fun path id found => by cases found
  have kept := (toured {} start).1
  unfold build at built
  split at built
  · rename_i ended
    cases built
    rw [ended] at kept
    exact kept
  · cases built

end Namespace

namespace Scope

/-- The identity has a path, or belongs to one of the nodes that the tour came by. -/
def CameBy (root : Node) (earlier : List Node) (id : NodeId) : Prop :=
  root.Reachable id ∨ id ∈ earlier.map Node.id

/-- What a reference may be resolved to: what has a path, and what does not come after it. -/
def LooksBack (root : Node) (reference id : NodeId) : Prop :=
  ∃ earlier part later, root.preorder = earlier ++ part :: later ∧ part.id = reference ∧
    CameBy root (earlier ++ [part]) id

section Tour

variable {root node : Node} {names : Namespace} {focus : Option NodeId}
  {earlier more later : List Node} {progress : Progress}

theorem CameBy.mono {id : NodeId} (h : CameBy root earlier id) (subset : earlier ⊆ more) :
    CameBy root more id :=
  h.imp_right fun mem => List.map_subset _ subset mem

theorem Bound.mono {refers : NodeId → NodeId → Prop}
    (h : Bound (CameBy root earlier) refers progress) (subset : earlier ⊆ more) :
    Bound (CameBy root more) refers progress where
  identifiers := h.identifiers
  members := h.members
  values frame mem name id found := (h.values frame mem name id found).mono subset
  fields field mem := (h.fields field mem).mono subset

/-- To enter a node resolves it to what the tour came by, or to the node itself. -/
theorem enter_looksBack (leads : names.LeadsTo root.Reachable)
    (split : root.preorder = earlier ++ node :: later) :
    Keeps (Bound (CameBy root (earlier ++ [node])) (LooksBack root))
      ((visitor names focus).enter node) := by
  have here : CameBy root (earlier ++ [node]) node.id :=
    .inr (List.mem_map_of_mem (List.mem_append_right _ List.mem_cons_self))
  unfold visitor
  dsimp only
  split
  · exact Step.ensures_pure trivial
  · exact enter_keeps (fun path id found => .inl (leads path id found)) (fun _ => here)
      fun declaration known => ⟨earlier, node, later, split, rfl, known⟩

/-- The tour of the nodes came by them. -/
def Passes (root : Node) (names : Namespace) (focus : Option NodeId) (node : Node) : Prop :=
  ∀ earlier later, root.preorder = earlier ++ node.preorder ++ later →
    Step.Leads (Bound (CameBy root earlier) (LooksBack root)) (node.tour (visitor names focus))
      (Bound (CameBy root (earlier ++ node.preorder)) (LooksBack root))

theorem siblings_look {siblings : List Node}
    (each : ∀ sibling ∈ siblings, Passes root names focus sibling)
    (split : root.preorder = earlier ++ siblings.flatMap Node.preorder ++ later) :
    Step.Leads (Bound (CameBy root earlier) (LooksBack root))
      (siblings.allM (Node.tour (visitor names focus)))
      (Bound (CameBy root (earlier ++ siblings.flatMap Node.preorder)) (LooksBack root)) := by
  induction siblings generalizing earlier with
  | nil => exact fun _ bound => bound.mono (List.subset_append_left _ _)
  | cons sibling siblings ih =>
    rw [List.flatMap_cons, ← List.append_assoc] at split ⊢
    have first := each sibling List.mem_cons_self earlier
      (siblings.flatMap Node.preorder ++ later) (by rw [split, List.append_assoc])
    have rest := ih (fun other mem => each other (List.mem_cons_of_mem _ mem)) split
    rw [List.allM]
    refine first.bind (fun toured => ?_) fun _ bound => bound.mono (List.subset_append_left _ _)
    cases toured with
    | true => exact rest
    | false => exact fun _ bound => bound.mono (List.subset_append_left _ _)

/-- The tour of a node comes by all that is in it. -/
theorem tour_passes (leads : names.LeadsTo root.Reachable) (node : Node) :
    Passes root names focus node := by
  induction node using Node.children_induction with
  | step node ih =>
    intro earlier later split
    rw [Node.preorder_eq node, List.append_cons] at split ⊢
    have entered : Step.Leads (Bound (CameBy root earlier) (LooksBack root))
        ((visitor names focus).enter node)
        (Bound (CameBy root (earlier ++ [node])) (LooksBack root)) := by
      have opened : root.preorder = earlier ++ node :: (node.descendants ++ later) := by
        rw [split]
        simp
      exact fun state bound =>
        (enter_looksBack leads opened).leads state (bound.mono (List.subset_append_left _ _))
    have children := siblings_look ih split
    have leaves : Keeps (Bound (CameBy root (earlier ++ [node] ++ node.descendants))
        (LooksBack root)) (do
          (visitor names focus).leave node
          return true) := by
      refine Ensures.bind (leave_keeps fun _ => .inr (List.mem_map_of_mem ?_)) fun _ _ =>
        Step.ensures_pure trivial
      exact List.mem_append_left _ (List.mem_append_right _ List.mem_cons_self)
    have onwards (state : Progress)
        (bound : Bound (CameBy root (earlier ++ [node])) (LooksBack root) state) :
        Bound (CameBy root (earlier ++ [node] ++ node.descendants)) (LooksBack root) state :=
      bound.mono (List.subset_append_left _ _)
    rw [Node.tour_eq]
    refine entered.bind (fun direction => ?_) onwards
    cases direction with
    | stop => exact onwards
    | pass => exact fun state bound => leaves.leads state (onwards state bound)
    | descend =>
      refine children.bind (fun all => ?_) fun _ bound => bound
      cases all with
      | false => exact fun _ bound => bound
      | true => exact leaves.leads

end Tour

/-- Nothing that stands before a branch or a loop refers to something inside of it. -/
theorem build_sheltered {root : Node} (distinct : root.Distinct) {names : Namespace}
    {focus : Option NodeId} {scope : Scope} {diagnostics : Diagnostics}
    (named : Namespace.build root = .ok names)
    (built : build root names focus = (.ok scope, diagnostics)) : root.Sheltered scope := by
  have leads := Namespace.leadsTo_unblocked distinct named
  have start : Bound (CameBy root []) (LooksBack root) { scope := outermost names } :=
    { identifiers := fun _ _ found => by cases found
      members := fun _ _ found => by cases found
      values := ScopeStack.Every.pushFrame nofun fun _ mem => .inl (known_of_mem_toList leads mem)
      fields := nofun }
  have kept := (tour_passes leads root : Passes root names focus root) [] [] (by simp) _ start
  have looks {reference id : NodeId} (resolved : scope.resolve reference = some id) :
      LooksBack root reference id := by
    unfold build at built
    split at built
    · rename_i ended
      cases built
      rw [ended] at kept
      exact kept.resolve resolved
    · cases built
  refine List.pairwise_iff_forall_sublist.2 fun {part later} placed declaration resolved isBlock
    below => ?_
  obtain ⟨inner, inside, rfl⟩ := List.mem_map.1 below
  have inRoot : later ∈ root.preorder := placed.subset (by simp)
  have mem := Node.mem_preorder_trans inRoot (Node.mem_preorder_of_mem_descendants inside)
  obtain ⟨earlier, other, rest, split, same, ⟨node, inTree, sameId, unblocked⟩ | before⟩ :=
    looks resolved
  · cases Node.eq_of_id_eq distinct inTree mem sameId
    exact unblocked later inRoot isBlock inside
  · -- The node would come both before and after the reference.
    have order : root.preorder.Nodup := List.Nodup.of_map Node.id distinct
    have inParts : other ∈ root.preorder := by rw [split]; simp
    obtain rfl := Node.eq_of_id_eq distinct inParts (placed.subset List.mem_cons_self) same
    rw [split] at placed order
    obtain ⟨first, second, rfl⟩ := List.append_of_mem (mem_of_pair_sublist placed order)
    have pair : [later, inner].Sublist root.preorder :=
      (Node.pair_sublist inside).trans (Node.preorder_sublist inRoot)
    rw [split, ← List.cons_append, ← List.append_assoc] at pair
    rw [← List.cons_append, ← List.append_assoc] at order
    have behind := mem_of_pair_sublist pair order
    obtain ⟨node, ahead, sameId⟩ := List.mem_map.1 before
    have inTree : node ∈ root.preorder := by
      rw [split, List.append_cons]
      exact List.mem_append_left _ ahead
    obtain rfl := Node.eq_of_id_eq distinct inTree mem sameId
    have ahead : node ∈ earlier ++ other :: first := by
      rw [List.append_cons]
      exact List.mem_append_left _ ahead
    exact (List.nodup_append.1 order).2.2 _ ahead _ (List.mem_cons_of_mem _ behind) rfl

end Scope

end DeclLang
